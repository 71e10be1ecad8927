import TripleChain.Proofs.Twins
/-!
# The order of answers does not matter

Calls may be made at once or wait on the board, and a drained board may be answered in any order. For rules
that work binding by binding none of this makes a difference to what a run ends with
(`Plan.outputs_eq_of_runs`): what one run has given in the end bounds what any other gives, and the other way
round (`Plan.Final.confines`). Neither does it matter which numbers the nodes have.
-/

namespace TripleChain

theorem InsertionSet.Equiv.isEmpty_eq {α : Type} [DecidableEq α] {s t : InsertionSet α} (h : s.Equiv t) :
    s.isEmpty = t.isEmpty := by
  refine Bool.eq_iff_iff.2 ?_
  rw [InsertionSet.isEmpty_iff, InsertionSet.isEmpty_iff]
  exact forall_congr' fun a => not_congr (h a)

namespace Plan

variable {s s' : RuleStore} {id id' : RuleId} {strategy : Strategy} {bindings : BindingSet} {p q : Plan}
  {τ : NodeId → NodeId}

theorem Passes.congr {demand demand' : BindingSet} {b : Binding} (hpass : Passes demand b) (h : demand.Equiv demand') :
    Passes demand' b := by
  rcases hpass with hall | ⟨δ, hδ, hcompatible⟩
  · refine .inl ?_
    rw [Bool.or_eq_true, InsertionSet.any_iff] at hall ⊢
    exact hall.imp (h.isEmpty_eq ▸ ·) fun ⟨δ, hδ, hempty⟩ => ⟨δ, (h δ).1 hδ, hempty⟩
  · exact .inr ⟨δ, (h δ).1 hδ, hcompatible⟩

/-- Two plans for the same goal, whatever numbers their nodes have and whatever progress they have made. -/
structure Akin (τ : NodeId → NodeId) (p q : Plan) : Prop where
  twin : Graph.Twin τ p.graph q.graph
  isBackward : q.isBackward = p.isBackward
  strategy : q.options.strategy = p.options.strategy
  demand : ∀ x < p.size, (p.progressOf x).demand.Equiv (q.progressOf (τ x)).demand

theorem Akin.of_sameFrame {m : Plan} (h : Akin τ p q) (hf : SameFrame p m) : Akin τ m q :=
  ⟨hf.graph.symm ▸ h.twin, h.isBackward.trans hf.isBackward.symm, h.strategy.trans (by rw [hf.options]),
    fun x hx => hf.demand x ▸ h.demand x (by rwa [size, hf.graph] at hx)⟩

theorem Akin.trans_sameFrame {m : Plan} (h : Akin τ p q) (hf : SameFrame q m) : Akin τ p m :=
  ⟨hf.graph.symm ▸ h.twin, hf.isBackward.trans h.isBackward, (by rw [hf.options]; exact h.strategy),
    fun x hx => hf.demand (τ x) ▸ h.demand x hx⟩

/-- Demand settles in one way. -/
theorem Posed.akin (hp : Posed s id strategy bindings p) (hq : Posed s' id' strategy bindings q)
    (hg : p.graph.Whole s.rules strategy id) (hg' : q.graph.Whole s'.rules strategy id')
    (ht : Graph.Twin τ p.graph q.graph) : Akin τ p q := by
  obtain ⟨rounds, d, hd, hdemand⟩ := hp.settled
  obtain ⟨rounds', d', hd', hdemand'⟩ := hq.settled
  obtain ⟨n, hn, _⟩ := hp.graph.root
  obtain ⟨τ', ht', hinverse⟩ := ht.symm (Graph.lt_size hn)
  refine ⟨ht, hq.isBackward.trans hp.isBackward.symm, hq.chosen.trans hp.chosen.symm, fun x hx b => ?_⟩
  rw [hdemand x hx, hdemand' (τ x) (ht.lt_size hx)]
  constructor
  · exact ht.demand_subset hg hg' hd hd' x hx b
  · intro hb
    rw [← hinverse x hx]
    exact ht'.demand_subset hg' hg hd' hd (τ x) (ht.lt_size hx) b hb

section Akin

variable {rules rules' : List Rule} {root root' : RuleId} (ha : Akin τ p q) (hg : p.graph.Whole rules strategy root)
  (hg' : q.graph.Whole rules' strategy root')

include ha hg hg'

/-- What comes into a node comes into its twin, if whatever has been given has been given by the twins too. -/
theorem Akin.nodeInput_subset {x : NodeId} {n n' : Node} {b : Binding} (hout : ∀ x, p.outputs x ⊆ q.outputs (τ x))
    (hn : p.graph.node? x = some n) (hn' : q.graph.node? (τ x) = some n') (hb : b ∈ p.nodeInput x n) :
    b ∈ q.nodeInput (τ x) n' := by
  have hrule := ha.twin.rule_eq hn hn'
  have hdemand := ha.demand x (Graph.lt_size hn)
  have hroutes : p.gathered x n ⊆ q.gathered (τ x) n' := by
    unfold gathered
    rw [ha.strategy, ← Function.comp_id q.outputs, ← gathered_along id,
      ← gathered_perm (ha.twin.routes_perm hg hg' hn hn'), gathered_along]
    exact gathered_mono fun r _ => hout r.producer
  cases hne : n.rule.antecedent.isEmpty with
  | true =>
    rw [nodeInput_of_empty hne] at hb
    rw [nodeInput_of_empty (hrule ▸ hne)]
    exact (hdemand b).1 hb
  | false =>
    rw [mem_nodeInput hne (SortedSet.isEmpty_iff.2 (hg.backward.kind x n hn).2.1)] at hb
    rw [mem_nodeInput (hrule ▸ hne) (SortedSet.isEmpty_iff.2 (hg'.backward.kind _ n' hn').2.1), hrule]
    obtain ⟨⟨y, hy, hcovers⟩, hpass⟩ := hb
    exact ⟨⟨y, hroutes hy, hcovers⟩, hpass.congr hdemand⟩

end Akin

/-- The inputs of the nodes, apart from those with a gap: these are never evaluated. -/
def inputs (p : Plan) : Outputs := fun id =>
  {b | ∀ n, p.graph.node? id = some n → n.hasGap = false ∧ b ∈ p.nodeInput id n}

/-- What a run has ended with bounds every run of the same goal. -/
theorem Final.confines {rules rules' : List Rule} {root root' : RuleId} (h : q.Final) (hb : q.isBackward = true)
    (hp : q.Pointwise) (ha : Akin τ p q) (hg : p.graph.Whole rules strategy root)
    (hg' : q.graph.Whole rules' strategy root') :
    p.Confines (fun x => q.outputs (τ x)) fun x => q.inputs (τ x) := by
  have hinput {m : Plan} {x : NodeId} {n n' : Node} (hf : SameFrame p m) (hout : ∀ x, m.outputs x ⊆ q.outputs (τ x))
      (hn : p.graph.node? x = some n) (hn' : q.graph.node? (τ x) = some n') (hgap : n.hasGap = false) :
      ∀ b ∈ m.nodeInput x n, n'.hasGap = false ∧ b ∈ q.nodeInput (τ x) n' := by
    rw [← ha.twin.hasGap_eq hg hg' hn hn'] at hgap
    rw [← hf.graph] at hn hg
    exact fun b hbin => ⟨hgap, (ha.of_sameFrame hf).nodeInput_subset hg hg' hout hn hn' hbin⟩
  have hstart := ha.twin.start
  refine ⟨fun m hf hout x n _ hn hgap b hbin n' hn' => ?_, fun _ m hf hout n hn hgap b hbin => ?_,
    fun hpremise => ?_, fun x n bs c hx hn hbs hall hc => ?_⟩
  · exact hinput hf hout hn hn' hgap b hbin
  · obtain ⟨n', hn', _⟩ := ha.twin.node start n hn
    have hbin' := hinput hf hout hn hn' hgap b hbin
    rw [show τ start = start from hstart] at hn' hbin' ⊢
    exact (h.goal n' hn' b).2 hbin'
  · rw [← ha.isBackward, hb] at hpremise
    cases hpremise
  · obtain ⟨n', hn', hrule⟩ := ha.twin.node x n hn
    have hx' : τ x ≠ start := fun heq => hx (ha.twin.inj x start (Graph.lt_size hn)
      (Nat.lt_of_le_of_lt (Nat.zero_le x) (Graph.lt_size hn)) (heq.trans hstart.symm))
    rw [← hrule] at hc
    -- A call without bindings is only made where everything is asked for.
    cases he : bs.isEmpty with
    | true =>
      obtain ⟨hne, hdemand⟩ := hall he
      rw [InsertionSet.ext_toList (t := ∅) (List.isEmpty_iff.1 he)] at hc
      exact h.all (τ x) n' hx' hn' ⟨hrule ▸ hne, (ha.demand x (Graph.lt_size hn)).isEmpty_eq ▸ hdemand⟩ c hc
    | false =>
      have hacc : n'.rule.Accepts bs := fun b hb v hv => bound_of_mem_nodeInput (hbs b hb n' hn').2 hv
      obtain ⟨b, hb, hc⟩ := ((hp (τ x) n' hx' hn').yields_iff hacc he).1 hc
      obtain ⟨hgap, hbin⟩ := hbs b hb n' hn'
      exact h.answered (τ x) n' hx' hn' hgap b hbin c hc

/-- One run of a goal gives no more than another. -/
theorem Posed.outputs_subset {p' q' : Plan} (hp : Posed s id strategy bindings p)
    (hp' : Posed s' id' strategy bindings p')
    (hg : p.graph.Whole s.rules strategy id) (hg' : p'.graph.Whole s'.rules strategy id')
    (ht : Graph.Twin τ p.graph p'.graph) (hs : ∀ r ∈ s'.rules, r.isProactive = false → r.Pointwise) (hsteps : Steps p q)
    (hsteps' : Steps p' q') (hquiet' : q'.Quiet) (x : NodeId) : q.outputs x ⊆ q'.outputs (τ x) := by
  have hf' := hsteps'.sameFrame
  have hconf := (hp'.final hs hsteps' hquiet').confines (hf'.isBackward.trans hp'.isBackward)
    ((hp'.pointwise hs).of_sameFrame hf') ((hp.akin hp' hg hg' ht).trans_sameFrame hf') hg (hf'.graph.symm ▸ hg')
  exact (hsteps.bounded hconf hp.untouched.bounded).output x

/-- Whether calls wait or are made at once, and in which order a drained board is answered, makes no difference
to what the nodes have given at the end of a run, and none to the results. -/
theorem outputs_eq_of_runs {o o' : PlanOptions} {r : Rule} {p p' q q' : Plan}
    (hs : ∀ r ∈ s.rules, r.isProactive = false → r.Pointwise) (hr : s.get id = .ok r)
    (hgoal : r.consequent.isEmpty = true) (ho : o'.strategy = o.strategy) (hp : Plan.build s id o = .ok p)
    (hp' : Plan.build s id o' = .ok p') (hq : Runs bindings p q) (hq' : Runs bindings p' q') :
    (∀ x, (q.progressOf x).output.Equiv (q'.progressOf x).output) ∧
      ∃ answers answers', q.results = .ok answers ∧ q'.results = .ok answers' ∧ answers.Equiv answers' := by
  obtain ⟨m, hmg, hm, hsteps, hquiet⟩ := hq.posed hp hr hgoal
  obtain ⟨m', hmg', hm', hsteps', hquiet'⟩ := hq'.posed hp' hr hgoal
  rw [ho] at hm'
  have hg : m'.graph = m.graph := by
    obtain ⟨r₁, hr₁, _, _, _, _, _, _, hgraph⟩ := build_eq_ok hp
    obtain ⟨r₂, hr₂, _, _, _, _, _, _, hgraph'⟩ := build_eq_ok hp'
    rw [hr₁] at hr₂
    cases hr₂
    rw [hmg, hmg', hgraph, hgraph', ho]
  have hwhole : m.graph.Whole s.rules o.strategy id := hmg ▸ build_whole hp hr hgoal
  have hwhole' : m'.graph.Whole s.rules o.strategy id := hg ▸ hwhole
  have htwin : Graph.Twin (fun x => x) m.graph m'.graph := hg ▸ Graph.twin_refl m.graph
  have htwin' : Graph.Twin (fun x => x) m'.graph m.graph := hg ▸ Graph.twin_refl m.graph
  have hequiv (x : NodeId) : (q.progressOf x).output.Equiv (q'.progressOf x).output := fun b =>
    ⟨fun h => hm.outputs_subset hm' hwhole hwhole' htwin hs hsteps hsteps' hquiet' x h,
      fun h => hm'.outputs_subset hm hwhole' hwhole htwin' hs hsteps' hsteps hquiet x h⟩
  exact ⟨hequiv, _, _, (hm.final hs hsteps hquiet).results, (hm'.final hs hsteps' hquiet').results, hequiv start⟩

/-- Paths are joined in the same way on the board and at once. -/
theorem paths_outputs_eq : ∃ p p' q q', Plan.build .paths 2 ⟨.biggest, true, 0⟩ = .ok p ∧
    Plan.build .paths 2 ⟨.biggest, false, 0⟩ = .ok p' ∧ Runs ∅ p q ∧ Runs ∅ p' q' ∧
    (∀ x, (q.progressOf x).output.Equiv (q'.progressOf x).output) ∧
      ∃ answers answers', q.results = .ok answers ∧ q'.results = .ok answers' ∧ answers.Equiv answers' := by
  obtain ⟨p, q, _, hp, hq, _⟩ := exists_of_reaches .paths 2 ⟨.biggest, true, 0⟩ 50 (fun _ => true) (by decide +kernel)
  obtain ⟨p', q', _, hp', hq', _⟩ :=
    exists_of_reaches .paths 2 ⟨.biggest, false, 0⟩ 50 (fun _ => true) (by decide +kernel)
  exact ⟨p, p', q, q', hp, hp', hq, hq', outputs_eq_of_runs RuleStore.paths_declarative.pointwise
    rfl rfl (by rfl) hp hp' hq hq'⟩

end Plan

end TripleChain
