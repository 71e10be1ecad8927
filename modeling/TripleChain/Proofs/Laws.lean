import TripleChain.Proofs.Start
/-!
# Laws on bindings

A `Law` says what each variable may be bound to. Terms move from the consequents of producers to antecedents, back again
as demand, and through handlers. Where every match carries terms the law allows to terms it allows, and the rules are
plain with rows that obey it, a plan that starts without terms obeys the law as long as its inputs do
(`Plan.Led.lawful`): nothing that it does binds a variable to anything else.

The bindings made of given variables and terms obey a law, and so do the ground ones.
-/

open Std

namespace TripleChain

/-- What each variable may be bound to. -/
abbrev Law := Variable → Term → Prop

variable {L : Law}

def Binding.Obeys (L : Law) (b : Binding) : Prop := ∀ v t, b.get? v = some t → L v t

def BindingSet.Obeys (L : Law) (s : BindingSet) : Prop := ∀ b ∈ s, b.Obeys L

theorem Binding.obeys_empty : Binding.Obeys L ∅ := fun _ _ h => nomatch h

theorem BindingSet.obeys_empty : BindingSet.Obeys L ∅ := fun b hb => absurd hb (InsertionSet.not_mem_emptyCollection b)

theorem Binding.Obeys.insert {b : Binding} {v : Variable} {t : Term} (h : b.Obeys L) (ht : L v t) :
    (b.insert v t).Obeys L := by
  intro w u hu
  by_cases hw : v = w
  · subst hw
    rw [Binding.get?, Binding.insert, SortedMap.get?_insert_self] at hu
    cases hu
    exact ht
  · rw [Binding.get?, Binding.insert, SortedMap.get?_insert_of_ne _ _ hw] at hu
    exact h w u hu

theorem BindingSet.Obeys.insert {s : BindingSet} {b : Binding} (h : s.Obeys L) (hb : b.Obeys L) :
    BindingSet.Obeys L (s.insert b) := fun c hc => (InsertionSet.mem_insert.1 hc).elim (h c) fun heq => heq ▸ hb

theorem BindingSet.Obeys.union {s t : BindingSet} (hs : s.Obeys L) (ht : t.Obeys L) : BindingSet.Obeys L (s.union t) :=
  fun b hb => (InsertionSet.mem_union.1 hb).elim (hs b) (ht b)

/-- Nothing in particular is asked for. -/
theorem BindingSet.obeys_unconstrained : BindingSet.unconstrained.Obeys L := fun b hb => by
  rw [InsertionSet.mem_singleton.1 hb]
  exact Binding.obeys_empty

theorem BindingSet.Obeys.inputOf {s : BindingSet} (h : s.Obeys L) : (Plan.inputOf s).Obeys L := by
  unfold Plan.inputOf
  split
  · exact obeys_unconstrained
  · exact h

/-! ## Matches -/

/-- What the law allows of a variable it allows of the variables that face it, and it allows the constants that
variables face. -/
structure Match.Upholds (L : Law) (m : Match) : Prop where
  rename : ∀ e ∈ m.triples.entries, ∀ i v w, e.1.term i = .var v → e.2.term i = .var w → ∀ t, L v t → L w t
  fill : ∀ e ∈ m.triples.entries, ∀ i w, (e.1.term i).isVariable = false → e.2.term i = .var w → L w (e.1.term i)

namespace SiteBinding

/-- The terms at the sites of variables are such as the law allows. -/
def Obeys (L : Law) (x : SiteBinding) : Prop := ∀ s t v, x.get? s = some t → s.toVariable? = some v → L v t

theorem Obeys.toBinding {x : SiteBinding} (h : x.Obeys L) (hc : x.Coherent) : x.toBinding.Obeys L := by
  intro v t hv
  rw [get?_toBinding] at hv
  obtain ⟨s, hs, ht⟩ := hc.held v t hv
  exact h s t v ht hs

theorem obeys_ofBinding {p : Pattern} {b : Binding} (h : b.Obeys L) : (ofBinding p b).Obeys L := by
  intro s t v hs hv
  obtain ⟨_, w, hw, ht⟩ := get?_ofBinding_iff.1 hs
  rw [hw] at hv
  cases hv
  exact h v t ht

theorem Obeys.carryThrough {m : Match} {x y : SiteBinding} (hy : y.Obeys L) (hm : m.Upholds L)
    (h : SiteBinding.carryThrough m y = some x) : x.Obeys L := by
  intro s t w hs hw
  obtain ⟨e, he, _, i, rfl, _, ht⟩ := ((carryThrough_some h).2.1 s t).1 hs
  have hw : e.2.term i = .var w := Term.toVariable?_eq_some.1 hw
  cases hv : (e.1.site i).toVariable? with
  | some v =>
    rw [termAt?_of_var hv] at ht
    exact hm.rename e he i v w (Term.toVariable?_eq_some.1 hv) hw t (hy _ t v ht hv)
  | none =>
    rw [termAt?_of_none hv] at ht
    cases ht
    exact hm.fill e he i w (Term.toVariable?_eq_none.1 hv) hw

theorem Obeys.restrict {x : SiteBinding} {ts : List Triple} (h : x.Obeys L) (hc : x.Coherent) :
    (x.restrict ts).Obeys L := fun s t v hs => h s t v ((Under.get?_restrict_iff hc).1 hs).1

theorem Obeys.merge {f : Variable → Option Term} {x y : SiteBinding} (hx : x.Obeys L) (hy : y.Obeys L)
    (hfx : x.Under f) (hfy : y.Under f) : (x.merge y).Obeys L := fun s t v hs =>
  ((hfx.get?_merge_iff hfy).1 hs).elim (hx s t v) (hy s t v)

end SiteBinding

theorem gathered_obeys {strategy : Strategy} {O : Outputs} {routes : List Route} (hr : ∀ r ∈ routes, r.link.Upholds L)
    (hO : ∀ x, ∀ b ∈ O x, b.Obeys L) : ∀ x ∈ Gathered strategy O routes, x.Coherent ∧ x.Obeys L := by
  refine gathered_induction (fun r hmem x hx => ⟨r.coherent_of_gives hx, ?_⟩) fun a b ⟨hca, ha⟩ ⟨hcb, hb⟩ hno => ?_
  · obtain ⟨b, hb, y, hy, hxy⟩ := hx
    have hobeys := (SiteBinding.obeys_ofBinding (hO r.producer b hb)).carryThrough (hr r hmem) hy
    rcases hxy with rfl | ⟨_, hx⟩
    · exact hobeys
    · obtain ⟨ts, rfl⟩ := SiteBindingSet.exists_of_mem_parts hx
      exact hobeys.restrict (SiteBinding.carryThrough_some hy).1
  · obtain ⟨f, hfa, hfb, _⟩ := SiteBinding.exists_under hca hcb hno
    exact ⟨(hfa.merge hfb).coherent, ha.merge hb hfa hfb⟩

theorem wantedThrough_obeys {strategy : Strategy} {antecedent consequent : Pattern} {demand : BindingSet}
    {found : MatchSet} (hm : ∀ m ∈ found, m.Upholds L) (hd : demand.Obeys L) :
    (wantedThrough strategy (.ofBindings antecedent demand) consequent found).Obeys L := by
  intro b hb
  obtain ⟨m, hmem, y, hy, x, hx, hbx⟩ := exists_of_mem_wantedThrough hb
  obtain ⟨d, hdm, rfl⟩ := SiteBindingSet.mem_ofBindings.1 hy
  have hobeys := (SiteBinding.obeys_ofBinding (hd d hdm)).carryThrough (hm m hmem) hx
  have hc := (SiteBinding.carryThrough_some hx).1
  rcases hbx with rfl | ⟨ts, rfl⟩
  · exact hobeys.toBinding hc
  · exact (hobeys.restrict hc).toBinding (SiteBinding.Under.restrict hc).coherent

/-! ## Rules -/

/-- The rows of a rule that looks its bindings up. -/
def Rule.rows (r : Rule) : List Binding :=
  match r.role with
  | .transform (.lookUp t) => t.rows.toList
  | _ => []

/-- The rule copies, looks up or only takes. -/
def Rule.IsPlain (r : Rule) : Prop := ∀ f, r.role ≠ .transform (.custom f)

theorem Rule.IsTransparent.isPlain {r : Rule} (h : r.IsTransparent) : r.IsPlain := by
  intro f hf
  rcases h with hpro | hsink | hcopy | ⟨t, hdata⟩
  · rw [Rule.isProactive, hf] at hpro
    cases hpro
  · rw [Rule.isSink, hf] at hsink
    cases hsink
  · cases hf.symm.trans hcopy.role
  · cases hf.symm.trans hdata.role

theorem RuleStore.Declarative.plain {s : RuleStore} (hs : s.Declarative) : ∀ r ∈ s.rules, r.IsPlain := fun r hr =>
  Rule.IsTransparent.isPlain ((hs r hr).imp_right .inr)

/-- The rule adds nothing of its own but rows that obey the law. -/
structure Rule.Upholds (L : Law) (r : Rule) : Prop where
  plain : r.IsPlain
  row : ∀ b ∈ r.rows, b.Obeys L

theorem Rule.Upholds.yields {r : Rule} {s : BindingSet} {c : Binding} (hr : r.Upholds L) (hs : s.Obeys L)
    (h : r.Yields s c) : c.Obeys L := by
  obtain ⟨out, hout, hc⟩ := h
  obtain ⟨hplain, hrows⟩ := hr
  unfold Rule.invoke at hout
  unfold Rule.rows at hrows
  unfold Rule.IsPlain at hplain
  cases hrole : r.role with
  | proactive =>
    rw [hrole] at hout
    cases hout
  | transform handler =>
    rw [hrole] at hout hrows hplain
    cases handler with
    | copy vars =>
      obtain ⟨b, hb, rfl⟩ := ((Handler.copy_eq_ok hout).2 c).1 hc
      intro v t hv
      rw [Binding.get?_restrict] at hv
      split at hv
      · exact hs b hb v t hv
      · cases hv
    | lookUp t =>
      cases hout
      exact hrows c (Table.mem_answer.1 hc).1
    -- Only a handler from outside could make something up.
    | custom f => exact absurd rfl (hplain f)
  | sink f =>
    rw [hrole] at hout
    obtain ⟨_, _, rfl⟩ := Except.map_eq_ok.1 hout
    exact absurd hc (InsertionSet.not_mem_emptyCollection c)

/-! ## Graphs -/

namespace Node

/-- The links of a node. -/
def links (n : Node) : List Links := [n.producers, n.producerLoops, n.consumers, n.consumerLoops]

/-- The matches of a node. -/
def linkMatches (n : Node) : List Match := n.links.flatMap fun l => l.entries.flatMap fun e => e.2.toList

theorem mem_linkMatches {n : Node} {l : Links} {d : NodeId} {found : MatchSet} {m : Match} (hl : l ∈ n.links)
    (h : l.get? d = some found) (hm : m ∈ found) : m ∈ n.linkMatches :=
  List.mem_flatMap.2 ⟨l, hl, List.mem_flatMap.2 ⟨(d, found), SortedMap.get?_eq_some_iff.1 h, hm⟩⟩

theorem consumerLinks_mem (n : Node) (cyclic : Bool) : n.consumerLinks cyclic ∈ n.links := by
  cases cyclic <;> simp [links, consumerLinks]

theorem producerLinks_mem (n : Node) (cyclic : Bool) : n.producerLinks cyclic ∈ n.links := by
  cases cyclic <;> simp [links, producerLinks]

end Node

namespace Graph

variable {g : Graph} {id : NodeId} {n : Node}

/-- The matches and the rules of the graph uphold the law. -/
structure Upholds (L : Law) (g : Graph) : Prop where
  link : ∀ id n, g.node? id = some n → ∀ m ∈ n.linkMatches, m.Upholds L
  rule : ∀ id n, g.node? id = some n → n.rule.Upholds L

/-- Whatever holds of the matches of the graph holds of its routes. -/
theorem routes_induction {P : Match → Prop} (h : ∀ id n, g.node? id = some n → ∀ m ∈ n.linkMatches, P m) :
    ∀ r ∈ g.routes id n, P r.link := by
  intro r hr
  obtain ⟨d, _, hr⟩ := List.mem_flatMap.1 hr
  unfold routesFrom at hr
  split at hr
  · cases hr
  · next source hs =>
    split at hr
    · cases hr
    · next found hf =>
      obtain ⟨m, hm, rfl⟩ := List.mem_map.1 hr
      obtain ⟨cyclic, hget⟩ := Node.matchesTo?_eq_some hf
      exact h d source hs m (Node.mem_linkMatches (source.consumerLinks_mem cyclic) hget hm)

/-- Whatever holds of the matches of the graph holds of those through which a node asks. -/
theorem producers_induction {P : Match → Prop} {x : NodeId} {found : MatchSet}
    (h : ∀ id n, g.node? id = some n → ∀ m ∈ n.linkMatches, P m) (hn : g.node? id = some n)
    (hfound : (x, found) ∈ n.allProducers) : ∀ m ∈ found, P m := by
  intro m hm
  obtain ⟨cyclic, hget⟩ := Node.mem_allProducers.1 hfound
  exact h id n hn m (Node.mem_linkMatches (n.producerLinks_mem cyclic) hget hm)

/-- What a node asks of its producers obeys the law if what it is asked for does. -/
theorem Upholds.requests {strategy : Strategy} {demand : BindingSet} (h : g.Upholds L) (hn : g.node? id = some n)
    (hd : demand.Obeys L) : ∀ r ∈ g.requests strategy n demand, r.2.Obeys L := by
  rintro ⟨x, s⟩ hr
  obtain ⟨_, _, found, producer, hfound, _, rfl⟩ := mem_requests.1 hr
  exact wantedThrough_obeys (producers_induction h.link hn hfound) hd

/-- Demand that has settled obeys the law if the demand at first does. -/
theorem Upholds.settleDemand {strategy : Strategy} {rounds : Nat} {d d' : Demands} (h : g.Upholds L)
    (hsettled : g.settleDemand strategy rounds d = some d') (hd : ∀ x, (d.of x).Obeys L) : ∀ x, (d'.of x).Obeys L := by
  refine settleDemand_induction (I := fun d => ∀ x, (d.of x).Obeys L) hsettled hd fun d id n hd hn r hr d₁ hd₁ x => ?_
  rw [Demands.of_add]
  split
  · exact (hd₁ r.1).union (h.requests hn (hd id) r hr)
  · exact hd₁ x

end Graph

/-! ## Plans -/

/-- All that the node is asked for, has been given and has given obeys the law. -/
structure Progress.Obeys (L : Law) (r : Progress) : Prop where
  demand : r.demand.Obeys L
  handled : r.handled.Obeys L
  output : r.output.Obeys L

namespace Progress.Obeys

variable {r : Progress} {s : BindingSet}

theorem withStage (h : r.Obeys L) (d : Direction) (stage : Stage) : (r.withStage d stage).Obeys L :=
  ⟨by simpa using h.demand, by simpa using h.handled, by simpa using h.output⟩

theorem give (h : r.Obeys L) (d : Direction) (hs : s.Obeys L) : (r.give d s).Obeys L :=
  ⟨by simpa using h.demand, by simpa using h.handled.union hs, by simpa using h.output⟩

theorem take (h : r.Obeys L) (d : Direction) (hs : s.Obeys L) : (r.take d s).Obeys L :=
  ⟨by simpa using h.demand, by simpa using h.handled, by simpa using h.output.union hs⟩

theorem conclude (h : r.Obeys L) (d : Direction) (hs : s.Obeys L) : (r.conclude d s).Obeys L :=
  ⟨by simpa using h.demand, by simpa using h.handled, by simpa using hs⟩

end Progress.Obeys

namespace Plan

variable {p q r : Plan} {id : NodeId} {n : Node}

theorem nodeInput_obeys (hg : p.graph.Upholds L) (hd : (p.progressOf id).demand.Obeys L)
    (hO : ∀ x, ∀ b ∈ p.outputs x, b.Obeys L) : (p.nodeInput id n).Obeys L := by
  intro b hb
  cases hne : n.rule.antecedent.isEmpty with
  | true =>
    rw [nodeInput_of_empty hne] at hb
    exact hd b hb
  | false =>
    obtain ⟨x, hx, _, rfl⟩ := exists_of_mem_nodeInput hne hb
    obtain ⟨hc, hobeys⟩ := gathered_obeys (Graph.routes_induction hg.link) hO x hx
    exact hobeys.toBinding hc

/-- Everything that the plan holds obeys the law, and its matches and rules uphold it. -/
structure Lawful (L : Law) (p : Plan) : Prop where
  graph : p.graph.Upholds L
  progress : ∀ x, (p.progressOf x).Obeys L
  input : (p.input.getD ∅).Obeys L
  board : ∀ t ∈ p.board, t.rule.Upholds L ∧ t.bindings.Obeys L

namespace Lawful

theorem nodeInput (h : p.Lawful L) (id : NodeId) (n : Node) : (p.nodeInput id n).Obeys L :=
  nodeInput_obeys h.graph (h.progress id).demand fun x => (h.progress x).output

theorem delta (h : p.Lawful L) (id : NodeId) (n : Node) : (p.delta id n).Obeys L :=
  fun b hb => h.nodeInput id n b (mem_delta.1 hb).1

theorem update {f : Progress → Progress} (h : p.Lawful L) (hf : (f (p.progressOf id)).Obeys L) :
    (p.update id f).Lawful L := by
  refine ⟨h.graph, fun x => ?_, h.input, h.board⟩
  rw [progressOf_update]
  split
  · exact hf
  · exact h.progress x

theorem withCalls {board : List Task} {invoked : List Invocation} (h : p.Lawful L)
    (hb : ∀ t ∈ board, t.rule.Upholds L ∧ t.bindings.Obeys L) : (p.withCalls board invoked).Lawful L :=
  ⟨h.graph, h.progress, h.input, hb⟩

theorem answer {r : Rule} {s : BindingSet} (h : p.Lawful L) (hr : r.Upholds L) (hs : s.Obeys L) :
    (p.answer id (r.invoke s)).Lawful L := by
  have hid := h.progress id
  rcases p.answer_cases id (r.invoke s) with heq | ⟨d, _, _, ⟨out, hout, heq⟩ | ⟨f, _, heq⟩⟩
  · rwa [heq]
  · rw [heq]
    exact h.update (hid.take d fun c hc => hr.yields hs ⟨out, hout, hc⟩)
  · rw [heq]
    exact h.update ⟨hid.demand, hid.handled, hid.output⟩

/-- No step breaks the law. -/
theorem step (h : p.Lawful L) (hs : Step p q) : q.Lawful L := by
  cases hs with
  | record => exact h.withCalls h.board
  | @goal n =>
    exact h.update ((h.progress start).conclude .backward fun b hb => h.nodeInput start n b (mem_due.1 hb).2)
  | premise => exact h.update ((h.progress start).conclude .forward h.input)
  | @settle id n => exact h.update ((h.progress id).withStage n.direction .available)
  | @dispatch id n d ready =>
    refine (h.update ((h.progress id).give d (h.delta id n))).withCalls fun t ht => ?_
    rcases List.mem_append.1 ht with ht | ht
    · exact h.board t ht
    · rw [List.mem_singleton.1 ht]
      exact ⟨h.graph.rule id n ready.node, h.delta id n⟩
  | @answer t rest waits =>
    obtain ⟨hr, hb⟩ := h.board t (waits.mem_iff.2 List.mem_cons_self)
    have hrest : (p.withCalls rest p.invoked).Lawful L :=
      h.withCalls fun a ha => h.board a (waits.mem_iff.2 (List.mem_cons_of_mem t ha))
    exact hrest.answer hr hb

theorem steps (h : p.Lawful L) (hs : Steps p q) : q.Lawful L :=
  Steps.induction (I := Lawful L) hs h fun _ _ hs hi => hi.step hs

/-- What an input asks for obeys the law if the input does. -/
theorem demandsFor {rounds : Nat} {bindings : BindingSet} {d : Demands} (h : p.Lawful L) (hb : bindings.Obeys L)
    (hd : p.demandsFor rounds bindings = some d) : ∀ x, (d.of x).Obeys L := by
  cases hback : p.isBackward with
  | true =>
    rw [demandsFor_backward hback] at hd
    refine h.graph.settleDemand hd fun x => ?_
    rw [Demands.of_insert]
    split
    · exact hb
    · exact BindingSet.obeys_empty
  | false =>
    intro x b hmem
    rw [eq_empty_of_forward hback hd hmem]
    exact Binding.obeys_empty

theorem withInput {rounds : Nat} {bindings : BindingSet} (h : p.Lawful L) (hb : bindings.Obeys L)
    (hq : p.withInput rounds bindings = .ok q) : q.Lawful L := by
  rcases withInput_eq_ok hq with ⟨_, rfl⟩ | ⟨d, hd, _, rfl⟩
  · exact h
  · obtain ⟨⟨progress, heq⟩, hx⟩ := p.withInputAs_spec d bindings
    refine ⟨by rw [heq]; exact h.graph, fun x => ?_, by rw [heq]; exact hb.inputOf, by rw [heq]; exact h.board⟩
    rw [hx]
    split
    · exact ⟨h.demandsFor hb.inputOf hd x, (h.progress x).handled, (h.progress x).output⟩
    · exact h.progress x

end Lawful

/-! ## All that can become of a plan -/

/-- What becomes of a plan that takes over inputs of one kind and goes on in steps, by turns and in any order. -/
inductive Led (allowed : BindingSet → Prop) (p : Plan) : Plan → Prop
  | refl : Led allowed p p
  | input {q r : Plan} {rounds : Nat} {bindings : BindingSet} (h : Led allowed p q) (hallowed : allowed bindings)
      (given : q.withInput rounds bindings = .ok r) : Led allowed p r
  | step {q r : Plan} (h : Led allowed p q) (hs : Step q r) : Led allowed p r

variable {allowed : BindingSet → Prop}

theorem Led.steps (h : Led allowed p q) (hs : Steps q r) : Led allowed p r :=
  Steps.induction (I := Led allowed p) hs h fun _ _ hs hi => .step hi hs

theorem Led.execute {rounds : Nat} {bindings : BindingSet} {waits : Bool} (h : Led allowed p q)
    (hallowed : allowed bindings) (executed : q.execute rounds bindings = .ok (r, waits)) : Led allowed p r := by
  obtain ⟨m, hm, hs⟩ := execute_eq_ok.1 executed
  exact (h.input hallowed hm).steps (settle_steps hs)

/-- The answers of a drained board may come in any order. -/
theorem Led.drain {outcomes : List Outcome} (h : Led allowed p q) (order : outcomes.Perm q.callAll.2) :
    Led allowed p (q.callAll.1.answerAll outcomes) := h.steps (drain_steps order)

theorem Led.runs {bindings : BindingSet} (h : Led allowed p q) (hallowed : allowed bindings) (ran : Runs bindings q r) :
    Led allowed p r := by
  induction ran with
  | done executed => exact h.execute hallowed executed
  | drained executed order _ ih => exact ih ((h.execute hallowed executed).drain order)

/-- A plan that obeys the law goes on doing so while its inputs do. -/
theorem Led.lawful (h : Led allowed p q) (hp : p.Lawful L) (hallowed : ∀ s, allowed s → s.Obeys L) : q.Lawful L := by
  induction h with
  | refl => exact hp
  | input _ hs given ih => exact ih.withInput (hallowed _ hs) given
  | step _ hs ih => exact ih.step hs

/-- A new plan holds no bindings at all. -/
theorem build_lawful {s : RuleStore} {ruleId : RuleId} {o : PlanOptions} (hbuild : Plan.build s ruleId o = .ok p)
    (hg : p.graph.Upholds L) : p.Lawful L := by
  obtain ⟨_, hboard, _, hinput⟩ := build_new hbuild
  refine ⟨hg, fun x => ?_, by rw [hinput]; exact BindingSet.obeys_empty, by rw [hboard]; simp⟩
  rw [build_progressOf hbuild]
  exact ⟨BindingSet.obeys_empty, BindingSet.obeys_empty, BindingSet.obeys_empty⟩

end Plan

end TripleChain
