import TripleChain.Proofs.Demand
import TripleChain.Proofs.GraphGrowth
import TripleChain.Proofs.Ledger
/-!
# How runs begin

A plan that has been built for a goal and given its input has made no progress; its graph is the graph behind
the goal, and demand on it has settled. That is `Plan.Posed`: every run of a goal is a sequence of steps from
such a plan to a quiet one (`Plan.Runs.posed`).
-/

namespace TripleChain

/-- The rule that asks for a pattern. -/
def Rule.asking (p : Pattern) (h : p.isEmpty = false) : Rule := ⟨none, p, ∅, .proactive, by simp [Role.admits, h]⟩

namespace Plan

variable {s : RuleStore} {id : RuleId} {o : PlanOptions} {strategy : Strategy} {r : Rule} {p q : Plan}
  {bindings : BindingSet}

/-- A plan for a goal, whatever progress it has made. -/
structure Laid (s : RuleStore) (id : RuleId) (strategy : Strategy) (p : Plan) : Prop where
  isBackward : p.isBackward = true
  chosen : p.options.strategy = strategy
  graph : p.graph.Backward s.rules strategy id
  linked : ∀ i n, p.graph.node? i = some n → p.graph.Linked s.rules strategy n
  gives : ∀ i n, i ≠ start → p.graph.node? i = some n → n.rule.consequent.isEmpty = false
  ordered : p.Ordered

/-- A goal that has been given some bindings. -/
structure Asked (s : RuleStore) (id : RuleId) (strategy : Strategy) (bindings : BindingSet) (p : Plan) : Prop
    extends Laid s id strategy p where
  known : ∀ n, p.graph.node? start = some n → ∀ b ∈ inputOf bindings, ∀ v ∈ b.vars, v ∈ Pattern.vars n.rule.antecedent
  settled : ∃ rounds d, p.graph.settleDemand strategy rounds ((∅ : Demands).insert start (inputOf bindings)) = some d ∧
    ∀ x < p.size, (p.progressOf x).demand = d.of x

/-- A goal that has been given some bindings, and nothing else. -/
structure Posed (s : RuleStore) (id : RuleId) (strategy : Strategy) (bindings : BindingSet) (p : Plan) : Prop
    extends Asked s id strategy bindings p where
  untouched : p.Untouched

theorem build_eq_ok (h : Plan.build s id o = .ok p) :
    ∃ r, s.get id = .ok r ∧ p.isBackward = r.consequent.isEmpty ∧ p.options = o ∧ p.order = p.graph.order ∧
      p.progress = ∅ ∧ p.board = [] ∧ p.input = none ∧
      p.graph = (if r.consequent.isEmpty then Graph.ofGoal else Graph.ofPremise)
        (fun side x => (s.neighbors? ⟨x, side, o.strategy⟩).getD []) (s.size + 1) id r := by
  obtain ⟨r, hr, h⟩ := Except.bind_eq_ok.1 h
  split at h
  · cases h
    exact ⟨r, hr, rfl, rfl, rfl, rfl, rfl, rfl, rfl⟩
  · cases h

/-- What a plan starts with has one side only. -/
theorem build_oneSided (h : Plan.build s id o = .ok p) (hr : s.get id = .ok r) :
    (r.consequent.isEmpty || r.antecedent.isEmpty) = true := by
  unfold build at h
  rw [hr] at h
  by_contra hno
  have herror : (if (r.consequent.isEmpty || r.antecedent.isEmpty) = true then _ else _) = Except.ok p := h
  rw [if_neg hno] at herror
  cases herror

theorem get_eq_ok : s.get id = .ok r ↔ s.rules[id]? = some r := by
  unfold RuleStore.get
  cases s.rules[id]? <;> simp

theorem exists_build (s : RuleStore) (id : RuleId) (o : PlanOptions) (hr : s.get id = .ok r)
    (hstart : (r.consequent.isEmpty || r.antecedent.isEmpty) = true) : ∃ p, Plan.build s id o = .ok p := by
  unfold build
  rw [hr]
  exact ⟨_, if_pos hstart⟩

/-- The graph of a goal. -/
theorem build_graph (h : Plan.build s id o = .ok p) (hr : s.get id = .ok r) (hgoal : r.consequent.isEmpty = true) :
    p.graph.Backward s.rules o.strategy id ∧
      ∀ i n, p.graph.node? i = some n → p.graph.Linked s.rules o.strategy n := by
  obtain ⟨r', hr', _, _, _, _, _, _, hgraph⟩ := build_eq_ok h
  rw [hr] at hr'
  cases hr'
  rw [if_pos hgoal] at hgraph
  rw [hgraph]
  refine Graph.ofGoal_backward (s.sound_near o.strategy) (fun i x hx => ?_) (get_eq_ok.1 hr)
  rw [s.neighbors?_eq, neighborsIn?, hx]
  rfl

/-- A plan has its start, and each rule takes part once. -/
theorem build_regular (h : Plan.build s id o = .ok p) : p.graph.Regular s.rules ∧ start < p.size := by
  obtain ⟨r, hr, _, _, _, _, _, _, hgraph⟩ := build_eq_ok h
  have hgrew : ∃ d, Graph.Grew s.rules (Graph.ofStart id r d) p.graph := by
    rw [hgraph]
    split
    · exact ⟨.backward, (Graph.ofGoal_regular (s.sound_near o.strategy) (get_eq_ok.1 hr)).1⟩
    · exact ⟨.forward, (Graph.ofPremise_regular (s.sound_near o.strategy) (get_eq_ok.1 hr)).1⟩
  obtain ⟨d, hgrew⟩ := hgrew
  exact ⟨hgrew.regular, hgrew.kept.size_le⟩

/-- A new plan has made no progress and no calls. -/
theorem build_new (h : Plan.build s id o = .ok p) :
    p.progress = ∅ ∧ p.board = [] ∧ p.invoked = [] ∧ p.input = none := by
  obtain ⟨r, _, h⟩ := Except.bind_eq_ok.1 h
  split at h
  · cases h
    exact ⟨rfl, rfl, rfl, rfl⟩
  · cases h

/-- All nodes of a plan are of rules of its store. -/
theorem build_rulesIn (h : Plan.build s id o = .ok p) : p.graph.RulesIn fun _ _ r => r ∈ s.rules := by
  obtain ⟨r, hr, _, _, _, _, _, _, hgraph⟩ := build_eq_ok h
  have hnear (side : Side) (x : RuleId) : ∀ y ∈ s.near o.strategy side x, NodeId → y.rule ∈ s.rules := by
    intro y hy _
    obtain ⟨_, _, hy⟩ := RuleStore.mem_neighbors.1 hy
    exact List.mem_of_getElem? (mem_neighborsAmong.1 hy).1
  have hstart (d : Direction) : (Graph.ofStart id r d).RulesIn fun _ _ r => r ∈ s.rules :=
    Graph.rulesIn_ofStart d (List.mem_of_getElem? (get_eq_ok.1 hr))
  rw [hgraph]
  split
  · exact ((Graph.rulesIn_lastsBack (hnear .antecedent)).growBackward _ _ _ _ _ (hstart _)).1
  · exact ((Graph.rulesIn_lastsOn hnear).growForward _ _ _ _ _ (hstart _)).1

/-- The rules behind a goal give something. -/
theorem build_gives (h : Plan.build s id o = .ok p) (hr : s.get id = .ok r) (hgoal : r.consequent.isEmpty = true) :
    ∀ i n, i ≠ start → p.graph.node? i = some n → n.rule.consequent.isEmpty = false := by
  obtain ⟨r', hr', _, _, _, _, _, _, hgraph⟩ := build_eq_ok h
  rw [hr] at hr'
  cases hr'
  rw [if_pos hgoal] at hgraph
  have hnear (x : RuleId) : ∀ y ∈ s.near o.strategy .antecedent x, ∀ i, i ≠ start →
      y.rule.consequent.isEmpty = false := by
    intro y hy _ _
    obtain ⟨_, _, hy⟩ := RuleStore.mem_neighbors.1 hy
    obtain ⟨_, _, hfound, hsome⟩ := mem_neighborsAmong.1 hy
    obtain ⟨m, hm⟩ := SortedSet.exists_mem hsome
    rw [hfound] at hm
    exact (isEmpty_of_mem_findMatches hm).2
  have hrules : p.graph.RulesIn fun i _ r => i ≠ start → r.consequent.isEmpty = false := by
    rw [hgraph]
    exact ((Graph.rulesIn_lastsBack hnear).growBackward _ _ _ _ _ (Graph.rulesIn_ofStart _ fun h => absurd rfl h)).1
  exact fun i n hi hn => hrules i n hn hi

theorem forM_eq_ok {α ε : Type} {f : α → Except ε Unit} {l : List α} (h : l.forM f = .ok ()) :
    ∀ a ∈ l, f a = .ok () := by
  induction l with
  | nil => simp
  | cons a l ih =>
    obtain ⟨u, hu, hl⟩ := Except.bind_eq_ok.1 h
    exact List.forall_mem_cons.2 ⟨hu, ih hl⟩

theorem forM_of_forall {α ε : Type} {f : α → Except ε Unit} {l : List α} (h : ∀ a ∈ l, f a = .ok ()) :
    l.forM f = .ok () := by
  induction l with
  | nil => rfl
  | cons a l ih =>
    obtain ⟨ha, hl⟩ := List.forall_mem_cons.1 h
    rw [List.forM_eq_forM, List.forM_cons, ha]
    exact ih hl

theorem inputPattern_eq {n : Node} (hb : p.isBackward = true) (hn : p.graph.node? start = some n) :
    p.inputPattern = n.rule.antecedent := by
  unfold inputPattern
  rw [hn, hb]
  rfl

/-- An input is refused unless it binds variables of the goal only. -/
theorem checkInput_eq_ok {n : Node} (hb : p.isBackward = true) (hn : p.graph.node? start = some n) :
    p.checkInput bindings = .ok () ↔ ∀ b ∈ bindings, ∀ v ∈ b.vars, v ∈ Pattern.vars n.rule.antecedent := by
  unfold checkInput
  rw [inputPattern_eq hb hn]
  constructor
  · intro h b hmem v hv
    have hone := forM_eq_ok h b hmem
    split at hone
    · next hnone => simpa [SortedSet.contains_iff] using List.find?_eq_none.1 hnone v hv
    · cases hone
  · intro h
    refine forM_of_forall fun b hmem => ?_
    have hnone : b.vars.find? (fun v => !(Pattern.vars n.rule.antecedent).contains v) = none :=
      List.find?_eq_none.2 fun v hv => by simpa [SortedSet.contains_iff] using h b hmem v hv
    rw [hnone]

theorem withInputAs_spec (p : Plan) (d : Demands) (bindings : BindingSet) :
    (∃ progress, p.withInputAs d bindings = { p with progress, input := some (inputOf bindings) }) ∧
      ∀ x, (p.withInputAs d bindings).progressOf x =
        if x < p.size then { p.progressOf x with demand := d.of x } else p.progressOf x := by
  obtain ⟨⟨progress, heq⟩, hx⟩ := p.withDemands_spec d
  refine ⟨⟨progress, ?_⟩, hx⟩
  unfold withInputAs
  rw [heq]

theorem build_progressOf (h : Plan.build s id o = .ok p) (x : NodeId) : p.progressOf x = .initial := by
  unfold progressOf
  rw [(build_new h).1]
  rfl

theorem build_untouched (h : Plan.build s id o = .ok p) : p.Untouched :=
  ⟨(build_new h).2.1, fun x => ⟨∅, build_progressOf h x⟩⟩

/-- To be given an input is no progress. -/
theorem Untouched.withInputAs {d : Demands} (h : p.Untouched) : (p.withInputAs d bindings).Untouched := by
  obtain ⟨⟨progress, heq⟩, hx⟩ := p.withInputAs_spec d bindings
  refine ⟨by rw [heq, h.board], fun x => ?_⟩
  obtain ⟨demand, hdemand⟩ := h.progress x
  rw [hx, hdemand]
  split <;> exact ⟨_, rfl⟩

/-- What has been given and answered is within any bounds that it was in before another input is given. -/
theorem Bounded.withInputAs {X Y : Outputs} {d : Demands} (h : p.Bounded X Y) (hboard : p.board = []) :
    (p.withInputAs d bindings).Bounded X Y := by
  obtain ⟨⟨progress, heq⟩, hx⟩ := p.withInputAs_spec d bindings
  have hsame (x : NodeId) : ∃ demand, (p.withInputAs d bindings).progressOf x = { p.progressOf x with demand } := by
    rw [hx]
    split <;> exact ⟨_, rfl⟩
  refine ⟨fun x b hb => ?_, fun x hid b hb => ?_, fun x n hid hn hfirst b hb => ?_, fun t ht => ?_⟩
  · obtain ⟨demand, hdemand⟩ := hsame x
    rw [outputs, hdemand] at hb
    exact h.output x hb
  · obtain ⟨demand, hdemand⟩ := hsame x
    rw [hdemand] at hb
    exact h.handled x hid b hb
  · obtain ⟨demand, hdemand⟩ := hsame x
    rw [show (p.withInputAs d bindings).graph = p.graph by rw [heq]] at hn
    unfold IsFirst at hfirst
    rw [hdemand] at hfirst hb
    exact h.fresh x n hid hn
      (by cases hdir : n.direction <;> rw [hdir] at hfirst <;> rw [IsFirst, hdir] <;> exact hfirst) b hb
  · rw [show (p.withInputAs d bindings).board = p.board by rw [heq], hboard] at ht
    cases ht

theorem Laid.of_sameFrame (h : Laid s id strategy p) (hf : SameFrame p q) : Laid s id strategy q where
  isBackward := hf.isBackward.trans h.isBackward
  chosen := by rw [hf.options, h.chosen]
  graph := by rw [hf.graph]; exact h.graph
  linked := by rw [hf.graph]; exact h.linked
  gives := by rw [hf.graph]; exact h.gives
  ordered x hx := by
    rw [hf.order]
    exact h.ordered x (by rwa [size, hf.graph] at hx)

theorem Asked.of_sameFrame (h : Asked s id strategy bindings p) (hf : SameFrame p q) :
    Asked s id strategy bindings q := by
  obtain ⟨rounds, d, hd, hdemand⟩ := h.settled
  refine ⟨h.toLaid.of_sameFrame hf, by rw [hf.graph]; exact h.known, rounds, d, by rw [hf.graph]; exact hd,
    fun x hx => ?_⟩
  rw [hf.demand]
  exact hdemand x (by rwa [size, hf.graph] at hx)

/-- A plan for a goal is given an input. -/
theorem Laid.asked {rounds : Nat} {d : Demands} (h : Laid s id strategy p)
    (hd : p.demandsFor rounds (inputOf bindings) = some d) (hcheck : p.checkInput (inputOf bindings) = .ok ()) :
    Asked s id strategy bindings (p.withInputAs d bindings) := by
  obtain ⟨⟨progress, heq⟩, hx⟩ := p.withInputAs_spec d bindings
  have hg : (p.withInputAs d bindings).graph = p.graph := by rw [heq]
  refine ⟨⟨by rw [heq, h.isBackward], by rw [heq, h.chosen], by rw [hg]; exact h.graph, by rw [hg]; exact h.linked,
    by rw [hg]; exact h.gives, fun x hlt => ?_⟩, ?_, rounds, d, ?_, fun x hlt => ?_⟩
  · rw [size, hg] at hlt
    rw [show (p.withInputAs d bindings).order = p.order by rw [heq]]
    exact h.ordered x hlt
  · rw [hg]
    exact fun n hn => (checkInput_eq_ok h.isBackward hn).1 hcheck
  · unfold demandsFor at hd
    rwa [h.isBackward, if_pos rfl, h.chosen, ← hg] at hd
  · have hlt : x < p.size := by rwa [size, hg] at hlt
    rw [hx, if_pos hlt]

/-- A new plan for a goal. -/
theorem build_laid (h : Plan.build s id o = .ok p) (hr : s.get id = .ok r) (hgoal : r.consequent.isEmpty = true) :
    Laid s id o.strategy p := by
  obtain ⟨r', hr', hback, hopt, horder, _⟩ := build_eq_ok h
  rw [hr] at hr'
  cases hr'
  obtain ⟨hgraph, hlinked⟩ := build_graph h hr hgoal
  refine ⟨hback.trans hgoal, by rw [hopt], hgraph, hlinked, build_gives h hr hgoal, fun x hlt => ?_⟩
  rw [horder]
  exact Graph.mem_order hlt

/-- A run of a goal is a run of the goal with its input. -/
theorem Runs.posed (h : Runs bindings p q) (hbuild : Plan.build s id o = .ok p) (hr : s.get id = .ok r)
    (hgoal : r.consequent.isEmpty = true) :
    ∃ m, m.graph = p.graph ∧ Posed s id o.strategy bindings m ∧ Steps m q ∧ q.Quiet := by
  obtain ⟨_, _, _, hinput⟩ := build_new hbuild
  have hlaid := build_laid hbuild hr hgoal
  obtain ⟨rounds, d, hd, hcheck, hruns⟩ := h.exists_demands (not_hasInput hinput)
  have hasked := hlaid.asked hd hcheck
  obtain ⟨hsteps, hquiet⟩ := hruns.steps (p.hasInput_withInputAs d bindings)
  obtain ⟨⟨progress, heq⟩, _⟩ := p.withInputAs_spec d bindings
  exact ⟨p.withInputAs d bindings, by rw [heq], ⟨hasked, (build_untouched hbuild).withInputAs⟩, hsteps,
    hquiet hasked.isBackward hasked.ordered⟩

/-- The rules that take part in a goal, apart from the goal itself, are rules of the store that can be asked and give
something. -/
theorem Laid.pointwise_of_gives (h : Laid s id strategy p)
    (hs : ∀ r ∈ s.rules, r.isProactive = false → r.consequent.isEmpty = false → r.Pointwise) :
    p.Pointwise := fun i n hi hn =>
  hs n.rule (List.mem_of_getElem? (h.graph.rule i n hn)) ((h.graph.kind i n hn).2.2 hi) (h.gives i n hi hn)

theorem Laid.pointwise (h : Laid s id strategy p)
    (hs : ∀ r ∈ s.rules, r.isProactive = false → r.Pointwise) : p.Pointwise :=
  h.pointwise_of_gives fun r hr hpro _ => hs r hr hpro

/-- What a goal ends with. -/
theorem Posed.final (h : Posed s id strategy bindings p) (hs : ∀ r ∈ s.rules, r.isProactive = false → r.Pointwise)
    (hsteps : Steps p q) (hquiet : q.Quiet) : q.Final := by
  have hq := h.toLaid.of_sameFrame hsteps.sameFrame
  have haccounted := h.untouched.accounted
  exact hquiet.final (hsteps.accounted haccounted (h.pointwise hs)).ledger
    (hsteps.answersAll haccounted h.untouched.answersAll (h.pointwise hs)) hq.graph hq.isBackward

/-- What a goal is answered with stays within every bound that is kept from the beginning. -/
theorem Posed.mem_bound {X Y : Outputs} {answers : BindingSet} {b : Binding} (h : Posed s id strategy bindings p)
    (hs : ∀ r ∈ s.rules, r.isProactive = false → r.Pointwise) (hconfines : p.Confines X Y) (hsteps : Steps p q)
    (hquiet : q.Quiet) (hanswers : q.results = .ok answers) (hb : b ∈ answers) : b ∈ X start := by
  rw [(h.final hs hsteps hquiet).results] at hanswers
  cases hanswers
  exact (hsteps.bounded hconfines h.untouched.bounded).output start hb

/-! ## A run to look at -/

/-- A plan of the store can be run to the end without input, and then passes a test. -/
def endsWith (s : RuleStore) (id : RuleId) (o : PlanOptions) (rounds : Nat) (test : Plan → Bool) : Bool :=
  match Plan.build s id o with
  | .error _ => false
  | .ok p =>
    match p.run rounds ∅ with
    | .error _ => false
    | .ok q => test q

theorem exists_of_endsWith {s : RuleStore} {id : RuleId} {o : PlanOptions} {rounds : Nat} {test : Plan → Bool}
    (h : endsWith s id o rounds test = true) :
    ∃ p q, Plan.build s id o = .ok p ∧ p.run rounds ∅ = .ok q ∧ test q = true := by
  unfold endsWith at h
  split at h
  · cases h
  · next p hp =>
    split at h
    · cases h
    · next q hq => exact ⟨p, q, hp, hq, h⟩

/-- The goal can be run to the end, with results that pass a test. -/
def reaches (s : RuleStore) (id : RuleId) (o : PlanOptions) (rounds : Nat) (test : BindingSet → Bool) : Bool :=
  match Plan.build s id o with
  | .error _ => false
  | .ok p =>
    match p.run rounds ∅ with
    | .error _ => false
    | .ok q =>
      match q.results with
      | .error _ => false
      | .ok answers => test answers

theorem exists_run_of_reaches {s : RuleStore} {id : RuleId} {o : PlanOptions} {rounds : Nat} {test : BindingSet → Bool}
    (h : reaches s id o rounds test = true) : ∃ p q answers, Plan.build s id o = .ok p ∧ p.run rounds ∅ = .ok q ∧
      q.results = .ok answers ∧ test answers = true := by
  have hends : endsWith s id o rounds (fun q => match q.results with
      | .error _ => false
      | .ok answers => test answers) = true := h
  obtain ⟨p, q, hp, hq, htest⟩ := exists_of_endsWith hends
  split at htest
  · cases htest
  · next answers hanswers => exact ⟨p, q, answers, hp, hq, hanswers, htest⟩

theorem exists_of_reaches (s : RuleStore) (id : RuleId) (o : PlanOptions) (rounds : Nat) (test : BindingSet → Bool)
    (h : reaches s id o rounds test = true) :
    ∃ p q answers, Plan.build s id o = .ok p ∧ Runs ∅ p q ∧ q.results = .ok answers ∧ test answers = true := by
  obtain ⟨p, q, answers, hp, hq, hrest⟩ := exists_run_of_reaches h
  exact ⟨p, q, answers, hp, runs_of_run hq, hrest⟩

end Plan

/-! ## A rule that feeds itself -/

/-- A path from one place to another. -/
def Triple.path (x y : Term) : Triple := ⟨x, .iri "path", y⟩

/-- Paths can be joined. -/
def Rule.joinPaths : Rule :=
  ⟨none, .ofList [.path (.var ⟨"x"⟩) (.var ⟨"y"⟩), .path (.var ⟨"y"⟩) (.var ⟨"z"⟩)],
    .singleton (.path (.var ⟨"x"⟩) (.var ⟨"z"⟩)),
    .transform (.copy (Pattern.vars (.singleton (.path (.var ⟨"x"⟩) (.var ⟨"z"⟩))))), rfl⟩

/-- All paths are asked for. -/
def Rule.findPaths : Rule := ⟨none, .singleton (.path (.var ⟨"u"⟩) (.var ⟨"v"⟩)), ∅, .proactive, rfl⟩

/-- Two paths, one after the other, and the rule that joins paths. -/
def RuleStore.paths : RuleStore :=
  ⟨[.holding [.path (.iri "a") (.iri "b"), .path (.iri "b") (.iri "c")], .joinPaths, .findPaths], [], by simp⟩

/-- The binding under which the rule joins the two. -/
def RuleStore.joinedPaths : Binding := .ofList [(⟨"x"⟩, .iri "a"), (⟨"y"⟩, .iri "b"), (⟨"z"⟩, .iri "c")]

theorem RuleStore.paths_declarative : RuleStore.paths.Declarative := by
  intro r hr
  simp only [RuleStore.paths, List.mem_cons, List.not_mem_nil, or_false] at hr
  rcases hr with rfl | rfl | rfl
  · exact .inr (.inr ⟨_, Rule.holding_isData (by decide)⟩)
  · exact .inr (.inl ⟨rfl, by decide⟩)
  · exact .inl rfl

end TripleChain
