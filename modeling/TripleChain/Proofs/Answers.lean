import TripleChain.Proofs.Soundness
/-!
# Which answers there are

`Solution` is what an answer to a goal has to be, for any strategy: enough of the goal seems to follow from the
rules, and the input allows it (`Plan.solution_of_mem_results`). A strategy that finds every pair of triples finds
all of them (`Plan.mem_results_of_solution`).
-/

namespace TripleChain

/-- A binding of the variables of a goal that the input allows and with which enough of the goal seems to follow. -/
structure Solution (rules : List Rule) (goal : Pattern) (input : BindingSet) (b : Binding) : Prop where
  binds : b.Over goal.vars
  covered : ∀ a ∈ goal, Coverable rules a
  enough : goal.Enough fun a => Apparent rules (a.instantiate b)
  allowed : input.isEmpty = true ∨ ∃ i ∈ input, b.compatible i = true

/-- A rule that leads to nothing has an antecedent. -/
theorem Rule.antecedent_nonempty {r : Rule} (h : r.consequent.isEmpty = true) : r.antecedent.isEmpty = false := by
  have hadmitted := r.admitted
  unfold Role.admits at hadmitted
  rw [h] at hadmitted
  split at hadmitted
  · simpa using hadmitted
  · cases hadmitted
  · simpa using hadmitted

namespace Plan

variable {s : RuleStore} {id : RuleId} {strategy : Strategy} {input : BindingSet} {g : Rule} {p q : Plan} {b : Binding}

/-- Nobody asks the goal for anything, so what is asked of it is the input. -/
theorem Asked.mem_inputOf (h : Asked s id strategy input p) (hr : s.get id = .ok g)
    (hgoal : g.consequent.isEmpty = true) (hb : b ∈ (p.progressOf start).demand) : b ∈ inputOf input := by
  obtain ⟨rounds, d, hd, hdemand⟩ := h.settled
  obtain ⟨n, hn, _⟩ := h.graph.root
  rw [hdemand start (Graph.lt_size hn)] at hb
  -- On the rounds of demand: a request to the goal would come through a match to its consequent, which is empty.
  refine Graph.settleDemand_induction (I := fun d => ∀ b ∈ d.of start, b ∈ inputOf input) hd ?_ ?_ b hb
  · intro b hb
    rwa [Demands.of_insert, if_pos rfl] at hb
  · rintro d₀ c k _ hk ⟨x, wanted⟩ hrequest d₁ hd₁ b hb
    rw [Demands.of_add] at hb
    split at hb
    · next heq =>
      obtain rfl : x = start := heq
      refine (InsertionSet.mem_union.1 hb).elim (hd₁ b) fun hb => ?_
      obtain ⟨_, _, found, m, he, hm, rfl⟩ := Graph.mem_requests.1 hrequest
      obtain ⟨link, hlink, _⟩ := exists_of_mem_wantedThrough hb
      obtain ⟨cyclic, hfound⟩ := Node.mem_allProducers.1 he
      obtain ⟨m', hm', hfaith, _⟩ := h.graph.producer c k cyclic start found hk hfound
      obtain rfl := start_rule h.graph (get_eq_ok.1 hr) hm'
      have hmatched := (isEmpty_of_mem_findMatches (hfaith.sound link hlink)).2
      rw [hgoal] at hmatched
      cases hmatched
    · exact hd₁ b hb

/-- Where something is asked for, a binding that passes agrees with something of it. -/
theorem Passes.exists_compatible {demand : BindingSet} (h : Passes demand b) (hne : demand.isEmpty = false) :
    ∃ i ∈ demand, b.compatible i = true := by
  rcases h with h | h
  · rw [hne, Bool.false_or, InsertionSet.any_iff] at h
    obtain ⟨i, hi, hempty⟩ := h
    refine ⟨i, hi, Binding.compatible_iff.2 fun v t u _ hu => ?_⟩
    rw [Binding.get?, SortedMap.isEmpty_iff_get?.1 hempty v] at hu
    cases hu
  · exact h

theorem exists_mem_inputOf (input : BindingSet) : ∃ i, i ∈ inputOf input := by
  unfold inputOf
  cases he : input.isEmpty with
  | true => exact ⟨∅, InsertionSet.mem_singleton.2 rfl⟩
  | false => exact InsertionSet.exists_mem he

/-- A goal that has been asked ends with solutions, whatever it was asked before. -/
theorem Asked.solution_of_mem_outputs (h : Asked s id strategy input q) (hs : s.Declarative) (hg : s.get id = .ok g)
    (hgoal : g.consequent.isEmpty = true) (hworthy : Worthy s strategy q) (hquiet : q.Quiet)
    (hb : b ∈ q.outputs start) : Solution s.rules g.antecedent input b := by
  have hended := h.ended hg hgoal (h.pointwise hs.pointwise) hworthy.accounted .refl hquiet
  obtain ⟨n, hn, rfl⟩ := exists_start hended.graph (get_eq_ok.1 hg)
  have hadmits : Admits s.rules strategy (Apparent s.rules) n.rule.antecedent b :=
    (hworthy.bounded.output start hb n hn).2 rfl
  have hne := Rule.antecedent_nonempty hgoal
  refine ⟨hadmits.binds hne, hadmits.covered, hadmits.enough, ?_⟩
  have hinput := ((hended.final.goal n hn b).1 hb).2
  have hpasses := ((mem_nodeInput hne (SortedSet.isEmpty_iff.2 (hended.graph.kind start n hn).2.1)).1 hinput).2
  obtain ⟨i₀, hi₀⟩ := exists_mem_inputOf input
  obtain ⟨i, hi, hcompatible⟩ := hpasses.exists_compatible (InsertionSet.isEmpty_eq_false (hended.given i₀ hi₀))
  have hi := h.mem_inputOf hg hgoal hi
  unfold inputOf at hi
  split at hi
  · next he => exact .inl he
  · exact .inr ⟨i, hi, hcompatible⟩

/-- Every answer to a goal is a solution, whatever the strategy. -/
theorem solution_of_mem_results {o : PlanOptions} {answers : BindingSet} (hs : s.Declarative) (hg : s.get id = .ok g)
    (hgoal : g.consequent.isEmpty = true) (hp : build s id o = .ok p) (hq : Runs input p q)
    (hanswers : q.results = .ok answers) (hb : b ∈ answers) : Solution s.rules g.antecedent input b := by
  obtain ⟨m, _, hposed, hsteps, hquiet⟩ := hq.posed hp hg hgoal
  obtain ⟨_, hresults, hmem⟩ := (hposed.ended hg hgoal hs.pointwise hsteps hquiet).results
  rw [hresults] at hanswers
  cases hanswers
  have hworthy := hposed.untouched.worthy.steps hposed.toLaid hg hgoal hs hsteps
  exact (hposed.toAsked.of_sameFrame hsteps.sameFrame).solution_of_mem_outputs hs hg hgoal hworthy hquiet
    ((hmem b).1 hb)

/-- A strategy that finds every pair of triples finds every solution. -/
theorem Ended.mem_outputs_of_solution (h : Ended s.rules strategy id input q) (hg : s.get id = .ok g)
    (hpairs : ∀ r' ∈ s.rules, ∀ r ∈ s.rules, FindsPairs strategy r'.antecedent r.consequent)
    (hb : Solution s.rules g.antecedent input b) : b ∈ q.outputs start := by
  obtain ⟨n, hn, rfl⟩ := exists_start h.graph (get_eq_ok.1 hg)
  have hne := Rule.antecedent_nonempty (h.goal n hn)
  obtain ⟨δ, hδ, hext⟩ := h.exists_demand hn hb.binds hb.allowed
  have hgrule := hpairs n.rule (List.mem_of_getElem? (get_eq_ok.1 hg))
  refine h.mem_outputs hn hb.binds hδ hext (hb.enough.some.resolve_left (by simp [hne])) hb.enough.vars
    (fun a ha happarent => ?_) fun a ha => h.covers hn hgrule ha (hb.covered a ha)
  exact h.supplied_of_apparent hpairs happarent hn ha rfl hδ hext

theorem mem_results_of_solution {o : PlanOptions} (hs : s.Declarative) (hg : s.get id = .ok g)
    (hgoal : g.consequent.isEmpty = true) (hp : build s id o = .ok p) (hq : Runs input p q)
    (hpairs : ∀ r' ∈ s.rules, ∀ r ∈ s.rules, FindsPairs o.strategy r'.antecedent r.consequent) :
    ∃ answers, q.results = .ok answers ∧ ∀ b, Solution s.rules g.antecedent input b → b ∈ answers := by
  obtain ⟨m, _, hposed, hsteps, hquiet⟩ := hq.posed hp hg hgoal
  have hended := hposed.ended hg hgoal hs.pointwise hsteps hquiet
  obtain ⟨answers, hresults, hmem⟩ := hended.results
  exact ⟨answers, hresults, fun b hb => (hmem b).2 (hended.mem_outputs_of_solution hg hpairs hb)⟩

end Plan

end TripleChain
