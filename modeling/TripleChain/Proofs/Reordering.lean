import TripleChain.Proofs.Scheduling
import TripleChain.Proofs.Sessions
/-!
# The order of rules does not matter

Rules are numbered as they arrive. The numbers decide which node is made first, which links close a cycle, in which
order the nodes are advanced and in which order what they give is joined. None of this shows in the answers: rules that
arrive in another order are the same rules under other numbers, so the graphs behind a goal are twins, and runs over
twins end alike (`Plan.results_equiv_of_renumbers`). Two sessions with the same rules answer a goal in the same way
(`Session.query_equiv_of_perm`).
-/

namespace TripleChain

namespace Plan

variable {s s' : RuleStore} {id : RuleId} {r : Rule} {o o' : PlanOptions} {p p' q q' : Plan} {bindings : BindingSet}

theorem build_inputPattern (h : build s id o = .ok p) (hr : s.get id = .ok r) (hgoal : r.consequent.isEmpty = true) :
    p.inputPattern = r.antecedent := by
  obtain ⟨hgraph, _⟩ := build_graph h hr hgoal
  obtain ⟨n, hn, rfl⟩ := exists_start hgraph (get_eq_ok.1 hr)
  exact inputPattern_eq (build_laid h hr hgoal).isBackward hn

/-- Which input is refused, and why, depends on the goal only. -/
theorem checkInput_eq (h : p'.inputPattern = p.inputPattern) (bindings : BindingSet) :
    p'.checkInput bindings = p.checkInput bindings := by
  unfold checkInput
  rw [h]

/-- A goal has the same answers among the same rules under other numbers. -/
theorem results_equiv_of_renumbers {σ : Equiv.Perm RuleId} (hs : ∀ r ∈ s.rules, r.isProactive = false → r.Pointwise)
    (hσ : Renumbers σ s.rules s'.rules) (hr : s.get id = .ok r) (hgoal : r.consequent.isEmpty = true)
    (ho : o'.strategy = o.strategy) (hp : build s id o = .ok p) (hp' : build s' (σ id) o' = .ok p')
    (hq : Runs bindings p q) (hq' : Runs bindings p' q') :
    ∃ answers answers', q.results = .ok answers ∧ q'.results = .ok answers' ∧ answers.Equiv answers' := by
  have hs' : ∀ r ∈ s'.rules, r.isProactive = false → r.Pointwise := fun r hr => hs r (hσ.symm.subset hr)
  have hr' : s'.get (σ id) = .ok r := get_eq_ok.2 ((hσ id).trans (get_eq_ok.1 hr))
  obtain ⟨m, hmg, hm, hsteps, hquiet⟩ := hq.posed hp hr hgoal
  obtain ⟨m', hmg', hm', hsteps', hquiet'⟩ := hq'.posed hp' hr' hgoal
  have hg : m.graph.Whole s.rules o.strategy id := hmg ▸ build_whole hp hr hgoal
  have hg' : m'.graph.Whole s'.rules o'.strategy (σ id) := hmg' ▸ build_whole hp' hr' hgoal
  rw [ho] at hm' hg'
  obtain ⟨τ, ht⟩ := hg.exists_twin hg' hσ
  obtain ⟨n, hn, _⟩ := hg.backward.root
  obtain ⟨τ', ht', _⟩ := ht.symm (Graph.lt_size hn)
  refine ⟨_, _, (hm.final hs hsteps hquiet).results, (hm'.final hs' hsteps' hquiet').results,
    fun b => ⟨fun hb => ?_, fun hb => ?_⟩⟩
  · have hgiven := hm.outputs_subset hm' hg hg' ht hs' hsteps hsteps' hquiet' start hb
    rwa [show τ start = start from ht.start] at hgiven
  · have hgiven := hm'.outputs_subset hm hg' hg ht' hs hsteps' hsteps hquiet start hb
    rwa [show τ' start = start from ht'.start] at hgiven

end Plan

namespace Session

variable {s s' : Session} {goal : Pattern} {bindings : BindingSet} {rounds rounds' : Nat}

/-- Two sessions with the same rules, which may have arrived in different orders, answer a goal in the same way, if the
rounds suffice: both refuse the input for the same reason, or both give the same bindings. -/
theorem query_equiv_of_perm (hs : ∀ r ∈ s.store.rules, r.isProactive = false → r.Pointwise)
    (hrules : s.store.rules.Perm s'.store.rules) (hstrategy : s'.settings.strategy = s.settings.strategy)
    (hended : (s.query rounds goal bindings).result ≠ .error .outOfRounds)
    (hended' : (s'.query rounds' goal bindings).result ≠ .error .outOfRounds) :
    (∃ f, (s.query rounds goal bindings).result = .error (.refused f) ∧
      (s'.query rounds' goal bindings).result = .error (.refused f)) ∨
    ∃ answers answers', (s.query rounds goal bindings).result = .ok answers ∧
      (s'.query rounds' goal bindings).result = .ok answers' ∧ answers.Equiv answers' := by
  cases hgoal : goal.isEmpty with
  | true =>
    refine .inl ⟨.ofCode .emptyInput "A goal needs at least one triple pattern", ?_, ?_⟩
    · rw [query, backwardPlan, if_pos hgoal]
    · rw [query, backwardPlan, if_pos hgoal]
  | false =>
    obtain ⟨p, hp, hrefused, hruns⟩ := s.exists_query_ends hgoal hended
    obtain ⟨p', hp', hrefused', hruns'⟩ := s'.exists_query_ends hgoal hended'
    -- The goals are under the numbers after those of the rules.
    obtain ⟨σ, hσ, hbeyond⟩ := exists_renumbers hrules
    have hadded := hσ.append hbeyond hrules.length_eq [.goal goal hgoal]
    rw [← rules_add, ← rules_add] at hadded
    have hsize : s'.store.size = σ s.store.size := hrules.length_eq.symm.trans (hbeyond _ (Nat.le_refl _)).symm
    have hr := s.get_add (.goal goal hgoal)
    have hcheck : p'.checkInput (Plan.inputOf bindings) = p.checkInput (Plan.inputOf bindings) :=
      Plan.checkInput_eq
        ((Plan.build_inputPattern hp' (s'.get_add _) rfl).trans (Plan.build_inputPattern hp hr rfl).symm) _
    cases hinput : p.checkInput (Plan.inputOf bindings) with
    | error f => exact .inl ⟨f, hrefused f hinput, hrefused' f (hcheck.trans hinput)⟩
    | ok _ =>
      obtain ⟨q, hq, hresult⟩ := hruns hinput
      obtain ⟨q', hq', hresult'⟩ := hruns' (hcheck.trans hinput)
      have hpointwise : ∀ r ∈ (s.add (.goal goal hgoal)).store.rules, r.isProactive = false → r.Pointwise := by
        intro r hr hpro
        rcases s.mem_rules_add.1 hr with hr | rfl
        · exact hs r hr hpro
        · cases hpro
      rw [hsize] at hp'
      obtain ⟨answers, answers', hresults, hresults', hequiv⟩ :=
        Plan.results_equiv_of_renumbers hpointwise hadded hr rfl hstrategy hp hp' hq hq'
      exact .inr ⟨answers, answers', hresult.trans (congrArg _ hresults), hresult'.trans (congrArg _ hresults'), hequiv⟩

/-- Two paths, and then the rule that joins paths. -/
def dataFirst : Session :=
  ⟨⟨[.holding [.path (.iri "a") (.iri "b"), .path (.iri "b") (.iri "c")], .joinPaths], [], by simp⟩,
    .standard, .standard⟩

/-- The rule that joins paths, and then two paths. -/
def dataLast : Session :=
  ⟨⟨[.joinPaths, .holding [.path (.iri "a") (.iri "b"), .path (.iri "b") (.iri "c")]], [], by simp⟩,
    .standard, .standard⟩

/-- The paths are found either way, the joined one among them. -/
theorem dataFirst_query_equiv : ∃ answers answers',
    (dataFirst.query 50 Rule.findPaths.antecedent ∅).result = .ok answers ∧
    (dataLast.query 50 Rule.findPaths.antecedent ∅).result = .ok answers' ∧
    answers.Equiv answers' ∧ .ofList [(⟨"u"⟩, .iri "a"), (⟨"v"⟩, .iri "c")] ∈ answers := by
  have hs : ∀ r ∈ dataFirst.store.rules, r.isProactive = false → r.Pointwise := by
    intro r hr _
    simp only [dataFirst, List.mem_cons, List.not_mem_nil, or_false] at hr
    rcases hr with rfl | rfl
    · exact (Rule.holding_isData (by decide)).pointwise
    · exact Rule.IsCopy.pointwise ⟨rfl, by decide⟩
  have hrules : dataFirst.store.rules.Perm dataLast.store.rules := .swap _ _ []
  have hfirst : ((dataFirst.query 50 Rule.findPaths.antecedent ∅).result.toOption.any
      (·.contains (.ofList [(⟨"u"⟩, .iri "a"), (⟨"v"⟩, .iri "c")]))) = true := by decide +kernel
  have hlast : (dataLast.query 50 Rule.findPaths.antecedent ∅).result.isOk = true := by decide +kernel
  have hended : (dataFirst.query 50 Rule.findPaths.antecedent ∅).result ≠ .error .outOfRounds := by
    intro h
    rw [h] at hfirst
    cases hfirst
  have hended' : (dataLast.query 50 Rule.findPaths.antecedent ∅).result ≠ .error .outOfRounds := by
    intro h
    rw [h] at hlast
    cases hlast
  rcases query_equiv_of_perm hs hrules rfl hended hended' with ⟨f, hrefused, _⟩ | ⟨answers, answers', h, h', hequiv⟩
  · rw [hrefused] at hfirst
    cases hfirst
  · rw [h] at hfirst
    exact ⟨answers, answers', h, h', hequiv, InsertionSet.contains_iff.1 hfirst⟩

end Session

end TripleChain
