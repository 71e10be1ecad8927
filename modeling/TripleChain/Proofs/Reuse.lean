import TripleChain.Proofs.Answers
/-!
# Plans that are used again

A plan that is given another input keeps its progress: what its nodes have given and what their handlers have had
stays, only what is asked of them changes. This neither hides nor adds an answer (`Plan.results_equiv_of_reuse`).
Whatever was asked before, all that has been given seems to follow from the rules, and the handlers have
answered all that they have had (`Plan.Rested`). So the plan ends with the solutions for the input that it has now.
-/

namespace TripleChain

theorem Solution.congr {rules : List Rule} {goal : Pattern} {input input' : BindingSet}
    (h : ∀ i, i ∈ Plan.inputOf input ↔ i ∈ Plan.inputOf input') (b : Binding) :
    Solution rules goal input b ↔ Solution rules goal input' b := by
  have hallowed (input : BindingSet) : (input.isEmpty = true ∨ ∃ i ∈ input, b.compatible i = true) ↔
      ∃ i ∈ Plan.inputOf input, b.compatible i = true := by
    unfold Plan.inputOf
    cases he : input.isEmpty with
    | true =>
      rw [if_pos rfl]
      have hempty : b.compatible ∅ = true := Binding.compatible_iff.2 fun v t u _ hu => (nomatch hu)
      exact iff_of_true (.inl rfl) ⟨∅, InsertionSet.mem_singleton.2 rfl, hempty⟩
    | false => rw [if_neg Bool.false_ne_true, or_iff_right Bool.false_ne_true]
  have hiff : (∃ i ∈ Plan.inputOf input, b.compatible i = true) ↔ ∃ i ∈ Plan.inputOf input', b.compatible i = true :=
    exists_congr fun i => and_congr_left fun _ => h i
  exact ⟨fun hb => ⟨hb.binds, hb.covered, hb.enough, (hallowed input').2 (hiff.1 ((hallowed input).1 hb.allowed))⟩,
    fun hb => ⟨hb.binds, hb.covered, hb.enough, (hallowed input).2 (hiff.2 ((hallowed input').1 hb.allowed))⟩⟩

namespace Plan

variable {s : RuleStore} {id : RuleId} {strategy : Strategy} {bindings : BindingSet} {g : Rule} {p q : Plan}
  {o : PlanOptions}

/-! ## Another input -/

/-- A plan has one input. -/
theorem HasInput.equiv {b₁ b₂ : BindingSet} (h₁ : p.HasInput b₁) (h₂ : p.HasInput b₂) :
    ∀ i, i ∈ inputOf b₁ ↔ i ∈ inputOf b₂ := by
  unfold HasInput at h₁ h₂
  cases hinput : p.input with
  | none =>
    rw [hinput] at h₁
    cases h₁
  | some input =>
    rw [hinput] at h₁ h₂
    exact fun i => (InsertionSet.sameElements_iff.1 h₁ i).symm.trans (InsertionSet.sameElements_iff.1 h₂ i)

/-- What is asked does not stand on the ledger. -/
theorem Accounted.withInputAs {d : Demands} (h : p.Accounted) (hboard : p.board = []) :
    (p.withInputAs d bindings).Accounted := by
  obtain ⟨⟨progress, heq⟩, hx⟩ := p.withInputAs_spec d bindings
  have hgraph : (p.withInputAs d bindings).graph = p.graph := by rw [heq]
  have hempty : (p.withInputAs d bindings).board = [] := by rw [heq, hboard]
  have hsame (x : NodeId) : ∃ demand, (p.withInputAs d bindings).progressOf x = { p.progressOf x with demand } := by
    rw [hx]
    split <;> exact ⟨_, rfl⟩
  refine ⟨ledger_of_idle hempty (fun x => ?_) (fun x => ?_) fun x n hinner hn b hb c hc => ?_, ?_⟩
  · obtain ⟨demand, hdemand⟩ := hsame x
    rw [hdemand]
    exact h.ledger.idle_of_board hboard x
  · obtain ⟨demand, hdemand⟩ := hsame x
    rw [hdemand]
    exact h.ledger.sound x
  · obtain ⟨demand, hdemand⟩ := hsame x
    rw [hgraph] at hn
    rw [hdemand] at hb ⊢
    exact h.ledger.output_of_board hboard hinner hn hb hc
  · rw [hgraph]
    exact h.bounded.withInputAs hboard

theorem Worthy.withInputAs {d : Demands} (h : Worthy s strategy p) (hboard : p.board = []) :
    Worthy s strategy (p.withInputAs d bindings) := by
  obtain ⟨⟨progress, heq⟩, _⟩ := p.withInputAs_spec d bindings
  refine ⟨h.accounted.withInputAs hboard, ?_⟩
  rw [show (p.withInputAs d bindings).graph = p.graph by rw [heq]]
  exact h.bounded.withInputAs hboard

section Goal

variable (hs : s.Declarative) (hg : s.get id = .ok g) (hgoal : g.consequent.isEmpty = true)

include hs hg hgoal

/-- A plan for which nothing is outstanding, asked for something else, runs to an end with that. -/
theorem Worthy.asked (h : Worthy s strategy p) (hlaid : Laid s id strategy p) (hboard : p.board = [])
    (hinput : ¬ p.HasInput bindings) (hruns : Runs bindings p q) :
    Asked s id strategy bindings q ∧ Worthy s strategy q ∧ q.Quiet ∧ q.HasInput bindings := by
  obtain ⟨rounds, d, hd, hcheck, hrest⟩ := hruns.exists_demands hinput
  have hasked := hlaid.asked hd hcheck
  have hgiven := p.hasInput_withInputAs d bindings
  obtain ⟨hsteps, hquiet⟩ := hrest.steps hgiven
  exact ⟨hasked.of_sameFrame hsteps.sameFrame, (h.withInputAs hboard).steps hasked.toLaid hg hgoal hs hsteps,
    hquiet hasked.isBackward hasked.ordered, hgiven.of_sameFrame hsteps.sameFrame⟩

/-- What a plan ends with depends on what it was asked last, for a strategy that loses nothing. -/
theorem Asked.results_of_quiet (h : Asked s id .all bindings q) (hworthy : Worthy s .all q) (hquiet : q.Quiet) :
    ∃ answers, q.results = .ok answers ∧ ∀ b, b ∈ answers ↔ Solution s.rules g.antecedent bindings b := by
  have hended := h.ended hg hgoal (h.pointwise hs.pointwise) hworthy.accounted .refl hquiet
  obtain ⟨answers, hresults, hmem⟩ := hended.results
  refine ⟨answers, hresults, fun b => (hmem b).trans ⟨h.solution_of_mem_outputs hs hg hgoal hworthy hquiet, ?_⟩⟩
  exact hended.mem_outputs_of_solution hg fun _ _ _ _ => findsPairs_all _ _

/-- A new plan runs to an end with what it is asked. -/
theorem asked_of_build (hp : build s id o = .ok p) (hruns : Runs bindings p q) :
    Asked s id o.strategy bindings q ∧ Worthy s o.strategy q ∧ q.Quiet ∧ q.HasInput bindings :=
  (build_untouched hp).worthy.asked hs hg hgoal (build_laid hp hg hgoal) (build_new hp).2.1
    (not_hasInput (build_new hp).2.2.2) hruns

end Goal

/-- A plan that has run to an end is asked for something else: it runs to an end with that, or with the same input. -/
theorem Asked.reuse {b₁ b₂ : BindingSet} (h : Asked s id strategy b₁ p) (hs : s.Declarative) (hg : s.get id = .ok g)
    (hgoal : g.consequent.isEmpty = true) (hworthy : Worthy s strategy p) (hquiet : p.Quiet) (hinput : p.HasInput b₁)
    (hruns : Runs b₂ p q) : ∃ b, Asked s id strategy b q ∧ Worthy s strategy q ∧ q.Quiet ∧
      ∀ i, i ∈ inputOf b ↔ i ∈ inputOf b₂ := by
  by_cases hsame : p.HasInput b₂
  · obtain ⟨hsteps, hend⟩ := hruns.steps hsame
    refine ⟨b₁, h.of_sameFrame hsteps.sameFrame, hworthy.steps h.toLaid hg hgoal hs hsteps,
      hend h.isBackward h.ordered, ?_⟩
    exact hinput.equiv hsame
  · obtain ⟨hasked, hworthy', hquiet', _⟩ := hworthy.asked hs hg hgoal h.toLaid hquiet.board hsame hruns
    exact ⟨b₂, hasked, hworthy', hquiet', fun _ => .rfl⟩

/-- A plan for a goal can be run to an end again and again. -/
theorem run_ends_again {b₁ b₂ : BindingSet} (hs : s.Declarative) (hg : s.get id = .ok g)
    (hgoal : g.consequent.isEmpty = true) (hp : build s id o = .ok p) (h₁ : p.checkInput (inputOf b₁) = .ok ())
    (h₂ : p.checkInput (inputOf b₂) = .ok ()) :
    ∃ enough q q', ∀ rounds, enough ≤ rounds → p.run rounds b₁ = .ok q ∧ q.run rounds b₂ = .ok q' := by
  obtain ⟨V, T, hwithin, hb⟩ := p.graph.exists_within ((inputOf b₁).toList ++ (inputOf b₂).toList)
  have htame := tame_build hs.plain hp hwithin
  have hsize := (build_regular hp).2
  have hb₁ : ∀ b ∈ inputOf b₁, b.Within V T := fun b hmem => hb b (List.mem_append_left _ hmem)
  have hb₂ : ∀ b ∈ inputOf b₂, b.Within V T := fun b hmem => hb b (List.mem_append_right _ hmem)
  obtain ⟨enough, q, hq⟩ := htame.completes (build_new hp).2.1 hsize hb₁ h₁
  have hruns := runs_of_run (hq enough (Nat.le_refl _))
  obtain ⟨hasked, _, hquiet, _⟩ := asked_of_build hs hg hgoal hp hruns
  have hlaid := build_laid hp hg hgoal
  have hcheck : q.checkInput (inputOf b₂) = .ok () := (hasked.checkInput_eq_ok hg).2 ((hlaid.checkInput_eq_ok hg).1 h₂)
  obtain ⟨n, hn, _⟩ := hasked.graph.root
  obtain ⟨enough', q', hq'⟩ := (htame.runs (build_new hp).2.1 hsize hb₁ hruns).completes hquiet.board (Graph.lt_size hn)
    hb₂ hcheck
  exact ⟨max enough enough', q, q', fun rounds hrounds =>
    ⟨hq rounds ((Nat.le_max_left ..).trans hrounds), hq' rounds ((Nat.le_max_right ..).trans hrounds)⟩⟩

/-- A plan that is run to the end with one input and then with another has the results of a plan that is run with the
other input only, and all these runs come to an end. -/
theorem results_equiv_of_reuse {b₁ b₂ : BindingSet} (hs : s.Declarative) (hg : s.get id = .ok g)
    (hgoal : g.consequent.isEmpty = true) (hall : o.strategy = .all) (hp : build s id o = .ok p)
    (h₁ : p.checkInput (inputOf b₁) = .ok ()) (h₂ : p.checkInput (inputOf b₂) = .ok ()) :
    (∃ enough q q' fresh, ∀ rounds, enough ≤ rounds →
      p.run rounds b₁ = .ok q ∧ q.run rounds b₂ = .ok q' ∧ p.run rounds b₂ = .ok fresh) ∧
    ∀ q q' fresh, Runs b₁ p q → Runs b₂ q q' → Runs b₂ p fresh →
      ∃ answers answers', q'.results = .ok answers ∧ fresh.results = .ok answers' ∧ answers.Equiv answers' := by
  refine ⟨?_, fun q q' fresh hq hq' hfresh => ?_⟩
  · obtain ⟨enough, q, q', hrun⟩ := run_ends_again hs hg hgoal hp h₁ h₂
    obtain ⟨enough', fresh, hfresh⟩ := run_ends_known hs.plain hp h₂
    exact ⟨max enough enough', q, q', fresh, fun rounds hrounds =>
      have hends := hrun rounds ((Nat.le_max_left ..).trans hrounds)
      ⟨hends.1, hends.2, hfresh rounds ((Nat.le_max_right ..).trans hrounds)⟩⟩
  · obtain ⟨hasked, hworthy, hquiet, hinput⟩ := asked_of_build hs hg hgoal hp hq
    obtain ⟨b, hasked', hworthy', hquiet', hequiv⟩ := hasked.reuse hs hg hgoal hworthy hquiet hinput hq'
    obtain ⟨hasked'', hworthy'', hquiet'', _⟩ := asked_of_build hs hg hgoal hp hfresh
    rw [hall] at hasked' hworthy' hasked'' hworthy''
    obtain ⟨answers, hresults, hmem⟩ := hasked'.results_of_quiet hs hg hgoal hworthy' hquiet'
    obtain ⟨answers', hresults', hmem'⟩ := hasked''.results_of_quiet hs hg hgoal hworthy'' hquiet''
    refine ⟨answers, answers', hresults, hresults', fun x => ?_⟩
    rw [hmem, hmem', Solution.congr hequiv]

/-- All paths are asked for after those from one place. -/
theorem paths_results_equiv_of_reuse : ∃ p q q' fresh answers answers', build .paths 2 ⟨.all, true, 0⟩ = .ok p ∧
    Runs (.singleton (.ofList [(⟨"u"⟩, .iri "a")])) p q ∧ Runs ∅ q q' ∧ Runs ∅ p fresh ∧
      q'.results = .ok answers ∧ fresh.results = .ok answers' ∧ answers.Equiv answers' := by
  obtain ⟨p, hp⟩ := exists_build .paths 2 ⟨.all, true, 0⟩ rfl rfl
  have hlaid := build_laid hp rfl rfl
  have h₁ : p.checkInput (inputOf (.singleton (.ofList [(⟨"u"⟩, .iri "a")]))) = .ok () :=
    (hlaid.checkInput_eq_ok rfl).2 (by decide)
  have h₂ : p.checkInput (inputOf ∅) = .ok () := (hlaid.checkInput_eq_ok rfl).2 (by decide)
  obtain ⟨⟨enough, q, q', fresh, hends⟩, hequiv⟩ :=
    results_equiv_of_reuse RuleStore.paths_declarative rfl rfl rfl hp h₁ h₂
  obtain ⟨hq, hq', hfresh⟩ := hends enough (Nat.le_refl _)
  obtain ⟨answers, answers', hresults⟩ :=
    hequiv q q' fresh (runs_of_run hq) (runs_of_run hq') (runs_of_run hfresh)
  exact ⟨p, q, q', fresh, answers, answers', hp, runs_of_run hq, runs_of_run hq', runs_of_run hfresh, hresults⟩

end Plan

end TripleChain
