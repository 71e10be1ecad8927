import TripleChain.Proofs.Start
import TripleChain.Proofs.StoreHistory
import TripleChain.Session
/-!
# What sessions run

To publish is to add a rule that gives the premise and to run its plan (`Session.exists_publish_eq`). To query is to add
a rule that asks for the goal and to run its plan (`Session.exists_query_eq`); if the rounds suffice, the end is that of
the run or the refusal of the input (`Session.exists_query_ends`).
-/

namespace TripleChain

/-- The rule that gives a premise. -/
def Rule.premise (premise : Pattern) (h : premise.isEmpty = false) : Rule :=
  ⟨some "premise", ∅, premise, .proactive, by simp only [Role.admits, h, Bool.and_false, Bool.not_false]⟩

/-- The rule that asks for a goal. -/
def Rule.goal (goal : Pattern) (h : goal.isEmpty = false) : Rule := (Rule.asking goal h).named "goal"

namespace Session

variable (s : Session) {r x : Rule} {premise goal : Pattern}

theorem rules_add (r : Rule) : (s.add r).store.rules = s.store.rules ++ [r] := RuleStore.rules_add s.store r

theorem mem_rules_add : x ∈ (s.add r).store.rules ↔ x ∈ s.store.rules ∨ x = r := by
  rw [rules_add, List.mem_append, List.mem_singleton]

/-- What is added last is found there. -/
theorem get_add (r : Rule) : (s.add r).store.get s.store.size = .ok r := by
  rw [Plan.get_eq_ok, rules_add, RuleStore.size, List.getElem?_concat_length]

theorem forwardPlan_eq (h : premise.isEmpty = false) :
    s.forwardPlan premise = (s.add (.premise premise h), (s.add (.premise premise h)).plan s.store.size) := by
  simp [forwardPlan, planFor, Rule.proactive, h, Rule.named, Rule.premise]

theorem backwardPlan_eq (h : goal.isEmpty = false) :
    s.backwardPlan goal = (s.add (.goal goal h), (s.add (.goal goal h)).plan s.store.size) := by
  simp [backwardPlan, planFor, Rule.proactive, h, Rule.named, Rule.goal, Rule.asking]

theorem exists_publish_eq (h : premise.isEmpty = false) :
    ∃ p, (s.add (.premise premise h)).plan s.store.size = .ok p ∧ ∀ rounds bindings,
      s.publish rounds premise bindings = match p.run rounds bindings with
        | .error e => ⟨s.add (.premise premise h), [], .error e⟩
        | .ok q => ⟨s.add (.premise premise h), q.invoked, .ok q⟩ := by
  obtain ⟨p, hp⟩ :=
    Plan.exists_build (s.add (.premise premise h)).store s.store.size s.settings.planOptions (s.get_add _)
    (Bool.or_true _)
  refine ⟨p, hp, fun rounds bindings => ?_⟩
  rewrite [publish, forwardPlan_eq s h, show (s.add (.premise premise h)).plan s.store.size = .ok p from hp]
  rfl

theorem exists_query_eq (h : goal.isEmpty = false) :
    ∃ p, (s.add (.goal goal h)).plan s.store.size = .ok p ∧ ∀ rounds bindings,
      s.query rounds goal bindings = match p.run rounds bindings with
        | .error e => ⟨s.add (.goal goal h), [], .error e⟩
        | .ok q => ⟨s.add (.goal goal h), q.invoked, q.results.mapError .refused⟩ := by
  obtain ⟨p, hp⟩ := Plan.exists_build (s.add (.goal goal h)).store s.store.size s.settings.planOptions (s.get_add _) rfl
  refine ⟨p, hp, fun rounds bindings => ?_⟩
  rewrite [query, backwardPlan_eq s h, show (s.add (.goal goal h)).plan s.store.size = .ok p from hp]
  rfl

/-- A query whose rounds suffice ends with the results of its plan, unless the plan refuses the input. -/
theorem exists_query_ends {rounds : Nat} {bindings : BindingSet} (h : goal.isEmpty = false)
    (hended : (s.query rounds goal bindings).result ≠ .error .outOfRounds) :
    ∃ p, (s.add (.goal goal h)).plan s.store.size = .ok p ∧
      (∀ f, p.checkInput (Plan.inputOf bindings) = .error f →
        (s.query rounds goal bindings).result = .error (.refused f)) ∧
      (p.checkInput (Plan.inputOf bindings) = .ok () → ∃ q, Plan.Runs bindings p q ∧
        (s.query rounds goal bindings).result = q.results.mapError .refused) := by
  obtain ⟨p, hp, hquery⟩ := s.exists_query_eq h
  rw [hquery] at hended ⊢
  have hrun : p.run rounds bindings ≠ .error .outOfRounds := fun hout => hended (by rw [hout])
  refine ⟨p, hp, fun f hcheck => ?_, fun hcheck => ?_⟩
  · rw [Plan.run_eq_refused (Plan.not_hasInput (Plan.build_new hp).2.2.2) hcheck hrun]
  · obtain ⟨q, hq⟩ := Plan.exists_run hcheck hrun
    exact ⟨q, Plan.runs_of_run hq, by rw [hq]⟩

end Session

end TripleChain
