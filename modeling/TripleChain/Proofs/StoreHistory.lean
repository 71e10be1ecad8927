import TripleChain.RuleStore.Graphviz
/-!
# What a store goes through

Whatever is done to a store, one call after the other, its rules are those that it began with and then those that the
calls have added, in order (`RuleStore.rules_history`); what it remembers makes no difference to what it answers. So it
answers every question as a store would that has the same rules and remembers nothing, and every rule keeps its number
(`RuleStore.neighbors_history`).

What is remembered is lost with each rule that is not proactive, and with nothing else but a reset
(`RuleStore.remembered?_history`).
-/

namespace TripleChain

/-- Something that is done to a store. -/
inductive StoreCall where
  | add (r : Rule)
  | addAll (l : List Rule)
  /-- A rule file is read; it may turn out to be no rule file, or to hold something that is no rule. -/
  | load (p : Prefixes) (text : String)
  | reset
  /-- The neighbours of a rule are asked for; there may be no such rule. -/
  | ask (q : NeighborQuery)
  | draw (strategy : Strategy)

/-- The rule that stands in a file, if it is one. -/
def Grammar.SourceRule.toRule? (source : Grammar.SourceRule) : Option Rule :=
  (Rule.ofPatterns source.antecedent source.consequent).toOption

/-- The rules that stand in a file up to the first that is no rule. -/
def Grammar.leadingRules (l : List Grammar.SourceRule) : List Rule :=
  ((l.map Grammar.SourceRule.toRule?).takeWhile Option.isSome).reduceOption

theorem Grammar.leadingRules_cons (source : Grammar.SourceRule) (l : List Grammar.SourceRule) :
    Grammar.leadingRules (source :: l) =
      match Rule.ofPatterns source.antecedent source.consequent with
      | .error _ => []
      | .ok r => r :: Grammar.leadingRules l := by
  rw [leadingRules, List.map_cons, SourceRule.toRule?]
  cases Rule.ofPatterns source.antecedent source.consequent with
  | error f => rfl
  | ok r => rfl

namespace StoreCall

/-- The rules that a call adds, to whatever store. -/
def added : StoreCall → List Rule
  | add r => [r]
  | addAll l => l
  | load p text =>
    match Grammar.parseRules p text with
    | .error _ => []
    | .ok file => Grammar.leadingRules file.rules
  | reset | ask _ | draw _ => []

/-- The call leaves what is remembered as it is: it is no reset, and no rule can be a neighbour of what it adds. -/
def Keeps (c : StoreCall) : Prop := c ≠ .reset ∧ ∀ r ∈ c.added, r.isProactive = true

end StoreCall

namespace RuleStore

/-- The store after a call. -/
def after (s : RuleStore) : StoreCall → RuleStore
  | .add r => s.add r
  | .addAll l => s.addAll l
  | .load p text => (s.load p text).1
  | .reset => s.reset
  | .ask q =>
    match s.neighbors q with
    | .ok (_, s') => s'
    | .error _ => s
  | .draw strategy => s.rememberEdges strategy

/-- The store after some calls, the first of the list first. -/
def history (s : RuleStore) (calls : List StoreCall) : RuleStore := calls.foldl after s

/-- The store that has some rules and remembers nothing. -/
def ofRules (rules : List Rule) : RuleStore := ⟨rules, [], by simp⟩

/-! ## Rules -/

section Rules

variable (s : RuleStore)

@[simp] theorem rules_add (r : Rule) : (s.add r).rules = s.rules ++ [r] := by
  unfold add
  split <;> rfl

theorem rules_addAll (l : List Rule) : (s.addAll l).rules = s.rules ++ l := by
  induction l generalizing s with
  | nil => exact (List.append_nil _).symm
  | cons r l ih => rw [addAll, List.foldl_cons, ← addAll, ih, rules_add, List.append_assoc, List.singleton_append]

/-- A rule file adds its rules one by one, up to the first fault. -/
theorem addSources_eq (l : List Grammar.SourceRule) : (s.addSources l).1 = s.addAll (Grammar.leadingRules l) := by
  induction l generalizing s with
  | nil => rfl
  | cons source l ih =>
    rw [addSources, Grammar.leadingRules_cons]
    cases Rule.ofPatterns source.antecedent source.consequent with
    | error f => rfl
    | ok r => exact ih (s.add r)

/-- Nothing is remembered about rules that do not exist. -/
theorem remember_of_none {q : NeighborQuery} (h : s.neighbors? q = none) : s.remember q = s := by
  unfold remember
  split
  · rfl
  · next h' =>
    rw [h] at h'
    cases h'

theorem after_ask (q : NeighborQuery) : s.after (.ask q) = s.remember q := by
  rw [after, neighbors]
  cases h : s.neighbors? q with
  | some l => rfl
  | none => exact (s.remember_of_none h).symm

/-- What a call does: it adds its rules, or forgets what is remembered, or remembers more. -/
theorem after_cases (c : StoreCall) : s.after c = s.addAll c.added ∨ c = .reset ∨
    c.added = [] ∧ ∃ qs : List NeighborQuery, s.after c = qs.foldl remember s := by
  cases c with
  | add r => exact .inl rfl
  | addAll l => exact .inl rfl
  | load p text =>
    refine .inl ?_
    rw [after, load, StoreCall.added]
    cases Grammar.parseRules p text with
    | error e => rfl
    | ok file => exact s.addSources_eq file.rules
  | reset => exact .inr (.inl rfl)
  | ask q => exact .inr (.inr ⟨rfl, [q], s.after_ask q⟩)
  | draw strategy => exact .inr (.inr ⟨rfl, _, rfl⟩)

theorem rules_remember (q : NeighborQuery) : (s.remember q).rules = s.rules := by
  unfold remember
  split <;> rfl

theorem rules_rememberAll (qs : List NeighborQuery) : (qs.foldl remember s).rules = s.rules := by
  induction qs generalizing s with
  | nil => rfl
  | cons q qs ih => rw [List.foldl_cons, ih, rules_remember]

/-- A call adds its rules at the end and does nothing else to the rules. -/
theorem rules_after (c : StoreCall) : (s.after c).rules = s.rules ++ c.added := by
  rcases s.after_cases c with heq | rfl | ⟨hnone, qs, heq⟩
  · rw [heq, rules_addAll]
  · exact (List.append_nil _).symm
  · rw [heq, rules_rememberAll, hnone, List.append_nil]

theorem rules_history (calls : List StoreCall) :
    (s.history calls).rules = s.rules ++ calls.flatMap StoreCall.added := by
  induction calls generalizing s with
  | nil => exact (List.append_nil _).symm
  | cons c calls ih => rw [history, List.foldl_cons, ← history, ih, rules_after, List.flatMap_cons, List.append_assoc]

end Rules

/-! ## Answers -/

/-- What a store answers comes of its rules alone. -/
theorem map_neighbors (s : RuleStore) (q : NeighborQuery) : (s.neighbors q).map Prod.fst =
    match neighborsIn? s.rules q with
    | some l => .ok l
    | none => .error (.unknownRule q.rule) := by
  rw [neighbors, neighbors?_eq]
  cases neighborsIn? s.rules q <;> rfl

/-- Whatever has been done to a store, it answers every question as a store does that has the same rules and
remembers nothing; and the rules that it had before have kept their numbers. -/
theorem neighbors_history (s : RuleStore) (calls : List StoreCall) :
    (∀ q, ((s.history calls).neighbors q).map Prod.fst =
      ((ofRules (s.rules ++ calls.flatMap StoreCall.added)).neighbors q).map Prod.fst) ∧
    ∀ id r, s.get id = .ok r → (s.history calls).get id = .ok r := by
  refine ⟨fun q => ?_, fun id r hr => ?_⟩
  · rw [map_neighbors, map_neighbors, rules_history, ofRules]
  · unfold get at hr ⊢
    rw [rules_history]
    cases h : s.rules[id]? with
    | none =>
      rw [h] at hr
      cases hr
    | some r' =>
      rw [List.getElem?_append_left (List.getElem?_eq_some_iff.1 h).1, h]
      rwa [h] at hr

/-! ## What is remembered -/

section Memory

variable {s : RuleStore} {q : NeighborQuery} {l : List Neighbor}

theorem remembered?_remember (h : s.remembered? q = some l) (q' : NeighborQuery) :
    (s.remember q').remembered? q = some l := by
  unfold remember
  split
  · exact h
  · next l' h' =>
    by_cases hq : q' = q
    · subst hq
      have hsame : s.neighbors? q' = some l := by
        unfold neighbors?
        rw [h]
      rw [hsame] at h'
      cases h'
      simp [remembered?]
    · have hkept : (fun e : NeighborQuery × List Neighbor => decide ((e.1 != q') = true ∧ (e.1 == q) = true)) =
          fun e => e.1 == q := by
        funext e
        by_cases he : e.1 = q
        · simp [he, Ne.symm hq]
        · simp [he]
      unfold remembered? at h ⊢
      rwa [List.find?_cons, beq_eq_false_iff_ne.2 hq, List.find?_filter, hkept]

theorem remembered?_rememberAll (h : s.remembered? q = some l) (qs : List NeighborQuery) :
    (qs.foldl remember s).remembered? q = some l := by
  induction qs generalizing s with
  | nil => exact h
  | cons q' qs ih => exact ih (remembered?_remember h q')

theorem remembered?_addAll (h : s.remembered? q = some l) {rules : List Rule} (hr : ∀ r ∈ rules, r.isProactive = true) :
    (s.addAll rules).remembered? q = some l := by
  induction rules generalizing s with
  | nil => exact h
  | cons r rules ih =>
    obtain ⟨hpro, hrest⟩ := List.forall_mem_cons.1 hr
    have hkept : (s.add r).remembered? q = some l := by
      unfold add
      rwa [dif_pos hpro]
    exact ih hkept hrest

/-- What has been remembered stays remembered as long as no rule can be a neighbour of what is added. -/
theorem remembered?_history (h : s.remembered? q = some l) {calls : List StoreCall} (hcalls : ∀ c ∈ calls, c.Keeps) :
    (s.history calls).remembered? q = some l := by
  induction calls generalizing s with
  | nil => exact h
  | cons c calls ih =>
    obtain ⟨⟨hreset, hadded⟩, hrest⟩ := List.forall_mem_cons.1 hcalls
    refine ih ?_ hrest
    rcases s.after_cases c with heq | rfl | ⟨_, qs, heq⟩
    · rw [heq]
      exact remembered?_addAll h hadded
    · exact absurd rfl hreset
    · rw [heq]
      exact remembered?_rememberAll h qs

end Memory

end RuleStore

end TripleChain
