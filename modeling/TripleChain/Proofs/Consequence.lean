import TripleChain.RuleStore
import TripleChain.Proofs.Instance
/-!
# What rules lead to

Two kinds of rules have a meaning of their own, apart from how they are run. A copying rule says that an
instance of its consequent holds whenever the same instance of its antecedent does. A data rule has no
antecedent and says that its consequent holds of every row of a table.

`Derivable` is what follows from such rules: `derivable_closed` and `Derivable.least` say that it is the
least set of triples closed under them. All its members are ground.
-/

open Std

namespace TripleChain

namespace Rule

/-- The consequent takes over the terms of the antecedent, which has all its variables. -/
structure IsCopy (r : Rule) : Prop where
  role : r.role = .transform (.copy (Pattern.vars r.consequent))
  vars : ∀ v ∈ Pattern.vars r.consequent, v ∈ Pattern.vars r.antecedent

/-- The consequent is filled in from the rows of a table, which give ground terms to all its variables. -/
structure IsData (r : Rule) (t : Table) : Prop where
  role : r.role = .transform (.lookUp t)
  antecedent : r.antecedent = ∅
  ground : ∀ row ∈ t.rows, ∀ v ∈ Pattern.vars r.consequent, ∃ u, row.get? v = some u ∧ u.isVariable = false

theorem ofPatterns_isCopy {antecedent consequent : Pattern} {r : Rule}
    (h : ofPatterns antecedent consequent = .ok r)
    (hv : ∀ v ∈ Pattern.vars consequent, v ∈ Pattern.vars antecedent) : r.IsCopy := by
  unfold ofPatterns withHandler at h
  split at h
  · split at h <;> cases h
  · cases h
    exact ⟨rfl, hv⟩

end Rule

/-- Every rule copies or holds data, apart from those that only start plans. -/
def RuleStore.Declarative (s : RuleStore) : Prop :=
  ∀ r ∈ s.rules, r.isProactive = true ∨ r.IsCopy ∨ ∃ t, r.IsData t

/-- The rule copies, holds data, only takes, or only starts plans. -/
def Rule.IsTransparent (r : Rule) : Prop := r.isProactive = true ∨ r.isSink = true ∨ r.IsCopy ∨ ∃ t, r.IsData t

/-- The triples that follow from rules. -/
inductive Derivable (rules : List Rule) : Triple → Prop
  | copy {r : Rule} {b : Binding} {t : Triple} (mem : r ∈ rules) (copies : r.IsCopy)
      (premises : ∀ a ∈ r.antecedent, Derivable rules (a.instantiate b)) (ht : t ∈ r.consequent) :
      Derivable rules (t.instantiate b)
  | row {r : Rule} {tab : Table} {b : Binding} {t : Triple} (mem : r ∈ rules) (holds : r.IsData tab)
      (hb : b ∈ tab.rows) (ht : t ∈ r.consequent) : Derivable rules (t.instantiate b)

/-- Whatever the rules lead to from triples of the set is in the set. -/
structure Closed (rules : List Rule) (S : Triple → Prop) : Prop where
  copy : ∀ r ∈ rules, r.IsCopy → ∀ b : Binding, (∀ a ∈ r.antecedent, S (a.instantiate b)) →
    ∀ t ∈ r.consequent, S (t.instantiate b)
  row : ∀ r ∈ rules, ∀ tab, r.IsData tab → ∀ b ∈ tab.rows, ∀ t ∈ r.consequent, S (t.instantiate b)

theorem derivable_closed (rules : List Rule) : Closed rules (Derivable rules) where
  copy _ hr hc _ hp _ ht := .copy hr hc hp ht
  row _ hr _ hd _ hb _ ht := .row hr hd hb ht

/-- No closed set is smaller. -/
theorem Derivable.least {rules : List Rule} {S : Triple → Prop} (hS : Closed rules S) {t : Triple}
    (h : Derivable rules t) : S t := by
  induction h with
  | copy hr hc _ ht ih => exact hS.copy _ hr hc _ ih _ ht
  | row hr hd hb ht => exact hS.row _ hr _ hd _ hb _ ht

theorem Derivable.isGround {rules : List Rule} {t : Triple} (h : Derivable rules t) : t.IsGround := by
  induction h with
  | copy _ hc _ ht ih =>
    refine Triple.isGround_instantiate fun v hv => ?_
    obtain ⟨a, ha, hva⟩ := Pattern.mem_vars.1 (hc.vars v (Pattern.mem_vars.2 ⟨_, ht, hv⟩))
    exact Triple.get?_of_instantiate (ih a ha) hva
  | row _ hd hb ht =>
    exact Triple.isGround_instantiate fun v hv => hd.ground _ hb v (Pattern.mem_vars.2 ⟨_, ht, hv⟩)

/-! ## Rules that hold given triples -/

/-- Any triple. -/
def Triple.any : Triple := ⟨.var ⟨"s"⟩, .var ⟨"p"⟩, .var ⟨"o"⟩⟩

/-- The row of a table that holds a triple. -/
def Triple.row (t : Triple) : Binding := .ofList [(⟨"s"⟩, t.subject), (⟨"p"⟩, t.predicate), (⟨"o"⟩, t.object)]

/-- The rule that holds some triples. -/
def Rule.holding (l : List Triple) : Rule :=
  ⟨none, ∅, .singleton .any, .transform (.lookUp ⟨[], .ofList (l.map Triple.row)⟩), rfl⟩

theorem Triple.get?_row (t : Triple) : t.row.get? ⟨"s"⟩ = some t.subject ∧ t.row.get? ⟨"p"⟩ = some t.predicate ∧
    t.row.get? ⟨"o"⟩ = some t.object := by
  have hrow (v : Variable) : t.row.get? v = (((((∅ : SortedMap Variable Term).insert ⟨"s"⟩ t.subject).insert
    ⟨"p"⟩ t.predicate).insert ⟨"o"⟩ t.object).get? v) := rfl
  refine ⟨?_, ?_, ?_⟩
  · rw [hrow, SortedMap.get?_insert_of_ne _ _ (by decide), SortedMap.get?_insert_of_ne _ _ (by decide),
      SortedMap.get?_insert_self]
  · rw [hrow, SortedMap.get?_insert_of_ne _ _ (by decide), SortedMap.get?_insert_self]
  · rw [hrow, SortedMap.get?_insert_self]

theorem Triple.instantiate_row (t : Triple) : Triple.any.instantiate t.row = t := by
  obtain ⟨hs, hp, ho⟩ := t.get?_row
  unfold Triple.instantiate Triple.any
  rw [Term.instantiate_var hs, Term.instantiate_var hp, Term.instantiate_var ho]

theorem Rule.holding_isData {l : List Triple} (h : ∀ t ∈ l, t.IsGround) :
    (Rule.holding l).IsData ⟨[], .ofList (l.map Triple.row)⟩ := by
  refine ⟨rfl, rfl, fun row hrow v hv => ?_⟩
  obtain ⟨t, ht, rfl⟩ := List.mem_map.1 (InsertionSet.mem_ofList.1 hrow)
  obtain ⟨u, hu, hvu⟩ := Pattern.mem_vars.1 hv
  rw [SortedSet.mem_singleton.1 hu] at hvu
  exact Triple.get?_of_instantiate (by rw [t.instantiate_row]; exact h t ht) hvu

theorem Rule.derivable_of_holding {rules : List Rule} {l : List Triple} {t : Triple} (hr : Rule.holding l ∈ rules)
    (h : ∀ t ∈ l, t.IsGround) (ht : t ∈ l) : Derivable rules t := by
  have hrow := Derivable.row hr (Rule.holding_isData h) (InsertionSet.mem_ofList.2 (List.mem_map_of_mem ht))
    (SortedSet.mem_singleton.2 rfl)
  rwa [t.instantiate_row] at hrow

end TripleChain
