import TripleChain.Proofs.Consequence
import TripleChain.Proofs.Unification
/-!
# What seems to follow

The chaining does not compare every triple of an antecedent with what comes in. A triple without variables
only has to be matched by something (`Coverable`), as long as another triple of the antecedent comes in
(`Pattern.Enough`). `Apparent` is what follows from rules that are read in this way. It includes all that
follows (`Derivable.apparent`), and more where a ground triple stands next to others.

`Sustains` says that a set of triples has all that rules lead to from inputs of which enough is in the set.
-/

namespace TripleChain

/-- The triple is matched by what some rule can give. -/
def Coverable (rules : List Rule) (a : Triple) : Prop :=
  ∃ r ∈ rules, r.isProactive = false ∧ ∃ u ∈ r.consequent, (a.unify? u).isSome = true

/-- All triples with variables come in, and of a pattern that is not empty some triple does. -/
structure Pattern.Enough (p : Pattern) (comes : Triple → Prop) : Prop where
  vars : ∀ a ∈ p, a.hasVariables = true → comes a
  some : p.isEmpty = true ∨ ∃ a ∈ p, comes a

/-- The triples that follow from rules, as far as the chaining looks. -/
inductive Apparent (rules : List Rule) : Triple → Prop
  | copy {r : Rule} {b : Binding} {t : Triple} {comes : Triple → Prop} (mem : r ∈ rules) (copies : r.IsCopy)
      (covered : ∀ a ∈ r.antecedent, Coverable rules a) (enough : r.antecedent.Enough comes)
      (premises : ∀ a ∈ r.antecedent, comes a → Apparent rules (a.instantiate b)) (ht : t ∈ r.consequent) :
      Apparent rules (t.instantiate b)
  | row {r : Rule} {tab : Table} {b : Binding} {t : Triple} (mem : r ∈ rules) (holds : r.IsData tab)
      (hb : b ∈ tab.rows) (ht : t ∈ r.consequent) : Apparent rules (t.instantiate b)

section

variable {rules : List Rule} {p : Pattern} {b : Binding} {comes : Triple → Prop} {t : Triple}

theorem Rule.IsCopy.isProactive {r : Rule} (h : r.IsCopy) : r.isProactive = false := by
  rw [Rule.isProactive, h.role]

theorem Rule.IsData.isProactive {r : Rule} {tab : Table} (h : r.IsData tab) : r.isProactive = false := by
  rw [Rule.isProactive, h.role]

/-- The whole pattern is enough. -/
theorem Pattern.enough_of_all (h : ∀ a ∈ p, comes a) : p.Enough comes := by
  refine ⟨fun a ha _ => h a ha, ?_⟩
  cases he : p.isEmpty with
  | true => exact .inl rfl
  | false =>
    obtain ⟨a, ha⟩ := SortedSet.exists_mem he
    exact .inr ⟨a, ha, h a ha⟩

/-- Enough of a pattern leaves no variable open. -/
theorem Pattern.Enough.isGround (h : p.Enough comes) (hb : ∀ a ∈ p, comes a → (a.instantiate b).IsGround) :
    ∀ a ∈ p, (a.instantiate b).IsGround := by
  intro a ha
  cases hv : a.hasVariables with
  | true => exact hb a ha (h.vars a ha hv)
  | false =>
    have hg := Triple.isGround_iff.2 hv
    rwa [Triple.instantiate_of_ground b hg]

theorem Coverable.of_instance {r : Rule} {a u : Triple} {c : Binding} (hr : r ∈ rules) (hp : r.isProactive = false)
    (hu : u ∈ r.consequent) (h : a.instantiate b = u.instantiate c) : Coverable rules a :=
  ⟨r, hr, hp, u, hu, Option.isSome_iff_exists.2 (Triple.unify?_isSome h)⟩

theorem Derivable.coverable {a : Triple} (h : Derivable rules (a.instantiate b)) : Coverable rules a := by
  generalize heq : a.instantiate b = t at h
  cases h with
  | copy hr hc _ hu => exact .of_instance hr hc.isProactive hu heq
  | row hr hd _ hu => exact .of_instance hr hd.isProactive hu heq

/-- Whatever follows seems to follow. -/
theorem Derivable.apparent (h : Derivable rules t) : Apparent rules t := by
  induction h with
  | copy hr hc hp hu ih =>
    exact .copy hr hc (fun a ha => (hp a ha).coverable)
      (show Pattern.Enough _ fun _ => True from Pattern.enough_of_all fun _ _ => trivial) (fun a ha _ => ih a ha) hu
  | row hr hd hb hu => exact .row hr hd hb hu

theorem Apparent.isGround (h : Apparent rules t) : t.IsGround := by
  induction h with
  | copy _ hc _ henough _ hu ih =>
    refine Triple.isGround_instantiate fun v hv => ?_
    obtain ⟨a, ha, hva⟩ := Pattern.mem_vars.1 (hc.vars v (Pattern.mem_vars.2 ⟨_, hu, hv⟩))
    exact Triple.get?_of_instantiate (henough.isGround ih a ha) hva
  | row _ hd hb hu =>
    exact Triple.isGround_instantiate fun v hv => hd.ground _ hb v (Pattern.mem_vars.2 ⟨_, hu, hv⟩)

end

/-! ## Sets that the chaining does not leave -/

/-- What a binding of an antecedent that goes into a handler says: it binds the variables of the antecedent, every
triple is covered, and enough of the antecedent is in the set, all of it where every match covers all. -/
structure Admits (rules : List Rule) (strategy : Strategy) (T : Triple → Prop) (p : Pattern) (b : Binding) : Prop where
  binds : p.isEmpty = false → b.Over p.vars
  covered : ∀ a ∈ p, Coverable rules a
  enough : p.Enough fun a => T (a.instantiate b)
  full : strategy = .full → ∀ a ∈ p, T (a.instantiate b)

/-- Of an empty antecedent anything is enough. -/
theorem Admits.of_isEmpty {rules : List Rule} {strategy : Strategy} {T : Triple → Prop} {p : Pattern}
    (h : p.isEmpty = true) (b : Binding) : Admits rules strategy T p b := by
  have hno (a : Triple) : a ∉ p := by
    rw [SortedSet.isEmpty_iff.1 h]
    exact SortedSet.not_mem_emptyCollection a
  exact ⟨by simp [h], fun a ha => absurd ha (hno a), ⟨fun a ha => absurd ha (hno a), .inl h⟩,
    fun _ a ha => absurd ha (hno a)⟩

/-- Whatever rules make of inputs of which enough is in the set is in the set. All its triples are ground. -/
structure Sustains (rules : List Rule) (strategy : Strategy) (T : Triple → Prop) : Prop where
  ground : ∀ t, T t → t.IsGround
  copy : ∀ r ∈ rules, r.IsCopy → ∀ b : Binding, Admits rules strategy T r.antecedent b →
    ∀ t ∈ r.consequent, T (t.instantiate b)
  row : ∀ r ∈ rules, ∀ tab, r.IsData tab → ∀ b ∈ tab.rows, ∀ t ∈ r.consequent, T (t.instantiate b)

theorem apparent_sustains (rules : List Rule) (strategy : Strategy) : Sustains rules strategy (Apparent rules) where
  ground _ h := h.isGround
  copy _ hr hc _ hb _ ht := .copy hr hc hb.covered hb.enough (fun _ _ h => h) ht
  row _ hr _ hd _ hb _ ht := .row hr hd hb ht

end TripleChain
