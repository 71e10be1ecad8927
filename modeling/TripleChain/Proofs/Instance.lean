import TripleChain.Binding
import TripleChain.Proofs.Collections
/-!
# Instances of triples

A binding turns a triple into an instance of it: every bound variable becomes the term it is bound to. An
instance without variables is a ground triple, and what rules lead to is said about ground triples only.
-/

open Std

namespace TripleChain

/-! ## Bindings by their look-ups -/

namespace Binding

theorem ext_get? {a b : Binding} (h : ∀ v, a.get? v = b.get? v) : a = b := by
  have hv : a.values = b.values := SortedMap.ext_get? h
  cases a; cases b; simp_all

theorem mem_entries {b : Binding} {v : Variable} {t : Term} : (v, t) ∈ b.entries ↔ b.get? v = some t :=
  SortedMap.get?_eq_some_iff.symm

theorem mem_vars {b : Binding} {v : Variable} : v ∈ b.vars ↔ ∃ t, b.get? v = some t := SortedMap.mem_keys

theorem compatible_iff {a b : Binding} :
    a.compatible b = true ↔ ∀ v t u, a.get? v = some t → b.get? v = some u → t = u := by
  simp only [compatible, List.all_eq_true, Prod.forall, mem_entries]
  constructor
  · intro h v t u ha hb
    have := h v t ha
    rw [hb] at this
    exact (beq_iff_eq.1 this).symm
  · intro h v t ha
    cases hb : b.get? v with
    | none => rfl
    | some u => simp [h v t u ha hb]

theorem get?_restrict {b : Binding} {vars : SortedSet Variable} {v : Variable} :
    (b.restrict vars).get? v = if v ∈ vars then b.get? v else none := by
  apply Option.ext
  intro t
  simp only [← mem_entries, entries, restrict, SortedMap.filter, List.mem_filter, SortedSet.contains_iff]
  by_cases h : v ∈ vars
  · rw [if_pos h]
    simp [h, get?, SortedMap.get?_eq_some_iff]
  · simp [h]

/-- The binding binds exactly the given variables. -/
def Over (b : Binding) (vars : SortedSet Variable) : Prop := ∀ v, (b.get? v).isSome = true ↔ v ∈ vars

instance (b : Binding) (vars : SortedSet Variable) : Decidable (b.Over vars) :=
  decidable_of_iff ((∀ v ∈ b.vars, v ∈ vars.toList) ∧ ∀ v ∈ vars.toList, v ∈ b.vars) <| by
    simp only [Over, Option.isSome_iff_exists, ← mem_vars]
    exact ⟨fun h v => ⟨h.1 v, h.2 v⟩, fun h => ⟨fun v => (h v).1, fun v => (h v).2⟩⟩

/-- Whatever `a` binds, `b` binds to the same term. -/
def Extends (b a : Binding) : Prop := ∀ v t, a.get? v = some t → b.get? v = some t

theorem Extends.compatible {a b : Binding} (h : b.Extends a) : b.compatible a = true :=
  compatible_iff.2 fun v t u hb ha => by
    rw [h v u ha] at hb
    exact (Option.some.inj hb).symm

/-- A compatible binding of some of the variables is a part. -/
theorem extends_of_compatible {a b : Binding} {vars : SortedSet Variable} (hb : b.Over vars)
    (ha : ∀ v ∈ a.vars, v ∈ vars) (h : b.compatible a = true) : b.Extends a := by
  intro v t hv
  obtain ⟨u, hu⟩ := Option.isSome_iff_exists.1 ((hb v).2 (ha v (mem_vars.2 ⟨t, hv⟩)))
  rw [hu, compatible_iff.1 h v u t hu hv]

end Binding

/-! ## Triples by their places -/

namespace Triple

theorem ext_term {p q : Triple} (h : ∀ i, p.term i = q.term i) : p = q := by
  have hs := h .subject
  have hp := h .predicate
  have ho := h .object
  cases p; cases q
  simp only [term] at hs hp ho
  rw [hs, hp, ho]

theorem mem_terms {t : Triple} {x : Term} : x ∈ t.terms ↔ ∃ i, t.term i = x := by
  simp only [terms, List.mem_map]
  constructor
  · rintro ⟨i, _, h⟩
    exact ⟨i, h⟩
  · rintro ⟨i, h⟩
    exact ⟨i, Position.mem_all i, h⟩

end Triple

theorem Term.isVariable_iff {t : Term} : t.isVariable = true ↔ ∃ v, t = .var v := by
  cases t <;> simp [isVariable]

theorem Term.toVariable?_eq_some {t : Term} {v : Variable} : t.toVariable? = some v ↔ t = .var v := by
  cases t <;> simp [toVariable?]

theorem Term.toVariable?_eq_none {t : Term} : t.toVariable? = none ↔ t.isVariable = false := by
  cases t <;> simp [toVariable?, isVariable]

namespace Triple

theorem mem_vars {t : Triple} {v : Variable} : v ∈ t.vars ↔ ∃ i, t.term i = .var v := by
  simp only [vars, SortedSet.mem_ofList, List.mem_filterMap, Term.toVariable?_eq_some, mem_terms]
  constructor
  · rintro ⟨_, ⟨i, rfl⟩, h⟩
    exact ⟨i, h⟩
  · rintro ⟨i, h⟩
    exact ⟨_, ⟨i, rfl⟩, h⟩

theorem mem_variableSites {t : Triple} {s : Site} :
    s ∈ t.variableSites ↔ s.triple = t ∧ s.term.isVariable = true := by
  simp only [variableSites, variablePositions, List.mem_map, List.mem_filter]
  constructor
  · rintro ⟨i, ⟨_, hi⟩, rfl⟩
    exact ⟨rfl, hi⟩
  · rintro ⟨rfl, hv⟩
    exact ⟨s.position, ⟨Position.mem_all _, hv⟩, rfl⟩

/-- No place holds a variable. -/
def IsGround (t : Triple) : Prop := ∀ i, (t.term i).isVariable = false

theorem isGround_iff {t : Triple} : t.IsGround ↔ t.hasVariables = false := by
  rw [← Bool.not_eq_true, hasVariables, List.any_eq_true]
  constructor
  · rintro h ⟨x, hx, hv⟩
    obtain ⟨i, rfl⟩ := mem_terms.1 hx
    rw [h i] at hv
    cases hv
  · intro h i
    rw [← Bool.not_eq_true]
    exact fun hv => h ⟨_, mem_terms.2 ⟨i, rfl⟩, hv⟩

instance (t : Triple) : Decidable t.IsGround := decidable_of_iff _ isGround_iff.symm

end Triple

namespace Pattern

theorem mem_vars {p : Pattern} {v : Variable} : v ∈ p.vars ↔ ∃ t ∈ p, v ∈ t.vars := by
  rw [vars, SortedSet.mem_ofList, List.mem_flatMap]
  rfl

end Pattern

/-! ## Instances -/

/-- The term with a bound variable replaced. -/
def Term.instantiate (b : Binding) : Term → Term
  | .var v => (b.get? v).getD (.var v)
  | t => t

/-- The triple with all bound variables replaced. -/
def Triple.instantiate (b : Binding) (t : Triple) : Triple :=
  ⟨t.subject.instantiate b, t.predicate.instantiate b, t.object.instantiate b⟩

theorem Term.instantiate_of_ground {t : Term} (b : Binding) (h : t.isVariable = false) : t.instantiate b = t := by
  cases t with
  | iri | literal => rfl
  | var v => cases h

theorem Term.instantiate_var {b : Binding} {v : Variable} {t : Term} (h : b.get? v = some t) :
    (Term.var v).instantiate b = t := by
  simp [instantiate, h]

/-- Only a variable that is bound has a ground instance. -/
theorem Term.get?_of_instantiate {b : Binding} {v : Variable} (h : ((Term.var v).instantiate b).isVariable = false) :
    b.get? v = some ((Term.var v).instantiate b) := by
  cases hv : b.get? v with
  | none =>
    rw [instantiate, hv] at h
    cases h
  | some t => rw [instantiate_var hv]

namespace Triple

@[simp] theorem term_instantiate (b : Binding) (t : Triple) (i : Position) :
    (t.instantiate b).term i = (t.term i).instantiate b := by
  cases i <;> rfl

theorem instantiate_of_ground {t : Triple} (b : Binding) (h : t.IsGround) : t.instantiate b = t :=
  ext_term fun i => by rw [term_instantiate, Term.instantiate_of_ground b (h i)]

/-- Bindings that agree on the variables of a triple give the same instance. -/
theorem instantiate_congr {t : Triple} {a b : Binding} (h : ∀ v ∈ t.vars, a.get? v = b.get? v) :
    t.instantiate a = t.instantiate b := by
  refine ext_term fun i => ?_
  rw [term_instantiate, term_instantiate]
  cases ht : t.term i with
  | iri | literal => rfl
  | var v => rw [Term.instantiate, Term.instantiate, h v (mem_vars.2 ⟨i, ht⟩)]

theorem get?_of_instantiate {t : Triple} {b : Binding} {v : Variable} (h : (t.instantiate b).IsGround)
    (hv : v ∈ t.vars) : ∃ u, b.get? v = some u ∧ u.isVariable = false := by
  obtain ⟨i, hi⟩ := mem_vars.1 hv
  have hg := h i
  rw [term_instantiate, hi] at hg
  exact ⟨_, Term.get?_of_instantiate hg, hg⟩

theorem isGround_instantiate {t : Triple} {b : Binding}
    (h : ∀ v ∈ t.vars, ∃ u, b.get? v = some u ∧ u.isVariable = false) : (t.instantiate b).IsGround := by
  intro i
  rw [term_instantiate]
  cases ht : t.term i with
  | iri | literal => rfl
  | var v =>
    obtain ⟨u, hu, hg⟩ := h v (mem_vars.2 ⟨i, ht⟩)
    rw [Term.instantiate_var hu, hg]

theorem instantiate_restrict {t : Triple} {b : Binding} {vars : SortedSet Variable} (h : ∀ v ∈ t.vars, v ∈ vars) :
    t.instantiate (b.restrict vars) = t.instantiate b :=
  instantiate_congr fun v hv => by rw [Binding.get?_restrict, if_pos (h v hv)]

end Triple

/-- A binding cut down to the variables of a pattern that it makes ground binds just these. -/
theorem Pattern.over_restrict {p : Pattern} {b : Binding} (h : ∀ t ∈ p, (t.instantiate b).IsGround) :
    (b.restrict p.vars).Over p.vars := by
  intro v
  rw [Binding.get?_restrict]
  constructor
  · intro hv
    split at hv
    · assumption
    · cases hv
  · intro hv
    obtain ⟨t, ht, hvt⟩ := mem_vars.1 hv
    obtain ⟨u, hu, _⟩ := Triple.get?_of_instantiate (h t ht) hvt
    rw [if_pos hv, hu]
    rfl

end TripleChain
