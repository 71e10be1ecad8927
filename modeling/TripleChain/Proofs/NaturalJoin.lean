import TripleChain.Proofs.Instance
/-!
# Merging binding sets is a natural join

Two bindings merge when they agree on the variables that both bind, to the binding of all that either binds
(`Binding.merge?_iff`). A merged binding agrees with a third just when both of its parts do, so that three bindings are
joined when any two of them agree, in whatever order (`BindingSet.mem_merge_merge`). The laws of the natural join
follow from which bindings are in a merge (`BindingSet.merge_is_natural_join`).
-/

namespace TripleChain

namespace Binding

variable {a b c x y : Binding}

/-- The two give one term to every variable that both bind. -/
def Agree (a b : Binding) : Prop := ∀ v t u, a.get? v = some t → b.get? v = some u → t = u

/-- The binding binds what either of the two binds, and nothing else. -/
def IsUnion (x a b : Binding) : Prop := ∀ v t, x.get? v = some t ↔ a.get? v = some t ∨ b.get? v = some t

theorem Agree.symm (h : a.Agree b) : b.Agree a := fun v t u ht hu => (h v u t hu ht).symm

theorem IsUnion.symm (h : x.IsUnion a b) : x.IsUnion b a := fun v t => (h v t).trans or_comm

/-- Bindings have one union. -/
theorem IsUnion.ext (hx : x.IsUnion a b) (hy : y.IsUnion a b) : x = y :=
  ext_get? fun v => Option.ext fun t => (hx v t).trans (hy v t).symm

/-- Parts agree with a binding just when their union does. -/
theorem IsUnion.agree_iff (h : x.IsUnion a b) : x.Agree c ↔ a.Agree c ∧ b.Agree c := by
  constructor
  · exact fun hx => ⟨fun v t u ht => hx v t u ((h v t).2 (.inl ht)), fun v t u ht => hx v t u ((h v t).2 (.inr ht))⟩
  · rintro ⟨hac, hbc⟩ v t u ht
    exact ((h v t).1 ht).elim (hac v t u) (hbc v t u)

/-- The empty binding adds nothing. -/
theorem isUnion_empty : x.IsUnion a ∅ ↔ x = a := by
  have hnone (v : Variable) (t : Term) : (∅ : Binding).get? v ≠ some t := nofun
  have hself : a.IsUnion a ∅ := fun v t => (or_iff_left (hnone v t)).symm
  constructor
  · exact fun hx => hx.ext hself
  · rintro rfl
    exact hself

/-- The entries of a second binding under variables that the first leaves free. -/
def additions (a b : Binding) : List (Variable × Term) := b.entries.filter fun e => !a.values.contains e.1

theorem mem_additions {e : Variable × Term} : e ∈ a.additions b ↔ e ∈ b.entries ∧ ¬ ∃ u, a.get? e.1 = some u := by
  rw [additions, List.mem_filter, Bool.not_eq_true', ← Bool.not_eq_true, SortedMap.contains_iff]
  rfl

/-- What a merge adds to the first binding are the entries of the second under variables that the first leaves free. -/
theorem exists_merge? (hab : a.Agree b) : ∃ y, a.merge? b = some y ∧ y.IsUnion a b := by
  have honce : ∀ e ∈ a.additions b, ∀ e' ∈ a.additions b, e.1 = e'.1 → e = e' := fun e he e' he' =>
    SortedMap.eq_of_key_eq (mem_additions.1 he).1 (mem_additions.1 he').1
  refine ⟨⟨a.values.insertAll (a.additions b)⟩, if_pos (compatible_iff.2 hab), fun v t => ?_⟩
  have hapart : (v, t) ∈ a.values.entries → ∀ e ∈ a.additions b, e.1 ≠ v := fun ha e he heq =>
    (mem_additions.1 he).2 ⟨t, heq ▸ mem_entries.1 ha⟩
  rw [get?, SortedMap.get?_eq_some_iff, SortedMap.mem_entries_insertAll honce, and_iff_right_of_imp hapart,
    mem_additions, mem_entries, ← SortedMap.get?_eq_some_iff, or_comm]
  refine or_congr_right' fun hfree => and_iff_left_of_imp fun hb => ?_
  rintro ⟨u, hu⟩
  exact hfree (hab v u t hu hb ▸ hu)

/-- Bindings that agree merge, to their union, and others do not. -/
theorem merge?_iff : a.merge? b = some x ↔ a.Agree b ∧ x.IsUnion a b := by
  constructor
  · intro h
    have hab : a.Agree b := by
      unfold merge? at h
      split at h
      · next hcompatible => exact compatible_iff.1 hcompatible
      · cases h
    obtain ⟨y, hy, hunion⟩ := exists_merge? hab
    obtain rfl : y = x := Option.some.inj (hy.symm.trans h)
    exact ⟨hab, hunion⟩
  · rintro ⟨hab, hunion⟩
    obtain ⟨y, hy, hunion'⟩ := exists_merge? hab
    rw [hy, hunion.ext hunion']

end Binding

namespace BindingSet

variable {A B C : BindingSet} {x : Binding}

theorem mem_merge : x ∈ A.merge B ↔ ∃ a ∈ A, ∃ b ∈ B, a.Agree b ∧ x.IsUnion a b := by
  rw [merge, InsertionSet.mem_ofList]
  simp only [List.mem_flatMap, List.mem_filterMap, Binding.merge?_iff]
  rfl

theorem merge_comm (A B : BindingSet) : (A.merge B).Equiv (B.merge A) := by
  have hsub {A B : BindingSet} {x : Binding} (h : x ∈ A.merge B) : x ∈ B.merge A := by
    obtain ⟨a, ha, b, hb, hab, hx⟩ := mem_merge.1 h
    exact mem_merge.2 ⟨b, hb, a, ha, hab.symm, hx.symm⟩
  exact fun x => ⟨hsub, hsub⟩

/-- Three bindings are joined where any two of them agree. -/
theorem mem_merge_merge : x ∈ (A.merge B).merge C ↔ ∃ a ∈ A, ∃ b ∈ B, ∃ c ∈ C, (a.Agree b ∧ a.Agree c ∧ b.Agree c) ∧
    ∀ v t, x.get? v = some t ↔ a.get? v = some t ∨ b.get? v = some t ∨ c.get? v = some t := by
  rw [mem_merge]
  constructor
  · rintro ⟨y, hy, c, hc, hyc, hx⟩
    obtain ⟨a, ha, b, hb, hab, hunion⟩ := mem_merge.1 hy
    obtain ⟨hac, hbc⟩ := hunion.agree_iff.1 hyc
    exact ⟨a, ha, b, hb, c, hc, ⟨hab, hac, hbc⟩, fun v t => by rw [hx, hunion, or_assoc]⟩
  · rintro ⟨a, ha, b, hb, c, hc, ⟨hab, hac, hbc⟩, hx⟩
    obtain ⟨y, _, hunion⟩ := Binding.exists_merge? hab
    exact ⟨y, mem_merge.2 ⟨a, ha, b, hb, hab, hunion⟩, c, hc, hunion.agree_iff.2 ⟨hac, hbc⟩,
      fun v t => by rw [hx, hunion, or_assoc]⟩

theorem merge_assoc (A B C : BindingSet) : ((A.merge B).merge C).Equiv (A.merge (B.merge C)) := by
  -- What is said of three bindings is said of them in any order.
  have hrotate (x : Binding) : x ∈ (A.merge B).merge C ↔ x ∈ (B.merge C).merge A := by
    rw [mem_merge_merge, mem_merge_merge]
    constructor
    · rintro ⟨a, ha, b, hb, c, hc, ⟨hab, hac, hbc⟩, hx⟩
      exact ⟨b, hb, c, hc, a, ha, ⟨hbc, hab.symm, hac.symm⟩, fun v t => (hx v t).trans or_rotate⟩
    · rintro ⟨b, hb, c, hc, a, ha, ⟨hbc, hba, hca⟩, hx⟩
      exact ⟨a, ha, b, hb, c, hc, ⟨hba.symm, hca.symm, hbc⟩, fun v t => (hx v t).trans or_rotate.symm⟩
  exact fun x => (hrotate x).trans (merge_comm (B.merge C) A x)

theorem merge_singleton_empty (A : BindingSet) : (A.merge (.singleton ∅)).Equiv A := by
  intro x
  rw [mem_merge]
  constructor
  · rintro ⟨a, ha, _, hb, _, hx⟩
    obtain rfl := InsertionSet.mem_singleton.1 hb
    rwa [Binding.isUnion_empty.1 hx]
  · exact fun hx => ⟨x, hx, ∅, InsertionSet.mem_singleton.2 rfl, fun v t u _ hu => (nomatch hu),
      Binding.isUnion_empty.2 rfl⟩

theorem merge_empty (A : BindingSet) : (A.merge ∅).Equiv ∅ := by
  intro x
  refine iff_of_false (fun hx => ?_) (InsertionSet.not_mem_emptyCollection x)
  obtain ⟨_, _, b, hb, _⟩ := mem_merge.1 hx
  exact InsertionSet.not_mem_emptyCollection b hb

theorem merge_union (A B C : BindingSet) : (A.merge (B.union C)).Equiv ((A.merge B).union (A.merge C)) := by
  intro x
  rw [InsertionSet.mem_union, mem_merge, mem_merge, mem_merge]
  simp only [InsertionSet.mem_union, or_and_right, exists_or, and_or_left]

theorem union_merge (A B C : BindingSet) : (merge (A.union B) C).Equiv ((A.merge C).union (B.merge C)) := by
  intro x
  rw [merge_comm (A.union B) C x, merge_union C A B x, InsertionSet.mem_union, InsertionSet.mem_union,
    merge_comm C A x, merge_comm C B x]

/-- Merging is the natural join. Taken as sets, in whatever order, it is commutative and associative, the set of the
empty binding alone is neutral, the empty set leaves nothing, and it distributes over unions. What is in a merge are the
unions of a binding of either set, where the two agree on all variables that both bind. -/
theorem merge_is_natural_join (A B C : BindingSet) :
    (A.merge B).Equiv (B.merge A) ∧ ((A.merge B).merge C).Equiv (A.merge (B.merge C)) ∧
      ((A.merge (.singleton ∅)).Equiv A ∧ (merge (.singleton ∅) A).Equiv A) ∧
      ((A.merge ∅).Equiv ∅ ∧ (merge ∅ A).Equiv ∅) ∧
      ((A.merge (B.union C)).Equiv ((A.merge B).union (A.merge C)) ∧
        (merge (A.union B) C).Equiv ((A.merge C).union (B.merge C))) ∧
      ∀ x, x ∈ A.merge B ↔ ∃ a ∈ A, ∃ b ∈ B, a.Agree b ∧ x.IsUnion a b :=
  ⟨merge_comm A B, merge_assoc A B C,
    ⟨merge_singleton_empty A, fun x => (merge_comm _ A x).trans (merge_singleton_empty A x)⟩,
    ⟨merge_empty A, fun x => (merge_comm _ A x).trans (merge_empty A x)⟩,
    ⟨merge_union A B C, union_merge A B C⟩, fun _ => mem_merge⟩

example :
    let homes : BindingSet :=
      .ofList [.ofList [(⟨"x"⟩, .iri "ann"), (⟨"y"⟩, .iri "delft")], .ofList [(⟨"y"⟩, .iri "leiden")]]
    let lords : BindingSet := .ofList [.ofList [(⟨"y"⟩, .iri "delft"), (⟨"z"⟩, .iri "bob")]]
    (homes.merge lords).toList =
      [.ofList [(⟨"x"⟩, .iri "ann"), (⟨"y"⟩, .iri "delft"), (⟨"z"⟩, .iri "bob")]] := by decide

end BindingSet

end TripleChain
