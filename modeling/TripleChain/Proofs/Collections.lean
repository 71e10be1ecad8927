import TripleChain.Data.SortedMap
import TripleChain.Data.SortedSet
import TripleChain.Data.InsertionSet
import Mathlib.Data.List.Nodup
import Mathlib.Data.List.Perm.Basic
import Mathlib.Tactic.ByContra
/-!
# What the collections hold

Sorted maps by their look-ups, sorted and insertion sets by their members. The development argues about
collections through these lemmas alone and never looks at the lists behind them.
-/

open Std

namespace TripleChain

/-! ## Sorted maps -/

namespace SortedMap

variable {α β : Type} [Ord α]

theorem isEmpty_iff {m : SortedMap α β} : m.isEmpty = true ↔ m = ∅ := by
  constructor
  · intro h
    exact ext_entries (List.isEmpty_iff.1 h)
  · rintro rfl
    rfl

theorem isEmpty_iff_get? [TransOrd α] [LawfulEqOrd α] {m : SortedMap α β} :
    m.isEmpty = true ↔ ∀ k, m.get? k = none := by
  rw [isEmpty_iff]
  constructor
  · rintro rfl k
    rfl
  · exact fun h => ext_get? fun k => h k

theorem contains_iff [TransOrd α] [LawfulEqOrd α] {m : SortedMap α β} {k : α} :
    m.contains k = true ↔ ∃ v, m.get? k = some v := by
  simp only [contains, List.any_eq_true, beq_iff_eq, Std.compare_eq_iff_eq, get?_eq_some_iff]
  constructor
  · rintro ⟨e, he, rfl⟩
    exact ⟨e.2, he⟩
  · rintro ⟨v, hv⟩
    exact ⟨_, hv, rfl⟩

theorem mem_keys [TransOrd α] [LawfulEqOrd α] {m : SortedMap α β} {k : α} :
    k ∈ m.keys ↔ ∃ v, m.get? k = some v := by
  simp only [keys, List.mem_map, get?_eq_some_iff]
  constructor
  · rintro ⟨e, he, rfl⟩
    exact ⟨e.2, he⟩
  · rintro ⟨v, hv⟩
    exact ⟨_, hv, rfl⟩

theorem nodup_keys [LawfulEqOrd α] (m : SortedMap α β) : m.keys.Nodup :=
  List.pairwise_map.2 <| m.ascending.imp fun hab heq => by
    rw [heq] at hab
    simp at hab

theorem get?_insert_self [TransOrd α] (m : SortedMap α β) (k : α) (v : β) : (m.insert k v).get? k = some v := by
  simp [get?_insert]

theorem get?_insert_of_ne [TransOrd α] [LawfulEqOrd α] (m : SortedMap α β) {k x : α} (v : β) (h : k ≠ x) :
    (m.insert k v).get? x = m.get? x := by
  simp [get?_insert, h]

theorem mem_entries_insert [TransOrd α] [LawfulEqOrd α] {m : SortedMap α β} {k : α} {v : β} {e : α × β} :
    e ∈ (m.insert k v).entries ↔ e = (k, v) ∨ e.1 ≠ k ∧ e ∈ m.entries := by
  obtain ⟨x, w⟩ := e
  rw [← get?_eq_some_iff, ← get?_eq_some_iff, get?_insert]
  by_cases h : k = x
  · subst h
    simp [eq_comm]
  · simp [h, Ne.symm h]

theorem mem_of_mem_insertAll [TransOrd α] {m : SortedMap α β} {l : List (α × β)} {e : α × β}
    (h : e ∈ (m.insertAll l).entries) : e ∈ m.entries ∨ e ∈ l := by
  induction l generalizing m with
  | nil => exact .inl h
  | cons a l ih =>
    rcases ih (m := m.insert a.1 a.2) h with h | h
    · rcases key_of_mem_insertEntry h with h | h
      · exact .inr (h ▸ List.mem_cons_self)
      · exact .inl h
    · exact .inr (List.mem_cons_of_mem a h)

theorem mem_of_mem_ofList [TransOrd α] {l : List (α × β)} {e : α × β} (h : e ∈ (ofList l).entries) : e ∈ l := by
  rcases mem_of_mem_insertAll h with h | h
  · cases h
  · exact h

/-- Of entries without two for one key all are stored, in place of what was stored under their keys. -/
theorem mem_entries_insertAll [TransOrd α] [LawfulEqOrd α] {m : SortedMap α β} {l : List (α × β)}
    (h : ∀ e ∈ l, ∀ e' ∈ l, e.1 = e'.1 → e = e') {x : α × β} :
    x ∈ (m.insertAll l).entries ↔ x ∈ l ∨ (∀ e ∈ l, e.1 ≠ x.1) ∧ x ∈ m.entries := by
  induction l generalizing m with
  | nil => simp [insertAll]
  | cons a l ih =>
    have hstep : m.insertAll (a :: l) = (m.insert a.1 a.2).insertAll l := rfl
    rw [hstep, ih fun e he e' he' => h e (List.mem_cons_of_mem a he) e' (List.mem_cons_of_mem a he'),
      mem_entries_insert, List.mem_cons, List.forall_mem_cons]
    constructor
    · rintro (hx | ⟨hno, rfl | ⟨hne, hx⟩⟩)
      · exact .inl (.inr hx)
      · exact .inl (.inl rfl)
      · exact .inr ⟨⟨Ne.symm hne, hno⟩, hx⟩
    · rintro ((rfl | hx) | ⟨⟨hne, hno⟩, hx⟩)
      · -- The first entry stays unless the same entry comes again.
        by_cases hl : x ∈ l
        · exact .inl hl
        · refine .inr ⟨fun e he heq => hl ?_, .inl rfl⟩
          rwa [← h e (List.mem_cons_of_mem x he) x List.mem_cons_self heq]
      · exact .inl hx
      · exact .inr ⟨hno, .inr ⟨Ne.symm hne, hx⟩⟩

theorem mem_entries_ofList [TransOrd α] [LawfulEqOrd α] {l : List (α × β)} (h : ∀ e ∈ l, ∀ e' ∈ l, e.1 = e'.1 → e = e')
    {x : α × β} : x ∈ (ofList l).entries ↔ x ∈ l := by
  have hempty : x ∉ (empty : SortedMap α β).entries := List.not_mem_nil
  rw [ofList, mem_entries_insertAll h]
  exact or_iff_left fun hx => hempty hx.2

theorem insertAll_append [TransOrd α] (m : SortedMap α β) (l l' : List (α × β)) :
    m.insertAll (l ++ l') = (m.insertAll l).insertAll l' := List.foldl_append

/-- Where each number may add an entry, the last to add one under a key decides. -/
theorem get?_ofList_range [TransOrd α] [LawfulEqOrd α] {f : Nat → Option (α × β)} {n : Nat} {k : α} {v : β} :
    (ofList ((List.range n).filterMap f)).get? k = some v ↔
      ∃ i < n, f i = some (k, v) ∧ ∀ j < n, ∀ w, f j = some (k, w) → j ≤ i := by
  induction n with
  | zero => simp [ofList, insertAll]
  | succ n ih =>
    have hstep : ofList ((List.range (n + 1)).filterMap f) =
        (ofList ((List.range n).filterMap f)).insertAll (f n).toList := by
      rw [ofList, List.range_succ, List.filterMap_append, insertAll_append]
      cases hf : f n <;> simp [hf] <;> rfl
    rw [hstep]
    by_cases hlast : ∃ w, f n = some (k, w)
    · obtain ⟨w, hw⟩ := hlast
      have hget : ((ofList ((List.range n).filterMap f)).insertAll (f n).toList).get? k = some w := by
        rw [hw]
        exact get?_insert_self _ k w
      rw [hget]
      constructor
      · rintro ⟨⟩
        exact ⟨n, Nat.lt_succ_self n, hw, fun j hj _ _ => Nat.le_of_lt_succ hj⟩
      · rintro ⟨i, hi, hv, hmax⟩
        have hin : i = n := Nat.le_antisymm (Nat.le_of_lt_succ hi) (hmax n (Nat.lt_succ_self n) w hw)
        rw [hin, hw] at hv
        exact congrArg some (Prod.mk.inj (Option.some.inj hv)).2
    · have hget : ((ofList ((List.range n).filterMap f)).insertAll (f n).toList).get? k =
          (ofList ((List.range n).filterMap f)).get? k := by
        cases hf : f n with
        | none => rfl
        | some e => exact get?_insert_of_ne _ e.2 fun he => hlast ⟨e.2, by rw [hf, ← he]⟩
      have hother {i : Nat} {w : β} (hi : i < n + 1) (hv : f i = some (k, w)) : i < n := by
        refine Nat.lt_of_le_of_ne (Nat.le_of_lt_succ hi) fun hin => hlast ⟨w, ?_⟩
        rw [← hin, hv]
      rw [hget, ih]
      constructor
      · rintro ⟨i, hi, hv, hmax⟩
        exact ⟨i, Nat.lt_succ_of_lt hi, hv, fun j hj w hw => hmax j (hother hj hw) w hw⟩
      · rintro ⟨i, hi, hv, hmax⟩
        exact ⟨i, hother hi hv, hv, fun j hj w hw => hmax j (Nat.lt_succ_of_lt hj) w hw⟩

/-- No key has two entries. -/
theorem eq_of_key_eq [TransOrd α] [LawfulEqOrd α] {m : SortedMap α β} {e e' : α × β} (h : e ∈ m.entries)
    (h' : e' ∈ m.entries) (hk : e.1 = e'.1) : e = e' := by
  have hv : m.get? e'.1 = some e.2 := hk ▸ get?_eq_some_iff.2 h
  rw [get?_eq_some_iff.2 h'] at hv
  exact Prod.ext hk (Option.some.inj hv).symm

theorem ext_mem [TransOrd α] [LawfulEqOrd α] {m n : SortedMap α β} (h : ∀ e, e ∈ m.entries ↔ e ∈ n.entries) : m = n :=
  ext_get? fun k => Option.ext fun v => by rw [get?_eq_some_iff, get?_eq_some_iff, h]

theorem any_iff [TransOrd α] [LawfulEqOrd α] {m : SortedMap α β} {p : α → β → Bool} :
    m.any p = true ↔ ∃ k v, m.get? k = some v ∧ p k v = true := by
  simp only [any, List.any_eq_true, get?_eq_some_iff, Prod.exists]

end SortedMap

/-! ## Sorted sets -/

namespace SortedSet

variable {α : Type} [Ord α]

theorem isEmpty_iff {s : SortedSet α} : s.isEmpty = true ↔ s = ∅ := by
  constructor
  · intro h
    exact ext_toList (List.isEmpty_iff.1 h)
  · rintro rfl
    rfl

@[simp] theorem not_mem_emptyCollection (a : α) : a ∉ (∅ : SortedSet α) := not_mem_empty a

theorem isEmpty_eq_false {s : SortedSet α} {a : α} (h : a ∈ s) : s.isEmpty = false := by
  rw [← Bool.not_eq_true, isEmpty_iff]
  rintro rfl
  exact not_mem_emptyCollection a h

theorem exists_mem {s : SortedSet α} (h : s.isEmpty = false) : ∃ a, a ∈ s := by
  obtain ⟨l, hl⟩ := s
  cases l with
  | nil => simp [isEmpty] at h
  | cons a l => exact ⟨a, List.mem_cons_self⟩

@[simp] theorem mem_singleton {a b : α} : b ∈ singleton a ↔ b = a := by simp [mem_def, singleton]

theorem eq_singleton_of_size_le {s : SortedSet α} {a : α} (h : s.size ≤ 1) (ha : a ∈ s) : s = singleton a := by
  obtain ⟨b, hb⟩ := List.length_eq_one_iff.1 (Nat.le_antisymm h (List.length_pos_of_mem ha))
  rw [mem_def, hb, List.mem_singleton] at ha
  exact ext_toList (hb.trans (congrArg (fun x => [x]) ha.symm))

theorem contains_iff [LawfulEqOrd α] {s : SortedSet α} {a : α} : s.contains a = true ↔ a ∈ s := by
  simp only [contains, List.any_eq_true, beq_iff_eq, Std.compare_eq_iff_eq, mem_def]
  constructor
  · rintro ⟨b, hb, rfl⟩
    exact hb
  · exact fun h => ⟨a, h, rfl⟩

theorem all_iff {s : SortedSet α} {p : α → Bool} : s.all p = true ↔ ∀ a ∈ s, p a = true := by
  simp [all, List.all_eq_true, mem_def]

theorem any_iff {s : SortedSet α} {p : α → Bool} : s.any p = true ↔ ∃ a ∈ s, p a = true := by
  simp [any, List.any_eq_true, mem_def]

theorem mem_of_mem_insertAll [TransOrd α] {s : SortedSet α} {l : List α} {x : α} (h : x ∈ s.insertAll l) :
    x ∈ s ∨ x ∈ l := by
  induction l generalizing s with
  | nil => exact .inl h
  | cons a l ih =>
    rcases ih (s := s.insert a) h with h | h
    · rcases mem_insertElement h with rfl | h
      · exact .inr List.mem_cons_self
      · exact .inl h
    · exact .inr (List.mem_cons_of_mem a h)

theorem mem_of_mem_ofList [TransOrd α] {l : List α} {x : α} (h : x ∈ ofList l) : x ∈ l := by
  rcases mem_of_mem_insertAll h with h | h
  · cases h
  · exact h

theorem mem_insertElement_of_mem {a x : α} {l : List α} (h : x ∈ l) : x ∈ insertElement a l := by
  induction l with
  | nil => cases h
  | cons b l ih =>
    rw [insertElement]
    split
    · exact List.mem_cons_of_mem a h
    · exact h
    · rcases List.mem_cons.1 h with rfl | h
      · exact List.mem_cons_self
      · exact List.mem_cons_of_mem b (ih h)

theorem exists_mem_insertElement [ReflOrd α] (a : α) (l : List α) :
    ∃ x ∈ insertElement a l, compare a x = .eq := by
  induction l with
  | nil => exact ⟨a, by simp [insertElement], ReflCmp.compare_self⟩
  | cons b l ih =>
    rw [insertElement]
    split
    · exact ⟨a, List.mem_cons_self, ReflCmp.compare_self⟩
    · next h => exact ⟨b, List.mem_cons_self, h⟩
    · obtain ⟨x, hx, h⟩ := ih
      exact ⟨x, List.mem_cons_of_mem b hx, h⟩

theorem mem_insertAll_of_mem [TransOrd α] {s : SortedSet α} {l : List α} {x : α} (h : x ∈ s) :
    x ∈ s.insertAll l := by
  induction l generalizing s with
  | nil => exact h
  | cons a l ih => exact ih (s := s.insert a) (mem_insertElement_of_mem h)

/-- Of the elements added, each has one that compares equal to it in the set, though perhaps not itself. -/
theorem exists_mem_insertAll [TransOrd α] {s : SortedSet α} {l : List α} {a : α} (h : a ∈ l) :
    ∃ x ∈ s.insertAll l, compare a x = .eq := by
  induction l generalizing s with
  | nil => cases h
  | cons b l ih =>
    rcases List.mem_cons.1 h with rfl | h
    · obtain ⟨x, hx, hc⟩ := exists_mem_insertElement a s.toList
      exact ⟨x, mem_insertAll_of_mem (s := s.insert a) hx, hc⟩
    · exact ih (s := s.insert b) h

theorem exists_mem_ofList [TransOrd α] {l : List α} {a : α} (h : a ∈ l) : ∃ x ∈ ofList l, compare a x = .eq :=
  exists_mem_insertAll h

/-- Where only one element of a kind compares equal to another of the kind, nothing that is added is lost. -/
theorem mem_insertAll_of_kind [TransOrd α] {P : α → Prop} (hP : ∀ a b, P a → P b → compare a b = .eq → a = b)
    {s : SortedSet α} {l : List α} (hs : ∀ a ∈ s, P a) (hl : ∀ a ∈ l, P a) {x : α} :
    x ∈ s.insertAll l ↔ x ∈ s ∨ x ∈ l := by
  refine ⟨mem_of_mem_insertAll, fun h => h.elim mem_insertAll_of_mem fun h => ?_⟩
  obtain ⟨y, hy, hc⟩ := exists_mem_insertAll (s := s) h
  have hPy : P y := (mem_of_mem_insertAll hy).elim (hs y) (hl y)
  rwa [hP x y (hl x h) hPy hc]

theorem nodup [ReflOrd α] (s : SortedSet α) : s.toList.Nodup :=
  s.ascending.imp fun {a b} hab heq => by
    subst heq
    rw [show compare a a = .eq from ReflCmp.compare_self] at hab
    cases hab

/-- Sets with the same members are equal. -/
theorem ext_mem [TransOrd α] {s t : SortedSet α} (h : ∀ a, a ∈ s ↔ a ∈ t) : s = t := by
  have hperm : s.toList.Perm t.toList := (List.perm_ext_iff_of_nodup s.nodup t.nodup).2 h
  refine ext_toList (hperm.eq_of_pairwise (fun a b _ _ hab hba => ?_) s.ascending t.ascending)
  rw [OrientedCmp.gt_of_lt hab] at hba
  cases hba

theorem ofList_toList [TransOrd α] [LawfulEqOrd α] (s : SortedSet α) : ofList s.toList = s :=
  ext_mem fun _ => mem_ofList

theorem size_le_of_subset [LawfulEqOrd α] {s : SortedSet α} {l : List α} (h : ∀ a ∈ s, a ∈ l) : s.size ≤ l.length :=
  (List.subperm_of_subset s.nodup h).length_le

theorem size_lt_of_mem [LawfulEqOrd α] {s t : SortedSet α} (h : ∀ a ∈ s, a ∈ t) {a : α} (ha : a ∈ t) (hn : a ∉ s) :
    s.size < t.size := by
  refine Nat.lt_of_not_le fun hle => hn ?_
  exact ((List.subperm_of_subset s.nodup h).perm_of_length_le hle).mem_iff.2 ha

end SortedSet

/-! ## Insertion sets -/

namespace InsertionSet

variable {α β : Type}

instance [DecidableEq α] : DecidableEq (InsertionSet α) := fun s t =>
  decidable_of_iff (s.toList = t.toList) ⟨ext_toList, fun h => h ▸ rfl⟩

@[simp] theorem not_mem_emptyCollection (a : α) : a ∉ (∅ : InsertionSet α) := not_mem_empty a

@[simp] theorem mem_singleton {a b : α} : b ∈ singleton a ↔ b = a := by simp [mem_def, singleton]

theorem isEmpty_iff {s : InsertionSet α} : s.isEmpty = true ↔ ∀ a, a ∉ s := by
  simp [isEmpty, mem_def, List.eq_nil_iff_forall_not_mem]

theorem exists_mem {s : InsertionSet α} (h : s.isEmpty = false) : ∃ a, a ∈ s := by
  by_contra hn
  rw [isEmpty_iff.2 (not_exists.1 hn)] at h
  cases h

theorem isEmpty_eq_false {s : InsertionSet α} {a : α} (h : a ∈ s) : s.isEmpty = false := by
  cases he : s.isEmpty with
  | false => rfl
  | true => exact absurd h (isEmpty_iff.1 he a)

theorem any_iff {s : InsertionSet α} {p : α → Bool} : s.any p = true ↔ ∃ a ∈ s, p a = true := by
  simp [any, List.any_eq_true, mem_def]

theorem all_iff {s : InsertionSet α} {p : α → Bool} : s.all p = true ↔ ∀ a ∈ s, p a = true := by
  simp [all, List.all_eq_true, mem_def]

theorem mem_map [DecidableEq β] {s : InsertionSet α} {f : α → β} {x : β} : x ∈ s.map f ↔ ∃ a ∈ s, f a = x := by
  rw [map, mem_ofList, List.mem_map]
  rfl

theorem size_le_of_subset {s t : InsertionSet α} (h : ∀ a ∈ s, a ∈ t) : s.size ≤ t.size :=
  (List.subperm_of_subset s.nodup h).length_le

/-- A set within one that is no larger is the whole of it. -/
theorem subset_of_size_le {s t : InsertionSet α} (h : ∀ a ∈ s, a ∈ t) (hn : t.size ≤ s.size) : ∀ a ∈ t, a ∈ s := by
  have hp := (List.subperm_of_subset s.nodup h).perm_of_length_le hn
  exact fun a ha => hp.mem_iff.2 ha

theorem size_lt_of_not_subset {s t : InsertionSet α} (h : ∀ a ∈ s, a ∈ t) {a : α} (ha : a ∈ t) (hn : a ∉ s) :
    s.size < t.size := by
  exact Nat.lt_of_not_le fun hle => hn (subset_of_size_le h hle a ha)

variable [DecidableEq α]

theorem sameElements_iff {s t : InsertionSet α} : s.sameElements t = true ↔ s.Equiv t := by
  simp only [sameElements, Bool.and_eq_true, beq_iff_eq, all_iff, contains_iff]
  constructor
  · rintro ⟨hn, h⟩ a
    exact ⟨h a, subset_of_size_le h (Nat.le_of_eq hn.symm) a⟩
  · intro h
    have hst : ∀ a ∈ s, a ∈ t := fun a => (h a).1
    exact ⟨Nat.le_antisymm (size_le_of_subset hst) (size_le_of_subset fun a => (h a).2), hst⟩

theorem insert_of_mem {s : InsertionSet α} {a : α} (h : a ∈ s) : s.insert a = s := by
  unfold insert
  exact dif_pos h

theorem insertAll_of_subset {s : InsertionSet α} {l : List α} (h : ∀ a ∈ l, a ∈ s) : s.insertAll l = s := by
  induction l with
  | nil => rfl
  | cons a l ih =>
    show (s.insert a).insertAll l = s
    rw [insert_of_mem (h a List.mem_cons_self)]
    exact ih fun b hb => h b (List.mem_cons_of_mem a hb)

theorem toList_insertAll {s : InsertionSet α} {l : List α} (hl : l.Nodup) (h : ∀ a ∈ l, a ∉ s) :
    (s.insertAll l).toList = s.toList ++ l := by
  induction l generalizing s with
  | nil => simp [insertAll]
  | cons a l ih =>
    obtain ⟨ha, hl⟩ := List.nodup_cons.1 hl
    have hins : (s.insert a).toList = s.toList ++ [a] := by
      unfold insert
      rw [dif_neg (show a ∉ s.toList from h a List.mem_cons_self)]
    show ((s.insert a).insertAll l).toList = _
    rw [ih hl, hins, List.append_assoc, List.singleton_append]
    intro b hb hmem
    rcases mem_insert.1 hmem with hs | rfl
    · exact h b (List.mem_cons_of_mem a hb) hs
    · exact ha hb

/-- Elements are added in order of first occurrence, those that are there already left out. -/
theorem toList_insertAll_eraseDups (s : InsertionSet α) (l : List α) :
    (s.insertAll l).toList = s.toList ++ (l.filter fun a => a ∉ s.toList).eraseDups := by
  induction l generalizing s with
  | nil => simp [insertAll]
  | cons a l ih =>
    show ((s.insert a).insertAll l).toList = _
    rw [ih]
    by_cases ha : a ∈ s.toList
    · rw [insert_of_mem ha, List.filter_cons_of_neg (by simpa using ha)]
    · have hins : (s.insert a).toList = s.toList ++ [a] := by
        unfold insert
        rw [dif_neg ha]
      have hrest : (l.filter fun b => b ∉ s.toList ++ [a]) =
          (l.filter fun b => b ∉ s.toList).filter fun b => !b == a := by
        rw [List.filter_filter]
        refine List.filter_congr fun b _ => ?_
        by_cases hb : b = a <;> simp [hb]
      rw [hins, List.filter_cons_of_pos (by simpa using ha), List.eraseDups_cons, hrest, List.append_assoc,
        List.singleton_append]

theorem toList_ofList (l : List α) : (ofList l).toList = l.eraseDups := by
  have hall : (l.filter fun a => a ∉ (empty : InsertionSet α).toList) = l :=
    List.filter_eq_self.2 fun a _ => by simp [empty]
  rw [ofList, toList_insertAll_eraseDups, hall]
  rfl

omit [DecidableEq α] in
/-- Images that differ keep the order of the elements. -/
theorem toList_map [DecidableEq β] {s : InsertionSet α} {f : α → β} (h : ∀ a ∈ s, ∀ b ∈ s, f a = f b → a = b) :
    (s.map f).toList = s.toList.map f := by
  have hnodup : (s.toList.map f).Nodup := List.Nodup.map_on h s.nodup
  rw [map, ofList, toList_insertAll hnodup fun b _ => not_mem_empty b]
  rfl

/-- What is mapped back element by element is mapped back as a set, order included. -/
theorem map_map_eq_self [DecidableEq β] {s : InsertionSet α} {f : α → β} {g : β → α} (h : ∀ a ∈ s, g (f a) = a) :
    (s.map f).map g = s ∧ (s.map f).size = s.size := by
  have hf : (s.map f).toList = s.toList.map f := toList_map fun a ha b hb heq => by rw [← h a ha, heq, h b hb]
  have hg : ((s.map f).map g).toList = (s.map f).toList.map g := by
    refine toList_map fun c hc d hd heq => ?_
    obtain ⟨a, ha, rfl⟩ := mem_map.1 hc
    obtain ⟨b, hb, rfl⟩ := mem_map.1 hd
    rw [← h a ha, heq, h b hb]
  constructor
  · apply ext_toList
    rw [hg, hf, List.map_map]
    exact (List.map_congr_left h).trans (List.map_id s.toList)
  · rw [size, hf, List.length_map, size]

/-- A set is its first element and the rest. -/
theorem singleton_union {a : α} {l : List α} (h : (a :: l).Nodup) :
    (⟨a :: l, h⟩ : InsertionSet α) = (singleton a).union ⟨l, (List.nodup_cons.1 h).2⟩ := by
  obtain ⟨ha, hl⟩ := List.nodup_cons.1 h
  refine ext_toList (toList_insertAll (s := singleton a) hl fun b hb hmem => ?_).symm
  rw [mem_singleton.1 hmem] at hb
  exact ha hb

/-- The union with a part of a set is the set itself, order included. -/
theorem union_of_subset {s t : InsertionSet α} (h : ∀ a ∈ t, a ∈ s) : s.union t = s := insertAll_of_subset h

end InsertionSet

end TripleChain
