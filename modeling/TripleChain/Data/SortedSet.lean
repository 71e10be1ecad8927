/-!
# Sorted sets

A finite set kept as a strictly ascending list, so that a set has one representation and is always
gone through in the same order. An element that compares equal to a member is not added again: the
member that came first stays.
-/

open Std

namespace TripleChain

/-- A finite set whose elements ascend strictly. -/
structure SortedSet (α : Type) [Ord α] where
  /-- The elements, smallest first. -/
  toList : List α
  /-- Each element is smaller than all elements after it. -/
  ascending : toList.Pairwise fun a b => compare a b = .lt

namespace SortedSet

variable {α : Type} [Ord α]

theorem ext_toList {s t : SortedSet α} (h : s.toList = t.toList) : s = t := by
  cases s; cases t; simp_all

instance [DecidableEq α] : DecidableEq (SortedSet α) := fun s t =>
  decidable_of_iff (s.toList = t.toList) ⟨ext_toList, fun h => h ▸ rfl⟩

def empty : SortedSet α := ⟨[], .nil⟩

instance : EmptyCollection (SortedSet α) := ⟨empty⟩

instance : Inhabited (SortedSet α) := ⟨empty⟩

instance : Membership α (SortedSet α) := ⟨fun s a => a ∈ s.toList⟩

theorem mem_def {s : SortedSet α} {a : α} : a ∈ s ↔ a ∈ s.toList := .rfl

instance [DecidableEq α] (a : α) (s : SortedSet α) : Decidable (a ∈ s) :=
  inferInstanceAs (Decidable (a ∈ s.toList))

def isEmpty (s : SortedSet α) : Bool := s.toList.isEmpty

def size (s : SortedSet α) : Nat := s.toList.length

/-- True when some element compares equal to `a`. -/
def contains (s : SortedSet α) (a : α) : Bool := s.toList.any fun b => compare b a == .eq

/-- Puts an element at its place in ascending elements, unless one there compares equal to it. -/
def insertElement (a : α) : List α → List α
  | [] => [a]
  | b :: rest =>
    match compare a b with
    | .lt => a :: b :: rest
    | .eq => b :: rest
    | .gt => b :: insertElement a rest

theorem mem_insertElement {a x : α} {l : List α} (h : x ∈ insertElement a l) : x = a ∨ x ∈ l := by
  induction l with
  | nil => simpa [insertElement] using h
  | cons b rest ih =>
    rw [insertElement] at h
    split at h <;> grind

theorem pairwise_insertElement [TransOrd α] (a : α) {l : List α}
    (h : l.Pairwise fun a b => compare a b = .lt) :
    (insertElement a l).Pairwise fun a b => compare a b = .lt := by
  induction l with
  | nil => simp [insertElement]
  | cons b rest ih =>
    obtain ⟨hb, hr⟩ := List.pairwise_cons.1 h
    rw [insertElement]
    split
    · next hab =>
      refine List.pairwise_cons.2 ⟨fun x hx => ?_, h⟩
      rcases List.mem_cons.1 hx with rfl | hx
      · exact hab
      · exact TransCmp.lt_trans hab (hb x hx)
    · exact h
    · next hab =>
      refine List.pairwise_cons.2 ⟨fun x hx => ?_, ih hr⟩
      rcases mem_insertElement hx with rfl | hx
      · exact OrientedCmp.lt_of_gt hab
      · exact hb x hx

/-- Adds an element, unless one that compares equal to it is present. -/
def insert [TransOrd α] (s : SortedSet α) (a : α) : SortedSet α :=
  ⟨insertElement a s.toList, pairwise_insertElement a s.ascending⟩

/-- Adds the elements of a list, first to last. -/
def insertAll [TransOrd α] (s : SortedSet α) (l : List α) : SortedSet α := l.foldl insert s

def ofList [TransOrd α] (l : List α) : SortedSet α := (empty : SortedSet α).insertAll l

def singleton (a : α) : SortedSet α := ⟨[a], by simp⟩

def filter (s : SortedSet α) (p : α → Bool) : SortedSet α := ⟨s.toList.filter p, s.ascending.filter _⟩

def all (s : SortedSet α) (p : α → Bool) : Bool := s.toList.all p

def any (s : SortedSet α) (p : α → Bool) : Bool := s.toList.any p

/-! ## Membership -/

@[simp] theorem not_mem_empty (a : α) : a ∉ (empty : SortedSet α) := by simp [mem_def, empty]

theorem mem_insertElement_iff [TransOrd α] [LawfulEqOrd α] {a x : α} {l : List α} :
    x ∈ insertElement a l ↔ x = a ∨ x ∈ l := by
  induction l with
  | nil => simp [insertElement]
  | cons b rest ih =>
    rw [insertElement]
    split
    · simp
    · next h => have := LawfulEqCmp.eq_of_compare h; simp [this]
    · simp only [List.mem_cons, ih]
      constructor
      · rintro (h | h | h) <;> simp [h]
      · rintro (h | h | h) <;> simp [h]

theorem mem_insert [TransOrd α] [LawfulEqOrd α] {s : SortedSet α} {a x : α} :
    x ∈ s.insert a ↔ x = a ∨ x ∈ s := mem_insertElement_iff

theorem mem_insertAll [TransOrd α] [LawfulEqOrd α] {s : SortedSet α} {l : List α} {x : α} :
    x ∈ s.insertAll l ↔ x ∈ s ∨ x ∈ l := by
  induction l generalizing s with
  | nil => simp [insertAll]
  | cons a rest ih =>
    have : s.insertAll (a :: rest) = (s.insert a).insertAll rest := rfl
    rw [this, ih, mem_insert]
    simp only [List.mem_cons]
    constructor
    · rintro ((h | h) | h) <;> simp [h]
    · rintro (h | h | h) <;> simp [h]

theorem mem_ofList [TransOrd α] [LawfulEqOrd α] {l : List α} {x : α} : x ∈ ofList l ↔ x ∈ l := by
  simp [ofList, mem_insertAll]

end SortedSet

end TripleChain
