/-!
# Sets in insertion order

A finite set that is gone through in the order in which its elements first arrived. Adding a member
again changes nothing. Two such sets are the same set when they have the same members, whatever the
order: that is `InsertionSet.Equiv`, decided by `InsertionSet.sameElements`.
-/

namespace TripleChain

/-- A finite set that remembers the order of arrival. -/
structure InsertionSet (α : Type) where
  /-- The elements, first arrival first. -/
  toList : List α
  /-- No element occurs twice. -/
  nodup : toList.Nodup

namespace InsertionSet

variable {α β : Type}

theorem ext_toList {s t : InsertionSet α} (h : s.toList = t.toList) : s = t := by
  cases s; cases t; simp_all

def empty : InsertionSet α := ⟨[], .nil⟩

instance : EmptyCollection (InsertionSet α) := ⟨empty⟩

instance : Inhabited (InsertionSet α) := ⟨empty⟩

instance : Membership α (InsertionSet α) := ⟨fun s a => a ∈ s.toList⟩

theorem mem_def {s : InsertionSet α} {a : α} : a ∈ s ↔ a ∈ s.toList := .rfl

instance [DecidableEq α] (a : α) (s : InsertionSet α) : Decidable (a ∈ s) :=
  inferInstanceAs (Decidable (a ∈ s.toList))

def singleton (a : α) : InsertionSet α := ⟨[a], by simp⟩

def isEmpty (s : InsertionSet α) : Bool := s.toList.isEmpty

def size (s : InsertionSet α) : Nat := s.toList.length

def all (s : InsertionSet α) (p : α → Bool) : Bool := s.toList.all p

def any (s : InsertionSet α) (p : α → Bool) : Bool := s.toList.any p

/-- The elements that pass a test, in their order. -/
def filter (s : InsertionSet α) (p : α → Bool) : InsertionSet α :=
  ⟨s.toList.filter p, s.nodup.filter _⟩

variable [DecidableEq α]

/-- True when `a` is a member. -/
def contains (s : InsertionSet α) (a : α) : Bool := decide (a ∈ s)

/-- Adds an element at the end, unless it is a member. -/
def insert (s : InsertionSet α) (a : α) : InsertionSet α :=
  if h : a ∈ s.toList then s
  else ⟨s.toList ++ [a], by
    rw [List.nodup_append]
    refine ⟨s.nodup, by simp, fun x hx y hy => ?_⟩
    rw [List.mem_singleton.1 hy]
    rintro rfl
    exact h hx⟩

/-- Adds the elements of a list, first to last. -/
def insertAll (s : InsertionSet α) (l : List α) : InsertionSet α := l.foldl insert s

/-- The set of the elements of a list, in order of first occurrence. -/
def ofList (l : List α) : InsertionSet α := (empty : InsertionSet α).insertAll l

/-- The elements of `s`, then those of `t` that `s` lacks. -/
def union (s t : InsertionSet α) : InsertionSet α := s.insertAll t.toList

/-- The elements of `s` that `t` lacks. -/
def difference (s t : InsertionSet α) : InsertionSet α := s.filter fun a => !t.contains a

/-- The images of the elements, in order of first occurrence. -/
def map [DecidableEq β] (s : InsertionSet α) (f : α → β) : InsertionSet β := ofList (s.toList.map f)

/-- The same members, in whatever order. -/
def Equiv (s t : InsertionSet α) : Prop := ∀ a, a ∈ s ↔ a ∈ t

/-- Decides whether two sets have the same members. -/
def sameElements (s t : InsertionSet α) : Bool :=
  s.size == t.size && s.all t.contains

/-! ## Membership -/

omit [DecidableEq α] in
@[simp] theorem not_mem_empty (a : α) : a ∉ (empty : InsertionSet α) := by simp [mem_def, empty]

@[simp] theorem contains_iff {s : InsertionSet α} {a : α} : s.contains a = true ↔ a ∈ s := by
  simp [contains]

theorem mem_insert {s : InsertionSet α} {a x : α} : x ∈ s.insert a ↔ x ∈ s ∨ x = a := by
  unfold insert
  split
  · next h =>
    constructor
    · exact .inl
    · rintro (hx | rfl)
      · exact hx
      · exact h
  · simp [mem_def]

theorem mem_insertAll {s : InsertionSet α} {l : List α} {x : α} :
    x ∈ s.insertAll l ↔ x ∈ s ∨ x ∈ l := by
  induction l generalizing s with
  | nil => simp [insertAll]
  | cons a rest ih =>
    have : s.insertAll (a :: rest) = (s.insert a).insertAll rest := rfl
    rw [this, ih, mem_insert, List.mem_cons, or_assoc]

theorem mem_ofList {l : List α} {x : α} : x ∈ ofList l ↔ x ∈ l := by simp [ofList, mem_insertAll]

theorem mem_union {s t : InsertionSet α} {x : α} : x ∈ s.union t ↔ x ∈ s ∨ x ∈ t := mem_insertAll

omit [DecidableEq α] in
theorem mem_filter {s : InsertionSet α} {p : α → Bool} {x : α} : x ∈ s.filter p ↔ x ∈ s ∧ p x = true := by
  simp [mem_def, filter]

theorem mem_difference {s t : InsertionSet α} {x : α} : x ∈ s.difference t ↔ x ∈ s ∧ x ∉ t := by
  simp [difference, mem_filter, contains]

end InsertionSet

end TripleChain
