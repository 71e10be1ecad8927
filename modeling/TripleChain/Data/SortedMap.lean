/-!
# Sorted maps

A finite map kept as a list of entries in strictly ascending key order. The order is part of the
type, so a map has one representation only: two maps with the same entries are equal, and going
through the entries always meets the keys in their order.

`SortedMap.get?_insert` says what `insert` does to look-ups, and `SortedMap.ext_get?` that look-ups
determine a map.
-/

open Std

namespace TripleChain

/-- A finite map from `α` to `β` whose entries ascend strictly by key. -/
structure SortedMap (α β : Type) [Ord α] where
  /-- The entries, smallest key first. -/
  entries : List (α × β)
  /-- Each key is smaller than all keys after it. -/
  ascending : entries.Pairwise fun a b => compare a.1 b.1 = .lt

namespace SortedMap

variable {α β γ : Type} [Ord α]

theorem ext_entries {m n : SortedMap α β} (h : m.entries = n.entries) : m = n := by
  cases m; cases n; simp_all

instance [DecidableEq α] [DecidableEq β] : DecidableEq (SortedMap α β) := fun m n =>
  decidable_of_iff (m.entries = n.entries) ⟨ext_entries, fun h => h ▸ rfl⟩

def empty : SortedMap α β := ⟨[], .nil⟩

instance : EmptyCollection (SortedMap α β) := ⟨empty⟩

instance : Inhabited (SortedMap α β) := ⟨empty⟩

def isEmpty (m : SortedMap α β) : Bool := m.entries.isEmpty

def size (m : SortedMap α β) : Nat := m.entries.length

/-- The keys in ascending order. -/
def keys (m : SortedMap α β) : List α := m.entries.map (·.1)

/-- The values in the order of their keys. -/
def values (m : SortedMap α β) : List β := m.entries.map (·.2)

/-- The value stored under a key. -/
def get? (m : SortedMap α β) (k : α) : Option β :=
  (m.entries.find? fun e => compare e.1 k == .eq).map (·.2)

def contains (m : SortedMap α β) (k : α) : Bool := m.entries.any fun e => compare e.1 k == .eq

/-- Puts an entry at its place in ascending entries, over an entry with the same key. -/
def insertEntry (k : α) (v : β) : List (α × β) → List (α × β)
  | [] => [(k, v)]
  | e :: rest =>
    match compare k e.1 with
    | .lt => (k, v) :: e :: rest
    | .eq => (k, v) :: rest
    | .gt => e :: insertEntry k v rest

theorem key_of_mem_insertEntry {k : α} {v : β} {l : List (α × β)} {x : α × β}
    (h : x ∈ insertEntry k v l) : x = (k, v) ∨ x ∈ l := by
  induction l with
  | nil => simpa [insertEntry] using h
  | cons e rest ih =>
    rw [insertEntry] at h
    split at h <;> grind

theorem pairwise_insertEntry [TransOrd α] (k : α) (v : β) {l : List (α × β)}
    (h : l.Pairwise fun a b => compare a.1 b.1 = .lt) :
    (insertEntry k v l).Pairwise fun a b => compare a.1 b.1 = .lt := by
  induction l with
  | nil => simp [insertEntry]
  | cons e rest ih =>
    obtain ⟨he, hr⟩ := List.pairwise_cons.1 h
    rw [insertEntry]
    split
    · next hk =>
      refine List.pairwise_cons.2 ⟨fun x hx => ?_, h⟩
      rcases List.mem_cons.1 hx with rfl | hx
      · exact hk
      · exact TransCmp.lt_trans hk (he x hx)
    · next hk =>
      exact List.pairwise_cons.2 ⟨fun x hx => TransCmp.lt_of_eq_of_lt hk (he x hx), hr⟩
    · next hk =>
      refine List.pairwise_cons.2 ⟨fun x hx => ?_, ih hr⟩
      rcases key_of_mem_insertEntry hx with rfl | hx
      · exact OrientedCmp.lt_of_gt hk
      · exact he x hx

/-- Stores a value under a key, in place of the value stored there before. -/
def insert [TransOrd α] (m : SortedMap α β) (k : α) (v : β) : SortedMap α β :=
  ⟨insertEntry k v m.entries, pairwise_insertEntry k v m.ascending⟩

/-- Stores the entries one after the other: of two with one key the later stays. -/
def insertAll [TransOrd α] (m : SortedMap α β) (l : List (α × β)) : SortedMap α β :=
  l.foldl (fun m e => m.insert e.1 e.2) m

/-- The map of a list of entries: of two with one key the later stays. -/
def ofList [TransOrd α] (l : List (α × β)) : SortedMap α β := (empty : SortedMap α β).insertAll l

/-- The entries that pass a test. -/
def filter (m : SortedMap α β) (p : α → β → Bool) : SortedMap α β :=
  ⟨m.entries.filter fun e => p e.1 e.2, m.ascending.filter _⟩

def all (m : SortedMap α β) (p : α → β → Bool) : Bool := m.entries.all fun e => p e.1 e.2

def any (m : SortedMap α β) (p : α → β → Bool) : Bool := m.entries.any fun e => p e.1 e.2

/-! ## Look-ups -/

theorem find?_insertEntry [TransOrd α] (k : α) (v : β) (x : α) {l : List (α × β)}
    (h : l.Pairwise fun a b => compare a.1 b.1 = .lt) :
    ((insertEntry k v l).find? fun e => compare e.1 x == .eq).map (·.2) =
      if compare k x = .eq then some v else (l.find? fun e => compare e.1 x == .eq).map (·.2) := by
  induction l with
  | nil => by_cases hk : compare k x = .eq <;> simp [insertEntry, hk]
  | cons e rest ih =>
    obtain ⟨he, hr⟩ := List.pairwise_cons.1 h
    rw [insertEntry]
    split
    · next hk => by_cases hx : compare k x = .eq <;> simp [hx]
    · next hk =>
      by_cases hx : compare k x = .eq
      · simp [hx]
      · have : compare e.1 x ≠ .eq := fun h' => hx (TransCmp.eq_trans hk h')
        simp [hx, this]
    · next hk =>
      by_cases hx : compare k x = .eq
      · have : compare e.1 x ≠ .eq := fun h' => by
          have := TransCmp.eq_trans hx (OrientedCmp.eq_symm h')
          simp [this] at hk
        simp [hx, this, ih hr]
      · by_cases hx' : compare e.1 x = .eq
        · simp [hx, hx']
        · simp [hx, hx', ih hr]

/-- After `insert`, the key holds the new value and all other keys hold what they held. -/
theorem get?_insert [TransOrd α] (m : SortedMap α β) (k x : α) (v : β) :
    (m.insert k v).get? x = if compare k x = .eq then some v else m.get? x :=
  find?_insertEntry k v x m.ascending

@[simp] theorem get?_empty (x : α) : (empty : SortedMap α β).get? x = none := rfl

theorem get?_eq_some_iff [TransOrd α] [LawfulEqOrd α] {m : SortedMap α β} {k : α} {v : β} :
    m.get? k = some v ↔ (k, v) ∈ m.entries := by
  obtain ⟨l, hl⟩ := m
  simp only [get?]
  induction l with
  | nil => simp
  | cons e rest ih =>
    obtain ⟨he, hr⟩ := List.pairwise_cons.1 hl
    by_cases hk : compare e.1 k = .eq
    · have hk' := LawfulEqCmp.eq_of_compare hk
      subst hk'
      simp only [List.find?_cons, hk, beq_self_eq_true, Option.map_some, Option.some.injEq, List.mem_cons]
      constructor
      · rintro rfl; exact .inl rfl
      · rintro (h | h)
        · exact congrArg Prod.snd h.symm
        · have := he _ h
          simp at this
    · have : (k, v) ≠ e := fun h => hk (h ▸ ReflCmp.compare_self)
      simp [hk, this, ih hr]

/-- Look-ups determine a map. -/
theorem ext_get? [TransOrd α] [LawfulEqOrd α] {m n : SortedMap α β} (h : ∀ k, m.get? k = n.get? k) :
    m = n := by
  apply ext_entries
  have hmem : ∀ x, x ∈ m.entries ↔ x ∈ n.entries := fun x => by
    rw [← get?_eq_some_iff, ← get?_eq_some_iff, h]
  have anti : ∀ a b : α × β, compare a.1 b.1 = .lt → ¬ compare b.1 a.1 = .lt := fun a b hab hba => by
    have := OrientedCmp.gt_of_lt hab
    simp [this] at hba
  have nodup : ∀ k : SortedMap α β, k.entries.Nodup := fun k =>
    k.ascending.imp fun {a b} hab heq => by subst heq; simp at hab
  have hperm := (List.perm_ext_iff_of_nodup (nodup m) (nodup n)).2 hmem
  exact hperm.eq_of_pairwise (fun a b _ _ hab hba => absurd hba (anti a b hab)) m.ascending n.ascending

/-! ## Order -/

/-- Entries are compared by key, then by value. -/
def entryOrder [Ord β] : α × β → α × β → Ordering := compareLex (compareOn Prod.fst) (compareOn Prod.snd)

instance [Ord β] [TransOrd α] [TransOrd β] : TransCmp (entryOrder (α := α) (β := β)) := by
  unfold entryOrder
  infer_instance

instance [Ord β] [LawfulEqOrd α] [LawfulEqOrd β] : LawfulEqCmp (entryOrder (α := α) (β := β)) where
  compare_self {a} := by simp [entryOrder, compareLex_eq_eq, compareOn]
  eq_of_compare {a b} h := by
    simp only [entryOrder, compareLex_eq_eq, compareOn, Std.compare_eq_iff_eq] at h
    exact Prod.ext h.1 h.2

/-- Maps are compared entry by entry; of two that agree as far as they go the shorter is first. -/
def order [Ord β] (m n : SortedMap α β) : Ordering := List.compareLex entryOrder m.entries n.entries

instance [Ord β] : Ord (SortedMap α β) := ⟨order⟩

instance [Ord β] [TransOrd α] [TransOrd β] : TransOrd (SortedMap α β) :=
  have h : TransCmp (List.compareLex (entryOrder (α := α) (β := β))) := inferInstance
  { eq_swap := h.eq_swap, isLE_trans := h.isLE_trans }

instance [Ord β] [LawfulEqOrd α] [LawfulEqOrd β] : LawfulEqOrd (SortedMap α β) :=
  have h : LawfulEqCmp (List.compareLex (entryOrder (α := α) (β := β))) := inferInstance
  { compare_self := h.compare_self, eq_of_compare := fun e => ext_entries (h.eq_of_compare e) }

end SortedMap

end TripleChain
