import TripleChain.Proofs.NodeJoin
/-!
# Looking bindings up in a table

A table goes through the demand and gives the rows that fit each binding of it; a binding set that is filtered by a
demand goes through the rows. Each of them has its own way with an empty demand and with the empty binding, and both
come to the same rows (`Table.answer_equiv_keepCompatible`). So what is given for a demand does not depend on whether it
comes at once or in parts (`Table.answer_union`, `Table.mem_answer_parts`), as long as no part is empty: an empty demand
asks for all rows. `Handler.lookUp_filters_in_parts` says both of the handler.
-/

namespace TripleChain

namespace Table

variable {t : Table} {s u first : BindingSet} {rest : List BindingSet} {b : Binding}

/-- The rows found for the bindings of a demand are the rows that a filter by the demand leaves. -/
theorem answer_equiv_keepCompatible (t : Table) (s : BindingSet) : (t.answer s).Equiv (t.rows.keepCompatible s) := by
  intro b
  rw [mem_answer, Plan.mem_keepCompatible, Plan.passes_iff]
  rfl

/-- Two parts of a demand find what they find together. -/
theorem answer_union (hs : s.isEmpty = false) (hu : u.isEmpty = false) :
    (t.answer (s.union u)).Equiv ((t.answer s).union (t.answer u)) := by
  intro b
  have hsu : (s.union u).isEmpty = false := Rule.isEmpty_union hs
  rw [InsertionSet.mem_union, mem_answer, mem_answer, mem_answer, hs, hu, hsu, Rule.exists_mem_union]
  simp only [Bool.false_eq_true, false_or, and_or_left]

/-- A demand that grows part by part finds what its parts find. -/
theorem mem_answer_parts (hfirst : first.isEmpty = false) (hrest : ∀ d ∈ rest, d.isEmpty = false) :
    b ∈ t.answer (rest.foldl InsertionSet.union first) ↔ ∃ d ∈ first :: rest, b ∈ t.answer d := by
  induction rest generalizing first with
  | nil => simp
  | cons d rest ih =>
    obtain ⟨hd, hrest⟩ := List.forall_mem_cons.1 hrest
    rw [List.foldl_cons, ih (Rule.isEmpty_union hfirst) hrest, List.exists_mem_cons_iff, answer_union hfirst hd b,
      InsertionSet.mem_union, or_assoc, List.exists_mem_cons_iff, List.exists_mem_cons_iff]

end Table

namespace Handler

/-- Looking up never fails. It gives the rows that a filter by the demand leaves; two parts of a demand together give
what both give, and so do all the parts in which a demand may come, as long as each of them asks for something. -/
theorem lookUp_filters_in_parts (t : Table) :
    (∀ s, ∃ out, (lookUp t).handle s = .ok out ∧ out.Equiv (t.rows.keepCompatible s)) ∧
    (∀ s u, s.isEmpty = false → u.isEmpty = false → ∃ whole out out', (lookUp t).handle (s.union u) = .ok whole ∧
      (lookUp t).handle s = .ok out ∧ (lookUp t).handle u = .ok out' ∧ whole.Equiv (out.union out')) ∧
    ∀ first rest, (∀ d ∈ first :: rest, d.isEmpty = false) →
      ∃ whole, (lookUp t).handle (rest.foldl InsertionSet.union first) = .ok whole ∧
        ∀ b, b ∈ whole ↔ ∃ d ∈ first :: rest, ∃ out, (lookUp t).handle d = .ok out ∧ b ∈ out := by
  have hhandle (s : BindingSet) : (lookUp t).handle s = .ok (t.answer s) := rfl
  refine ⟨fun s => ⟨_, hhandle s, t.answer_equiv_keepCompatible s⟩, ?_, ?_⟩
  · intro s u hs hu
    exact ⟨_, _, _, hhandle _, hhandle s, hhandle u, Table.answer_union hs hu⟩
  · intro first rest hparts
    obtain ⟨hfirst, hrest⟩ := List.forall_mem_cons.1 hparts
    refine ⟨_, hhandle _, fun b => ?_⟩
    rw [Table.mem_answer_parts hfirst hrest]
    simp only [hhandle, Except.ok.injEq, exists_eq_left']

/-- Rows under two columns, not all of which bind both. -/
def rooms : Table := .ofBindings <| .ofList
  [.ofList [(⟨"who"⟩, .iri "ann"), (⟨"room"⟩, .iri "hall")], .ofList [(⟨"who"⟩, .iri "bob")],
    .ofList [(⟨"room"⟩, .iri "yard")]]

/-- A demand under one of the columns, and under a variable without one. -/
def annAsked : BindingSet := .singleton (.ofList [(⟨"day"⟩, .iri "monday"), (⟨"who"⟩, .iri "ann")])

def hallAsked : BindingSet := .singleton (.ofList [(⟨"room"⟩, .iri "hall")])

/-- What is found for both demands is all that is in the table. -/
theorem rooms_lookUp_in_parts : (∀ d ∈ [annAsked, hallAsked], d.isEmpty = false) ∧
    (∃ whole out out', (lookUp rooms).handle (annAsked.union hallAsked) = .ok whole ∧
      (lookUp rooms).handle annAsked = .ok out ∧ (lookUp rooms).handle hallAsked = .ok out' ∧
        whole.Equiv (out.union out')) ∧
    (∃ whole, (lookUp rooms).handle ([hallAsked].foldl InsertionSet.union annAsked) = .ok whole ∧
      ∀ b, b ∈ whole ↔ ∃ d ∈ [annAsked, hallAsked], ∃ out, (lookUp rooms).handle d = .ok out ∧ b ∈ out) ∧
    (rooms.answer annAsked).size = 2 ∧ (rooms.answer hallAsked).size = 2 ∧
    (rooms.answer (annAsked.union hallAsked)).sameElements rooms.rows = true := by
  have hparts : ∀ d ∈ [annAsked, hallAsked], d.isEmpty = false := by decide
  obtain ⟨_, htwo, hall⟩ := lookUp_filters_in_parts rooms
  exact ⟨hparts, htwo annAsked hallAsked rfl rfl, hall annAsked [hallAsked] hparts, by decide, by decide, by decide⟩

/-- An empty part would ask for all rows. -/
example : (rooms.answer ((∅ : BindingSet).union hallAsked)).size = 2 ∧
    ((rooms.answer ∅).union (rooms.answer hallAsked)).size = 3 := by decide

end Handler

end TripleChain
