import TripleChain.Binding
import TripleChain.Proofs.Collections
import TripleChain.Proofs.JsonText
import TripleChain.Proofs.TermText
/-!
# The JSON form of a binding set is canonical

Two binding sets are written as one JSON text just when they are the same set, whatever the order of arrival
(`BindingSet.toJson_canonical`). This takes three things: no two terms are written alike (`Term.text_injective`), though
only the backslash and the quote are escaped in them; the order of bindings is total and tells any two apart, so that a
set is sorted in one way only (`BindingSet.sorted_eq_iff`); and a JSON text is read as one value (`Json.compact_inj`).
-/

open Std

namespace TripleChain

open Grammar

/-! ## Terms -/

/-- The first quote that is not escaped ends a lexical form. -/
theorem escapeQuoted_append_inj {cs ds rest rest' : List Char}
    (h : escapeQuoted cs ++ '"' :: rest = escapeQuoted ds ++ '"' :: rest') : cs = ds ∧ rest = rest' := by
  induction cs generalizing ds with
  | nil =>
    cases ds with
    | nil => exact ⟨rfl, (List.cons.inj h).2⟩
    | cons d ds =>
      by_cases hd : d = '\\' ∨ d = '"'
      · rw [escapeQuoted_of_mark hd] at h
        exact absurd (List.cons.inj h).1 (by decide)
      · rw [escapeQuoted_of_not_mark hd] at h
        exact absurd (.inr (List.cons.inj h).1.symm) hd
  | cons c cs ih =>
    cases ds with
    | nil =>
      by_cases hc : c = '\\' ∨ c = '"'
      · rw [escapeQuoted_of_mark hc] at h
        exact absurd (List.cons.inj h).1 (by decide)
      · rw [escapeQuoted_of_not_mark hc] at h
        exact absurd (.inr (List.cons.inj h).1) hc
    | cons d ds =>
      -- An escaped character begins with a backslash, and no other character does.
      by_cases hc : c = '\\' ∨ c = '"' <;> by_cases hd : d = '\\' ∨ d = '"'
      · rw [escapeQuoted_of_mark hc, escapeQuoted_of_mark hd] at h
        obtain ⟨hcd, htail⟩ := List.cons.inj (List.cons.inj h).2
        obtain ⟨hcds, hrest⟩ := ih htail
        exact ⟨congrArg₂ List.cons hcd hcds, hrest⟩
      · rw [escapeQuoted_of_mark hc, escapeQuoted_of_not_mark hd] at h
        exact absurd (.inl (List.cons.inj h).1.symm) hd
      · rw [escapeQuoted_of_not_mark hc, escapeQuoted_of_mark hd] at h
        exact absurd (.inl (List.cons.inj h).1) hc
      · rw [escapeQuoted_of_not_mark hc, escapeQuoted_of_not_mark hd] at h
        obtain ⟨hcd, htail⟩ := List.cons.inj h
        obtain ⟨hcds, hrest⟩ := ih htail
        exact ⟨congrArg₂ List.cons hcd hcds, hrest⟩

theorem Annotation.mark_injective : Function.Injective Annotation.mark := by
  intro a b h
  cases a <;> cases b <;> simp [mark, String.toList_inj] at h ⊢
  all_goals exact h

theorem Literal.text_injective : Function.Injective Literal.text := by
  intro l l' h
  have hchars := congrArg String.toList h
  rw [toList_text_cons, toList_text_cons] at hchars
  obtain ⟨hlexical, hmark⟩ := escapeQuoted_append_inj (List.cons.inj hchars).2
  have hannotation := Annotation.mark_injective hmark
  cases l
  cases l'
  simp_all [String.toList_inj]

/-- What a written term begins with. -/
def Term.opening : Term → Char
  | .iri _ => '<'
  | .literal _ => '"'
  | .var _ => '?'

theorem Term.head?_text (t : Term) : t.text.toList.head? = some t.opening := by
  cases t with
  | iri text => rw [Term.text, toList_bracketIri]; rfl
  | literal l => rw [Term.text, l.toList_text_cons]; rfl
  | var v => simp [Term.text, Variable.text, Term.opening]

/-- No two terms are written alike. -/
theorem Term.text_injective : Function.Injective Term.text := by
  intro t u h
  have hhead : t.text.toList.head? = u.text.toList.head? := by rw [h]
  rw [head?_text, head?_text] at hhead
  match t, u with
  | .iri a, .iri b =>
    have hchars := congrArg String.toList h
    rw [text, text, toList_bracketIri, toList_bracketIri] at hchars
    rw [String.toList_inj.1 (List.append_cancel_right (List.cons.inj hchars).2)]
  | .literal l, .literal l' => exact congrArg Term.literal (Literal.text_injective h)
  | .var v, .var w =>
    have hname : v.name = w.name := String.append_right_inj "?" |>.1 h
    cases v
    cases w
    exact congrArg (Term.var ⟨·⟩) hname
  | .iri _, .literal _ | .iri _, .var _ | .literal _, .iri _ | .literal _, .var _ | .var _, .iri _
  | .var _, .literal _ =>
    simp [opening] at hhead

/-! ## Sorting -/

namespace BindingSet

variable {s t : BindingSet}

theorem sorted_perm (s : BindingSet) : s.sorted.Perm s.toList := List.mergeSort_perm s.toList _

theorem mem_sorted {b : Binding} : b ∈ s.sorted ↔ b ∈ s := s.sorted_perm.mem_iff

theorem pairwise_sorted (s : BindingSet) : s.sorted.Pairwise fun a b => (compare a b).isLE = true := by
  have htotal (a b : Binding) : ((compare a b).isLE || (compare b a).isLE) = true := by
    have hswap : compare b a = (compare a b).swap := OrientedCmp.eq_swap
    rw [hswap]
    cases compare a b <;> rfl
  exact List.pairwise_mergeSort (fun _ _ _ => TransCmp.isLE_trans) htotal s.toList

/-- A binding set is sorted in one way, whatever the order of arrival. -/
theorem sorted_eq_iff : s.sorted = t.sorted ↔ s.Equiv t := by
  constructor
  · intro h b
    rw [← mem_sorted, h, mem_sorted]
  · intro h
    have hsame : s.toList.Perm t.toList := (List.perm_ext_iff_of_nodup s.nodup t.nodup).2 h
    refine List.Perm.eq_of_pairwise (fun a b _ _ hab hba => ?_) s.pairwise_sorted t.pairwise_sorted
      (s.sorted_perm.trans (hsame.trans t.sorted_perm.symm))
    exact LawfulEqCmp.eq_of_compare (OrientedCmp.isLE_antisymm hab hba)

end BindingSet

/-! ## Writing -/

theorem Binding.toJson_injective : Function.Injective Binding.toJson := by
  intro a b h
  have hentry : Function.Injective fun e : Variable × Term => (e.1.name, Json.string e.2.text) := by
    rintro ⟨v, t⟩ ⟨w, u⟩ heq
    obtain ⟨hname, htext⟩ := Prod.mk.inj heq
    have hvar : v = w := by
      cases v
      cases w
      exact congrArg Variable.mk hname
    have hterm : t = u := Term.text_injective (Json.string.inj htext)
    rw [hvar, hterm]
  have hentries : a.entries = b.entries := hentry.list_map (Json.object.inj h)
  cases a
  cases b
  exact congrArg Binding.mk (SortedMap.ext_entries hentries)

namespace BindingSet

theorem numberless_toJson (s : BindingSet) : (toJson s).Numberless := by
  refine .array fun v hv => ?_
  obtain ⟨b, _, rfl⟩ := List.mem_map.1 hv
  refine .object fun f hf => ?_
  obtain ⟨e, _, rfl⟩ := List.mem_map.1 hf
  exact .string _

theorem toJson_eq_iff {s t : BindingSet} : toJson s = toJson t ↔ s.Equiv t := by
  rw [← sorted_eq_iff]
  constructor
  · exact fun h => Binding.toJson_injective.list_map (Json.array.inj h)
  · intro h
    rw [toJson, toJson, h]

/-- The JSON text of a binding set is the same for the same set and for no other, whatever terms the bindings give: the
order of arrival does not show in it, and no two terms are written alike. -/
theorem toJson_canonical :
    (∀ s t : BindingSet, (toJson s).compact = (toJson t).compact ↔ s.sameElements t = true) ∧
      Function.Injective Term.text := by
  refine ⟨fun s t => ?_, Term.text_injective⟩
  rw [Json.compact_inj (numberless_toJson s) (numberless_toJson t), toJson_eq_iff, InsertionSet.sameElements_iff]

end BindingSet

end TripleChain
