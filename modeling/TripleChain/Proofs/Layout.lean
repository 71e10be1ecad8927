import TripleChain.Proofs.TermText
/-!
# Layout

What may stand between the parts of a text and makes no difference: white space and comments between terms
(`Grammar.Gap`), blanks and tabs on one line (`Grammar.Spaces`). `Grammar.Joined` is the one way in which the parts of a
longer text follow each other: triples with full stops, pairs with commas, bindings with bars, and room around each
mark.

Reading passes over all of it (`Grammar.Gap.skipGap_append`, `Grammar.Spaces.skipInline_append`). Trimming a text takes
away what is blank around its core and nothing between the first and the last character that is not
(`Text.Tight.trim_around`).
-/

namespace TripleChain

/-! ## Trimming -/

namespace Text

variable {c : Char} {core front tail cs : List Char}

/-- The text begins and ends with characters that are not blank. -/
structure Tight (cs : List Char) : Prop where
  head : ∃ c rest, cs = c :: rest ∧ isBlank c = false
  last : ∃ front c, cs = front ++ [c] ∧ isBlank c = false

theorem tight_singleton (h : isBlank c = false) : Tight [c] := ⟨⟨c, [], rfl, h⟩, ⟨[], c, rfl, h⟩⟩

theorem Tight.ne_nil (h : Tight cs) : cs ≠ [] := by
  obtain ⟨c, rest, rfl, _⟩ := h.head
  exact List.cons_ne_nil c rest

theorem Tight.append (hfront : Tight front) (htail : Tight tail) (mid : List Char) :
    Tight (front ++ (mid ++ tail)) := by
  obtain ⟨c, rest, hc, hblank⟩ := hfront.head
  obtain ⟨before, d, hd, hblank'⟩ := htail.last
  refine ⟨⟨c, rest ++ (mid ++ tail), ?_, hblank⟩, ⟨front ++ (mid ++ before), d, ?_, hblank'⟩⟩
  · rw [hc, List.cons_append]
  · rw [hd, List.append_assoc, List.append_assoc]

theorem Tight.trimStart_append (h : Tight core) (front tail : List Char) :
    trimStart (front ++ (core ++ tail)) = trimStart front ++ (core ++ tail) := by
  obtain ⟨c, rest, hc, hblank⟩ := h.head
  unfold trimStart
  rw [List.dropWhile_append]
  split
  · next hall =>
    rw [List.isEmpty_iff.1 hall, hc, List.cons_append, List.nil_append, List.dropWhile_cons_of_neg (by simp [hblank])]
  · rfl

theorem Tight.trimEnd_append (h : Tight core) (front tail : List Char) :
    trimEnd (front ++ (core ++ tail)) = front ++ (core ++ trimEnd tail) := by
  obtain ⟨before, c, hc, hblank⟩ := h.last
  have hleft : ∀ tail, front ++ (core ++ tail) = (front ++ before) ++ c :: tail := by
    intro tail
    rw [hc, List.append_assoc, List.append_assoc, List.singleton_append]
  rw [hleft, hleft, Text.trimEnd_append hblank]

/-- Trimming works on what stands around a tight text. -/
theorem Tight.trim_around (h : Tight core) (front tail : List Char) :
    trim (front ++ (core ++ tail)) = trimStart front ++ (core ++ trimEnd tail) := by
  rw [trim, h.trimStart_append, h.trimEnd_append]

theorem trimStart_of_forall (h : ∀ c ∈ cs, isBlank c = true) : trimStart cs = [] := List.dropWhile_eq_nil_iff.2 h

theorem trimEnd_of_forall_blank (h : ∀ c ∈ cs, isBlank c = true) : trimEnd cs = [] := by
  rw [trimEnd, List.dropWhile_eq_nil_iff.2 fun c hc => h c (List.mem_reverse.1 hc), List.reverse_nil]

theorem Tight.trim_eq (h : Tight cs) : trim cs = cs := by
  have haround := h.trim_around [] []
  rwa [List.nil_append, List.append_nil, trimStart_of_forall (by simp), trimEnd_of_forall_blank (by simp),
    List.nil_append, List.append_nil] at haround

/-- A text is blank, or it has a tight core with blanks around it. -/
theorem blank_or_around (cs : List Char) : (∀ c ∈ cs, isBlank c = true) ∨
    ∃ front core tail, cs = front ++ (core ++ tail) ∧ Tight core ∧ (∀ c ∈ front, isBlank c = true) ∧
      ∀ c ∈ tail, isBlank c = true := by
  induction cs with
  | nil => exact .inl (by simp)
  | cons c rest ih =>
    cases hc : isBlank c with
    | true =>
      rcases ih with hrest | ⟨front, core, tail, rfl, hcore, hfront, htail⟩
      · exact .inl (List.forall_mem_cons.2 ⟨hc, hrest⟩)
      · exact .inr ⟨c :: front, core, tail, rfl, hcore, List.forall_mem_cons.2 ⟨hc, hfront⟩, htail⟩
    | false =>
      rcases ih with hrest | ⟨front, core, tail, rfl, hcore, _, htail⟩
      · exact .inr ⟨[], [c], rest, rfl, tight_singleton hc, by simp, hrest⟩
      · refine .inr ⟨[], [c] ++ (front ++ core), tail, ?_, (tight_singleton hc).append hcore front, by simp, htail⟩
        rw [List.nil_append, List.singleton_append, List.cons_append, List.append_assoc]

/-- Trimming leaves nothing or a tight text. -/
theorem trim_eq_nil_or_tight (cs : List Char) : trim cs = [] ∨ Tight (trim cs) := by
  rcases blank_or_around cs with h | ⟨front, core, tail, rfl, hcore, hfront, htail⟩
  · refine .inl ?_
    rw [trim, trimStart_of_forall h]
    rfl
  · rw [hcore.trim_around, trimStart_of_forall hfront, trimEnd_of_forall_blank htail, List.nil_append, List.append_nil]
    exact .inr hcore

theorem trim_trim (cs : List Char) : trim (trim cs) = trim cs := by
  rcases trim_eq_nil_or_tight cs with h | h
  · rw [h]
    rfl
  · exact h.trim_eq

/-- It does not matter which end is trimmed first. -/
theorem trimStart_trimEnd (cs : List Char) : trimStart (trimEnd cs) = trim cs := by
  rcases blank_or_around cs with h | ⟨front, core, tail, rfl, hcore, _, _⟩
  · rw [trim, trimStart_of_forall h, trimEnd_of_forall_blank h]
    rfl
  · rw [hcore.trimEnd_append, hcore.trimStart_append, hcore.trim_around]

/-- Trimming the end does not change the beginning. -/
theorem mem_head?_of_trimEnd (h : c ∈ (trimEnd cs).head?) : c ∈ cs.head? := by
  obtain ⟨blanks, hblanks⟩ := exists_trimEnd cs
  rw [hblanks, List.head?_append, h]
  rfl

/-- Blanks in front are trimmed whatever follows. -/
theorem trim_append (h : ∀ c ∈ front, isBlank c = true) (tail : List Char) : trim (front ++ tail) = trim tail := by
  rw [trim, trimStart, List.dropWhile_append_of_pos h]
  rfl

end Text

namespace Grammar

variable {p : Prefixes} {t : Term} {g cs rest : List Char} {b : Bool}

/-! ## Gaps -/

/-- White space and comments; a comment goes up to the end of its line, and the line end belongs to it. -/
inductive Gap : List Char → Prop where
  | nil : Gap []
  | space {c : Char} {g : List Char} (hc : c = ' ' ∨ c = '\t' ∨ c = '\r' ∨ c = '\n') (hg : Gap g) : Gap (c :: g)
  | comment {note g : List Char} (hnote : '\n' ∉ note) (hg : Gap g) : Gap ('#' :: (note ++ '\n' :: g))

/-- Blanks and tabs. -/
def Spaces (g : List Char) : Prop := ∀ c ∈ g, c = ' ' ∨ c = '\t'

theorem Gap.append (hg : Gap g) (hcs : Gap cs) : Gap (g ++ cs) := by
  induction hg with
  | nil => exact hcs
  | space hc _ ih => exact .space hc ih
  | comment hnote _ ih =>
    rw [List.cons_append, List.append_assoc, List.cons_append]
    exact .comment hnote ih

/-- A comment is passed over up to the end of its line. -/
theorem skipGap_comment {note : List Char} (h : '\n' ∉ note) (rest : List Char) :
    skipGap true (note ++ '\n' :: rest) = skipGap false rest := by
  induction note with
  | nil => rfl
  | cons c note ih =>
    rw [List.mem_cons, not_or] at h
    have hgo : (c != '\n') = true := bne_iff_ne.2 fun heq => h.1 heq.symm
    rw [List.cons_append, skipGap, if_pos rfl, hgo]
    exact ih h.2

theorem isGap_of_space {c : Char} (hc : c = ' ' ∨ c = '\t' ∨ c = '\r' ∨ c = '\n') : isGap c = true := by
  rcases hc with rfl | rfl | rfl | rfl <;> rfl

theorem isBlank_of_space {c : Char} (hc : c = ' ' ∨ c = '\t' ∨ c = '\r' ∨ c = '\n') : Text.isBlank c = true := by
  rcases hc with rfl | rfl | rfl | rfl <;> rfl

/-- A gap is passed over. -/
theorem Gap.skipGap_append (hg : Gap g) (rest : List Char) : skipGap false (g ++ rest) = skipGap false rest := by
  induction hg with
  | nil => rfl
  | space hc _ ih =>
    rw [List.cons_append, skipGap, if_neg Bool.false_ne_true, if_pos (isGap_of_space hc)]
    exact ih
  | comment hnote _ ih =>
    rw [List.cons_append, skipGap, if_neg Bool.false_ne_true, if_neg (by decide), if_pos rfl, List.append_assoc,
      List.cons_append, skipGap_comment hnote]
    exact ih

/-- Where all is passed over, so is every beginning of it. -/
theorem skipGap_eq_nil_of_append (h : skipGap b (g ++ rest) = []) : skipGap b g = [] := by
  induction g generalizing b with
  | nil => rfl
  | cons c g ih =>
    rw [List.cons_append, skipGap] at h
    rw [skipGap]
    split at h
    · next hin =>
      rw [if_pos hin]
      exact ih h
    · next hin =>
      rw [if_neg hin]
      split at h
      · next hgap =>
        rw [if_pos hgap]
        exact ih h
      · next hgap =>
        rw [if_neg hgap]
        split at h
        · next hsign =>
          rw [if_pos hsign]
          exact ih h
        · cases h

theorem Gap.skipGap_trimEnd (hg : Gap g) : skipGap false (Text.trimEnd g) = [] := by
  obtain ⟨blanks, hblanks⟩ := Text.exists_trimEnd g
  have hall : skipGap false (Text.trimEnd g ++ blanks) = [] := by
    rw [← hblanks, ← List.append_nil g, hg.skipGap_append]
    rfl
  exact skipGap_eq_nil_of_append hall

/-- Only white space is trimmed from a gap, so that a gap is left. -/
theorem Gap.trimStart (hg : Gap g) : Gap (Text.trimStart g) := by
  induction hg with
  | nil => exact .nil
  | space hc _ ih =>
    rw [Text.trimStart, List.dropWhile_cons_of_pos (isBlank_of_space hc)]
    exact ih
  | comment hnote hg _ =>
    rw [Text.trimStart_cons (by decide)]
    exact .comment hnote hg

/-- Nothing that is read stands in a gap. -/
theorem Gap.skipGap_trim (hg : Gap g) : skipGap false (Text.trim g) = [] := hg.trimStart.skipGap_trimEnd

theorem Spaces.isBlank (hg : Spaces g) : ∀ c ∈ g, Text.isBlank c = true := by
  intro c hc
  rcases hg c hc with rfl | rfl <;> rfl

theorem Spaces.skipInline_append (hg : Spaces g) (rest : List Char) : skipInline (g ++ rest) = skipInline rest :=
  List.dropWhile_append_of_pos fun c hc => by
    rcases hg c hc with rfl | rfl <;> rfl

/-! ## Terms and what follows them -/

theorem Gap.endsTerm (hg : Gap g) (hrest : ∀ c ∈ rest.head?, EndsTerm c) : ∀ c ∈ (g ++ rest).head?, EndsTerm c := by
  cases hg with
  | nil => exact hrest
  | space hc _ =>
    intro c hmem
    cases hmem
    rcases hc with rfl | rfl | rfl | rfl <;> decide +kernel
  | comment _ _ =>
    intro c hmem
    cases hmem
    decide +kernel

theorem Spaces.endsTerm (hg : Spaces g) (hrest : ∀ c ∈ rest.head?, EndsTerm c) :
    ∀ c ∈ (g ++ rest).head?, EndsTerm c := by
  cases g with
  | nil => exact hrest
  | cons c g =>
    intro c' hmem
    cases hmem
    rcases hg c List.mem_cons_self with rfl | rfl <;> decide +kernel

/-- A written term begins with an opening bracket, a quote or a question mark. -/
theorem exists_text_cons (t : Term) : ∃ c cs, t.text.toList = c :: cs ∧ (c = '<' ∨ c = '"' ∨ c = '?') := by
  cases t with
  | iri text => exact ⟨'<', _, toList_bracketIri text, .inl rfl⟩
  | literal l => exact ⟨'"', _, l.toList_text_cons, .inr (.inl rfl)⟩
  | var v =>
    refine ⟨'?', v.name.toList, ?_, .inr (.inr rfl)⟩
    simp [Term.text, Variable.text]

theorem tight_text (ht : t.Representable) : Text.Tight t.text.toList := by
  obtain ⟨c, cs, hcs, _⟩ := exists_text_cons t
  rcases Text.trim_eq_nil_or_tight t.text.toList with h | h
  · rw [trim_text ht, hcs] at h
    cases h
  · rwa [trim_text ht] at h

/-- No written term is passed over. -/
theorem skipGap_text (t : Term) (rest : List Char) : skipGap false (t.text.toList ++ rest) = t.text.toList ++ rest := by
  obtain ⟨c, cs, hcs, hc⟩ := exists_text_cons t
  rw [hcs, List.cons_append, skipGap]
  rcases hc with rfl | rfl | rfl <;> rfl

theorem skipInline_text (t : Term) (rest : List Char) : skipInline (t.text.toList ++ rest) = t.text.toList ++ rest := by
  obtain ⟨c, cs, hcs, hc⟩ := exists_text_cons t
  rw [hcs, List.cons_append, skipInline]
  rcases hc with rfl | rfl | rfl <;> rfl

/-! ## Parts in a row -/

/-- The parts one after the other, with a mark between each two and room around the mark. -/
inductive Joined {α : Type} (Part : α → List Char → Prop) (Room : List Char → Prop) (mark : Char) :
    List α → List Char → Prop where
  | nil : Joined Part Room mark [] []
  | single {a : α} {cs : List Char} (ha : Part a cs) : Joined Part Room mark [a] cs
  | cons {a b : α} {l : List α} {cs before after rest : List Char} (ha : Part a cs) (hbefore : Room before)
      (hafter : Room after) (hrest : Joined Part Room mark (b :: l) rest) :
      Joined Part Room mark (a :: b :: l) (cs ++ (before ++ mark :: (after ++ rest)))

variable {α : Type} {Part : α → List Char → Prop} {Room : List Char → Prop} {mark : Char} {l : List α}

/-- A row begins with its first part. -/
theorem Joined.exists_part {a : α} (h : Joined Part Room mark (a :: l) cs) :
    ∃ part more, Part a part ∧ cs = part ++ more := by
  cases h with
  | single ha => exact ⟨cs, [], ha, (List.append_nil cs).symm⟩
  | cons ha _ _ _ => exact ⟨_, _, ha, rfl⟩

/-- Tight parts make a tight row. -/
theorem Joined.tight (h : Joined Part Room mark l cs) (hl : l ≠ [])
    (hpart : ∀ a ∈ l, ∀ cs, Part a cs → Text.Tight cs) : Text.Tight cs := by
  induction h with
  | nil => exact absurd rfl hl
  | single ha => exact hpart _ List.mem_cons_self _ ha
  | @cons a b l cs before after rest ha _ _ _ ih =>
    have hrest := ih (List.cons_ne_nil b l) fun a ha => hpart a (List.mem_cons_of_mem _ ha)
    have hrow := (hpart a List.mem_cons_self cs ha).append hrest (before ++ mark :: after)
    rwa [List.append_assoc, List.cons_append] at hrow

end Grammar

end TripleChain
