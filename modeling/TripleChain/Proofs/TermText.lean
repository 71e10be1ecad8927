import TripleChain.Grammar.Term
import Mathlib.Data.List.TakeWhile
/-!
# Terms and their written form

A term is written in one way, and that text is read as the term just when nothing in the term gets in the way of the
marks around it: no closing bracket, blank or line end in an IRI, nothing but name characters in a name, no line end in
a lexical form, and a language tag in lower case (`Grammar.parseTerm_text_iff`). Other characters make no difference;
inside quotes the backslash and the quote are escaped and come back (`Grammar.unescape_escapeQuoted`).

What can be read is decided by the first character (`Grammar.readTerm_bracket`, `Grammar.readTerm_question`,
`Grammar.readTerm_quoted`), so that no term is taken for one of another kind. Blanks at the ends are cut off before the
text is read; a term that would come back without them is still another term.
-/

namespace TripleChain

/-! ## Terms that can be written -/

/-- Nothing in the text ends an IRI. -/
def FitsIri (text : String) : Prop := ∀ c ∈ text.toList, c ≠ '>' ∧ c ≠ ' ' ∧ c ≠ '\n' ∧ c ≠ '\r'

/-- The text is some letters, digits and underscores. -/
def FitsName (name : String) : Prop := name ≠ "" ∧ ∀ c ∈ name.toList, Text.isAlphanumeric c = true ∨ c = '_'

/-- The text is some letters, digits and hyphens, all in lower case. -/
def FitsTag (tag : String) : Prop :=
  tag ≠ "" ∧ (∀ c ∈ tag.toList, Text.isAlphanumeric c = true ∨ c = '-') ∧ Text.lowercase tag = tag

instance (text : String) : Decidable (FitsIri text) := List.decidableBAll _ text.toList

instance (name : String) : Decidable (FitsName name) :=
  @instDecidableAnd _ _ (inferInstanceAs (Decidable (name ≠ ""))) (List.decidableBAll _ name.toList)

instance (tag : String) : Decidable (FitsTag tag) :=
  @instDecidableAnd _ _ (inferInstanceAs (Decidable (tag ≠ "")))
    (@instDecidableAnd _ _ (List.decidableBAll _ tag.toList) (inferInstanceAs (Decidable (Text.lowercase tag = tag))))

/-- What a literal carries can be told from its written form. -/
def Annotation.Representable : Annotation → Prop
  | .plain => True
  | .language tag => FitsTag tag
  | .datatype iri => FitsIri iri

/-- The term can be told from its written form. -/
def Term.Representable : Term → Prop
  | .iri text => FitsIri text
  | .literal l => '\n' ∉ l.lexical.toList ∧ l.annotation.Representable
  | .var v => FitsName v.name

instance (a : Annotation) : Decidable a.Representable :=
  match a with
  | .plain => .isTrue trivial
  | .language tag => inferInstanceAs (Decidable (FitsTag tag))
  | .datatype iri => inferInstanceAs (Decidable (FitsIri iri))

instance (t : Term) : Decidable t.Representable :=
  match t with
  | .iri text => inferInstanceAs (Decidable (FitsIri text))
  | .literal l => inferInstanceAs (Decidable ('\n' ∉ l.lexical.toList ∧ l.annotation.Representable))
  | .var v => inferInstanceAs (Decidable (FitsName v.name))

/-! ## The characters of a written term -/

/-- What is written behind the closing quote of a literal. -/
def Annotation.mark : Annotation → List Char
  | .plain => []
  | .language tag => '@' :: tag.toList
  | .datatype iri => '^' :: '^' :: '<' :: (iri.toList ++ ['>'])

theorem toList_bracketIri (iri : String) : (bracketIri iri).toList = '<' :: (iri.toList ++ ['>']) := by
  simp [bracketIri]

theorem Literal.toList_text (l : Literal) : l.text.toList = (quoteText l.lexical).toList ++ l.annotation.mark := by
  obtain ⟨lexical, annotation⟩ := l
  cases annotation <;> simp [Literal.text, Annotation.mark, toList_bracketIri]

theorem Literal.toList_text_cons (l : Literal) :
    l.text.toList = '"' :: (escapeQuoted l.lexical.toList ++ '"' :: l.annotation.mark) := by
  rw [toList_text, quoteText, String.toList_ofList, List.cons_append, List.append_assoc, List.singleton_append]

theorem Annotation.head?_mark (a : Annotation) : ∀ c ∈ a.mark.head?, c = '@' ∨ c = '^' := by
  cases a <;> simp [mark]

/-! ## Blanks at the ends -/

namespace Text

variable {c d : Char} {cs : List Char}

/-- Blanks are neither letters nor digits. -/
theorem isAlphanumeric_of_isBlank (h : isBlank c = true) : isAlphanumeric c = false := by
  have hblanks : ∀ n ∈ [9, 10, 11, 12, 13, 0x20, 0x85, 0xA0, 0x1680, 0x2000, 0x2001, 0x2002, 0x2003, 0x2004, 0x2005,
      0x2006, 0x2007, 0x2008, 0x2009, 0x200A, 0x2028, 0x2029, 0x202F, 0x205F, 0x3000],
      isAlphanumeric (Char.ofNat n) = false := by decide +kernel
  rw [← Char.ofNat_toNat c]
  apply hblanks
  simp only [isBlank, Bool.or_eq_true, Bool.and_eq_true, decide_eq_true_eq, beq_iff_eq] at h
  simp only [List.mem_cons, List.not_mem_nil, or_false]
  omega

theorem trimStart_cons (h : isBlank c = false) (cs : List Char) : trimStart (c :: cs) = c :: cs := by
  simp [trimStart, h]

theorem trimEnd_append (h : isBlank d = false) (front tail : List Char) :
    trimEnd (front ++ d :: tail) = front ++ d :: trimEnd tail := by
  unfold trimEnd
  rw [List.reverse_append, List.reverse_cons, List.append_assoc, List.dropWhile_append]
  split
  · next hall =>
    rw [List.isEmpty_iff.1 hall]
    simp [h]
  · simp

theorem exists_trimEnd (cs : List Char) : ∃ blanks, cs = trimEnd cs ++ blanks := by
  refine ⟨(cs.reverse.takeWhile isBlank).reverse, ?_⟩
  rw [trimEnd, ← List.reverse_append, List.takeWhile_append_dropWhile, List.reverse_reverse]

theorem trimEnd_of_forall (h : ∀ c ∈ cs, isBlank c = false) : trimEnd cs = cs := by
  have hnone : cs.reverse.dropWhile isBlank = cs.reverse := by
    cases hc : cs.reverse with
    | nil => rfl
    | cons c rest =>
      have hmem : c ∈ cs := List.mem_reverse.1 (hc ▸ List.mem_cons_self)
      simp [h c hmem]
  rw [trimEnd, hnone, List.reverse_reverse]

/-- Lower-casing adds nothing behind a text that it leaves in front: the capital I that grows does not stay. -/
theorem eq_nil_of_lowerChars {before extra : List Char} (h : lowerChars before cs = cs ++ extra) : extra = [] := by
  induction cs generalizing before with
  | nil => simpa [lowerChars] using h.symm
  | cons c rest ih =>
    rw [lowerChars] at h
    by_cases hsigma : c = 'Σ'
    · subst hsigma
      rw [if_pos rfl, List.cons_append, List.cons_append, List.nil_append, List.cons.injEq] at h
      split at h
      · exact absurd h.1 (by decide)
      · exact absurd h.1 (by decide)
    · by_cases hi : c = 'İ'
      · subst hi
        simp at h
      · simp only [hsigma, hi, if_false, List.cons_append, List.nil_append, List.cons.injEq] at h
        exact ih h.2

end Text

namespace Grammar

variable {p : Prefixes} {t : Term} {cs rest : List Char} {name : String}

/-! ## Lexemes -/

/-- A run of characters ends where the first one comes that does not belong to it. -/
theorem eq_span_iff {f : Char → Bool} {front : List Char} :
    front = cs.takeWhile f ∧ rest = cs.dropWhile f ↔
      cs = front ++ rest ∧ (∀ c ∈ front, f c = true) ∧ ∀ c ∈ rest.head?, f c = false := by
  constructor
  · rintro ⟨rfl, rfl⟩
    refine ⟨List.takeWhile_append_dropWhile.symm, fun c hc => List.mem_takeWhile_imp hc, fun c hc => ?_⟩
    have := List.head?_dropWhile_not f cs
    rw [hc] at this
    simpa using this
  · rintro ⟨rfl, hfront, hrest⟩
    rw [List.takeWhile_append_of_pos hfront, List.dropWhile_append_of_pos hfront]
    cases rest with
    | nil => simp
    | cons c rest => simp [hrest c rfl]

theorem forall_isIriChar {text : String} : (∀ c ∈ text.toList, isIriChar c = true) ↔ FitsIri text := by
  simp only [isIriChar, FitsIri, Bool.and_eq_true, bne_iff_ne, and_assoc]

/-- An IRI ends with the first closing bracket, and there is no blank before it. -/
theorem scanIri?_eq_some {iri : String} :
    scanIri? ('<' :: cs) = some (iri, rest) ↔ cs = iri.toList ++ '>' :: rest ∧ FitsIri iri := by
  rw [scanIri?, ← forall_isIriChar]
  constructor
  · intro h
    split at h
    · next after heq =>
      cases h
      obtain ⟨hcs, hfront, _⟩ := eq_span_iff.1 ⟨rfl, heq.symm⟩
      rw [String.toList_ofList]
      exact ⟨hcs, hfront⟩
    · cases h
  · rintro ⟨hcs, hfront⟩
    obtain ⟨htake, hdrop⟩ := eq_span_iff.2 ⟨hcs, hfront, by simp [isIriChar]⟩
    rw [← hdrop, ← htake, String.ofList_toList]
    rfl

theorem forall_isNameChar : (∀ c ∈ name.toList, isNameChar c = true) ↔
    ∀ c ∈ name.toList, Text.isAlphanumeric c = true ∨ c = '_' := by
  simp only [isNameChar, Bool.or_eq_true, beq_iff_eq]

/-- A name goes as far as there are name characters. -/
theorem scanName?_eq_some : scanName? cs = some (name, rest) ↔
    cs = name.toList ++ rest ∧ FitsName name ∧ ∀ c ∈ rest.head?, isNameChar c = false := by
  have hspan := @eq_span_iff cs rest isNameChar name.toList
  rw [forall_isNameChar] at hspan
  rw [scanName?, FitsName]
  constructor
  · intro h
    split at h
    · cases h
    · next hne =>
      cases h
      obtain ⟨hcs, hname, hrest⟩ := hspan.1 ⟨String.toList_ofList, rfl⟩
      refine ⟨hcs, ⟨fun hempty => hne ?_, hname⟩, hrest⟩
      rw [← String.toList_ofList (l := cs.takeWhile isNameChar), hempty]
      rfl
  · rintro ⟨hcs, ⟨hsome, hname⟩, hrest⟩
    obtain ⟨htake, hdrop⟩ := hspan.2 ⟨hcs, hname, hrest⟩
    rw [← htake, ← hdrop]
    split
    · next hnil => exact absurd (String.toList_eq_nil_iff.1 hnil) hsome
    · rw [String.ofList_toList]

/-! ## Strings -/

theorem unescape_cons {c : Char} (h : c ≠ '\\') (cs : List Char) : unescape (c :: cs) = c :: unescape cs := by
  rw [unescape]
  all_goals simp [h]

theorem escapeQuoted_of_mark {c : Char} (h : c = '\\' ∨ c = '"') (cs : List Char) :
    escapeQuoted (c :: cs) = '\\' :: c :: escapeQuoted cs := by
  simp only [escapeQuoted, List.flatMap_cons, if_pos h, List.cons_append, List.nil_append]

theorem escapeQuoted_of_not_mark {c : Char} (h : ¬(c = '\\' ∨ c = '"')) (cs : List Char) :
    escapeQuoted (c :: cs) = c :: escapeQuoted cs := by
  simp only [escapeQuoted, List.flatMap_cons, if_neg h, List.cons_append, List.nil_append]

/-- What has been escaped comes back. -/
theorem unescape_escapeQuoted (cs : List Char) : unescape (escapeQuoted cs) = cs := by
  induction cs with
  | nil => rfl
  | cons c cs ih =>
    by_cases hmark : c = '\\' ∨ c = '"'
    · rw [escapeQuoted_of_mark hmark]
      rcases hmark with rfl | rfl
      · rw [unescape, ih]
      · rw [unescape, ih]
    · rw [escapeQuoted_of_not_mark hmark, unescape_cons (mt .inl hmark), ih]

/-- The closing quote is found, unless there is a line end before it. -/
theorem scanShort?_escapeQuoted (cs rest : List Char) : scanShort? (escapeQuoted cs ++ '"' :: rest) =
    if '\n' ∈ cs then none else some (escapeQuoted cs, rest) := by
  induction cs with
  | nil => rfl
  | cons c cs ih =>
    by_cases hmark : c = '\\' ∨ c = '"'
    · -- The backslash takes the next character with it, whatever that is.
      have hmem : '\n' ∈ c :: cs ↔ '\n' ∈ cs := by
        rcases hmark with rfl | rfl <;> simp
      simp only [escapeQuoted_of_mark hmark, List.cons_append, hmem]
      rw [scanShort?, ih]
      by_cases hline : '\n' ∈ cs <;> simp [hline]
    · rw [escapeQuoted_of_not_mark hmark, List.cons_append, scanShort?]
      · rw [ih]
        by_cases hend : c = '\n'
        · simp [hend]
        · have hother : ¬ '\n' = c := fun heq => hend heq.symm
          have hslash : c ≠ '\\' := mt .inl hmark
          by_cases hline : '\n' ∈ cs <;> simp [hslash, hend, hother, hline]
      · exact mt .inr hmark
      · intro c' r heq
        exact absurd heq (mt .inl hmark)

/-- A text between quotes is what has been quoted, unless there is a line end in it. Three quotes in a row would begin
a string of another kind. -/
theorem scanString?_quoted (s : String) (h : ∀ c ∈ rest.head?, c ≠ '"') :
    scanString? ((quoteText s).toList ++ rest) = if '\n' ∈ s.toList then none else some (s, rest) := by
  have hquoted : (quoteText s).toList ++ rest = '"' :: (escapeQuoted s.toList ++ '"' :: rest) := by
    simp [quoteText]
  have hshort : ∀ cs, (∀ r, cs ≠ '"' :: '"' :: r) → scanString? ('"' :: cs) =
      (scanShort? cs).map fun found => (String.ofList (unescape found.1), found.2) := by
    intro cs hcs
    rw [scanString?, Option.none_or]
    exact hcs
  rw [hquoted, hshort, scanShort?_escapeQuoted]
  · split
    · rfl
    · simp only [Option.map_some, unescape_escapeQuoted, String.ofList_toList]
  · intro r heq
    cases hs : s.toList with
    | nil =>
      rw [hs] at heq
      cases rest with
      | nil => simp [escapeQuoted] at heq
      | cons c rest =>
        simp only [escapeQuoted, List.flatMap_nil, List.nil_append, List.cons.injEq, true_and] at heq
        exact h c rfl heq.1
    | cons c cs =>
      rw [hs] at heq
      by_cases hmark : c = '\\' ∨ c = '"'
      · simp [escapeQuoted_of_mark hmark] at heq
      · simp only [escapeQuoted_of_not_mark hmark, List.cons_append, List.cons.injEq] at heq
        exact hmark (.inr heq.1)

/-! ## Which form is tried -/

/-- What begins with an opening bracket or a question mark is an IRI or a variable or no term at all. -/
theorem readTerm_error_of_mark {c : Char} (hc : c = '<' ∨ c = '?') (hiri : scanIri? (c :: cs) = none)
    (hvar : scanVariable? (c :: cs) = none) : readTerm p (c :: cs) = .error (noTermError (c :: cs)) := by
  have hname : isNameChar c = false := by rcases hc with rfl | rfl <;> decide +kernel
  have hprefixed : scanPrefixed? (c :: cs) = none := by
    rw [scanPrefixed?, List.dropWhile_cons_of_neg (by simp [hname])]
    rcases hc with rfl | rfl <;> rfl
  have hnumber : scanNumber? (c :: cs) = none := by rcases hc with rfl | rfl <;> rfl
  have hboolean : scanBoolean? (c :: cs) = none := by rcases hc with rfl | rfl <;> rfl
  have hisA : scanIsA? (c :: cs) = none := by rcases hc with rfl | rfl <;> rfl
  have hquoted : startsQuoted (c :: cs) = false := by rcases hc with rfl | rfl <;> rfl
  simp only [readTerm, hiri, hvar, hquoted, hnumber, hboolean, hisA, hprefixed, Option.or_none, Bool.false_eq_true,
    if_false]

/-- After an opening bracket only an IRI is read. -/
theorem readTerm_bracket : readTerm p ('<' :: cs) = .ok (t, rest) ↔
    ∃ iri, t = .iri iri ∧ cs = iri.toList ++ '>' :: rest ∧ FitsIri iri := by
  constructor
  · intro h
    cases hiri : scanIri? ('<' :: cs) with
    | none =>
      rw [readTerm_error_of_mark (.inl rfl) hiri rfl] at h
      cases h
    | some found =>
      obtain ⟨iri, rest'⟩ := found
      rw [readTerm, hiri] at h
      cases h
      exact ⟨iri, rfl, scanIri?_eq_some.1 hiri⟩
  · rintro ⟨iri, rfl, hcs⟩
    rw [readTerm, scanIri?_eq_some.2 hcs]

/-- After a question mark only a variable is read. -/
theorem readTerm_question : readTerm p ('?' :: cs) = .ok (t, rest) ↔
    ∃ name, t = .var ⟨name⟩ ∧ cs = name.toList ++ rest ∧ FitsName name ∧ ∀ c ∈ rest.head?, isNameChar c = false := by
  have hiri : scanIri? ('?' :: cs) = none := rfl
  have hvariable : scanVariable? ('?' :: cs) = (scanName? cs).map fun found => (⟨found.1⟩, found.2) := rfl
  constructor
  · intro h
    cases hname : scanName? cs with
    | none =>
      rw [readTerm_error_of_mark (.inr rfl) hiri (by rw [hvariable, hname, Option.map_none])] at h
      cases h
    | some found =>
      obtain ⟨name, rest'⟩ := found
      rw [hname, Option.map_some] at hvariable
      simp only [readTerm, hiri, hvariable] at h
      cases h
      exact ⟨name, rfl, scanName?_eq_some.1 hname⟩
  · rintro ⟨name, rfl, hcs⟩
    rw [scanName?_eq_some.2 hcs, Option.map_some] at hvariable
    simp only [readTerm, hiri, hvariable]

/-- After a text between quotes comes what the literal carries. -/
theorem readTerm_quoted (s : String) (h : ∀ c ∈ rest.head?, c ≠ '"') : readTerm p ((quoteText s).toList ++ rest) =
    if '\n' ∈ s.toList then .error (.fault .badString)
    else ( readAnnotation p s rest).map fun (l, rest) => (.literal l, rest) := by
  have hstring := scanString?_quoted s h
  obtain ⟨cs, hcs⟩ : ∃ cs, (quoteText s).toList ++ rest = '"' :: cs := ⟨_, by rw [quoteText, String.toList_ofList]; rfl⟩
  rw [hcs] at hstring ⊢
  have hliteral : readTerm p ('"' :: cs) = (readLiteral p ('"' :: cs)).map fun (l, rest) => (.literal l, rest) := rfl
  rw [hliteral, readLiteral, hstring]
  split
  · next hsome =>
    split at hsome
    · cases hsome
    · cases hsome
      rw [if_neg ‹_›]
  · next hnone =>
    split at hnone
    · rw [if_pos ‹_›]
      rfl
    · cases hnone

/-! ## What a literal carries -/

/-- Behind an at sign stands a tag, and it is put into lower case. -/
theorem readAnnotation_at {lexical : String} {l : Literal} : readAnnotation p lexical ('@' :: cs) = .ok (l, rest) ↔
    ∃ tag, l = .inLanguage lexical tag ∧ cs = tag.toList ++ rest ∧ tag ≠ "" ∧
      (∀ c ∈ tag.toList, Text.isAlphanumeric c = true ∨ c = '-') ∧
      ∀ c ∈ rest.head?, (Text.isAlphanumeric c || c == '-') = false := by
  rw [ readAnnotation]
  constructor
  · intro h
    split at h
    · cases h
    · next hne =>
      cases h
      obtain ⟨hcs, htag, hrest⟩ := eq_span_iff.1 ⟨rfl, rfl⟩
      refine ⟨_, rfl, by rw [String.toList_ofList]; exact hcs, fun hempty => hne ?_, ?_, hrest⟩
      · rw [← String.toList_ofList (l := cs.takeWhile _), hempty]
        rfl
      · rw [String.toList_ofList]
        simpa only [Bool.or_eq_true, beq_iff_eq] using htag
  · rintro ⟨tag, rfl, hcs, hsome, htag, hrest⟩
    obtain ⟨htake, hdrop⟩ := eq_span_iff.2 ⟨hcs, by simpa only [Bool.or_eq_true, beq_iff_eq] using htag, hrest⟩
    rw [← htake, ← hdrop]
    split
    · next hnil => exact absurd (String.toList_eq_nil_iff.1 hnil) hsome
    · rw [String.ofList_toList]

/-- Behind two carets and an opening bracket stands the IRI of a datatype. -/
theorem readAnnotation_carets {lexical : String} {l : Literal} :
    readAnnotation p lexical ('^' :: '^' :: '<' :: cs) = .ok (l, rest) ↔
      ∃ iri, l = .typed lexical iri ∧ cs = iri.toList ++ '>' :: rest ∧ FitsIri iri := by
  rw [ readAnnotation]
  constructor
  · intro h
    split at h
    · next hiri =>
      cases h
      exact ⟨_, rfl, scanIri?_eq_some.1 hiri⟩
    · have hprefixed : scanPrefixed? ('<' :: cs) = none := by
        rw [scanPrefixed?, List.dropWhile_cons_of_neg (by decide +kernel)]
        rfl
      rw [hprefixed] at h
      cases h
  · rintro ⟨iri, rfl, hcs⟩
    rw [scanIri?_eq_some.2 hcs]

/-- Without an at sign or a caret the literal is plain. -/
theorem readAnnotation_plain (lexical : String) (h : ∀ c ∈ cs.head?, c ≠ '@' ∧ c ≠ '^') :
    readAnnotation p lexical cs = .ok (.ofText lexical, cs) := by
  unfold readAnnotation
  split
  · exact absurd rfl (h _ rfl).1
  · exact absurd rfl (h _ rfl).2
  · rfl

/-! ## Written terms -/

/-- No term goes on with the character. -/
def EndsTerm (c : Char) : Prop := isNameChar c = false ∧ c ≠ '-' ∧ c ≠ '"' ∧ c ≠ '@' ∧ c ≠ '^'

instance (c : Char) : Decidable (EndsTerm c) :=
  inferInstanceAs (Decidable ( isNameChar c = false ∧ c ≠ '-' ∧ c ≠ '"' ∧ c ≠ '@' ∧ c ≠ '^'))

theorem readAnnotation_mark {lexical : String} {a : Annotation} (ha : a.Representable)
    (h : ∀ c ∈ rest.head?, EndsTerm c) : readAnnotation p lexical (a.mark ++ rest) = .ok (⟨lexical, a⟩, rest) := by
  cases a with
  | plain => exact readAnnotation_plain lexical fun c hc => ⟨(h c hc).2.2.2.1, (h c hc).2.2.2.2⟩
  | language tag =>
    obtain ⟨hsome, hchars, hlower⟩ := ha
    refine readAnnotation_at.2 ⟨tag, ?_, rfl, hsome, hchars, fun c hc => ?_⟩
    · rw [Literal.inLanguage, hlower]
    · have hname := (h c hc).1
      have hhyphen := (h c hc).2.1
      simp only [isNameChar, Bool.or_eq_false_iff] at hname
      simp [hname.1, hhyphen]
  | datatype iri =>
    have hmark : Annotation.mark (.datatype iri) ++ rest = '^' :: '^' :: '<' :: (iri.toList ++ '>' :: rest) := by
      simp [ Annotation.mark]
    rw [hmark]
    exact readAnnotation_carets.2 ⟨iri, rfl, rfl, ha⟩

/-- A term that can be told from its text is read off the front of any text that does not go on with it. -/
theorem readTerm_text (p : Prefixes) (ht : t.Representable) (h : ∀ c ∈ rest.head?, EndsTerm c) :
    readTerm p (t.text.toList ++ rest) = .ok (t, rest) := by
  cases t with
  | iri text =>
    have htext : (Term.iri text).text.toList ++ rest = '<' :: (text.toList ++ '>' :: rest) := by
      simp [Term.text, toList_bracketIri]
    rw [htext]
    exact readTerm_bracket.2 ⟨text, rfl, rfl, ht⟩
  | var v =>
    have htext : (Term.var v).text.toList ++ rest = '?' :: (v.name.toList ++ rest) := by
      simp [Term.text, Variable.text]
    rw [htext]
    exact readTerm_question.2 ⟨v.name, rfl, rfl, ht, fun c hc => (h c hc).1⟩
  | literal l =>
    obtain ⟨hline, hannotation⟩ := ht
    have hopen : ∀ c ∈ (l.annotation.mark ++ rest).head?, c ≠ '"' := by
      intro c hc
      rw [List.head?_append] at hc
      rcases Option.or_eq_some_iff.1 hc with hmark | ⟨_, hrest⟩
      · rcases l.annotation.head?_mark c hmark with rfl | rfl <;> decide
      · exact (h c hrest).2.2.1
    rw [Term.text, Literal.toList_text, List.append_assoc, readTerm_quoted _ hopen, if_neg hline,
      readAnnotation_mark hannotation h]
    rfl

/-! ## Trimmed texts -/

theorem trim_bracketIri (iri : String) : Text.trim (bracketIri iri).toList = (bracketIri iri).toList := by
  rw [toList_bracketIri, Text.trim, Text.trimStart_cons (by decide), ← List.cons_append,
    Text.trimEnd_append (by decide)]
  rfl

theorem trim_variable (v : Variable) : Text.trim v.text.toList = '?' :: Text.trimEnd v.name.toList := by
  have htext : v.text.toList = '?' :: v.name.toList := by simp [Variable.text]
  rw [htext, Text.trim, Text.trimStart_cons (by decide)]
  exact Text.trimEnd_append (by decide) [] v.name.toList

/-- Only what stands behind the closing quote of a literal is trimmed. -/
theorem trim_literal (l : Literal) :
    Text.trim l.text.toList = (quoteText l.lexical).toList ++ Text.trimEnd l.annotation.mark := by
  have hquote : ∀ tail, (quoteText l.lexical).toList ++ tail =
      ('"' :: escapeQuoted l.lexical.toList) ++ '"' :: tail := by
    intro tail
    simp [quoteText]
  rw [Literal.toList_text, Text.trim, hquote, hquote, List.cons_append, Text.trimStart_cons (by decide),
    ← List.cons_append, Text.trimEnd_append (by decide)]

theorem trimEnd_language {a : Annotation} {tag : String} (h : a = .language tag) :
    Text.trimEnd a.mark = '@' :: Text.trimEnd tag.toList := by
  subst h
  exact Text.trimEnd_append (by decide) [] tag.toList

theorem trimEnd_datatype {a : Annotation} {iri : String} (h : a = .datatype iri) : Text.trimEnd a.mark = a.mark := by
  have hmark : a.mark = ('^' :: '^' :: '<' :: iri.toList) ++ '>' :: [] := by
    rw [h]
    simp [ Annotation.mark]
  rw [hmark, Text.trimEnd_append (by decide)]
  rfl

/-- Names and tags have no blanks. -/
theorem trimEnd_eq_self (h : ∀ c ∈ cs, Text.isAlphanumeric c = true ∨ c = '_' ∨ c = '-') : Text.trimEnd cs = cs := by
  apply Text.trimEnd_of_forall
  intro c hc
  rcases h c hc with halpha | rfl | rfl
  · cases hblank : Text.isBlank c with
    | true =>
      rw [Text.isAlphanumeric_of_isBlank hblank] at halpha
      cases halpha
    | false => rfl
  · decide
  · decide

theorem trimEnd_mark {a : Annotation} (ha : a.Representable) : Text.trimEnd a.mark = a.mark := by
  cases a with
  | plain => rfl
  | language tag =>
    rw [trimEnd_language rfl, trimEnd_eq_self]
    · rfl
    · intro c hc
      exact (ha.2.1 c hc).imp_right .inr
  | datatype iri => exact trimEnd_datatype rfl

/-- The text of a term that can be told from it has no blanks at its ends. -/
theorem trim_text (ht : t.Representable) : Text.trim t.text.toList = t.text.toList := by
  cases t with
  | iri text => exact trim_bracketIri text
  | var v =>
    have hname : Text.trimEnd v.name.toList = v.name.toList :=
      trimEnd_eq_self fun c hc => (ht.2 c hc).imp_right .inl
    rw [Term.text, trim_variable, hname]
    simp [Variable.text]
  | literal l => rw [Term.text, trim_literal, trimEnd_mark ht.2, ← Literal.toList_text]

/-! ## What is read back -/

/-- A tag that comes back from its trimmed text is one: blanks that are cut off would have to come back with the lower
case. -/
theorem fitsTag_of_read {lexical : String} {tag : String}
    (h : readAnnotation p lexical ('@' :: Text.trimEnd tag.toList) = .ok (⟨lexical, .language tag⟩, rest)) :
    FitsTag tag := by
  obtain ⟨found, hfound, hcs, hsome, hchars, _⟩ := readAnnotation_at.1 h
  obtain ⟨blanks, hblanks⟩ := Text.exists_trimEnd tag.toList
  have hlower : Text.lowercase found = tag := by
    simpa only [Literal.inLanguage, Literal.mk.injEq, Annotation.language.injEq, true_and, eq_comm] using hfound
  have hwhole : Text.lowerChars [] found.toList = found.toList ++ (rest ++ blanks) := by
    rw [← List.append_assoc, ← hcs, ← hblanks, ← hlower, Text.lowercase, String.toList_ofList]
  have hsame : found = tag := by
    apply String.toList_inj.1
    rw [hblanks, hcs, List.append_assoc, Text.eq_nil_of_lowerChars hwhole, List.append_nil]
  subst hsame
  exact ⟨hsome, hchars, hlower⟩

theorem representable_of_readMark {lexical : String} {a : Annotation}
    (h : readAnnotation p lexical (Text.trimEnd a.mark) = .ok (⟨lexical, a⟩, rest)) : a.Representable := by
  cases a with
  | plain => trivial
  | language tag =>
    rw [trimEnd_language rfl] at h
    exact fitsTag_of_read h
  | datatype iri =>
    rw [trimEnd_datatype rfl] at h
    obtain ⟨found, hfound, _, hfits⟩ := readAnnotation_carets.1 h
    cases hfound
    exact hfits

/-- A term that comes back from its trimmed text can be told from it. -/
theorem representable_of_readTerm (h : readTerm p (Text.trim t.text.toList) = .ok (t, rest)) : t.Representable := by
  cases t with
  | iri text =>
    rw [Term.text, trim_bracketIri, toList_bracketIri] at h
    obtain ⟨found, hfound, _, hfits⟩ := readTerm_bracket.1 h
    cases hfound
    exact hfits
  | var v =>
    rw [Term.text, trim_variable] at h
    obtain ⟨found, hfound, _, hfits, _⟩ := readTerm_question.1 h
    cases hfound
    exact hfits
  | literal l =>
    have hopen : ∀ c ∈ (Text.trimEnd l.annotation.mark).head?, c ≠ '"' := by
      intro c hc
      obtain ⟨blanks, hblanks⟩ := Text.exists_trimEnd l.annotation.mark
      have hmark : c ∈ l.annotation.mark.head? := by
        rw [hblanks, List.head?_append, hc]
        rfl
      rcases l.annotation.head?_mark c hmark with rfl | rfl <;> decide
    rw [Term.text, trim_literal, readTerm_quoted _ hopen] at h
    split at h
    · cases h
    · next hline =>
      cases hread : readAnnotation p l.lexical (Text.trimEnd l.annotation.mark) with
      | error e =>
        rw [hread] at h
        cases h
      | ok found =>
        rw [hread] at h
        cases h
        exact ⟨hline, representable_of_readMark hread⟩

/-- The text of a term is read as that term if, and only if, nothing in the term gets in the way of the marks. -/
theorem parseTerm_text_iff (p : Prefixes) (t : Term) : parseTerm p t.text = .ok t ↔ t.Representable := by
  constructor
  · intro h
    cases hread : readTerm p (Text.trim t.text.toList) with
    | error e =>
      rw [parseTerm, hread] at h
      cases h
    | ok found =>
      obtain ⟨t', rest⟩ := found
      simp only [parseTerm, hread] at h
      split at h
      · cases h
        exact representable_of_readTerm hread
      · cases h
  · intro ht
    have hread : readTerm p (t.text.toList ++ []) = .ok (t, []) := readTerm_text p ht (by simp)
    rw [List.append_nil] at hread
    simp only [parseTerm, trim_text ht, hread]
    rfl

example : ¬(Term.iri "a b").Representable := by decide

end Grammar

end TripleChain
