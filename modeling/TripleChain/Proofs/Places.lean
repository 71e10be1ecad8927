import TripleChain.Grammar.Binding
import TripleChain.Grammar.Pattern
import TripleChain.Proofs.Layout
/-!
# Places in a text

Whatever is read off a text leaves an end of the text (`Grammar.Leaves.suffix`), and every loop of the readers goes on
from a shorter one (`Grammar.Turn.follows`). The place of such an end, in bytes, is between two characters
(`Grammar.IsPosition`). So is every place where a term is asked for (`Grammar.TermAt`). What can go wrong there is that
no term can be read and the preview to be quoted ends inside a character: `Grammar.Broken`.
-/

namespace TripleChain

/-! ## Places in bytes -/

namespace Text

variable {n : Nat} {c : Char} {cs rest whole : List Char}

/-- So many bytes from the start of the text, no character is cut in two. -/
def OnBoundary (n : Nat) (cs : List Char) : Prop := ∃ front, front <+: cs ∧ byteLength front = n

theorem byteLength_le_of_suffix (h : rest <:+ cs) : byteLength rest ≤ byteLength cs := by
  obtain ⟨front, rfl⟩ := h
  rw [byteLength_append]
  exact Nat.le_add_left _ _

theorem onBoundary_zero (cs : List Char) : OnBoundary 0 cs := ⟨[], List.nil_prefix, rfl⟩

/-- Behind its first character a text has the boundaries of the rest. -/
theorem onBoundary_add (n : Nat) (c : Char) (cs : List Char) :
    OnBoundary (c.utf8Size + n) (c :: cs) ↔ OnBoundary n cs := by
  constructor
  · rintro ⟨front, hfront, hlen⟩
    cases front with
    | nil =>
      have hpos := c.utf8Size_pos
      simp only [byteLength] at hlen
      omega
    | cons d front =>
      rw [List.cons_prefix_cons] at hfront
      obtain ⟨rfl, hfront⟩ := hfront
      exact ⟨front, hfront, Nat.add_left_cancel hlen⟩
  · rintro ⟨front, hfront, rfl⟩
    exact ⟨c :: front, List.cons_prefix_cons.2 ⟨rfl, hfront⟩, rfl⟩

/-- No boundary is inside the first character. -/
theorem not_onBoundary_of_lt (hpos : 0 < n) (h : n < c.utf8Size) (cs : List Char) : ¬OnBoundary n (c :: cs) := by
  rintro ⟨front, hfront, hlen⟩
  cases front with
  | nil =>
    simp only [byteLength] at hlen
    omega
  | cons d front =>
    rw [List.cons_prefix_cons] at hfront
    rw [byteLength, hfront.1] at hlen
    omega

/-- An end of a trimmed text is not blank at its end, so that trimming it leaves an end of the text. -/
theorem trim_suffix_trim (h : rest <:+ trim cs) : trim rest <:+ trim cs := by
  rcases trim_eq_nil_or_tight cs with hnil | htight
  · rw [hnil] at h ⊢
    rw [List.eq_nil_of_suffix_nil h]
    exact List.suffix_rfl
  obtain ⟨before, c, hc, hblank⟩ := htight.last
  rcases List.eq_nil_or_concat rest with rfl | ⟨init, d, hrest⟩
  · exact List.nil_suffix
  rw [List.concat_eq_append] at hrest
  subst hrest
  have hd : [d] = [c] := by
    obtain ⟨front, hfront⟩ := h
    rw [hc, ← List.append_assoc] at hfront
    exact List.append_inj_right' hfront rfl
  cases hd
  have hend : trimEnd (init ++ [c]) = init ++ [c] := trimEnd_append hblank init []
  rw [← trimStart_trimEnd, hend]
  exact (List.dropWhile_suffix _).trans h

end Text

namespace Grammar

open Text (byteLength OnBoundary)

variable {p : Prefixes} {n : Nat} {name : String × String} {cs cs' e rest whole : List Char}

/-- The first bytes of a text cannot be quoted just if they end inside a character. -/
theorem preview?_eq_none (n : Nat) (cs : List Char) :
    preview? n cs = none ↔ ¬OnBoundary (min n (byteLength cs)) cs := by
  induction cs generalizing n with
  | nil =>
    rw [byteLength, Nat.min_zero]
    cases n <;> simp [preview?, Text.onBoundary_zero]
  | cons c cs ih =>
    cases n with
    | zero => simp [preview?, Text.onBoundary_zero]
    | succ n =>
      simp only [preview?, byteLength]
      by_cases hc : c.utf8Size ≤ n + 1
      · have hmin : min (n + 1) (c.utf8Size + byteLength cs) =
            c.utf8Size + min (n + 1 - c.utf8Size) (byteLength cs) := by
          omega
        rw [if_pos hc, Option.map_eq_none_iff, hmin, Text.onBoundary_add]
        exact ih _
      · have hmin : min (n + 1) (c.utf8Size + byteLength cs) = n + 1 := by omega
        rw [if_neg hc, hmin]
        exact iff_of_true rfl (Text.not_onBoundary_of_lt (Nat.succ_pos n) (Nat.not_le.1 hc) cs)

/-- A number of bytes that is the place of an end of the text: the lengths are subtracted the right way round, and it
falls between two characters. -/
structure IsPosition (whole : List Char) (n : Nat) : Prop where
  difference : ∃ rest, rest <:+ whole ∧ n + byteLength rest = byteLength whole
  le : n ≤ byteLength whole
  boundary : OnBoundary n whole

theorem isPosition_position (h : rest <:+ whole) : IsPosition whole (position whole rest) := by
  have hle := Text.byteLength_le_of_suffix h
  refine ⟨⟨rest, h, Nat.sub_add_cancel hle⟩, Nat.sub_le _ _, ?_⟩
  obtain ⟨front, rfl⟩ := h
  refine ⟨front, List.prefix_append front rest, ?_⟩
  rw [position, Text.byteLength_append, Nat.add_sub_cancel]

/-! ## What the scanners and readers leave -/

/-- A scanner or reader that takes something off the front of `cs` may leave `rest`. -/
inductive Leaves (p : Prefixes) (cs : List Char) : List Char → Prop where
  | gap (b : Bool) : Leaves p cs (skipGap b cs)
  | inline : Leaves p cs (skipInline cs)
  | iri {iri : String} {rest : List Char} (h : scanIri? cs = some (iri, rest)) : Leaves p cs rest
  | name {name : String} {rest : List Char} (h : scanName? cs = some (name, rest)) : Leaves p cs rest
  | var {v : Variable} {rest : List Char} (h : scanVariable? cs = some (v, rest)) : Leaves p cs rest
  | key {v : Variable} {rest : List Char} (h : scanKey? cs = some (v, rest)) : Leaves p cs rest
  | prefixed {name : String × String} {rest : List Char} (h : scanPrefixed? cs = some (name, rest)) : Leaves p cs rest
  | long {content rest : List Char} (h : scanLong? cs = some (content, rest)) : Leaves p cs rest
  | short {content rest : List Char} (h : scanShort? cs = some (content, rest)) : Leaves p cs rest
  | string {s : String} {rest : List Char} (h : scanString? cs = some (s, rest)) : Leaves p cs rest
  | digits {digits rest : List Char} (h : scanDigits? cs = some (digits, rest)) : Leaves p cs rest
  | fraction : Leaves p cs (scanFraction cs).2
  | exponent : Leaves p cs (scanExponent cs).2
  | number {l : Literal} {rest : List Char} (h : scanNumber? cs = some (l, rest)) : Leaves p cs rest
  | boolean {l : Literal} {rest : List Char} (h : scanBoolean? cs = some (l, rest)) : Leaves p cs rest
  | isA {rest : List Char} (h : scanIsA? cs = some rest) : Leaves p cs rest
  | annotation {lexical : String} {l : Literal} {rest : List Char} (h : readAnnotation p lexical cs = .ok (l, rest)) :
      Leaves p cs rest
  | literal {l : Literal} {rest : List Char} (h : readLiteral p cs = .ok (l, rest)) : Leaves p cs rest
  | term {t : Term} {rest : List Char} (h : readTerm p cs = .ok (t, rest)) : Leaves p cs rest
  | triple {t : Triple} {rest : List Char} (h : readTriple p cs = .ok (t, rest)) : Leaves p cs rest
  | pair {whole rest : List Char} {e : Variable × Term} (h : readPair p whole cs = .ok (e, rest)) : Leaves p cs rest
  | pairs {whole rest : List Char} {before b : Binding} (h : readPairs p whole before cs = .ok (b, rest)) :
      Leaves p cs rest

theorem Follows.suffix_of_cons {c : Char} (h : Follows rest (c :: cs)) : rest <:+ cs := by
  obtain ⟨d, front, heq⟩ := h
  exact ⟨front, (List.cons.inj heq).2.symm⟩

theorem Follows.suffix (h : Follows rest cs) : rest <:+ cs := (h.cons ' ').suffix_of_cons

theorem follows_of_cons_suffix {c : Char} (h : c :: rest <:+ cs) : Follows rest cs := by
  obtain ⟨front, rfl⟩ := h
  exact (Follows.tail c rest).append front

theorem skipGap_isSuffix (b : Bool) (cs : List Char) : skipGap b cs <:+ cs := by
  obtain ⟨front, h⟩ := skipGap_suffix b cs
  exact ⟨front, h.symm⟩

theorem skipInline_isSuffix (cs : List Char) : skipInline cs <:+ cs := List.dropWhile_suffix _

theorem readPairs_suffix {before b : Binding} (h : readPairs p whole before cs = .ok (b, rest)) : rest <:+ cs := by
  fun_induction readPairs p whole before cs with
  | case1 =>
    cases h
    exact List.suffix_rfl
  | case2 => cases h
  | case3 =>
    cases h
    exact List.nil_suffix
  | case4 before cs _ v t r hp rest' hr ih =>
    exact (ih h).trans ((Follows.tail ',' rest').skipInline.trans (hr ▸ (readPair_follows hp).skipInline)).suffix
  | case5 before cs _ v t r hp rest' hr =>
    cases h
    have hf : Follows ('|' :: rest') cs := hr ▸ (readPair_follows hp).skipInline
    exact hf.suffix
  | case6 => cases h

/-- What is left is an end of what was given. -/
theorem Leaves.suffix (h : Leaves p cs rest) : rest <:+ cs := by
  cases h with
  | gap b => exact skipGap_isSuffix b cs
  | inline => exact skipInline_isSuffix cs
  | iri h => exact (scanIri?_follows h).suffix
  | name h => exact (scanName?_follows h).suffix
  | var h => exact (scanVariable?_follows h).suffix
  | key h => exact (scanKey?_follows h).suffix
  | prefixed h => exact (scanPrefixed?_follows h).suffix
  | long h => exact (scanLong?_follows h).suffix
  | short h => exact (scanShort?_follows h).suffix
  | string h => exact (scanString?_follows h).suffix
  | digits h => exact (scanDigits?_follows h).suffix
  -- A fraction, an exponent and an annotation may be missing: they follow whatever stood before them.
  | fraction => exact (Follows.tail ' ' cs).scanFraction.suffix_of_cons
  | exponent => exact (Follows.tail ' ' cs).scanExponent.suffix_of_cons
  | number h => exact (scanNumber?_follows h).suffix
  | boolean h => exact (scanBoolean?_follows h).suffix
  | isA h => exact (scanIsA?_follows h).suffix
  | annotation h => exact (readAnnotation_follows h (Follows.tail ' ' cs)).suffix_of_cons
  | literal h => exact (readLiteral_follows h).suffix
  | term h => exact (readTerm_follows h).suffix
  | triple h => exact (readTriple_follows h).suffix
  | pair h => exact (readPair_follows h).suffix
  | pairs h => exact readPairs_suffix h

theorem dropFinalStops_isPrefix (cs : List Char) : dropFinalStops cs <+: cs := by
  rw [dropFinalStops, ← List.reverse_suffix, List.reverse_reverse]
  exact List.dropWhile_suffix _

/-- Behind a label and a local name stands what is left; the full stops at the end of the name belong to it. -/
theorem scanPrefixed?_parts (h : scanPrefixed? cs = some (name, rest)) :
    cs = name.1.toList ++ ':' :: (name.2.toList ++ rest) := by
  unfold scanPrefixed? at h
  split at h
  · next after hafter =>
    cases h
    obtain ⟨stops, hstops⟩ := (dropFinalStops_isPrefix (after.takeWhile isLocalChar)).trans (List.takeWhile_prefix _)
    have hdrop : (dropFinalStops (after.takeWhile isLocalChar) ++ stops).drop
        (dropFinalStops (after.takeWhile isLocalChar)).length = stops := List.drop_left
    rw [hstops] at hdrop
    rw [String.toList_ofList, String.toList_ofList, hdrop, hstops, ← hafter, List.takeWhile_append_dropWhile]
  · cases h

/-! ## Where a term is asked for -/

/-- What is read. -/
inductive Piece where
  | term
  | triple
  | pattern
  | pair
  | binding
  | bindings

/-- One round of a loop: a piece of the text at `cs` is read, the mark behind it is passed, and the next round begins at
`cs'`. -/
inductive Turn (p : Prefixes) (whole : List Char) : Piece → List Char → List Char → Prop where
  | triple {t : Triple} {cs rest rest' : List Char} (ht : readTriple p cs = .ok (t, rest))
      (hmark : skipGap false rest = '.' :: rest') : Turn p whole .pattern cs (skipGap false rest')
  | pair {e : Variable × Term} {cs rest rest' : List Char} (hne : cs ≠ []) (hbar : cs.head? ≠ some '|')
      (he : readPair p whole cs = .ok (e, rest)) (hmark : skipInline rest = ',' :: rest') :
      Turn p whole .binding cs (skipInline rest')
  | binding {b : Binding} {cs rest : List Char} (hne : cs ≠ [])
      (hb : readPairs p whole ∅ (skipInline cs) = .ok (b, '|' :: rest)) :
      Turn p whole .bindings cs (Text.trimStart rest)

/-- Reading such a piece of the text from `cs` comes to a place `e` where a term is to be read. -/
inductive TermAt (p : Prefixes) (whole : List Char) : Piece → List Char → List Char → Prop where
  | term (cs : List Char) : TermAt p whole .term cs cs
  | subject (cs : List Char) : TermAt p whole .triple cs cs
  | predicate {subject : Term} {cs rest : List Char} (hs : readTerm p cs = .ok (subject, rest)) :
      TermAt p whole .triple cs (skipGap false rest)
  | object {subject predicate : Term} {cs rest rest' : List Char} (hs : readTerm p cs = .ok (subject, rest))
      (hp : readTerm p (skipGap false rest) = .ok (predicate, rest')) : TermAt p whole .triple cs (skipGap false rest')
  | value {v : Variable} {cs rest rest' : List Char} (hkey : scanKey? cs = some (v, rest))
      (heq : skipInline rest = '=' :: rest') : TermAt p whole .pair cs (skipInline rest')
  | inTriple {cs e : List Char} (hne : cs ≠ []) (h : TermAt p whole .triple cs e) : TermAt p whole .pattern cs e
  | inPair {cs e : List Char} (hne : cs ≠ []) (hbar : cs.head? ≠ some '|') (h : TermAt p whole .pair cs e) :
      TermAt p whole .binding cs e
  | inBinding {cs e : List Char} (hne : cs ≠ []) (h : TermAt p whole .binding (skipInline cs) e) :
      TermAt p whole .bindings cs e
  | later {piece : Piece} {cs cs' e : List Char} (hturn : Turn p whole piece cs cs') (h : TermAt p whole piece cs' e) :
      TermAt p whole piece cs e

variable {piece : Piece}

/-- Each round takes at least one character. -/
theorem Turn.follows (h : Turn p whole piece cs cs') : Follows cs' cs := by
  cases h with
  | triple ht hmark =>
    exact ((Follows.tail '.' _).skipGap false).trans (hmark ▸ (readTriple_follows ht).skipGap false)
  | pair _ _ he hmark => exact (Follows.tail ',' _).skipInline.trans (hmark ▸ (readPair_follows he).skipInline)
  | binding _ hb =>
    exact (follows_of_cons_suffix ((readPairs_suffix hb).trans (skipInline_isSuffix cs))).dropWhile Text.isBlank

theorem Turn.ne_nil (h : Turn p whole piece cs cs') : cs ≠ [] := by
  obtain ⟨c, front, rfl⟩ := h.follows
  exact List.cons_ne_nil _ _

/-- A round leads to one place only. -/
theorem Turn.unique (h : Turn p whole piece cs cs') (hother : Turn p whole piece cs e) : cs' = e := by
  cases h with
  | triple ht hmark =>
    cases hother with
    | triple ht' hmark' =>
      rw [ht] at ht'
      cases ht'
      rw [hmark] at hmark'
      cases hmark'
      rfl
  | pair _ _ he hmark =>
    cases hother with
    | pair _ _ he' hmark' =>
      rw [he] at he'
      cases he'
      rw [hmark] at hmark'
      cases hmark'
      rfl
  | binding _ hb =>
    cases hother with
    | binding _ hb' =>
      rw [hb] at hb'
      cases hb'
      rfl

/-- A term is asked for at ends of the text only. -/
theorem TermAt.suffix (h : TermAt p whole piece cs e) : e <:+ cs := by
  induction h with
  | term cs => exact List.suffix_rfl
  | subject cs => exact List.suffix_rfl
  | predicate hs => exact ((readTerm_follows hs).skipGap false).suffix
  | object hs hp => exact (((readTerm_follows hp).of_skipGap.trans (readTerm_follows hs)).skipGap false).suffix
  | value hkey heq =>
    exact (((Follows.tail '=' _).trans (heq ▸ (scanKey?_follows hkey).skipInline)).skipInline).suffix
  | inTriple _ _ ih => exact ih
  | inPair _ _ _ ih => exact ih
  | inBinding _ _ ih => exact ih.trans (skipInline_isSuffix _)
  | later hturn _ ih => exact ih.trans hturn.follows.suffix

/-- The text does not begin with a quote, and no form of a term is there. -/
structure NoTerm (cs : List Char) : Prop where
  unquoted : startsQuoted cs = false
  iri : scanIri? cs = none
  var : scanVariable? cs = none
  number : scanNumber? cs = none
  boolean : scanBoolean? cs = none
  isA : scanIsA? cs = none
  prefixed : scanPrefixed? cs = none

/-- No term is there, and its preview cannot be quoted. -/
structure Broken (cs : List Char) : Prop where
  noTerm : NoTerm cs
  inCharacter : ¬OnBoundary (min previewBytes (byteLength cs)) cs

/-- Reading such a piece of the text from `cs` comes to a place where the reader breaks off without a report. -/
def Breaks (p : Prefixes) (whole : List Char) (piece : Piece) (cs : List Char) : Prop :=
  ∃ e, TermAt p whole piece cs e ∧ Broken e

theorem noTermError_eq_brokenPreview (cs : List Char) :
    noTermError cs = .brokenPreview ↔ ¬OnBoundary (min previewBytes (byteLength cs)) cs := by
  rw [← preview?_eq_none, noTermError]
  split <;> simp_all

theorem readLiteral_ne_brokenPreview (p : Prefixes) (cs : List Char) : readLiteral p cs ≠ .error .brokenPreview := by
  intro h
  unfold readLiteral at h
  split at h
  · unfold readAnnotation at h
    split at h
    · split at h <;> cases h
    · split at h
      · cases h
      · split at h
        · unfold resolve at h
          split at h <;> cases h
        · cases h
    · cases h
  · cases h

/-- A term breaks off just where there is none and its preview cannot be quoted. -/
theorem readTerm_broken : readTerm p cs = .error .brokenPreview ↔ Broken cs := by
  constructor
  · intro h
    unfold readTerm at h
    split at h
    · cases h
    next hiri =>
    split at h
    · cases h
    next hvar =>
    split at h
    · next hquoted =>
      cases hl : readLiteral p cs with
      | ok r => rw [hl] at h; cases h
      | error e =>
        rw [hl] at h
        cases h
        exact absurd hl (readLiteral_ne_brokenPreview p cs)
    next hquoted =>
    split at h
    · cases h
    next hnumber =>
    split at h
    · cases h
    next hisA =>
    split at h
    · unfold resolve at h
      split at h <;> cases h
    next hprefixed =>
    rw [Except.error.injEq, noTermError_eq_brokenPreview] at h
    rw [Option.or_eq_none_iff] at hnumber
    exact ⟨⟨Bool.eq_false_iff.2 hquoted, hiri, hvar, hnumber.1, hnumber.2, hisA, hprefixed⟩, h⟩
  · rintro ⟨h, hbroken⟩
    rw [readTerm, h.iri, h.var, h.unquoted, h.number, h.boolean, h.isA, h.prefixed,
      (noTermError_eq_brokenPreview cs).2 hbroken]
    rfl

end Grammar

end TripleChain
