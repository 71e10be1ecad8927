import TripleChain.Text.Alphanumeric
import TripleChain.Text.Blank
import TripleChain.Term
/-!
# Lexemes

The smallest parts of a text. Each scanner takes its lexeme off the front of the characters and
returns it with what follows, or refuses. What follows is always a proper end of what was given
(`Follows`), so that whatever repeats scanners comes to an end.
-/

namespace TripleChain.Grammar

/-- `rest` is what remains of `cs` after at least one character. -/
def Follows (rest cs : List Char) : Prop := ∃ c front, cs = c :: (front ++ rest)

theorem Follows.length_lt {rest cs : List Char} (h : Follows rest cs) : rest.length < cs.length := by
  obtain ⟨c, front, rfl⟩ := h
  simp only [List.length_cons, List.length_append]
  omega

theorem Follows.tail (c : Char) (cs : List Char) : Follows cs (c :: cs) := ⟨c, [], rfl⟩

theorem Follows.append {rest cs : List Char} (front : List Char) (h : Follows rest cs) :
    Follows rest (front ++ cs) := by
  obtain ⟨c, mid, rfl⟩ := h
  cases front with
  | nil => exact ⟨c, mid, rfl⟩
  | cons d front => exact ⟨d, front ++ c :: mid, by simp⟩

theorem Follows.cons {rest cs : List Char} (c : Char) (h : Follows rest cs) : Follows rest (c :: cs) :=
  h.append [c]

theorem Follows.trans {a b c : List Char} (hab : Follows a b) (hbc : Follows b c) : Follows a c := by
  obtain ⟨d, front, rfl⟩ := hbc
  exact (hab.append front).cons d

theorem Follows.dropWhile {rest cs : List Char} (p : Char → Bool) (h : Follows rest cs) :
    Follows (rest.dropWhile p) cs := by
  obtain ⟨c, front, rfl⟩ := h
  exact ⟨c, front ++ rest.takeWhile p, by simp [List.takeWhile_append_dropWhile]⟩

theorem Follows.of_dropWhile {rest cs : List Char} (p : Char → Bool) (h : Follows rest (cs.dropWhile p)) :
    Follows rest cs := by
  rw [← List.takeWhile_append_dropWhile (p := p) (l := cs)]
  exact h.append _

/-! ## Blanks -/

/-- The white space of the grammar: blank, tab and line ends. -/
def isGap (c : Char) : Bool := c == ' ' || c == '\t' || c == '\r' || c == '\n'

/-- What follows white space and comments; a comment runs from a number sign to the end of its line. -/
def skipGap (inComment : Bool) : List Char → List Char
  | [] => []
  | c :: rest =>
    if inComment then skipGap (c != '\n') rest
    else if isGap c then skipGap false rest
    else if c = '#' then skipGap true rest
    else c :: rest

theorem skipGap_suffix (b : Bool) (cs : List Char) : ∃ front, cs = front ++ skipGap b cs := by
  induction cs generalizing b with
  | nil => exact ⟨[], rfl⟩
  | cons c rest ih =>
    rw [skipGap]
    split
    · obtain ⟨front, h⟩ := ih (c != '\n')
      exact ⟨c :: front, congrArg (c :: ·) h⟩
    · split
      · obtain ⟨front, h⟩ := ih false
        exact ⟨c :: front, congrArg (c :: ·) h⟩
      · split
        · obtain ⟨front, h⟩ := ih true
          exact ⟨c :: front, congrArg (c :: ·) h⟩
        · exact ⟨[], rfl⟩

theorem Follows.skipGap {rest cs : List Char} (b : Bool) (h : Follows rest cs) :
    Follows (skipGap b rest) cs := by
  obtain ⟨c, front, rfl⟩ := h
  obtain ⟨mid, hm⟩ := skipGap_suffix b rest
  exact ⟨c, front ++ mid, by rw [List.append_assoc, ← hm]⟩

theorem Follows.of_skipGap {rest cs : List Char} (b : Bool) (h : Follows rest (Grammar.skipGap b cs)) :
    Follows rest cs := by
  obtain ⟨front, hf⟩ := skipGap_suffix b cs
  rw [hf]
  exact h.append _

/-- What follows blanks and tabs on one line. -/
def skipInline (cs : List Char) : List Char := cs.dropWhile fun c => c == ' ' || c == '\t'

theorem Follows.skipInline {rest cs : List Char} (h : Follows rest cs) : Follows (skipInline rest) cs :=
  h.dropWhile _

theorem Follows.of_skipInline {rest cs : List Char} (h : Follows rest (Grammar.skipInline cs)) :
    Follows rest cs := h.of_dropWhile _

theorem skipInline_length (cs : List Char) : (skipInline cs).length ≤ cs.length :=
  (List.dropWhile_suffix _).length_le

/-! ## Names and IRIs -/

def isNameChar (c : Char) : Bool := Text.isAlphanumeric c || c == '_'

def isLocalChar (c : Char) : Bool := isNameChar c || c == '-' || c == '.'

/-- The characters that may stand between the angle brackets of an IRI. -/
def isIriChar (c : Char) : Bool := c != '>' && c != ' ' && c != '\n' && c != '\r'

/-- An IRI between angle brackets. -/
def scanIri? : List Char → Option (String × List Char)
  | '<' :: cs =>
    match cs.dropWhile isIriChar with
    | '>' :: rest => some (String.ofList (cs.takeWhile isIriChar), rest)
    | _ => none
  | _ => none

theorem scanIri?_follows {cs rest : List Char} {iri : String} (h : scanIri? cs = some (iri, rest)) :
    Follows rest cs := by
  unfold scanIri? at h
  split at h
  · split at h
    · next heq =>
      cases h
      exact ((heq ▸ Follows.tail '>' rest).of_dropWhile _).cons _
    · cases h
  · cases h

/-- At least one character of a name. -/
def scanName? (cs : List Char) : Option (String × List Char) :=
  match cs.takeWhile isNameChar with
  | [] => none
  | name => some (String.ofList name, cs.dropWhile isNameChar)

theorem scanName?_follows {cs rest : List Char} {name : String} (h : scanName? cs = some (name, rest)) :
    Follows rest cs := by
  unfold scanName? at h
  split at h
  · cases h
  · next name hne =>
    cases h
    cases hc : cs.takeWhile isNameChar with
    | nil => exact absurd hc hne
    | cons c front =>
      refine ⟨c, front, ?_⟩
      rw [← List.cons_append, ← hc, List.takeWhile_append_dropWhile]

/-- A variable: a question mark and a name. -/
def scanVariable? : List Char → Option (Variable × List Char)
  | '?' :: cs => (scanName? cs).map fun (name, rest) => (⟨name⟩, rest)
  | _ => none

theorem scanVariable?_follows {cs rest : List Char} {v : Variable} (h : scanVariable? cs = some (v, rest)) :
    Follows rest cs := by
  unfold scanVariable? at h
  split at h
  · obtain ⟨⟨name, r⟩, hn, hr⟩ := Option.map_eq_some_iff.1 h
    cases hr
    exact (scanName?_follows hn).cons _
  · cases h

/-- A variable name of a binding, with or without its question mark. -/
def scanKey? : List Char → Option (Variable × List Char)
  | '?' :: cs => (scanName? cs).map fun (name, rest) => (⟨name⟩, rest)
  | cs => (scanName? cs).map fun (name, rest) => (⟨name⟩, rest)

theorem scanKey?_follows {cs rest : List Char} {v : Variable} (h : scanKey? cs = some (v, rest)) :
    Follows rest cs := by
  unfold scanKey? at h
  split at h
  all_goals
    obtain ⟨⟨name, r⟩, hn, hr⟩ := Option.map_eq_some_iff.1 h
    cases hr
  · exact (scanName?_follows hn).cons _
  · exact scanName?_follows hn

def dropFinalStops (cs : List Char) : List Char := (cs.reverse.dropWhile (· == '.')).reverse

/-- A label, a colon and a local name. Full stops at the end of the local name are left: they end the
triple. -/
def scanPrefixed? (cs : List Char) : Option ((String × String) × List Char) :=
  match cs.dropWhile isNameChar with
  | ':' :: after =>
    let name := dropFinalStops (after.takeWhile isLocalChar)
    some ((String.ofList (cs.takeWhile isNameChar), String.ofList name), after.drop name.length)
  | _ => none

theorem scanPrefixed?_follows {cs rest : List Char} {name : String × String}
    (h : scanPrefixed? cs = some (name, rest)) : Follows rest cs := by
  unfold scanPrefixed? at h
  split at h
  · next after heq =>
    cases h
    refine Follows.of_dropWhile isNameChar ?_
    rw [heq]
    exact ⟨':', after.take _, by rw [List.take_append_drop]⟩
  · cases h

/-! ## Strings -/

/-- The text that the characters between quotes write: a backslash takes a following letter of the
five below, or a quote, with it; before anything else it stands for itself. -/
def unescape : List Char → List Char
  | '\\' :: 'n' :: rest => '\n' :: unescape rest
  | '\\' :: 'r' :: rest => '\r' :: unescape rest
  | '\\' :: 't' :: rest => '\t' :: unescape rest
  | '\\' :: '\\' :: rest => '\\' :: unescape rest
  | '\\' :: '"' :: rest => '"' :: unescape rest
  | '\\' :: '\x27' :: rest => '\x27' :: unescape rest
  | '\\' :: c :: rest => '\\' :: c :: unescape rest
  | c :: rest => c :: unescape rest
  | [] => []

/-- The characters up to the first three quotes in a row. -/
def scanLong? : List Char → Option (List Char × List Char)
  | '"' :: '"' :: '"' :: rest => some ([], rest)
  | c :: rest => (scanLong? rest).map fun (cs, rest) => (c :: cs, rest)
  | [] => none

theorem scanLong?_follows {cs content rest : List Char} (h : scanLong? cs = some (content, rest)) :
    Follows rest cs := by
  fun_induction scanLong? cs generalizing content with
  | case1 r =>
    cases h
    exact ⟨'"', ['"', '"'], rfl⟩
  | case2 c r _ ih =>
    obtain ⟨⟨cs, r'⟩, hs, hr⟩ := Option.map_eq_some_iff.1 h
    cases hr
    exact (ih hs).cons _
  | case3 => cases h

/-- The characters up to the closing quote on the same line; a backslash takes the next character with
it. -/
def scanShort? : List Char → Option (List Char × List Char)
  | '"' :: rest => some ([], rest)
  | '\\' :: c :: rest => (scanShort? rest).map fun (cs, rest) => ('\\' :: c :: cs, rest)
  | c :: rest =>
    if c = '\n' ∨ c = '\\' then none
    else (scanShort? rest).map fun (cs, rest) => (c :: cs, rest)
  | [] => none

theorem scanShort?_follows {cs content rest : List Char} (h : scanShort? cs = some (content, rest)) :
    Follows rest cs := by
  fun_induction scanShort? cs generalizing content with
  | case1 r =>
    cases h
    exact .tail _ _
  | case2 c r ih =>
    obtain ⟨⟨cs, r'⟩, hs, hr⟩ := Option.map_eq_some_iff.1 h
    cases hr
    exact ((ih hs).cons _).cons _
  | case3 => cases h
  | case4 c r _ _ _ ih =>
    obtain ⟨⟨cs, r'⟩, hs, hr⟩ := Option.map_eq_some_iff.1 h
    cases hr
    exact (ih hs).cons _
  | case5 => cases h

def isApostropheChar (c : Char) : Bool := c != '\x27' && c != '\n'

/-- A string between three quotes, else between quotes, else between single quotes. -/
def scanString? : List Char → Option (String × List Char)
  | '"' :: cs =>
    let long := match cs with
      | '"' :: '"' :: cs => scanLong? cs
      | _ => none
    (long.or (scanShort? cs)).map fun (content, rest) => (String.ofList (unescape content), rest)
  | '\x27' :: cs =>
    match cs.dropWhile isApostropheChar with
    | '\x27' :: rest => some (String.ofList (unescape (cs.takeWhile isApostropheChar)), rest)
    | _ => none
  | _ => none

theorem scanString?_follows {cs rest : List Char} {s : String} (h : scanString? cs = some (s, rest)) :
    Follows rest cs := by
  unfold scanString? at h
  split at h
  · next cs =>
    obtain ⟨⟨content, r⟩, hc, hr⟩ := Option.map_eq_some_iff.1 h
    cases hr
    rcases Option.or_eq_some_iff.1 hc with hl | ⟨_, hs⟩
    · split at hl
      · exact (((scanLong?_follows hl).cons _).cons _).cons _
      · cases hl
    · exact (scanShort?_follows hs).cons _
  · split at h
    · next heq =>
      cases h
      exact ((heq ▸ Follows.tail '\x27' rest).of_dropWhile _).cons _
    · cases h
  · cases h

/-! ## Numbers and words -/

/-- At least one ASCII digit. -/
def scanDigits? (cs : List Char) : Option (List Char × List Char) :=
  match cs.takeWhile Char.isDigit with
  | [] => none
  | digits => some (digits, cs.dropWhile Char.isDigit)

theorem scanDigits?_follows {cs digits rest : List Char} (h : scanDigits? cs = some (digits, rest)) :
    Follows rest cs := by
  unfold scanDigits? at h
  split at h
  · cases h
  · next hne =>
    cases h
    cases hc : cs.takeWhile Char.isDigit with
    | nil => exact absurd hc hne
    | cons c front =>
      refine ⟨c, front, ?_⟩
      rw [← List.cons_append, ← hc, List.takeWhile_append_dropWhile]

/-- A point and digits, if both are there. -/
def scanFraction : List Char → List Char × List Char
  | '.' :: cs =>
    match scanDigits? cs with
    | some (digits, rest) => ('.' :: digits, rest)
    | none => ([], '.' :: cs)
  | cs => ([], cs)

/-- The letter of an exponent, an optional sign and digits, if they are there. -/
def scanExponent (cs : List Char) : List Char × List Char :=
  match cs with
  | c :: after =>
    if c = 'e' ∨ c = 'E' then
      let (sign, digits) := match after with
        | '+' :: after => (['+'], after)
        | '-' :: after => (['-'], after)
        | _ => ([], after)
      match scanDigits? digits with
      | some (digits, rest) => (c :: (sign ++ digits), rest)
      | none => ([], cs)
    else ([], cs)
  | [] => ([], [])

theorem Follows.scanFraction {rest cs : List Char} (h : Follows rest cs) :
    Follows (scanFraction rest).2 cs := by
  unfold Grammar.scanFraction
  split
  · split
    · next hd => exact ((scanDigits?_follows hd).cons _).trans h
    · exact h
  · exact h

theorem Follows.scanExponent {rest cs : List Char} (h : Follows rest cs) :
    Follows (scanExponent rest).2 cs := by
  unfold Grammar.scanExponent
  split
  · next c after =>
    split
    · simp only
      split
      · next hd =>
        refine Follows.trans (Follows.cons c ?_) h
        split at hd
        · exact (scanDigits?_follows hd).cons _
        · exact (scanDigits?_follows hd).cons _
        · exact scanDigits?_follows hd
      · exact h
    · exact h
  · exact h

/-- A number: an optional sign, digits, an optional fraction, an optional exponent. A plus is dropped.
The parts that are there decide the datatype. -/
def scanNumber? (cs : List Char) : Option (Literal × List Char) :=
  let (sign, cs) := match cs with
    | '-' :: rest => (['-'], rest)
    | '+' :: rest => ([], rest)
    | _ => ([], cs)
  (scanDigits? cs).map fun (digits, rest) =>
    let (fraction, rest) := scanFraction rest
    let (exponent, rest) := scanExponent rest
    let datatype :=
      if !exponent.isEmpty then Vocabulary.xsdDouble
      else if !fraction.isEmpty then Vocabulary.xsdDecimal
      else Vocabulary.xsdInteger
    (.typed (String.ofList (sign ++ digits ++ fraction ++ exponent)) datatype, rest)

theorem scanNumber?_follows {cs rest : List Char} {l : Literal} (h : scanNumber? cs = some (l, rest)) :
    Follows rest cs := by
  unfold scanNumber? at h
  simp only [Option.map_eq_some_iff] at h
  obtain ⟨⟨digits, r⟩, hd, hr⟩ := h
  cases hr
  refine Follows.scanExponent (Follows.scanFraction ?_)
  split at hd
  · exact (scanDigits?_follows hd).cons _
  · exact (scanDigits?_follows hd).cons _
  · exact scanDigits?_follows hd

/-- True when a word ends before these characters: no letter, digit or colon follows. -/
def endsWord : List Char → Bool
  | c :: _ => !(Text.isAlphanumeric c || c == ':')
  | [] => true

/-- A truth value. -/
def scanBoolean? : List Char → Option (Literal × List Char)
  | 't' :: 'r' :: 'u' :: 'e' :: rest =>
    if endsWord rest then some (.typed "true" Vocabulary.xsdBoolean, rest) else none
  | 'f' :: 'a' :: 'l' :: 's' :: 'e' :: rest =>
    if endsWord rest then some (.typed "false" Vocabulary.xsdBoolean, rest) else none
  | _ => none

theorem scanBoolean?_follows {cs rest : List Char} {l : Literal} (h : scanBoolean? cs = some (l, rest)) :
    Follows rest cs := by
  unfold scanBoolean? at h
  split at h
  · split at h
    · cases h; exact ⟨'t', ['r', 'u', 'e'], rfl⟩
    · cases h
  · split at h
    · cases h; exact ⟨'f', ['a', 'l', 's', 'e'], rfl⟩
    · cases h
  · cases h

/-- The letter that stands for the predicate of classes, before white space, an IRI or a variable. -/
def scanIsA? : List Char → Option (List Char)
  | 'a' :: c :: rest => if isGap c || c == '<' || c == '?' then some (c :: rest) else none
  | _ => none

theorem scanIsA?_follows {cs rest : List Char} (h : scanIsA? cs = some rest) : Follows rest cs := by
  unfold scanIsA? at h
  split at h
  · split at h
    · cases h; exact .tail _ _
    · cases h
  · cases h

end TripleChain.Grammar
