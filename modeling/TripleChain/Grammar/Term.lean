import TripleChain.Grammar.Error
import TripleChain.Grammar.Lexeme
import TripleChain.Grammar.Prefixes
/-!
# Reading terms

`readTerm` takes one term off the front of the characters. The forms are tried in a fixed order: an
IRI, a variable, a string, a number, a truth value, the letter for the predicate of classes, and last
a label with a local name. `parseTerm` reads a text that holds one term.
-/

namespace TripleChain.Grammar

/-- As many characters as fill a number of bytes exactly, or all if there are not so many bytes. -/
def preview? : Nat → List Char → Option (List Char)
  | _, [] => some []
  | 0, _ :: _ => some []
  | budget, c :: rest =>
    if c.utf8Size ≤ budget then (preview? (budget - c.utf8Size) rest).map (c :: ·) else none

def previewBytes : Nat := 20

/-- The error for characters that start no term. -/
def noTermError (cs : List Char) : TermError :=
  match preview? previewBytes cs with
  | some start => .fault (.noTerm (String.ofList start))
  | none => .brokenPreview

/-- The IRI that a label and a local name stand for. -/
def resolve (p : Prefixes) (name : String × String) : Except TermError String :=
  match p.find? name.1 with
  | some iri => .ok (iri ++ name.2)
  | none => .error (.undefinedPrefix name.1)

/-- What a literal carries, after its closing quote. -/
def readAnnotation (p : Prefixes) (lexical : String) : List Char → Except TermError (Literal × List Char)
  | '@' :: cs =>
    match cs.takeWhile (fun c => Text.isAlphanumeric c || c == '-') with
    | [] => .error (.fault .badLanguage)
    | tag => .ok (.inLanguage lexical (String.ofList tag),
        cs.dropWhile fun c => Text.isAlphanumeric c || c == '-')
  | '^' :: '^' :: cs =>
    match scanIri? cs with
    | some (iri, rest) => .ok (.typed lexical iri, rest)
    | none =>
      match scanPrefixed? cs with
      | some (name, rest) => (resolve p name).map fun iri => (.typed lexical iri, rest)
      | none => .error (.fault .badDatatype)
  | cs => .ok (.ofText lexical, cs)

/-- A string with what it carries. -/
def readLiteral (p : Prefixes) (cs : List Char) : Except TermError (Literal × List Char) :=
  match scanString? cs with
  | some (lexical, rest) => readAnnotation p lexical rest
  | none => .error (.fault .badString)

/-- True when the characters start with a quote of either kind. -/
def startsQuoted : List Char → Bool
  | c :: _ => c == '"' || c == '\x27'
  | [] => false

/-- One term off the front of the characters. -/
def readTerm (p : Prefixes) (cs : List Char) : Except TermError (Term × List Char) :=
  match scanIri? cs with
  | some (iri, rest) => .ok (.iri iri, rest)
  | none =>
  match scanVariable? cs with
  | some (v, rest) => .ok (.var v, rest)
  | none =>
  -- What starts with a quote is a string or no term at all.
  if startsQuoted cs then (readLiteral p cs).map fun (l, rest) => (.literal l, rest)
  else
  match (scanNumber? cs).or (scanBoolean? cs) with
  | some (l, rest) => .ok (.literal l, rest)
  | none =>
  match scanIsA? cs with
  | some rest => .ok (.iri Vocabulary.rdfType, rest)
  | none =>
  match scanPrefixed? cs with
  | some (name, rest) => (resolve p name).map fun iri => (.iri iri, rest)
  | none => .error (noTermError cs)

theorem readAnnotation_follows {p : Prefixes} {lexical : String} {cs rest whole : List Char} {l : Literal}
    (h : readAnnotation p lexical cs = .ok (l, rest)) (hw : Follows cs whole) : Follows rest whole := by
  unfold readAnnotation at h
  split at h
  · split at h
    · cases h
    · cases h
      exact ((Follows.tail _ _).trans hw).dropWhile _
  · split at h
    · next hi =>
      cases h
      exact (((scanIri?_follows hi).cons _).cons _).trans hw
    · split at h
      · next hp =>
        cases hr : resolve p _ with
        | error e => rw [hr] at h; cases h
        | ok iri =>
          rw [hr] at h
          cases h
          exact (((scanPrefixed?_follows hp).cons _).cons _).trans hw
      · cases h
  · cases h
    exact hw

theorem readLiteral_follows {p : Prefixes} {cs rest : List Char} {l : Literal}
    (h : readLiteral p cs = .ok (l, rest)) : Follows rest cs := by
  unfold readLiteral at h
  split at h
  · next hs => exact readAnnotation_follows h (scanString?_follows hs)
  · cases h

/-- A term takes at least one character. -/
theorem readTerm_follows {p : Prefixes} {cs rest : List Char} {t : Term}
    (h : readTerm p cs = .ok (t, rest)) : Follows rest cs := by
  unfold readTerm at h
  split at h
  · next hi => cases h; exact scanIri?_follows hi
  split at h
  · next hv => cases h; exact scanVariable?_follows hv
  split at h
  · cases hl : readLiteral p cs with
    | error e => rw [hl] at h; cases h
    | ok r =>
      rw [hl] at h
      cases h
      exact readLiteral_follows hl
  split at h
  · next hn =>
    cases h
    rcases Option.or_eq_some_iff.1 hn with hn | ⟨_, hb⟩
    · exact scanNumber?_follows hn
    · exact scanBoolean?_follows hb
  split at h
  · next ha => cases h; exact scanIsA?_follows ha
  split at h
  · next hp =>
    cases hr : resolve p _ with
    | error e => rw [hr] at h; cases h
    | ok iri =>
      rw [hr] at h
      cases h
      exact scanPrefixed?_follows hp
  · cases h

/-- The position of `rest`, an end of `whole`, in bytes. -/
def position (whole rest : List Char) : Nat := Text.byteLength whole - Text.byteLength rest

/-- Reads a text that holds one term, blanks around it apart. -/
def parseTerm (p : Prefixes) (text : String) : Except (Halt TextError) Term :=
  let whole := Text.trim text.toList
  match readTerm p whole with
  | .error e => .error (e.locate 0)
  | .ok (t, rest) =>
    if (Text.trim rest).isEmpty then .ok t
    else .error (.report (.malformed (position whole rest) .afterTerm))

end TripleChain.Grammar
