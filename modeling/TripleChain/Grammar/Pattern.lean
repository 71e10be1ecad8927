import TripleChain.Grammar.Term
import TripleChain.Triple
/-!
# Reading triples and patterns

A triple is three terms, with white space and comments between them where they need it. A pattern is
triples with full stops between them and, if wanted, after the last. What is wrong inside a triple is
reported at the position where the triple starts.
-/

namespace TripleChain.Grammar

/-- One triple off the front of the characters. -/
def readTriple (p : Prefixes) (cs : List Char) : Except TermError (Triple × List Char) :=
  match readTerm p cs with
  | .error e => .error e
  | .ok (subject, rest) =>
  match readTerm p (skipGap false rest) with
  | .error e => .error e
  | .ok (predicate, rest) =>
  match readTerm p (skipGap false rest) with
  | .error e => .error e
  | .ok (object, rest) => .ok (⟨subject, predicate, object⟩, rest)

theorem readTriple_follows {p : Prefixes} {cs rest : List Char} {t : Triple}
    (h : readTriple p cs = .ok (t, rest)) : Follows rest cs := by
  unfold readTriple at h
  split at h
  · cases h
  · next hs =>
    split at h
    · cases h
    · next hp =>
      split at h
      · cases h
      · next ho =>
        cases h
        exact ((readTerm_follows ho).of_skipGap.trans (readTerm_follows hp).of_skipGap).trans
          (readTerm_follows hs)

/-- The triples from `cs`, an end of `whole`, to the end of the text, added to those before. -/
def readTriples (p : Prefixes) (whole : List Char) (before : Pattern) (cs : List Char) :
    Except (Halt TextError) Pattern :=
  if cs.isEmpty then .ok before
  else
    match _ht : readTriple p cs with
    | .error e => .error (e.locate (position whole cs))
    | .ok (t, rest) =>
      match _hr : skipGap false rest with
      | [] => .ok (before.insert t)
      | c :: rest' =>
        if c = '.' then readTriples p whole (before.insert t) (skipGap false rest')
        else .error (.report (.malformed (position whole (c :: rest')) .noFullStop))
termination_by cs.length
decreasing_by
  have hf := ((Follows.tail c rest').skipGap false).trans (_hr ▸ (readTriple_follows _ht).skipGap false)
  exact hf.length_lt

/-- One triple and what is behind it, and then the same again. -/
theorem readTriples_eq (p : Prefixes) (whole : List Char) (before : Pattern) (cs : List Char) :
    readTriples p whole before cs =
      if cs.isEmpty then .ok before
      else
        match readTriple p cs with
        | .error e => .error (e.locate (position whole cs))
        | .ok (t, rest) =>
          match skipGap false rest with
          | [] => .ok (before.insert t)
          | c :: rest' =>
            if c = '.' then readTriples p whole (before.insert t) (skipGap false rest')
            else .error (.report (.malformed (position whole (c :: rest')) .noFullStop)) := by
  rw [readTriples]
  split
  · rfl
  · split
    · next h => rw [h]
    · next h =>
      rw [h]
      dsimp only
      split
      · next hr => rw [hr]
      · next hr => rw [hr]

/-- Reads a text that holds one triple, with or without a full stop. -/
def parseTriple (p : Prefixes) (text : String) : Except (Halt TextError) Triple :=
  let whole := Text.trim text.toList
  match readTriple p whole with
  | .error e => .error (e.locate 0)
  | .ok (t, rest) =>
    let rest := Text.trim rest
    if rest.isEmpty || rest == ['.'] then .ok t
    else .error (.report (.malformed (position whole rest) .afterTriple))

/-- Reads a text that holds a pattern. -/
def parsePattern (p : Prefixes) (text : String) : Except (Halt TextError) Pattern :=
  let whole := Text.trim text.toList
  readTriples p whole ∅ (skipGap false whole)

end TripleChain.Grammar
