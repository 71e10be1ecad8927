import TripleChain.Grammar.Term
import TripleChain.Binding
/-!
# Reading bindings

A binding is written as `name=term` pairs with commas between, a binding set as bindings with bars
between. Blanks and tabs may stand around the signs. A text without any binding is the empty set; an
empty binding counts where a bar follows it.
-/

namespace TripleChain.Grammar

/-- One `name=term` pair off the front of `cs`, an end of `whole`. -/
def readPair (p : Prefixes) (whole cs : List Char) :
    Except (Halt TextError) ((Variable × Term) × List Char) :=
  match scanKey? cs with
  | none => .error (.report (.malformed (position whole cs) .noVariable))
  | some (v, rest) =>
  match skipInline rest with
  | '=' :: rest =>
    let cs := skipInline rest
    match readTerm p cs with
    | .error e => .error (e.locate (position whole cs))
    | .ok (t, rest) =>
      if t.isVariable then .error (.report (.malformed (position whole rest) (.variableValue v)))
      else .ok ((v, t), rest)
  | rest => .error (.report (.malformed (position whole rest) .noEquals))

theorem readPair_follows {p : Prefixes} {whole cs rest : List Char} {e : Variable × Term}
    (h : readPair p whole cs = .ok (e, rest)) : Follows rest cs := by
  unfold readPair at h
  split at h
  · cases h
  · next hk =>
    split at h
    · next heq =>
      dsimp only at h
      split at h
      · cases h
      · next ht =>
        split at h
        · cases h
        · cases h
          have h1 := (readTerm_follows ht).of_skipInline.trans (Follows.tail '=' _)
          exact (heq ▸ h1).of_skipInline.trans (scanKey?_follows hk)
    · cases h

/-- The pairs from `cs`, an end of `whole`, up to a bar or the end of the text, added to those
before. Returned with what follows them. -/
def readPairs (p : Prefixes) (whole : List Char) (before : Binding) (cs : List Char) :
    Except (Halt TextError) (Binding × List Char) :=
  if cs.isEmpty || cs.head? == some '|' then .ok (before, cs)
  else
    match _hp : readPair p whole cs with
    | .error e => .error e
    | .ok ((v, t), rest) =>
      match _hr : skipInline rest with
      | [] => .ok (before.insert v t, [])
      | c :: rest' =>
        if c = ',' then readPairs p whole (before.insert v t) (skipInline rest')
        else if c = '|' then .ok (before.insert v t, c :: rest')
        else .error (.report (.malformed (position whole (c :: rest')) .noSeparator))
termination_by cs.length
decreasing_by
  have hf := (Follows.tail c rest').skipInline.trans (_hr ▸ (readPair_follows _hp).skipInline)
  exact hf.length_lt

/-- One pair and what is behind it, and then the same again. -/
theorem readPairs_eq (p : Prefixes) (whole : List Char) (before : Binding) (cs : List Char) :
    readPairs p whole before cs =
      if cs.isEmpty || cs.head? == some '|' then .ok (before, cs)
      else
        match readPair p whole cs with
        | .error e => .error e
        | .ok ((v, t), rest) =>
          match skipInline rest with
          | [] => .ok (before.insert v t, [])
          | c :: rest' =>
            if c = ',' then readPairs p whole (before.insert v t) (skipInline rest')
            else if c = '|' then .ok (before.insert v t, c :: rest')
            else .error (.report (.malformed (position whole (c :: rest')) .noSeparator)) := by
  rw [readPairs]
  split
  · rfl
  · split
    · next h => rw [h]
    · next h =>
      rw [h]
      dsimp only
      split
      · next hr => rw [hr]
      · next hr => rw [hr]

/-- What follows the pairs is no longer than the characters they were read from. -/
theorem readPairs_length {p : Prefixes} {whole cs rest : List Char} {before b : Binding}
    (h : readPairs p whole before cs = .ok (b, rest)) : rest.length ≤ cs.length := by
  fun_induction readPairs p whole before cs with
  | case1 => cases h; exact Nat.le_refl _
  | case2 => cases h
  | case3 => cases h; exact Nat.zero_le _
  | case4 before cs _ v t r hp rest' hr ih =>
    have hf := (Follows.tail ',' rest').skipInline.trans (hr ▸ (readPair_follows hp).skipInline)
    exact Nat.le_trans (ih h) (Nat.le_of_lt hf.length_lt)
  | case5 before cs _ v t r hp rest' hr =>
    cases h
    have hf : Follows ('|' :: rest') cs := hr ▸ (readPair_follows hp).skipInline
    exact Nat.le_of_lt hf.length_lt
  | case6 => cases h

/-- The bindings from `cs`, an end of `whole`, to the end of the text, added to those before. -/
def readBindings (p : Prefixes) (whole : List Char) (before : BindingSet) (cs : List Char) :
    Except (Halt TextError) BindingSet :=
  if cs.isEmpty then .ok before
  else
    match _hb : readPairs p whole ∅ (skipInline cs) with
    | .error e => .error e
    | .ok (b, '|' :: rest) => readBindings p whole (before.insert b) (Text.trimStart rest)
    | .ok (b, _) => .ok (before.insert b)
termination_by cs.length
decreasing_by
  have h1 := readPairs_length _hb
  have h2 := (List.dropWhile_suffix Text.isBlank : rest.dropWhile _ <:+ rest).length_le
  have h3 := skipInline_length cs
  simp only [List.length_cons, Text.trimStart] at *
  omega

/-- One binding and what is behind its bar, and then the same again. -/
theorem readBindings_eq (p : Prefixes) (whole : List Char) (before : BindingSet) (cs : List Char) :
    readBindings p whole before cs =
      if cs.isEmpty then .ok before
      else
        match readPairs p whole ∅ (skipInline cs) with
        | .error e => .error e
        | .ok (b, '|' :: rest) => readBindings p whole (before.insert b) (Text.trimStart rest)
        | .ok (b, _) => .ok (before.insert b) := by
  rw [readBindings]
  split
  · rfl
  · split
    · next h => rw [h]
    · next h =>
      rw [h]
      rfl
    · next hne h =>
      rw [h]
      split
      · next heq => cases heq
      · next heq =>
        cases heq
        exact absurd rfl (hne _)
      · next heq =>
        cases heq
        rfl

/-- Reads a text that holds one binding. -/
def parseBinding (p : Prefixes) (text : String) : Except (Halt TextError) Binding :=
  let whole := Text.trim text.toList
  match readPairs p whole ∅ (skipInline whole) with
  | .error e => .error e
  | .ok (b, rest) =>
    if rest.isEmpty then .ok b
    else .error (.report (.malformed (position whole rest) .afterBinding))

/-- Reads a text that holds a binding set. -/
def parseBindings (p : Prefixes) (text : String) : Except (Halt TextError) BindingSet :=
  let whole := Text.trim text.toList
  readBindings p whole ∅ whole

end TripleChain.Grammar
