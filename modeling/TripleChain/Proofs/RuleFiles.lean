import TripleChain.Grammar.RuleFile
import TripleChain.Proofs.Layout
/-!
# Rule files part by part

At a blank line the reader keeps nothing of what it has read but the prefixes declared and the rules finished. So a rule
file may be cut there: its rules are those of the part before and those of the part behind, where lines are counted on
and the prefixes of the part before are declared.
-/

namespace TripleChain

namespace Grammar

variable {p : Prefixes} {s t : FileState} {number k : Nat} {earlier : List SourceRule}
  {cs line blank : List Char} {lines : List (List Char)}

/-! ## The lines of a text -/

/-- A text and its lines. A line end stands after each of them, but it may be missing after the last if that is not
empty. -/
inductive TextOf : List (List Char) → List Char → Prop where
  | nil : TextOf [] []
  | last {line : List Char} (hline : '\n' ∉ line) (hne : line ≠ []) : TextOf [line] line
  | cons {line rest : List Char} {lines : List (List Char)} (hline : '\n' ∉ line) (hrest : TextOf lines rest) :
      TextOf (line :: lines) (line ++ '\n' :: rest)

theorem splitLines_append_newline (h : '\n' ∉ line) (rest : List Char) :
    splitLines (line ++ '\n' :: rest) = line :: splitLines rest := by
  induction line with
  | nil => rfl
  | cons c line ih =>
    rw [List.mem_cons, not_or] at h
    rw [List.cons_append, splitLines, if_neg (Ne.symm h.1), ih h.2]

theorem splitLines_of_not_mem (h : '\n' ∉ line) (hne : line ≠ []) : splitLines line = [line] := by
  induction line with
  | nil => exact absurd rfl hne
  | cons c line ih =>
    rw [List.mem_cons, not_or] at h
    rw [splitLines, if_neg (Ne.symm h.1)]
    cases line with
    | nil => rfl
    | cons d line => rw [ih h.2 (List.cons_ne_nil d line)]

theorem TextOf.splitLines_eq (h : TextOf lines cs) : splitLines cs = lines := by
  induction h with
  | nil => rfl
  | last hline hne => exact splitLines_of_not_mem hline hne
  | cons hline _ ih => rw [splitLines_append_newline hline, ih]

/-- Lines, each with its line end. -/
def fileText (lines : List (List Char)) : List Char := lines.flatMap (· ++ ['\n'])

/-- Lines are the lines of a text. -/
theorem textOf_fileText (h : ∀ line ∈ lines, '\n' ∉ line) : TextOf lines (fileText lines) := by
  induction lines with
  | nil => exact .nil
  | cons line lines ih =>
    rw [fileText, List.flatMap_cons, List.append_assoc]
    exact .cons (h line List.mem_cons_self) (ih fun line hline => h line (List.mem_cons_of_mem _ hline))

/-! ## The prefixes of a file -/

/-- The label and the namespace that a line declares. -/
def declaration? (line : List Char) : Option (String × String) :=
  match readLine ⟨[]⟩ line with
  | .ok (.declaration label iri) => some (label, iri)
  | _ => none

/-- What the lines declare, first line first. -/
def declarations (lines : List (List Char)) : List (String × String) := lines.filterMap declaration?

/-- Whether a line declares a prefix does not depend on the prefixes declared before it. -/
theorem readLine_declaration {label iri : String} (h : readLine p line = .ok (.declaration label iri)) (p' : Prefixes) :
    readLine p' line = .ok (.declaration label iri) := by
  unfold readLine at h ⊢
  dsimp only at h ⊢
  split at h
  · cases h
  split at h
  · cases h
  split at h
  · cases h
  split at h
  · next hcomment hblank harrow hword =>
    rw [if_neg hcomment, if_neg hblank, if_neg harrow, if_pos hword]
    exact h
  · -- What a line with a triple is depends on the prefixes, but a declaration it is under none.
    split at h <;> cases h

theorem readLine_blank (h : ∀ c ∈ blank, Text.isBlank c = true) (p : Prefixes) : readLine p blank = .ok .blank := by
  have htrim : Text.trim blank = [] := by
    rw [Text.trim, Text.trimStart_of_forall h]
    rfl
  rw [readLine, htrim]
  rfl

theorem declaration?_eq_none {l : Line} (h : readLine p line = .ok l) (hl : ∀ label iri, l ≠ .declaration label iri) :
    declaration? line = none := by
  unfold declaration?
  split
  · next label iri hline =>
    rw [readLine_declaration hline, Except.ok.injEq] at h
    exact absurd h.symm (hl label iri)
  · rfl

/-- A line changes the prefixes by what it declares. -/
theorem FileState.prefixes_step {l : Line} (h : readLine s.prefixes line = .ok l) (number : Nat) :
    (s.step number l).prefixes = s.prefixes.declareAll (declaration? line).toList := by
  cases l with
  | declaration label iri =>
    rw [declaration?, readLine_declaration h]
    rfl
  | comment | blank | arrow =>
    rw [declaration?_eq_none h (by simp)]
    rfl
  | triple t =>
    rw [declaration?_eq_none h (by simp), step]
    split <;> rfl

/-- The lines change the prefixes by what they declare. -/
theorem prefixes_of_readLines (h : readLines s number lines = .ok t) :
    t.prefixes = s.prefixes.declareAll (declarations lines) := by
  induction lines generalizing s number with
  | nil =>
    cases h
    rfl
  | cons line lines ih =>
    rw [readLines] at h
    split at h
    · next l hline =>
      rw [ih h, FileState.prefixes_step hline, declarations, declarations, List.filterMap_cons]
      cases declaration? line <;> rfl
    · cases h

/-! ## Reading on after other rules -/

/-- The same rule in a file with so many further lines before it. -/
def SourceRule.shift (k : Nat) (r : SourceRule) : SourceRule := { r with line := r.line + k }

/-- The same error in a file with so many further lines before it. -/
def RuleFileError.shift (k : Nat) (e : RuleFileError) : RuleFileError := { e with line := e.line + k }

namespace FileState

/-- The same state in a file with so many further lines before it, which hold the given rules. -/
def after (earlier : List SourceRule) (k : Nat) (s : FileState) : FileState :=
  { s with finished := s.finished.map (·.shift k) ++ earlier, start := s.start + k }

theorem close_after (s : FileState) : (s.after earlier k).close = s.close.map (·.shift k) ++ earlier := by
  by_cases h : (s.antecedent.isEmpty && s.consequent.isEmpty) = true
  · rw [close, close, if_pos h]
    exact if_pos h
  · rw [close, close, if_neg h]
    exact if_neg h

/-- A line does the same wherever the file begins. -/
theorem step_after (s : FileState) (l : Line) :
    (s.after earlier k).step (number + k) l = (s.step number l).after earlier k := by
  cases l with
  | comment => rfl
  | arrow => rfl
  | blank =>
    rw [step, close_after, Nat.add_right_comm]
    rfl
  | declaration label iri =>
    rw [step, Nat.add_right_comm]
    rfl
  | triple t =>
    obtain ⟨prefixes, finished, antecedent, consequent, inAntecedent, start⟩ := s
    cases inAntecedent <;> rfl

end FileState

/-- So do all lines. -/
theorem readLines_after (s : FileState) (lines : List (List Char)) :
    readLines (s.after earlier k) (number + k) lines =
      match readLines s number lines with
      | .error e => .error (e.map (·.shift k))
      | .ok t => .ok (t.after earlier k) := by
  induction lines generalizing s number with
  | nil => rfl
  | cons line lines ih =>
    simp only [readLines, show (s.after earlier k).prefixes = s.prefixes from rfl]
    cases readLine s.prefixes line with
    | error e => cases e <;> rfl
    | ok l =>
      dsimp only
      rw [FileState.step_after, Nat.add_right_comm, ih]

theorem readLines_append (s : FileState) (lines more : List (List Char)) :
    readLines s number (lines ++ more) =
      match readLines s number lines with
      | .error e => .error e
      | .ok t => readLines t (number + lines.length) more := by
  induction lines generalizing s number with
  | nil => rfl
  | cons line lines ih =>
    rw [List.cons_append, readLines, readLines]
    cases readLine s.prefixes line with
    | error e => rfl
    | ok l =>
      dsimp only
      rw [ih, List.length_cons, Nat.add_right_comm, Nat.add_assoc]

/-! ## Two parts -/

variable {A B : List (List Char)} {ca cb : List Char}

/-- A rule file cut at a blank line is read part by part: the first part under the given prefixes, the second under
these and those that the first part declares. What the second part gives, rules or an error, is reported at the lines
where it stands in the whole file. -/
theorem parseRules_append (p : Prefixes) (ha : TextOf A ca) (hb : TextOf B cb)
    (hblank : ∀ c ∈ blank, Text.isBlank c = true) (h : TextOf (A ++ blank :: B) cs) :
    parseRules p (String.ofList cs) =
      match parseRules p (String.ofList ca) with
      | .error e => .error e
      | .ok first =>
        match parseRules (p.declareAll (declarations A)) (String.ofList cb) with
        | .error e => .error (e.map (·.shift (A.length + 1)))
        | .ok second => .ok ⟨first.rules ++ second.rules.map (·.shift (A.length + 1)), second.prefixes⟩ := by
  simp only [parseRules, String.toList_ofList, ha.splitLines_eq, hb.splitLines_eq, h.splitLines_eq, readLines_append]
  cases hfirst : readLines (.initial p) 1 A with
  | error e => rfl
  | ok s =>
    have hprefixes : s.prefixes = p.declareAll (declarations A) := prefixes_of_readLines hfirst
    have hstart : s.step (1 + A.length) .blank =
        (FileState.initial (p.declareAll (declarations A))).after s.close (A.length + 1) := by
      rw [← hprefixes]
      rfl
    have hsecond : readLines s (1 + A.length) (blank :: B) =
        readLines ((FileState.initial (p.declareAll (declarations A))).after s.close (A.length + 1))
          (1 + (A.length + 1)) B := by
      rw [readLines, readLine_blank hblank, ← hstart]
      rfl
    simp only [hsecond, readLines_after, Except.map]
    cases readLines (.initial (p.declareAll (declarations A))) 1 B with
    | error e => rfl
    | ok t =>
      simp only [FileState.close_after, List.reverse_append, List.map_reverse]
      rfl

/-- A declaration and a rule. -/
def firstPart : List (List Char) :=
  ["@prefix ex: <http://e/>", "?a ex:p ?b", "->", "?b ex:p ?a"].map String.toList

/-- A rule whose prefix is declared elsewhere. -/
def secondPart : List (List Char) := ["?a ex:q ?b", "->", "?b ex:q ?a"].map String.toList

/-- The second rule is read with the prefix of the first part, and is reported at line 6. -/
theorem parseRules_two_parts :
    TextOf firstPart (fileText firstPart) ∧ TextOf secondPart (fileText secondPart) ∧
    (∀ c ∈ [' '], Text.isBlank c = true) ∧
    TextOf (firstPart ++ [' '] :: secondPart) (fileText (firstPart ++ [' '] :: secondPart)) ∧
    ((parseRules .standard (String.ofList (fileText (firstPart ++ [' '] :: secondPart)))).toOption.map
      fun file => file.rules.map fun r => r.line) = some [2, 6] := by
  have hfirst : TextOf firstPart (fileText firstPart) := textOf_fileText (by decide +kernel)
  have hsecond : TextOf secondPart (fileText secondPart) := textOf_fileText (by decide +kernel)
  have hblank : ∀ c ∈ [' '], Text.isBlank c = true := List.forall_mem_singleton.2 (by decide)
  have hwhole : TextOf (firstPart ++ [' '] :: secondPart) (fileText (firstPart ++ [' '] :: secondPart)) :=
    textOf_fileText (by decide +kernel)
  refine ⟨hfirst, hsecond, hblank, hwhole, ?_⟩
  rw [parseRules_append .standard hfirst hsecond hblank hwhole]
  decide +kernel

end Grammar

end TripleChain
