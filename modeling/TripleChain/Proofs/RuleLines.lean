import TripleChain.Proofs.ReadingSafety
import TripleChain.Proofs.RuleFiles
/-!
# The lines of a rule file

A rule file is refused at the first line that cannot be read under the prefixes declared before it, and the number of
that line is reported. A rule that is read is reported at a line of the file as well, but for one case: a declaration
below the first line of a rule moves the line that is reported behind it, and where the declaration is the last line
that line does not exist (`FileState.Within.last_line`). `reading_safe` puts together what the readers of all texts keep
to.
-/

namespace TripleChain

namespace Grammar

variable {p : Prefixes} {s t : FileState} {number n : Nat} {cs line : List Char} {lines : List (List Char)}

/-! ## Lines that cannot be read -/

/-- A trimmed line is no comment, not blank, no arrow and no declaration: only a triple is left. -/
structure HoldsTriple (cs : List Char) : Prop where
  comment : cs.head? ≠ some '#'
  blank : cs ≠ []
  arrow : cs ≠ ['-', '>']
  declaration : ¬declarationWord <+: cs

theorem readLine_of_holdsTriple (h : HoldsTriple (Text.trim line)) (p : Prefixes) :
    readLine p line =
      match parseTriple p (String.ofList (Text.trim line)) with
      | .ok t => .ok (.triple t)
      | .error e => .error (e.map .triple) := by
  unfold readLine
  dsimp only
  split
  · next hcomment => exact absurd (beq_iff_eq.1 hcomment) h.comment
  split
  · next hblank => exact absurd (List.isEmpty_iff.1 hblank) h.blank
  split
  · next harrow => exact absurd (beq_iff_eq.1 harrow) h.arrow
  split
  · next hword => exact absurd (List.isPrefixOf_iff_prefix.1 hword) h.declaration
  · rfl

theorem readDeclaration_ne_triple (cs : List Char) (error : TextError) :
    readDeclaration cs ≠ .error (.triple error) := by
  intro h
  unfold readDeclaration at h
  dsimp only at h
  split at h
  · split at h
    · split at h <;> cases h
    · cases h
  · cases h

/-- Where a line holds no triple, what is wrong with it is reported, and is not what is wrong with a triple. -/
theorem readLine_of_not_holdsTriple {e : Halt LineFault} (h : ¬HoldsTriple (Text.trim line))
    (herror : readLine p line = .error e) :
    ∃ fault, e = .report fault ∧ ∀ error, fault ≠ .triple error := by
  unfold readLine at herror
  dsimp only at herror
  split at herror
  · cases herror
  next hcomment =>
  split at herror
  · cases herror
  next hblank =>
  split at herror
  · cases herror
  next harrow =>
  split at herror
  · cases hread : readDeclaration ((Text.trim line).drop declarationWord.length) with
    | ok l =>
      rw [hread] at herror
      cases herror
    | error fault =>
      rw [hread] at herror
      cases herror
      refine ⟨fault, rfl, fun error heq => ?_⟩
      rw [heq] at hread
      exact readDeclaration_ne_triple _ error hread
  next hword =>
  exact absurd ⟨by simpa using hcomment, by simpa using hblank, by simpa using harrow, by simpa using hword⟩ h

/-- A triple is read safely on its line. -/
theorem parseTriple_line_safe (p : Prefixes) (line : List Char) :
    Safe p (Text.trim line) .triple (Text.trim line) (parseTriple p (String.ofList (Text.trim line))) := by
  have hsafe := parseTriple_safe p (String.ofList (Text.trim line))
  rwa [String.toList_ofList, Text.trim_trim] at hsafe

theorem readLine_position {f : Fault} (h : readLine p line = .error (.report (.triple (.malformed n f)))) :
    IsPosition (Text.trim line) n := by
  by_cases htriple : HoldsTriple (Text.trim line)
  · rw [readLine_of_holdsTriple htriple] at h
    split at h
    · cases h
    · next e he =>
      cases e with
      | report error =>
        cases h
        exact (parseTriple_line_safe p line).reported n f he
      | brokenPreview => cases h
  · obtain ⟨fault, heq, hfault⟩ := readLine_of_not_holdsTriple htriple h
    cases heq
    exact absurd rfl (hfault _)

/-- Only a line with a triple can break off. -/
theorem readLine_broken : readLine p line = .error .brokenPreview ↔
    HoldsTriple (Text.trim line) ∧ Breaks p (Text.trim line) .triple (Text.trim line) := by
  rw [← (parseTriple_line_safe p line).broken]
  constructor
  · intro h
    by_cases htriple : HoldsTriple (Text.trim line)
    · refine ⟨htriple, ?_⟩
      rw [readLine_of_holdsTriple htriple] at h
      split at h
      · cases h
      · next e he =>
        cases e with
        | report error => cases h
        | brokenPreview => exact he
    · obtain ⟨fault, heq, _⟩ := readLine_of_not_holdsTriple htriple h
      cases heq
  · rintro ⟨htriple, h⟩
    rw [readLine_of_holdsTriple htriple, h]
    rfl

/-- The lines are refused for the first one that cannot be read after those before it. -/
theorem readLines_eq_error {e : Halt RuleFileError} : readLines s number lines = .error e ↔
    ∃ before line after t cause, lines = before ++ line :: after ∧ readLines s number before = .ok t ∧
      readLine t.prefixes line = .error cause ∧ e = cause.map fun fault => ⟨number + before.length, fault⟩ := by
  constructor
  · intro h
    induction lines generalizing s number with
    | nil => cases h
    | cons line lines ih =>
      rw [readLines] at h
      split at h
      · next l hline =>
        obtain ⟨before, line', after, t, cause, rfl, hbefore, hcause, rfl⟩ := ih h
        refine ⟨line :: before, line', after, t, cause, rfl, ?_, hcause, ?_⟩
        · rw [readLines, hline]
          exact hbefore
        · rw [List.length_cons, Nat.add_right_comm, Nat.add_assoc]
      · next cause hline =>
        cases h
        exact ⟨[], line, lines, s, cause, rfl, rfl, hline, rfl⟩
  · rintro ⟨before, line, after, t, cause, rfl, hbefore, hcause, rfl⟩
    rw [readLines_append, hbefore]
    dsimp only
    rw [readLines, hcause]

/-- They break off without a report just if the first one that cannot be read does. -/
theorem readLines_broken : readLines s number lines = .error .brokenPreview ↔
    ∃ before line after t, lines = before ++ line :: after ∧ readLines s number before = .ok t ∧
      HoldsTriple (Text.trim line) ∧ Breaks t.prefixes (Text.trim line) .triple (Text.trim line) := by
  rw [readLines_eq_error]
  constructor
  · rintro ⟨before, line, after, t, cause, hlines, hbefore, hcause, heq⟩
    cases cause with
    | brokenPreview => exact ⟨before, line, after, t, hlines, hbefore, readLine_broken.1 hcause⟩
    | report fault => cases heq
  · rintro ⟨before, line, after, t, hlines, hbefore, hbreaks⟩
    exact ⟨before, line, after, t, .brokenPreview, hlines, hbefore, readLine_broken.2 hbreaks, rfl⟩

/-- A report names a line of the file, and a position reported is a place in that line. -/
theorem readLines_report {e : RuleFileError} (h : readLines s 1 lines = .error (.report e)) :
    1 ≤ e.line ∧ e.line ≤ lines.length ∧
    ∀ line ∈ lines[e.line - 1]?, ∀ n f, e.fault = .triple (.malformed n f) → IsPosition (Text.trim line) n := by
  obtain ⟨before, line, after, t, cause, rfl, _, hcause, heq⟩ := readLines_eq_error.1 h
  cases cause with
  | brokenPreview => cases heq
  | report fault =>
    cases heq
    refine ⟨Nat.le_add_right _ _, ?_, ?_⟩
    · simp only [List.length_append, List.length_cons]
      omega
    · intro line' hline' n f hfault
      rw [Nat.add_sub_cancel_left, List.getElem?_append_right (Nat.le_refl _), Nat.sub_self] at hline'
      cases hline'
      subst hfault
      exact readLine_position hcause

/-! ## Lines of rules -/

namespace FileState

/-- A rule is under way. -/
def Pending (s : FileState) : Prop := (s.antecedent.isEmpty && s.consequent.isEmpty) = false

theorem mem_close {r : SourceRule} :
    r ∈ s.close ↔ r ∈ s.finished ∨ s.Pending ∧ r = ⟨s.antecedent, s.consequent, s.start⟩ := by
  unfold close Pending
  cases s.antecedent.isEmpty && s.consequent.isEmpty
  · simp [or_comm]
  · simp

/-- Such is the state after so many lines: the finished rules are reported at one of them, the rule under way at one of
them or at the next. -/
structure Within (n : Nat) (s : FileState) : Prop where
  finished : ∀ r ∈ s.finished, 1 ≤ r.line ∧ r.line ≤ n
  start : 1 ≤ s.start ∧ s.start ≤ n + 1

theorem within_initial (p : Prefixes) : (initial p).Within 0 where
  finished := by simp [initial]
  start := by simp [initial]

theorem Within.close (h : s.Within n) : ∀ r ∈ s.close, 1 ≤ r.line ∧ r.line ≤ n + 1 := by
  intro r hr
  rcases mem_close.1 hr with hr | ⟨_, rfl⟩
  · have hline := h.finished r hr
    omega
  · exact h.start

theorem Within.step (h : s.Within n) (l : Line) : (s.step (n + 1) l).Within (n + 1) := by
  have hfinished : ∀ r ∈ s.finished, 1 ≤ r.line ∧ r.line ≤ n + 1 := fun r hr => by
    have hline := h.finished r hr
    omega
  have hstart : 1 ≤ s.start ∧ s.start ≤ n + 1 + 1 := by
    have hs := h.start
    omega
  cases l with
  | comment => exact ⟨hfinished, hstart⟩
  | arrow => exact ⟨hfinished, hstart⟩
  | blank => exact ⟨h.close, Nat.succ_pos _, Nat.le_refl _⟩
  | declaration label iri => exact ⟨hfinished, Nat.succ_pos _, Nat.le_refl _⟩
  | triple t =>
    rw [FileState.step]
    split <;> exact ⟨hfinished, hstart⟩

theorem Within.readLines (h : s.Within n) (hread : readLines s (n + 1) lines = .ok t) :
    t.Within (n + lines.length) := by
  induction lines generalizing s n with
  | nil =>
    cases hread
    exact h
  | cons line lines ih =>
    rw [Grammar.readLines] at hread
    split at hread
    · next l hline =>
      rw [List.length_cons, ← Nat.add_assoc, Nat.add_right_comm]
      exact ih (h.step l) hread
    · cases hread

/-- After the last line the rule under way is reported behind it just if that line is a declaration inside the rule. -/
theorem Within.last_line {l : Line} (h : s.Within n) (hline : readLine s.prefixes line = .ok l) :
    (s.step (n + 1) l).Pending ∧ n + 1 < (s.step (n + 1) l).start ↔ s.Pending ∧ (declaration? line).isSome = true := by
  have hstart : ¬n + 1 < s.start := Nat.not_lt.2 h.start.2
  cases l with
  | comment | arrow =>
    rw [declaration?_eq_none hline (by simp)]
    simp [FileState.step, hstart]
  | blank =>
    rw [declaration?_eq_none hline (by simp)]
    have hempty : ¬(s.step (n + 1) .blank).Pending := by rintro ⟨⟩
    simp [hempty]
  | declaration label iri =>
    rw [declaration?, readLine_declaration hline]
    simp [FileState.step, Pending]
  | triple t =>
    rw [declaration?_eq_none hline (by simp)]
    have hsame : (s.step (n + 1) (.triple t)).start = s.start := by
      rw [FileState.step]
      split <;> rfl
    rw [hsame]
    simp [hstart]

end FileState

/-! ## Rule files -/

/-- What the reader of rule files keeps to, for the lines of a file. -/
structure RulesSafe (p : Prefixes) (lines : List (List Char))
    (outcome : Except (Halt RuleFileError) RuleFile) : Prop where
  /-- The line of an error is in the file, and a position reported for it is a place in that line. -/
  error : ∀ e, outcome = .error (.report e) → 1 ≤ e.line ∧ e.line ≤ lines.length ∧
    ∀ line ∈ lines[e.line - 1]?, ∀ n f, e.fault = .triple (.malformed n f) → IsPosition (Text.trim line) n
  /-- The reader breaks off without a report just if, after lines that can be read, it comes to a triple that does. -/
  broken : outcome = .error .brokenPreview ↔
    ∃ before line after t, lines = before ++ line :: after ∧ readLines (.initial p) 1 before = .ok t ∧
      HoldsTriple (Text.trim line) ∧ Breaks t.prefixes (Text.trim line) .triple (Text.trim line)
  /-- A rule is reported at a line of the file, or behind the last one. -/
  rule : ∀ file, outcome = .ok file → ∀ r ∈ file.rules, 1 ≤ r.line ∧ r.line ≤ lines.length + 1
  /-- It is reported behind the last line just if that is a declaration inside a rule. -/
  beyond : ∀ file, outcome = .ok file → ((∃ r ∈ file.rules, lines.length < r.line) ↔
    ∃ before line t, lines = before ++ [line] ∧ readLines (.initial p) 1 before = .ok t ∧ t.Pending ∧
      (declaration? line).isSome = true)

theorem close_beyond_iff (hread : readLines (.initial p) 1 lines = .ok t) : (∃ r ∈ t.close, lines.length < r.line) ↔
    ∃ before line s, lines = before ++ [line] ∧ readLines (.initial p) 1 before = .ok s ∧ s.Pending ∧
      (declaration? line).isSome = true := by
  have hwithin : t.Within (0 + lines.length) := (FileState.within_initial p).readLines hread
  rw [Nat.zero_add] at hwithin
  have hclose : (∃ r ∈ t.close, lines.length < r.line) ↔ t.Pending ∧ lines.length < t.start := by
    constructor
    · rintro ⟨r, hr, hline⟩
      rcases FileState.mem_close.1 hr with hr | ⟨hpending, rfl⟩
      · exact absurd (hwithin.finished r hr).2 (Nat.not_le.2 hline)
      · exact ⟨hpending, hline⟩
    · rintro ⟨hpending, hline⟩
      exact ⟨_, FileState.mem_close.2 (.inr ⟨hpending, rfl⟩), hline⟩
  rw [hclose]
  rcases List.eq_nil_or_concat lines with rfl | ⟨before, line, hlines⟩
  · cases hread
    constructor
    · rintro ⟨hpending, _⟩
      cases hpending
    · rintro ⟨before, line, _, hnil, _⟩
      simp at hnil
  rw [List.concat_eq_append] at hlines
  subst hlines
  rw [readLines_append] at hread
  split at hread
  · cases hread
  next s hbefore =>
  rw [readLines] at hread
  split at hread
  · next l hline =>
    cases hread
    have hstate : s.Within (0 + before.length) := (FileState.within_initial p).readLines hbefore
    rw [Nat.zero_add] at hstate
    rw [List.length_append, List.length_singleton, Nat.add_comm 1 before.length, hstate.last_line hline]
    constructor
    · exact fun h => ⟨before, line, s, rfl, hbefore, h⟩
    · rintro ⟨before', line', s', heq, hbefore', h⟩
      obtain ⟨rfl, hcons⟩ := List.append_inj' heq rfl
      cases hcons
      rw [hbefore] at hbefore'
      cases hbefore'
      exact h
  · cases hread

theorem parseRules_safe (p : Prefixes) (text : String) : RulesSafe p (splitLines text.toList) (parseRules p text) := by
  unfold parseRules
  generalize splitLines text.toList = lines
  cases hread : readLines (.initial p) 1 lines with
  | ok t =>
    have hwithin : t.Within (0 + lines.length) := (FileState.within_initial p).readLines hread
    rw [Nat.zero_add] at hwithin
    refine ⟨?_, ?_, ?_, ?_⟩
    · rintro e ⟨⟩
    · rw [← readLines_broken, hread]
      exact iff_of_false (by rintro ⟨⟩) (by rintro ⟨⟩)
    · rintro file ⟨⟩ r hr
      exact hwithin.close r (List.mem_reverse.1 hr)
    · rintro file ⟨⟩
      rw [← close_beyond_iff hread]
      simp only [List.mem_reverse]
  | error e =>
    refine ⟨?_, ?_, ?_, ?_⟩
    · rintro e ⟨⟩
      exact readLines_report hread
    · rw [← readLines_broken, hread, Except.map, Except.error.injEq, Except.error.injEq]
    · rintro file ⟨⟩
    · rintro file ⟨⟩

/-! ## All readers -/

/-- What the readers keep to, whatever they are given. All of them are functions of their text, so that they end; their
loops do because each round leaves less than it was given. -/
structure ReadingSafe (p : Prefixes) : Prop where
  leaves : ∀ cs rest, Leaves p cs rest → rest <:+ cs
  prefixed : ∀ cs name rest, scanPrefixed? cs = some (name, rest) → cs = name.1.toList ++ ':' :: (name.2.toList ++ rest)
  turns : ∀ whole piece cs cs', Turn p whole piece cs cs' → cs'.length < cs.length
  places : ∀ whole piece cs e, TermAt p whole piece cs e → e <:+ cs
  term : ∀ text : String, Safe p (Text.trim text.toList) .term (Text.trim text.toList) (parseTerm p text)
  triple : ∀ text : String, Safe p (Text.trim text.toList) .triple (Text.trim text.toList) (parseTriple p text)
  pattern : ∀ text : String,
    Safe p (Text.trim text.toList) .pattern (skipGap false (Text.trim text.toList)) (parsePattern p text)
  binding : ∀ text : String,
    Safe p (Text.trim text.toList) .binding (skipInline (Text.trim text.toList)) (parseBinding p text)
  bindings : ∀ text : String, Safe p (Text.trim text.toList) .bindings (Text.trim text.toList) (parseBindings p text)
  ruleFile : ∀ text : String, RulesSafe p (splitLines text.toList) (parseRules p text)

/-- Every text is read safely under all prefixes. -/
theorem reading_safe (p : Prefixes) : ReadingSafe p where
  leaves _ _ h := h.suffix
  prefixed _ _ _ h := scanPrefixed?_parts h
  turns _ _ _ _ h := h.follows.length_lt
  places _ _ _ _ h := h.suffix
  term := parseTerm_safe p
  triple := parseTriple_safe p
  pattern := parsePattern_safe p
  binding := parseBinding_safe p
  bindings := parseBindings_safe p
  ruleFile := parseRules_safe p

/-- A rule of one line, and a declaration below it. -/
def misplacedText : String := "?a <b> ?c\n@prefix ex: <x>"

/-- The rule begins at line 1 of two lines, and is reported at line 3. -/
theorem misplaced_beyond : ¬∀ file, parseRules .standard misplacedText = .ok file →
    ∀ r ∈ file.rules, 1 ≤ r.line ∧ r.line ≤ (splitLines misplacedText.toList).length := by
  intro h
  have hlines : (splitLines misplacedText.toList).length = 2 := by decide +kernel
  have hrules : ((parseRules .standard misplacedText).toOption.map fun file => file.rules.map fun r => r.line) =
      some [3] := by
    decide +kernel
  cases hread : parseRules .standard misplacedText with
  | error e =>
    rw [hread] at hrules
    cases hrules
  | ok file =>
    rw [hread, Except.toOption, Option.map_some, Option.some.injEq, List.map_eq_singleton_iff] at hrules
    obtain ⟨r, hr, hline⟩ := hrules
    have hbound := (h file hread r (hr ▸ List.mem_singleton_self r)).2
    rw [hline, hlines] at hbound
    exact absurd hbound (by decide)

end Grammar

end TripleChain
