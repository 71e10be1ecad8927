import TripleChain.Proofs.RuleLines
import TripleChain.RuleStore
import Mathlib.Data.List.DropRight
/-!
# The lines at which rules are reported

Blank lines cut a rule file into paragraphs, and each paragraph with a triple is a rule (`Grammar.parseRules_located`).
Its first line of its own is its first triple or arrow. It is reported at another one, the line behind the last
declaration of its paragraph, or the first line of the paragraph if there is no declaration. The two are the same where
nothing but a declaration stands directly above the rule and no declaration inside it; a comment above a rule is
reported in its place, and a declaration inside it moves it down (`Grammar.Paragraph.reported_eq_opening`,
`Grammar.Paragraph.opening_lt_reported`). A rule that the store rejects is reported at the same line.
`Grammar.swap_reported` is a file with both.
-/

namespace TripleChain

namespace Grammar

variable {p : Prefixes} {s t : FileState} {number : Nat} {lines : List (List Char)} {l : Line} {ls : List Line}

/-! ## Lines read one after the other -/

/-- The prefixes behind a line. -/
def Line.declareIn (p : Prefixes) : Line → Prefixes
  | .declaration label iri => p.declare label iri
  | _ => p

/-- What the lines of a text are, each under the prefixes declared before it. -/
inductive Reads : Prefixes → List (List Char) → List Line → Prop where
  | nil {p : Prefixes} : Reads p [] []
  | cons {p : Prefixes} {line : List Char} {lines : List (List Char)} {l : Line} {ls : List Line}
      (hline : readLine p line = .ok l) (hrest : Reads (l.declareIn p) lines ls) : Reads p (line :: lines) (l :: ls)

namespace FileState

/-- What lines do one after the other, the first of which has the given number. -/
def steps (s : FileState) (number : Nat) : List Line → FileState
  | [] => s
  | l :: ls => (s.step number l).steps (number + 1) ls

theorem step_prefixes (s : FileState) (number : Nat) (l : Line) :
    (s.step number l).prefixes = l.declareIn s.prefixes := by
  cases l with
  | triple t =>
    rw [step]
    split <;> rfl
  | comment | blank | arrow | declaration => rfl

/-- Only a blank line finishes a rule. -/
theorem finished_step (hl : l ≠ .blank) (number : Nat) : (s.step number l).finished = s.finished := by
  cases l with
  | blank => exact absurd rfl hl
  | triple t =>
    rw [step]
    split <;> rfl
  | comment | arrow | declaration => rfl

end FileState

/-- Reading the lines is taking the step of each. -/
theorem readLines_reads (h : readLines s number lines = .ok t) :
    ∃ ls, Reads s.prefixes lines ls ∧ t = s.steps number ls := by
  induction lines generalizing s number with
  | nil =>
    cases h
    exact ⟨[], .nil, rfl⟩
  | cons line lines ih =>
    rw [readLines] at h
    split at h
    · next l hline =>
      obtain ⟨ls, hls, rfl⟩ := ih h
      rw [s.step_prefixes] at hls
      exact ⟨l :: ls, .cons hline hls, rfl⟩
    · cases h

/-- The end of two lists is dropped in the second, and in the first if all of the second is dropped. -/
theorem rdropWhile_append {α : Type} (f : α → Bool) (front back : List α) :
    (front ++ back).rdropWhile f =
      if back.rdropWhile f = [] then front.rdropWhile f else front ++ back.rdropWhile f := by
  simp only [List.rdropWhile, List.reverse_append, List.dropWhile_append, List.isEmpty_iff, List.reverse_eq_nil_iff]
  split
  · rfl
  · rw [List.reverse_append, List.reverse_reverse]

/-! ## Paragraphs -/

/-- Lines without a blank one among them, and the number of the first. -/
structure Paragraph where
  first : Nat
  lines : List Line

def Line.isDeclaration : Line → Bool
  | .declaration _ _ => true
  | _ => false

/-- The line belongs to a rule: it is a triple or an arrow. -/
def Line.inRule : Line → Bool
  | .triple _ => true
  | .arrow => true
  | _ => false

/-- The triples of one side. The first line stands on the side `current`, and every arrow changes sides. -/
def triplesOn (side current : Bool) : List Line → List Triple
  | [] => []
  | .arrow :: ls => triplesOn side (!current) ls
  | .triple t :: ls => if current = side then t :: triplesOn side current ls else triplesOn side current ls
  | _ :: ls => triplesOn side current ls

/-- The side behind some lines. -/
def sideBehind (current : Bool) : List Line → Bool
  | [] => current
  | .arrow :: ls => sideBehind (!current) ls
  | _ :: ls => sideBehind current ls

/-- Lines between blank lines as paragraphs, the first of which begins at the given number. -/
def numbered (first : Nat) : List (List Line) → List Paragraph
  | [] => []
  | lines :: rest => ⟨first, lines⟩ :: numbered (first + lines.length + 1) rest

/-- The paragraphs of a file. -/
def paragraphs (ls : List Line) : List Paragraph := numbered 1 (ls.splitOn .blank)

namespace Paragraph

variable {par : Paragraph}

/-- The number of the line behind the paragraph. -/
def next (par : Paragraph) : Nat := par.first + par.lines.length

def antecedent (par : Paragraph) : Pattern := .ofList (triplesOn true true par.lines)

def consequent (par : Paragraph) : Pattern := .ofList (triplesOn false true par.lines)

/-- The lines above the first triple or arrow. -/
def above (par : Paragraph) : List Line := par.lines.takeWhile fun l => !l.inRule

/-- The first triple or arrow and all lines behind it. -/
def inside (par : Paragraph) : List Line := par.lines.dropWhile fun l => !l.inRule

/-- The number of the first triple or arrow. -/
def opening (par : Paragraph) : Nat := par.first + par.above.length

/-- The number of the line behind the last declaration, or of the first line without one. -/
def reported (par : Paragraph) : Nat := par.first + (par.lines.rdropWhile fun l => !l.isDeclaration).length

/-- The rule of a paragraph that holds a triple. -/
def rule? (par : Paragraph) : Option SourceRule :=
  if par.antecedent.isEmpty && par.consequent.isEmpty then none
  else some ⟨par.antecedent, par.consequent, par.reported⟩

/-- The paragraph with a further line. -/
def add (par : Paragraph) (l : Line) : Paragraph := ⟨par.first, par.lines ++ [l]⟩

/-! ### Where a paragraph is reported -/

theorem above_append_inside (par : Paragraph) : par.above ++ par.inside = par.lines := List.takeWhile_append_dropWhile

/-- A declaration inside the rule. -/
theorem reported_of_declaration (h : ∃ l ∈ par.inside, l.isDeclaration = true) : par.opening < par.reported := by
  have hsome : (par.inside.rdropWhile fun l => !l.isDeclaration) ≠ [] := by
    rw [Ne, List.rdropWhile_eq_nil_iff]
    simpa using h
  have hpos := List.length_pos_iff.2 hsome
  rw [opening, reported, ← par.above_append_inside, rdropWhile_append, if_neg hsome, List.length_append]
  omega

/-- No declaration inside the rule. -/
theorem reported_of_none (h : ∀ l ∈ par.inside, l.isDeclaration = false) :
    par.reported = par.first + (par.above.rdropWhile fun l => !l.isDeclaration).length := by
  have hnil : (par.inside.rdropWhile fun l => !l.isDeclaration) = [] := by
    rw [List.rdropWhile_eq_nil_iff]
    simpa using h
  rw [reported, ← par.above_append_inside, rdropWhile_append, if_pos hnil]

theorem inside_declaration (par : Paragraph) :
    (∃ l ∈ par.inside, l.isDeclaration = true) ∨ ∀ l ∈ par.inside, l.isDeclaration = false := by
  by_cases h : ∃ l ∈ par.inside, l.isDeclaration = true
  · exact .inl h
  · exact .inr (by simpa using h)

/-- A declaration behind the first triple or arrow moves the line that is reported, and nothing else moves it down. -/
theorem opening_lt_reported : par.opening < par.reported ↔ ∃ l ∈ par.inside, l.isDeclaration = true := by
  refine ⟨fun hlt => ?_, reported_of_declaration⟩
  rcases par.inside_declaration with h | h
  · exact h
  · have hle := (List.rdropWhile_prefix (fun l : Line => !l.isDeclaration) (l := par.above)).length_le
    rw [reported_of_none h, opening] at hlt
    omega

/-- A rule is reported at its first triple or arrow just if a declaration stands directly above, or nothing, and no
declaration behind. -/
theorem reported_eq_opening : par.reported = par.opening ↔
    (∀ l ∈ par.above.getLast?, l.isDeclaration = true) ∧ ∀ l ∈ par.inside, l.isDeclaration = false := by
  rcases par.inside_declaration with h | h
  · have hlt := reported_of_declaration h
    obtain ⟨l, hl, hdeclaration⟩ := h
    refine iff_of_false (Nat.ne_of_gt hlt) fun hnone => ?_
    rw [hnone.2 l hl] at hdeclaration
    cases hdeclaration
  · have hkept := List.rdropWhile_prefix (fun l : Line => !l.isDeclaration) (l := par.above)
    have hwhole : par.reported = par.opening ↔ (par.above.rdropWhile fun l => !l.isDeclaration) = par.above := by
      rw [reported_of_none h, opening, Nat.add_left_cancel_iff]
      exact ⟨hkept.eq_of_length, congrArg List.length⟩
    rw [hwhole, List.rdropWhile_eq_self_iff, and_iff_left h]
    rcases List.eq_nil_or_concat par.above with hnil | ⟨front, l, hlast⟩
    · simp [hnil]
    · simp [hlast]

end Paragraph

/-! ## The rules of paragraphs -/

theorem triplesOn_concat (side current : Bool) (ls : List Line) (l : Line) :
    triplesOn side current (ls ++ [l]) = triplesOn side current ls ++ triplesOn side (sideBehind current ls) [l] := by
  induction ls generalizing current with
  | nil => rfl
  | cons l' ls ih =>
    cases l' with
    | triple t =>
      simp only [List.cons_append, triplesOn, sideBehind, ih]
      split <;> rfl
    | comment | blank | arrow | declaration => exact ih _

theorem sideBehind_concat (current : Bool) (ls : List Line) (l : Line) :
    sideBehind current (ls ++ [l]) = sideBehind (sideBehind current ls) [l] := by
  induction ls generalizing current with
  | nil => rfl
  | cons l' ls ih => cases l' <;> exact ih _

namespace Paragraph

variable {par : Paragraph}

theorem next_add (par : Paragraph) (l : Line) : (par.add l).next = par.next + 1 := by
  simp only [next, add, List.length_append, List.length_singleton, Nat.add_assoc]

theorem side_add (par : Paragraph) (l : Line) (side : Bool) :
    (SortedSet.ofList (triplesOn side true (par.add l).lines) : Pattern) =
      (SortedSet.ofList (triplesOn side true par.lines)).insertAll
        (triplesOn side (sideBehind true par.lines) [l]) := by
  rw [add, triplesOn_concat, SortedSet.ofList, SortedSet.insertAll, List.foldl_append]
  rfl

theorem reported_add (par : Paragraph) (l : Line) :
    (par.add l).reported = if l.isDeclaration then par.next + 1 else par.reported := by
  rw [reported, add, List.rdropWhile_concat]
  cases l.isDeclaration
  · rfl
  · rw [if_neg (by simp), if_pos rfl, List.length_append]
    rfl

end Paragraph

/-- The reader is inside a paragraph. -/
structure UnderWay (s : FileState) (par : Paragraph) : Prop where
  antecedent : s.antecedent = par.antecedent
  consequent : s.consequent = par.consequent
  inAntecedent : s.inAntecedent = sideBehind true par.lines
  start : s.start = par.reported

namespace UnderWay

variable {par : Paragraph}

theorem initial (p : Prefixes) : UnderWay (.initial p) ⟨1, []⟩ := ⟨rfl, rfl, rfl, rfl⟩

/-- The next line belongs to the paragraph if it is not blank. -/
theorem step (h : UnderWay s par) (hl : l ≠ .blank) : UnderWay (s.step par.next l) (par.add l) := by
  have hside : sideBehind true (par.add l).lines = sideBehind s.inAntecedent [l] := by
    rw [Paragraph.add, sideBehind_concat, ← h.inAntecedent]
  have hantecedent : (par.add l).antecedent = par.antecedent.insertAll _ := par.side_add l true
  have hconsequent : (par.add l).consequent = par.consequent.insertAll _ := par.side_add l false
  have hreported := par.reported_add l
  rw [← h.antecedent, ← h.inAntecedent] at hantecedent
  rw [← h.consequent, ← h.inAntecedent] at hconsequent
  rw [← h.start] at hreported
  obtain ⟨prefixes, finished, antecedent, consequent, inAntecedent, start⟩ := s
  cases l with
  | blank => exact absurd rfl hl
  | comment | arrow | declaration => exact ⟨hantecedent.symm, hconsequent.symm, hside.symm, hreported.symm⟩
  | triple t =>
    cases inAntecedent <;> exact ⟨hantecedent.symm, hconsequent.symm, hside.symm, hreported.symm⟩

/-- A blank line begins a paragraph behind it. -/
theorem step_blank (s : FileState) (par : Paragraph) : UnderWay (s.step par.next .blank) ⟨par.next + 1, []⟩ :=
  ⟨rfl, rfl, rfl, rfl⟩

/-- At the end of the paragraph its rule is finished. -/
theorem close (h : UnderWay s par) : s.close = par.rule?.toList ++ s.finished := by
  unfold FileState.close Paragraph.rule?
  rw [h.antecedent, h.consequent, h.start]
  split <;> rfl

theorem modifyHead_nil_append (pieces : List (List Line)) : pieces.modifyHead ([] ++ ·) = pieces :=
  congrFun List.modifyHead_id pieces

/-- The lines that follow give the rules of the paragraph and of those behind it. -/
theorem steps (h : UnderWay s par) (ls : List Line) : (s.steps par.next ls).close.reverse =
    s.finished.reverse ++
      (numbered par.first ((ls.splitOn .blank).modifyHead (par.lines ++ ·))).filterMap Paragraph.rule? := by
  induction ls generalizing s par with
  | nil =>
    rw [FileState.steps, h.close, List.splitOn_nil, List.modifyHead_cons, List.append_nil, List.reverse_append]
    cases hrule : par.rule? <;> simp [numbered, hrule]
  | cons l ls ih =>
    rw [FileState.steps, List.splitOn_cons_eq_if_modifyHead]
    by_cases hl : l = .blank
    · -- The rule of the paragraph is finished, and the next paragraph has no line yet.
      subst hl
      have hrest : ((s.step par.next .blank).steps (par.next + 1) ls).close.reverse = s.close.reverse ++
          (numbered (par.next + 1) ((ls.splitOn .blank).modifyHead ([] ++ ·))).filterMap Paragraph.rule? :=
        ih (step_blank s par)
      rw [hrest, modifyHead_nil_append, h.close, if_pos (beq_self_eq_true _), List.modifyHead_cons, List.append_nil,
        numbered, List.reverse_append, List.append_assoc]
      cases hrule : par.rule? with
      | none => simp [hrule, Paragraph.next]
      | some r => simp [hrule, Paragraph.next]
    · have hrest := ih (h.step hl)
      rw [Paragraph.next_add, FileState.finished_step hl] at hrest
      rw [hrest, if_neg (by simpa using hl)]
      simp [Paragraph.add, Function.comp_def]

end UnderWay

/-! ## Paragraphs in a file -/

theorem not_mem_of_mem_splitOn {piece : List Line} (h : piece ∈ ls.splitOn .blank) : Line.blank ∉ piece := by
  induction ls generalizing piece with
  | nil =>
    rw [List.splitOn_nil, List.mem_singleton] at h
    simp [h]
  | cons l ls ih =>
    obtain ⟨head, pieces, hpieces⟩ := List.exists_cons_of_ne_nil (List.splitOn_ne_nil Line.blank ls)
    rw [List.splitOn_cons_eq_if_modifyHead] at h
    split at h
    · rcases List.mem_cons.1 h with rfl | h
      · simp
      · exact ih h
    · next hl =>
      rw [hpieces, List.modifyHead_cons] at h
      rcases List.mem_cons.1 h with rfl | h
      · have hhead := ih (hpieces ▸ List.mem_cons_self)
        rw [beq_iff_eq] at hl
        simp [hhead, Ne.symm hl]
      · exact ih (hpieces ▸ List.mem_cons_of_mem head h)

/-- Between blank lines each paragraph has the number of the line where it begins. -/
theorem numbered_place {pieces : List (List Line)} {first : Nat} {par : Paragraph} (h : par ∈ numbered first pieces) :
    par.lines ∈ pieces ∧ ∃ before after, [Line.blank].intercalate pieces = before ++ (par.lines ++ after) ∧
      par.first = first + before.length := by
  induction pieces generalizing first with
  | nil => cases h
  | cons lines rest ih =>
    have hnext : ∃ more, [Line.blank].intercalate (lines :: rest) = lines ++ more ∧
        (rest ≠ [] → more = .blank :: [Line.blank].intercalate rest) := by
      cases rest with
      | nil => exact ⟨[], by simp, fun hne => absurd rfl hne⟩
      | cons lines' rest => exact ⟨.blank :: [Line.blank].intercalate (lines' :: rest), by simp, fun _ => rfl⟩
    obtain ⟨more, hwhole, hmore⟩ := hnext
    rcases List.mem_cons.1 h with rfl | h
    · exact ⟨List.mem_cons_self, [], more, hwhole, rfl⟩
    · obtain ⟨hmem, before, after, hrest, hfirst⟩ := ih h
      refine ⟨List.mem_cons_of_mem _ hmem, lines ++ .blank :: before, after, ?_, ?_⟩
      · rw [hwhole, hmore (List.ne_nil_of_mem hmem), hrest]
        simp
      · rw [hfirst, List.length_append, List.length_cons]
        omega

/-- A paragraph is a part of the file without blank lines, and is numbered by its place. -/
theorem mem_paragraphs {par : Paragraph} (h : par ∈ paragraphs ls) : Line.blank ∉ par.lines ∧
    ∃ before after, ls = before ++ (par.lines ++ after) ∧ par.first = before.length + 1 := by
  obtain ⟨hmem, before, after, hwhole, hfirst⟩ := numbered_place h
  rw [List.intercalate_splitOn] at hwhole
  exact ⟨not_mem_of_mem_splitOn hmem, before, after, hwhole, by rw [hfirst, Nat.add_comm]⟩

/-- Directly above a rule stands a declaration, a comment, or nothing of its paragraph. -/
theorem above_last {par : Paragraph} (h : Line.blank ∉ par.lines) :
    (∀ l ∈ par.above.getLast?, l.isDeclaration = true) ↔ par.above.getLast? ≠ some .comment := by
  constructor
  · intro hall hlast
    cases hall _ hlast
  · intro hne l hl
    have hmem : l ∈ par.above := List.mem_of_getLast? hl
    have hrule := List.mem_takeWhile_imp hmem
    cases l with
    | declaration label iri => rfl
    | comment => exact absurd hl hne
    | blank => exact absurd (par.above_append_inside ▸ List.mem_append_left _ hmem) h
    | arrow | triple => cases hrule

/-! ## Rules that the store rejects -/

/-- The rules of a file are refused for the first of them that is none, and with its line. -/
theorem addSources_eq_error {store : RuleStore} {sources : List SourceRule} {e : Failure} :
    (store.addSources sources).2 = .error e ↔ ∃ before r after f, sources = before ++ r :: after ∧
      (∀ r' ∈ before, ∃ rule, Rule.ofPatterns r'.antecedent r'.consequent = .ok rule) ∧
      Rule.ofPatterns r.antecedent r.consequent = .error f ∧ e = f.withField "line" (toString r.line) := by
  induction sources generalizing store with
  | nil =>
    constructor
    · rintro ⟨⟩
    · rintro ⟨before, r, after, f, heq, _⟩
      simp at heq
  | cons source sources ih =>
    rw [RuleStore.addSources]
    cases hsource : Rule.ofPatterns source.antecedent source.consequent with
    | error f =>
      constructor
      · rintro ⟨⟩
        exact ⟨[], source, sources, f, rfl, by simp, hsource, rfl⟩
      · rintro ⟨before, r, after, f', heq, hbefore, hr, rfl⟩
        cases before with
        | nil =>
          obtain ⟨rfl, _⟩ := List.cons.inj heq
          rw [hsource] at hr
          cases hr
          rfl
        | cons r' before =>
          obtain ⟨rfl, _⟩ := List.cons.inj heq
          obtain ⟨rule, hrule⟩ := hbefore source List.mem_cons_self
          rw [hsource] at hrule
          cases hrule
    | ok rule =>
      have hrest : (((store.add rule).addSources sources).2.map (store.size :: ·)) = .error e ↔
          ((store.add rule).addSources sources).2 = .error e := by
        cases ((store.add rule).addSources sources).2 <;> simp [Except.map]
      dsimp only
      rw [hrest, ih]
      constructor
      · rintro ⟨before, r, after, f, rfl, hbefore, hr⟩
        exact ⟨source :: before, r, after, f, rfl, List.forall_mem_cons.2 ⟨⟨rule, hsource⟩, hbefore⟩, hr⟩
      · rintro ⟨before, r, after, f, heq, hbefore, hr, rfl⟩
        cases before with
        | nil =>
          obtain ⟨rfl, _⟩ := List.cons.inj heq
          rw [hsource] at hr
          cases hr
        | cons r' before =>
          obtain ⟨rfl, rfl⟩ := List.cons.inj heq
          exact ⟨before, r, after, f, rfl, (List.forall_mem_cons.1 hbefore).2, hr, rfl⟩

/-! ## Rule files -/

/-- Where the rules of a file are reported, for what its lines are. -/
structure RulesLocated (p : Prefixes) (text : String) (file : RuleFile) (ls : List Line) : Prop where
  reads : Reads p (splitLines text.toList) ls
  /-- A paragraph is a part of the file without blank lines, and is numbered by its place. -/
  place : ∀ par ∈ paragraphs ls, Line.blank ∉ par.lines ∧
    ∃ before after, ls = before ++ (par.lines ++ after) ∧ par.first = before.length + 1
  rules : file.rules = (paragraphs ls).filterMap Paragraph.rule?
  /-- A rule is reported at its first triple or arrow just if no comment stands directly above and no declaration
  behind. -/
  opening : ∀ par ∈ paragraphs ls, ∀ r ∈ par.rule?, (r.line = par.opening ↔
    par.above.getLast? ≠ some .comment ∧ ∀ l ∈ par.inside, l.isDeclaration = false)
  /-- It is reported below that line just if a declaration stands behind. -/
  below : ∀ par ∈ paragraphs ls, ∀ r ∈ par.rule?, (par.opening < r.line ↔ ∃ l ∈ par.inside, l.isDeclaration = true)
  /-- A store refuses the file for the first rule that it rejects, and names the line of that rule. -/
  load : ∀ (store : RuleStore) (e : Halt Failure), (store.load p text).2 = .error e ↔
    ∃ before r after f g, file.rules = before ++ r :: after ∧
      (∀ r' ∈ before, ∃ rule, Rule.ofPatterns r'.antecedent r'.consequent = .ok rule) ∧
      Rule.ofPatterns r.antecedent r.consequent = .error f ∧ g = f.withField "line" (toString r.line) ∧
      g.field? "line" = some (toString r.line) ∧ e = .report g

/-- Each paragraph with a triple is a rule, and where it is reported depends on the comments above it and on the
declarations inside it. -/
theorem parseRules_located {text : String} {file : RuleFile} (h : parseRules p text = .ok file) :
    ∃ ls, RulesLocated p text file ls := by
  have hload : ∀ store : RuleStore, store.load p text =
      ((store.addSources file.rules).1, (store.addSources file.rules).2.mapError .report) := by
    intro store
    rw [RuleStore.load, h]
  unfold parseRules at h
  cases hread : readLines (.initial p) 1 (splitLines text.toList) with
  | error e =>
    rw [hread] at h
    cases h
  | ok t =>
    rw [hread] at h
    cases h
    obtain ⟨ls, hls, ht⟩ := readLines_reads hread
    have hline : ∀ par : Paragraph, ∀ r ∈ par.rule?, r.line = par.reported := by
      intro par r hr
      rw [Paragraph.rule?] at hr
      split at hr
      · cases hr
      · cases hr
        rfl
    refine ⟨ls, hls, fun par hpar => mem_paragraphs hpar, ?_, ?_, ?_, ?_⟩
    · have hsteps := (UnderWay.initial p).steps ls
      rw [UnderWay.modifyHead_nil_append] at hsteps
      rw [ht]
      exact hsteps
    · intro par hpar r hr
      rw [hline par r hr, Paragraph.reported_eq_opening, above_last (mem_paragraphs hpar).1]
    · intro par _ r hr
      rw [hline par r hr, Paragraph.opening_lt_reported]
    · intro store e
      have herror : (store.load p text).2 = .error e ↔
          ∃ g, (store.addSources t.close.reverse).2 = .error g ∧ e = .report g := by
        rw [hload]
        cases (store.addSources t.close.reverse).2 <;> simp [Except.mapError, eq_comm]
      rw [herror]
      constructor
      · rintro ⟨g, hg, rfl⟩
        obtain ⟨before, r, after, f, heq, hbefore, hr, rfl⟩ := addSources_eq_error.1 hg
        exact ⟨before, r, after, f, _, heq, hbefore, hr, rfl, by rw [Failure.field?_withField, if_pos rfl], rfl⟩
      · rintro ⟨before, r, after, f, g, heq, hbefore, hr, hg, _, rfl⟩
        exact ⟨g, addSources_eq_error.2 ⟨before, r, after, f, heq, hbefore, hr, hg⟩, rfl⟩

/-- A rule with a declaration above and a comment inside. -/
def backText : String := "@prefix ex: <x> .\n?a ex:b ?c\n# back\n->\n?c ex:b ?a"

/-- It is reported at its first triple. -/
theorem back_located : ∃ file ls, parseRules .standard backText = .ok file ∧ (file.rules.map fun r => r.line) = [2] ∧
    RulesLocated .standard backText file ls := by
  have hlines : (parseRules .standard backText).toOption.map (fun file => file.rules.map fun r => r.line) =
      some [2] := by
    decide +kernel
  cases hfile : parseRules .standard backText with
  | error e =>
    rw [hfile] at hlines
    cases hlines
  | ok file =>
    rw [hfile] at hlines
    obtain ⟨ls, hls⟩ := parseRules_located hfile
    exact ⟨file, ls, rfl, Option.some.inj hlines, hls⟩

/-- A rule with a comment above, and one with a declaration inside. -/
def swapText : String :=
  "# swap\n?a <b> ?c\n->\n?c <b> ?a\n\n?a <d> ?c\n@prefix ex: <x> .\n->\n?c ex:e ?a"

def swapLines : List Line :=
  [.comment, .triple ⟨.var ⟨"a"⟩, .iri "b", .var ⟨"c"⟩⟩, .arrow, .triple ⟨.var ⟨"c"⟩, .iri "b", .var ⟨"a"⟩⟩, .blank,
    .triple ⟨.var ⟨"a"⟩, .iri "d", .var ⟨"c"⟩⟩, .declaration "ex" "x", .arrow,
    .triple ⟨.var ⟨"c"⟩, .iri "xe", .var ⟨"a"⟩⟩]

/-- The rules begin at lines 2 and 6, and are reported at lines 1 and 8. -/
theorem swap_reported : Reads .standard (splitLines swapText.toList) swapLines ∧
    (paragraphs swapLines).map Paragraph.opening = [2, 6] ∧
    (parseRules .standard swapText).toOption.map (fun file => file.rules.map fun r => r.line) = some [1, 8] := by
  refine ⟨?_, by decide +kernel, by decide +kernel⟩
  have hlines : splitLines swapText.toList = ["# swap", "?a <b> ?c", "->", "?c <b> ?a", "", "?a <d> ?c",
      "@prefix ex: <x> .", "->", "?c ex:e ?a"].map String.toList := by
    decide +kernel
  rw [hlines]
  repeat'
    first
    | exact .nil
    | refine .cons ?_ ?_
    | decide +kernel

end Grammar

end TripleChain
