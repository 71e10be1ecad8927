import TripleChain.Grammar.Pattern
/-!
# Reading rule files

A rule file is read line by line. A line holds one triple, or an arrow between the antecedent and the
consequent of a rule, or the declaration of a prefix, or a comment. A blank line ends a rule.
-/

namespace TripleChain.Grammar

/-- A rule as it stands in a file. -/
structure SourceRule where
  antecedent : Pattern
  consequent : Pattern
  /-- The line that the rule is reported at. -/
  line : Nat
  deriving DecidableEq

/-- What one line of a rule file is. -/
inductive Line where
  | comment
  | blank
  | arrow
  | declaration (label iri : String)
  | triple (t : Triple)
  deriving DecidableEq

/-- What follows the word that starts a declaration: a label, a colon, an IRI and, if wanted, a full
stop. -/
def readDeclaration (cs : List Char) : Except LineFault Line :=
  let cs := skipGap false cs
  match cs.dropWhile isNameChar with
  | ':' :: rest =>
    match scanIri? (skipGap false rest) with
    | some (iri, rest) =>
      let rest := Text.trim rest
      if rest.isEmpty || rest == ['.'] then
        .ok (.declaration (String.ofList (cs.takeWhile isNameChar)) iri)
      else .error (.afterDeclaration (String.ofList rest))
    | none => .error .noNamespace
  | _ => .error .noColon

def declarationWord : List Char := ['@', 'p', 'r', 'e', 'f', 'i', 'x']

/-- What a line is, under the prefixes declared before it. -/
def readLine (p : Prefixes) (line : List Char) : Except (Halt LineFault) Line :=
  let cs := Text.trim line
  if cs.head? == some '#' then .ok .comment
  else if cs.isEmpty then .ok .blank
  else if cs == ['-', '>'] then .ok .arrow
  else if declarationWord.isPrefixOf cs then
    (readDeclaration (cs.drop declarationWord.length)).mapError .report
  else
    match parseTriple p (String.ofList cs) with
    | .ok t => .ok (.triple t)
    | .error e => .error (e.map .triple)

/-- A rule file up to some line. -/
structure FileState where
  prefixes : Prefixes
  /-- The finished rules, last rule first. -/
  finished : List SourceRule
  antecedent : Pattern
  consequent : Pattern
  /-- Whether the next triple belongs to the antecedent. -/
  inAntecedent : Bool
  /-- The line that the rule under way is reported at. -/
  start : Nat

namespace FileState

def initial (p : Prefixes) : FileState := ⟨p, [], ∅, ∅, true, 1⟩

/-- The rules so far: those finished and the one under way, if it holds a triple. -/
def close (s : FileState) : List SourceRule :=
  if s.antecedent.isEmpty && s.consequent.isEmpty then s.finished
  else ⟨s.antecedent, s.consequent, s.start⟩ :: s.finished

/-- What the line with the given number does. -/
def step (s : FileState) (number : Nat) : Line → FileState
  | .comment => s
  | .blank => ⟨s.prefixes, s.close, ∅, ∅, true, number + 1⟩
  | .arrow => { s with inAntecedent := !s.inAntecedent }
  -- A rule is reported at the line after the last blank line or declaration.
  | .declaration label iri => { s with prefixes := s.prefixes.declare label iri, start := number + 1 }
  | .triple t =>
    if s.inAntecedent then { s with antecedent := s.antecedent.insert t }
    else { s with consequent := s.consequent.insert t }

end FileState

/-- Reads the lines, the first of which has the given number. -/
def readLines (s : FileState) (number : Nat) : List (List Char) → Except (Halt RuleFileError) FileState
  | [] => .ok s
  | line :: rest =>
    match readLine s.prefixes line with
    | .ok l => readLines (s.step number l) (number + 1) rest
    | .error e => .error (e.map fun fault => ⟨number, fault⟩)

/-- Cuts a text into its lines; a line end at the end of the text starts no further line. -/
def splitLines : List Char → List (List Char)
  | [] => []
  | c :: rest =>
    if c = '\n' then [] :: splitLines rest
    else
      match splitLines rest with
      | [] => [[c]]
      | line :: lines => (c :: line) :: lines

/-- A rule file: its rules in order and all prefixes, its own last. -/
structure RuleFile where
  rules : List SourceRule
  prefixes : Prefixes

/-- Reads a rule file under the given prefixes. -/
def parseRules (p : Prefixes) (text : String) : Except (Halt RuleFileError) RuleFile :=
  (readLines (.initial p) 1 (splitLines text.toList)).map fun s => ⟨s.close.reverse, s.prefixes⟩

end TripleChain.Grammar
