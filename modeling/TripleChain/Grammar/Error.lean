import TripleChain.Term
/-!
# What can be wrong with a text

The causes for which a text is refused and the wording of each. A position is a number of bytes from
the start of the trimmed text.

A report quotes the first twenty bytes of what is no term. Where these end inside a character there
is nothing to quote, and the reading breaks off without a report: that is `Halt.brokenPreview`.
-/

namespace TripleChain.Grammar

/-- Why an operation on text breaks off: with a report, or without one. -/
inductive Halt (ε : Type) where
  /-- The report of what is wrong. -/
  | report (e : ε)
  /-- The preview that the report quotes would end inside a character. -/
  | brokenPreview
  deriving DecidableEq

/-- Changes the report. -/
def Halt.map {ε δ : Type} (f : ε → δ) : Halt ε → Halt δ
  | report e => report (f e)
  | brokenPreview => brokenPreview

/-- What is wrong at a place of a text. -/
inductive Fault where
  /-- What starts with the given characters is no term. -/
  | noTerm (preview : String)
  /-- A string is not closed. -/
  | badString
  /-- No language tag follows an at sign. -/
  | badLanguage
  /-- No IRI follows two carets. -/
  | badDatatype
  /-- The next triple follows without a full stop. -/
  | noFullStop
  /-- A binding does not start with a variable name. -/
  | noVariable
  /-- No equals sign follows a variable name. -/
  | noEquals
  /-- A variable is bound to a variable. -/
  | variableValue (v : Variable)
  /-- The next binding follows without a comma or a bar. -/
  | noSeparator
  /-- Something follows a term. -/
  | afterTerm
  /-- Something follows a triple. -/
  | afterTriple
  /-- Something follows a binding. -/
  | afterBinding
  deriving DecidableEq

/-- The wording of a fault. -/
def Fault.message : Fault → String
  | noTerm preview => "Cannot parse term starting with: " ++ preview
  | badString => "Invalid string literal"
  | badLanguage => "Invalid language tag"
  | badDatatype => "Invalid datatype"
  | noFullStop => "Expected '.' between triple patterns"
  | noVariable => "Expected variable name"
  | noEquals => "Expected '=' after variable name"
  | variableValue v => "Variable " ++ v.text ++ " cannot be bound to a variable"
  | noSeparator => "Expected ',' or '|' between bindings"
  | afterTerm => "Trailing input after term"
  | afterTriple => "Trailing input after triple pattern"
  | afterBinding => "Trailing input after binding"

/-- Why a term cannot be read, wherever it stands. -/
inductive TermError where
  | fault (f : Fault)
  | undefinedPrefix (label : String)
  | brokenPreview
  deriving DecidableEq

/-- Why a text is refused. -/
inductive TextError where
  /-- A fault at a position. -/
  | malformed (position : Nat) (f : Fault)
  /-- A label that no declaration covers. -/
  | undefinedPrefix (label : String)
  deriving DecidableEq

/-- The full wording. -/
def TextError.message : TextError → String
  | malformed position f => "Syntax error at position " ++ toString position ++ ": " ++ f.message
  | undefinedPrefix label => "Undefined prefix: " ++ label

/-- The error of a term that stands at a position. -/
def TermError.locate (position : Nat) : TermError → Halt TextError
  | fault f => .report (.malformed position f)
  | undefinedPrefix label => .report (.undefinedPrefix label)
  | brokenPreview => .brokenPreview

/-- What is wrong with a line of a rule file. -/
inductive LineFault where
  /-- The line is no triple. -/
  | triple (e : TextError)
  /-- No colon follows the label of a declaration. -/
  | noColon
  /-- No IRI follows the colon of a declaration. -/
  | noNamespace
  /-- Something follows a declaration. -/
  | afterDeclaration (rest : String)
  deriving DecidableEq

/-- The wording of a fault in a line. -/
def LineFault.message : LineFault → String
  | triple e => e.message
  | noColon => "Expected ':' after prefix"
  | noNamespace => "Expected IRI for namespace"
  | afterDeclaration rest => "Unexpected input after prefix directive: " ++ rest

/-- Why a rule file is refused: the first line that is wrong. -/
structure RuleFileError where
  /-- The number of the line, the first being 1. -/
  line : Nat
  fault : LineFault
  deriving DecidableEq

/-- The full wording. -/
def RuleFileError.message (e : RuleFileError) : String :=
  "Invalid rule on line " ++ toString e.line ++ ": " ++ e.fault.message

end TripleChain.Grammar
