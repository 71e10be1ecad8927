import TripleChain.Text.CodeRange
/-!
# TOML documents

As much of TOML as settings need: tables whose values are strings, integers and booleans. A document is a
list of sections, each with the path of its table; the entries before the first header make up the
section of the empty path.
-/

namespace TripleChain.Toml

/-- A value that is no table. -/
inductive Scalar where
  | string (s : String)
  | integer (n : Int)
  | boolean (b : Bool)
  deriving DecidableEq, Inhabited

/-- A table: its path and the entries that are no tables. -/
structure Section where
  path : List String
  entries : List (String × Scalar)
  deriving DecidableEq, Inhabited

/-- The tables of a document in their order. -/
abbrev Document := List Section

def isBareChar (c : Char) : Bool := c.isAlphanum || c == '_' || c == '-'

/-! ## Written form -/

/-- The digits of a number in upper-case hexadecimal, at least four. -/
def hexDigits (n : Nat) : List Char :=
  let digits := (Nat.toDigits 16 n).map Char.toUpper
  List.replicate (4 - digits.length) '0' ++ digits

/-- A character inside quotes. -/
def quotedChar (c : Char) : List Char :=
  if c = '"' then ['\\', '"']
  else if c = '\\' then ['\\', '\\']
  else if c = '\x08' then ['\\', 'b']
  else if c = '\t' then ['\\', 't']
  else if c = '\n' then ['\\', 'n']
  else if c = '\x0c' then ['\\', 'f']
  else if c = '\r' then ['\\', 'r']
  else if c.toNat < 32 || c.toNat == 127 then '\\' :: 'u' :: hexDigits c.toNat
  else [c]

def quote (s : String) : String := String.ofList ('"' :: (s.toList.flatMap quotedChar ++ ['"']))

/-- A key, in quotes if it needs them. -/
def keyText (key : String) : String :=
  if !key.isEmpty && key.toList.all isBareChar then key else quote key

/-- A value. -/
def Scalar.text : Scalar → String
  | .string s => quote s
  | .integer n => toString n
  | .boolean b => if b then "true" else "false"

def entryText (e : String × Scalar) : String := keyText e.1 ++ " = " ++ e.2.text ++ "\n"

/-- A table with its header. -/
def Section.text (s : Section) : String :=
  let header := if s.path.isEmpty then "" else "[" ++ ".".intercalate (s.path.map keyText) ++ "]\n"
  header ++ String.join (s.entries.map entryText)

def Document.text (d : Document) : String := "\n".intercalate (d.map Section.text)

/-! ## Look-ups -/

namespace Document

/-- The entries of a table. -/
def entriesOf (d : Document) (path : List String) : List (String × Scalar) :=
  match d.find? (·.path == path) with
  | some s => s.entries
  | none => []

/-- The names of the tables inside a table, in order of first mention. -/
def tablesIn (d : Document) (path : List String) : List String :=
  (d.filterMap fun s => if path.isPrefixOf s.path then (s.path.drop path.length).head? else none).eraseDups

/-- True when there is a table of the path, or one inside it. -/
def hasTable (d : Document) (path : List String) : Bool := d.any fun s => path.isPrefixOf s.path

end Document

end TripleChain.Toml
