import TripleChain.Toml
import TripleChain.Json.Reader
import TripleChain.Decimal.Numeral
/-!
# Reading TOML

`Toml.read?` reads a document. A table has one header, a key one value, and no name stands for both a
value and a table.
-/

namespace TripleChain.Toml

def skipBlanks (cs : List Char) : List Char := cs.dropWhile fun c => c = ' ' ∨ c = '\t'

/-- True for the characters that may stand in comments and, but for quotes and backslashes, in strings. -/
def isPlainChar (c : Char) : Bool := c = '\t' || (32 ≤ c.toNat && c.toNat ≠ 127)

/-- The character with the given hexadecimal digits. -/
def readCodePoint? (digits : List Char) : Option Char := do
  let n ← digits.foldlM (fun n c => (Json.hexValue? c).map (16 * n + ·)) 0
  if n < 0xD800 || (0xE000 ≤ n && n < 0x110000) then some (Char.ofNat n) else none

/-- The character that the escape after a backslash stands for. -/
def readEscape? : List Char → Option (Char × List Char)
  | '"' :: rest => some ('"', rest)
  | '\\' :: rest => some ('\\', rest)
  | 'b' :: rest => some ('\x08', rest)
  | 't' :: rest => some ('\t', rest)
  | 'n' :: rest => some ('\n', rest)
  | 'f' :: rest => some ('\x0c', rest)
  | 'r' :: rest => some ('\r', rest)
  | 'u' :: rest =>
    if rest.length < 4 then none else (readCodePoint? (rest.take 4)).map (·, rest.drop 4)
  | 'U' :: rest =>
    if rest.length < 8 then none else (readCodePoint? (rest.take 8)).map (·, rest.drop 8)
  | _ => none

/-- The characters up to the closing quote; `steps` bounds their number. -/
def readChars? : Nat → List Char → Option (List Char × List Char)
  | 0, _ => none
  | _, [] => none
  | steps + 1, c :: rest =>
    if c = '"' then some ([], rest)
    else if c = '\\' then do
      let (c, rest) ← readEscape? rest
      let (cs, rest) ← readChars? steps rest
      some (c :: cs, rest)
    else if isPlainChar c then do
      let (cs, rest) ← readChars? steps rest
      some (c :: cs, rest)
    else none

/-- The string after its opening quote. -/
def readString? (cs : List Char) : Option (String × List Char) :=
  (readChars? (cs.length + 1) cs).map fun (cs, rest) => (String.ofList cs, rest)

/-- A key, bare or in quotes. -/
def readKey? : List Char → Option (String × List Char)
  | '"' :: rest => readString? rest
  | cs =>
    let key := cs.takeWhile isBareChar
    if key.isEmpty then none else some (String.ofList key, cs.dropWhile isBareChar)

/-- Digits with single underscores between them. -/
def digitGroups? (cs : List Char) : Option (List Char) :=
  let rec go (last : Bool) : List Char → Option (List Char)
    | [] => if last then some [] else none
    | '_' :: rest => if last then go false rest else none
    | c :: rest => if c.isAlphanum then (go true rest).map (c :: ·) else none
  go false cs

/-- The number that digits of a base write. -/
def ofBase? (base : Nat) (cs : List Char) : Option Nat := do
  let digits ← digitGroups? cs
  digits.foldlM (fun n c => (Json.hexValue? c).bind fun d => if d < base then some (base * n + d) else none) 0

/-- An integer: decimal with an optional sign and no leading zero, or without a sign in base sixteen, eight
or two. -/
def readInteger? (cs : List Char) : Option Int := do
  let n : Int ← match cs with
    | '0' :: 'x' :: digits => (ofBase? 16 digits).map Int.ofNat
    | '0' :: 'o' :: digits => (ofBase? 8 digits).map Int.ofNat
    | '0' :: 'b' :: digits => (ofBase? 2 digits).map Int.ofNat
    | _ =>
      let (negative, digits) := Decimal.takeSign cs
      if digits.length > 1 && digits.head? == some '0' then none
      else (ofBase? 10 digits).map fun n => if negative then -(n : Int) else n
  if Decimal.isInt64 n then some n else none

/-- A value. -/
def readScalar? : List Char → Option (Scalar × List Char)
  | '"' :: rest => (readString? rest).map fun (s, rest) => (.string s, rest)
  | cs =>
    let ends (c : Char) : Bool := c = ' ' || c = '\t' || c = '#'
    let word := cs.takeWhile (!ends ·)
    let rest := cs.dropWhile (!ends ·)
    if word = ['t', 'r', 'u', 'e'] then some (.boolean true, rest)
    else if word = ['f', 'a', 'l', 's', 'e'] then some (.boolean false, rest)
    else (readInteger? word).map fun n => (.integer n, rest)

/-- What one line of a document is. -/
inductive Line where
  | nothing
  | header (path : List String)
  | entry (key : String) (value : Scalar)
  deriving DecidableEq

/-- True when nothing but blanks and a comment is left. -/
def isFinished (cs : List Char) : Bool :=
  match skipBlanks cs with
  | [] => true
  | '#' :: comment => comment.all isPlainChar
  | _ => false

/-- The path of a header after its opening bracket; `steps` bounds the number of keys. -/
def readPath? : Nat → List Char → Option (List String)
  | 0, _ => none
  | steps + 1, cs => do
    let (key, rest) ← readKey? (skipBlanks cs)
    match skipBlanks rest with
    | '.' :: rest => (readPath? steps rest).map (key :: ·)
    | ']' :: rest => if isFinished rest then some [key] else none
    | _ => none

/-- What a line is. -/
def readLine? (cs : List Char) : Option Line :=
  if isFinished cs then some .nothing
  else
    match skipBlanks cs with
    | '[' :: rest => (readPath? rest.length rest).map .header
    | cs => do
      let (key, rest) ← readKey? cs
      match skipBlanks rest with
      | '=' :: rest =>
        let (value, rest) ← readScalar? (skipBlanks rest)
        if isFinished rest then some (.entry key value) else none
      | _ => none

/-- Adds a line to a document, whose last section is held apart from those before. -/
def addLine (d : Section × Document) : Line → Section × Document
  | .nothing => d
  | .header path => (⟨path, []⟩, d.2 ++ [d.1])
  | .entry key value => ({ d.1 with entries := d.1.entries ++ [(key, value)] }, d.2)

/-- True when every table has one header, every key one value, and no name stands for both a value and a
table. -/
def Document.isConsistent (d : Document) : Bool :=
  (d.map Section.path).Nodup &&
    d.all fun s => (s.entries.map (·.1)).Nodup && s.entries.all fun e => !d.hasTable (s.path ++ [e.1])

/-- Cuts a text at its line ends. -/
def splitLines : List Char → List (List Char)
  | [] => [[]]
  | '\n' :: rest => [] :: splitLines rest
  | '\r' :: '\n' :: rest => [] :: splitLines rest
  | c :: rest =>
    match splitLines rest with
    | [] => [[c]]
    | line :: lines => (c :: line) :: lines

/-- The document that a text holds. -/
def read? (text : String) : Option Document := do
  let lines ← (splitLines text.toList).mapM readLine?
  let (last, before) := lines.foldl addLine (⟨[], []⟩, [])
  let document : Document := before ++ [last]
  if Document.isConsistent document then some document else none

end TripleChain.Toml
