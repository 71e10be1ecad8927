import TripleChain.Decimal.Binary64
import TripleChain.Decimal.Shortest
/-!
# Numerals

The written form of doubles and what text is read as a number. A double is written without an
exponent: a whole one with all its digits and `.0`, any other with the fewest digits that read back.
-/

namespace TripleChain.Decimal

/-- The digits of `d * 10 ^ e` with a decimal point where it belongs. -/
def positional (d : Nat) (e : Int) : String :=
  let digits := (toString d).toList
  let places := (-e).toNat
  if e ≥ 0 then String.ofList (digits ++ List.replicate e.toNat '0')
  else if places < digits.length then
    let whole := digits.length - places
    String.ofList (digits.take whole ++ '.' :: digits.drop whole)
  else String.ofList ('0' :: '.' :: (List.replicate (places - digits.length) '0' ++ digits))

/-- The whole number `m * 2 ^ q`, if it is whole. -/
def whole? (m : Nat) (q : Int) : Option Nat :=
  if 0 ≤ q then some (m * Nat.pow 2 q.toNat)
  else if m % Nat.pow 2 (-q).toNat = 0 then some (m / Nat.pow 2 (-q).toNat)
  else none

/-- The written form of what a double stands for. -/
def Binary64.numeral : Binary64 → String
  | .nan => "NaN"
  | .infinite negative => if negative then "-inf" else "inf"
  | .finite negative m q =>
    let sign := if negative then "-" else ""
    match whole? m q with
    | some n => sign ++ toString n ++ ".0"
    | none =>
      let (d, e) := shortest m q
      sign ++ positional d e

def numeral (x : Float) : String := (Binary64.ofFloat x).numeral

/-! ## Reading -/

/-- Takes an optional sign off the front: true for a minus. -/
def takeSign : List Char → Bool × List Char
  | '-' :: rest => (true, rest)
  | '+' :: rest => (false, rest)
  | cs => (false, cs)

def ofDigits (cs : List Char) : Nat := cs.foldl (fun n c => 10 * n + (c.toNat - '0'.toNat)) 0

/-- The nonnegative number `m * 10 ^ e`, rounded to a double. -/
def roundScientific (m : Nat) (e : Int) : Float :=
  let magnitude := ((toString m).length : Int) + e
  if m = 0 then 0.0
  else if magnitude > 310 then 1.0 / 0.0
  else if magnitude < -330 then 0.0
  else if e < 0 then Float.ofScientific m true (-e).toNat
  else Float.ofScientific m false e.toNat

/-- The exponent after the digits: nothing, or `e`, an optional sign and digits to the end. -/
def readExponent? : List Char → Option Int
  | [] => some 0
  | c :: rest =>
    if c = 'e' ∨ c = 'E' then
      let (negative, digits) := takeSign rest
      if digits ≠ [] && digits.all Char.isDigit then
        some (if negative then -(ofDigits digits : Int) else ofDigits digits)
      else none
    else none

/-- An unsigned decimal: digits with an optional point, at least one digit, an optional exponent. -/
def readUnsigned? (cs : List Char) : Option Float :=
  let whole := cs.takeWhile Char.isDigit
  let (fraction, rest) := match cs.dropWhile Char.isDigit with
    | '.' :: rest => (rest.takeWhile Char.isDigit, rest.dropWhile Char.isDigit)
    | rest => ([], rest)
  if whole ++ fraction = [] then none
  else (readExponent? rest).map fun e => roundScientific (ofDigits (whole ++ fraction)) (e - fraction.length)

/-- Reads a double: an optional sign, then a decimal or, in any case, `inf`, `infinity` or `nan`. -/
def readFloat? (s : String) : Option Float :=
  let (negative, cs) := takeSign s.toList
  let value :=
    match String.ofList (cs.map Char.toLower) with
    | "inf" | "infinity" => some (1.0 / 0.0)
    | "nan" => some (0.0 / 0.0)
    | _ => readUnsigned? cs
  value.map fun x => if negative then -x else x

/-- True for the numbers that fit into a signed word of 64 bits. -/
def isInt64 (n : Int) : Bool := -(Nat.pow 2 63 : Int) ≤ n && n < (Nat.pow 2 63 : Int)

/-- Reads a 64-bit signed integer: an optional sign and digits, in range. -/
def readInt64? (s : String) : Option Int :=
  let (negative, digits) := takeSign s.toList
  if digits ≠ [] && digits.all Char.isDigit then
    let n : Int := if negative then -(ofDigits digits : Int) else ofDigits digits
    if isInt64 n then some n else none
  else none

/-- Reads a 64-bit unsigned integer: an optional plus and digits, in range. -/
def readNat64? (s : String) : Option Nat :=
  let digits := match s.toList with
    | '+' :: rest => rest
    | cs => cs
  if digits ≠ [] && digits.all Char.isDigit && ofDigits digits < Nat.pow 2 64 then some (ofDigits digits)
  else none

end TripleChain.Decimal
