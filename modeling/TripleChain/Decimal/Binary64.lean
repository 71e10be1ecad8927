/-!
# Doubles as fractions

A double is zero or not a number, or an integer times a power of two. The decimal forms are computed
from that integer and that exponent, in exact arithmetic.
-/

namespace TripleChain.Decimal

/-- What the bits of a double say. -/
inductive Binary64 where
  /-- The value `m * 2 ^ q`, with its sign. -/
  | finite (negative : Bool) (m : Nat) (q : Int)
  | infinite (negative : Bool)
  | nan
  deriving DecidableEq, Repr

/-- Reads the sign, the eleven bits of the exponent and the fifty-two bits of the fraction. -/
def Binary64.ofBits (bits : Nat) : Binary64 :=
  let negative := bits / Nat.pow 2 63 % 2 == 1
  let exponent : Nat := bits / Nat.pow 2 52 % Nat.pow 2 11
  let fraction : Nat := bits % Nat.pow 2 52
  if exponent = 2047 then
    if fraction = 0 then .infinite negative else .nan
  else if exponent = 0 then .finite negative fraction (-1074)
  else .finite negative (Nat.pow 2 52 + fraction) ((exponent : Int) - 1075)

/-- What a double stands for. -/
def Binary64.ofFloat (x : Float) : Binary64 := .ofBits x.toBits.toNat

end TripleChain.Decimal
