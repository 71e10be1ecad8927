/-!
# Ranges of code points

A property of characters is given as a list of code point ranges, both ends included. Only
characters outside ASCII are looked up this way.
-/

namespace TripleChain.Text

/-- True when the code point of `c` lies in one of the ranges. -/
def inRanges (ranges : List (Nat × Nat)) (c : Char) : Bool :=
  ranges.any fun r => r.1 ≤ c.toNat && c.toNat ≤ r.2

def beyondAscii (c : Char) : Bool := 128 ≤ c.toNat

end TripleChain.Text
