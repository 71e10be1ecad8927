/-!
# The shortest decimal of a double

The doubles next to `m * 2 ^ q` leave it an interval of numbers that round to it; the ends belong to
it when `m` is even. The shortest decimal is the one in this interval on the coarsest decimal grid,
and of two on that grid the nearer.
-/

namespace TripleChain.Decimal

/-- The numerator of `a * 2 ^ q / 10 ^ e`, over the denominator `gridDenominator q e`. -/
def gridNumerator (a : Nat) (q e : Int) : Nat := a * Nat.pow 2 q.toNat * Nat.pow 10 (-e).toNat

/-- The denominator that belongs to `gridNumerator`. -/
def gridDenominator (q e : Int) : Nat := Nat.pow 2 (-q).toNat * Nat.pow 10 e.toNat

/-- The interval of numbers that round to `m * 2 ^ q`, in quarters of `2 ^ q`. -/
structure RoundingInterval where
  /-- The lower end. -/
  low : Nat
  /-- The double itself. -/
  middle : Nat
  /-- The upper end. -/
  high : Nat
  /-- Whether the ends belong to the interval. -/
  closed : Bool

/-- The interval of `m * 2 ^ q`: below a power of two the next double is half as far away. -/
def RoundingInterval.of (m : Nat) (q : Int) : RoundingInterval :=
  { low := if m = Nat.pow 2 52 ∧ q ≠ -1074 then 4 * m - 1 else 4 * m - 2
    middle := 4 * m
    high := 4 * m + 2
    closed := m % 2 == 0 }

/-- The multiple of `10 ^ e` in the interval that is nearest to its middle. -/
def RoundingInterval.multiple? (r : RoundingInterval) (q e : Int) : Option Nat :=
  let den := gridDenominator (q - 2) e
  let low := gridNumerator r.low (q - 2) e
  let middle := gridNumerator r.middle (q - 2) e
  let high := gridNumerator r.high (q - 2) e
  let inside (d : Nat) : Bool :=
    if r.closed then low ≤ d * den && d * den ≤ high else low < d * den && d * den < high
  -- If any multiple is inside, one next to the middle is.
  let below := middle / den
  let above := below + 1
  if inside below && below != 0 then
    if inside above then
      -- The nearer one; of two as near the even one.
      let twice := 2 * middle
      let half := (below + above) * den
      if twice < half || (twice == half && below % 2 == 0) then some below else some above
    else some below
  else if inside above then some above
  else none

/-- The first grid with a multiple in the interval, from `10 ^ e` down over `steps` grids. -/
def coarsest (r : RoundingInterval) (q : Int) : Nat → Int → Nat × Int
  | 0, e => (r.middle / 4, e)
  | steps + 1, e =>
    match r.multiple? q e with
    | some d => (d, e)
    | none => coarsest r q steps (e - 1)

/-- The shortest decimal `d * 10 ^ e` of the positive double `m * 2 ^ q`. -/
def shortest (m : Nat) (q : Int) : Nat × Int := coarsest (.of m q) q 1400 310

end TripleChain.Decimal
