import ScriptMachine.Number.Binary64

/-!
# Shortest decimals that read back

Every finite number owns an interval of reals that round to it.  The decimal chosen for a number
has the fewest digits of all decimals in that interval and, among those, lies nearest to the
number; of two equally near ones the larger is taken.  All tests are exact integer arithmetic.
-/

namespace ScriptMachine

/-- The number `digits * 10 ^ exponent`. -/
structure Decimal where
  /-- The digits as one natural number. -/
  digits : Nat
  /-- The power of ten of the last digit. -/
  exponent : Int
deriving DecidableEq, Repr

namespace Decimal

/-- The number of decimal digits of a natural number; zero has none. -/
def width (n : Nat) : Nat :=
  if n = 0 then 0 else width (n / 10) + 1
termination_by n
decreasing_by omega

/-- Remove the last digits that are zero. -/
def trim (d : Decimal) : Decimal :=
  if d.digits = 0 then ⟨0, 0⟩
  else if d.digits % 10 = 0 then trim ⟨d.digits / 10, d.exponent + 1⟩
  else d
termination_by d.digits
decreasing_by
  omega

end Decimal

/-- A positive finite number together with the interval of reals that round to it, all three in
units of `2 ^ unit`. -/
structure RoundingInterval where
  /-- Lower end of the interval. -/
  low : Nat
  /-- The number itself. -/
  middle : Nat
  /-- Upper end of the interval. -/
  high : Nat
  /-- The ends themselves round to the number. -/
  closed : Bool
  /-- Power of two of the unit. -/
  unit : Int

namespace RoundingInterval

/-- The interval of a finite number other than zero.  The lower gap is half as wide at a power of
two, except at the least scale, and the ends belong to an even significand. -/
def ofBinary64 (x : Binary64) : RoundingInterval :=
  let middle := 4 * x.significand
  let narrow := x.fractionField = 0 ∧ 1 < x.exponentField
  { low := if narrow then middle - 1 else middle - 2
    middle
    high := middle + 2
    closed := x.significand % 2 == 0
    unit := x.scale - 2 }

/-- Numerator and denominator of a multiple of the unit. -/
def ratio (interval : RoundingInterval) (multiple : Nat) : Nat × Nat :=
  if interval.unit < 0 then (multiple, 1 <<< (-interval.unit).toNat)
  else (multiple <<< interval.unit.toNat, 1)

/-- The power of ten of the leading digit of the number. -/
def leadingExponent (interval : RoundingInterval) : Int :=
  let (numerator, denominator) := interval.ratio interval.middle
  if denominator ≤ numerator then (Decimal.width (numerator / denominator) : Int) - 1
  else -(Decimal.width ((denominator - 1) / numerator) : Int)

/-- Order of a decimal against a multiple of the unit. -/
def compareDecimal (interval : RoundingInterval) (d : Decimal) (multiple : Nat) : Ordering :=
  let (numerator, denominator) := interval.ratio multiple
  if d.exponent < 0 then
    compare (d.digits * denominator) (numerator * Nat.pow 10 (-d.exponent).toNat)
  else compare (d.digits * Nat.pow 10 d.exponent.toNat * denominator) numerator

/-- The decimal rounds to the number. -/
def contains (interval : RoundingInterval) (d : Decimal) : Bool :=
  let below := interval.compareDecimal d interval.low
  let above := interval.compareDecimal d interval.high
  (below == .gt && above == .lt) || (interval.closed && (below == .eq || above == .eq))

/-- The multiple of `10 ^ exponent` just below the number, or at it. -/
def floorAt (interval : RoundingInterval) (exponent : Int) : Nat :=
  let (numerator, denominator) := interval.ratio interval.middle
  if exponent < 0 then numerator * Nat.pow 10 (-exponent).toNat / denominator
  else numerator / (denominator * Nat.pow 10 exponent.toNat)

/-- The upper of two neighbours on a decimal grid is at least as near as the lower one: the sum
of both does not exceed twice the number. -/
def upperIsNearer (interval : RoundingInterval) (lower : Decimal) : Bool :=
  interval.compareDecimal ⟨2 * lower.digits + 1, lower.exponent⟩ (2 * interval.middle) != .gt

/-- The decimal with the given last place that rounds to the number, if there is one; the nearer
of two, the upper one on a tie. -/
def nearestAt? (interval : RoundingInterval) (exponent : Int) : Option Decimal :=
  let lower : Decimal := ⟨interval.floorAt exponent, exponent⟩
  let upper : Decimal := ⟨lower.digits + 1, exponent⟩
  match interval.contains lower, interval.contains upper with
  | true, true => some (if interval.upperIsNearer lower then upper else lower)
  | true, false => some lower
  | false, true => some upper
  | false, false => none

/-- The first grid, from coarse to fine, on which some decimal rounds to the number. -/
def search (interval : RoundingInterval) : Nat → Int → Decimal
  | 0, exponent => ⟨interval.floorAt exponent, exponent⟩
  | grids + 1, exponent =>
    match interval.nearestAt? exponent with
    | some d => d
    | none => interval.search grids (exponent - 1)

end RoundingInterval

namespace Binary64

/-- The shortest decimal that reads back as the magnitude of a finite number other than zero.
Seventeen digits always suffice. -/
def shortest (x : Binary64) : Decimal :=
  let interval := RoundingInterval.ofBinary64 x
  (interval.search 17 interval.leadingExponent).trim

end Binary64

end ScriptMachine
