/-!
# Binary floating-point numbers of 64 bits

A `Binary64` is its bit pattern, so two numbers are equal exactly when their bits are, and a NaN
keeps its payload.  Order, conversions and the remainder are exact integer arithmetic on the
decoded significand and scale; only the four rounded operations use the hardware type.
-/

namespace ScriptMachine

/-- A floating-point number of 64 bits, given by its bit pattern. -/
structure Binary64 where
  /-- Sign, eleven exponent bits and fifty-two fraction bits, from the top. -/
  bits : UInt64
deriving DecidableEq, Repr, Inhabited

namespace Binary64

/-- The sign bit is set. -/
def isNegative (x : Binary64) : Bool := x.bits >>> 63 == 1

/-- The bits below the sign. -/
def magnitudeBits (x : Binary64) : Nat := x.bits.toNat % (1 <<< 63)

/-- The eleven exponent bits. -/
def exponentField (x : Binary64) : Nat := x.magnitudeBits / (1 <<< 52)

/-- The fifty-two fraction bits. -/
def fractionField (x : Binary64) : Nat := x.magnitudeBits % (1 <<< 52)

/-- The magnitude bits of infinity; everything above is not a number. -/
def infinityBits : Nat := 2047 <<< 52

/-- The pattern stands for no number. -/
def isNaN (x : Binary64) : Bool := infinityBits < x.magnitudeBits

/-- The number is one of the two infinities. -/
def isInfinite (x : Binary64) : Bool := x.magnitudeBits == infinityBits

/-- The number is one of the two zeros. -/
def isZero (x : Binary64) : Bool := x.magnitudeBits == 0

/-- The integer significand of a finite number. -/
def significand (x : Binary64) : Nat :=
  if x.exponentField = 0 then x.fractionField else (1 <<< 52) + x.fractionField

/-- The power of two that scales the significand. -/
def scale (x : Binary64) : Int :=
  if x.exponentField = 0 then -1074 else (x.exponentField : Int) - 1075

/-- The pattern with the given sign and magnitude bits. -/
def ofParts (negative : Bool) (magnitude : Nat) : Binary64 :=
  ⟨UInt64.ofNat ((if negative then 1 <<< 63 else 0) + magnitude)⟩

/-- A quiet pattern that stands for no number. -/
def nan : Binary64 := ofParts false (infinityBits + (1 <<< 51))

/-- The number `magnitude * 2 ^ exponent`, which must be representable with `exponent ≥ -1074`:
the significand is shifted up until it has fifty-three bits or the scale is the least one. -/
def ofScaled (negative : Bool) (magnitude : Nat) (exponent : Int) : Binary64 :=
  if magnitude = 0 then ofParts negative 0
  else
    let shift := min (52 - magnitude.log2) (exponent + 1074).toNat
    let shifted := magnitude <<< shift
    if shifted < 1 <<< 52 then ofParts negative shifted
    else
      let field := (exponent - shift + 1075).toNat
      ofParts negative ((field <<< 52) + (shifted - (1 <<< 52)))

/-- The hardware number with the same bits. -/
def toFloat (x : Binary64) : Float := Float.ofBits x.bits

/-- The bits of a hardware number. -/
def ofFloat (x : Float) : Binary64 := ⟨x.toBits⟩

/-- Rounded sum. -/
def add (x y : Binary64) : Binary64 := ofFloat (x.toFloat + y.toFloat)

/-- Rounded difference. -/
def sub (x y : Binary64) : Binary64 := ofFloat (x.toFloat - y.toFloat)

/-- Rounded product. -/
def mul (x y : Binary64) : Binary64 := ofFloat (x.toFloat * y.toFloat)

/-- Rounded quotient. -/
def div (x y : Binary64) : Binary64 := ofFloat (x.toFloat / y.toFloat)

/-- The same pattern with the other sign. -/
def neg (x : Binary64) : Binary64 := ⟨x.bits ^^^ 0x8000000000000000⟩

/-- Remainder of the quotient truncated toward zero, which is always exact.  It has the sign of
the dividend, also when it is zero. -/
def rem (x y : Binary64) : Binary64 :=
  if x.isNaN || y.isNaN || x.isInfinite || y.isZero then nan
  else if y.isInfinite || x.isZero then x
  else
    let lowest := min x.scale y.scale
    let dividend := x.significand <<< (x.scale - lowest).toNat
    let divisor := y.significand <<< (y.scale - lowest).toNat
    ofScaled x.isNegative (dividend % divisor) lowest

/-- Position of a number on the real line: magnitudes are ordered as their bits are, and both
zeros stand at the same place. -/
def orderKey (x : Binary64) : Int :=
  if x.isNegative then -(x.magnitudeBits : Int) else x.magnitudeBits

/-- Order of two numbers; nothing when one of them is not a number. -/
def compare? (x y : Binary64) : Option Ordering :=
  if x.isNaN || y.isNaN then none else some (compare x.orderKey y.orderKey)

/-- Numeric equality: both zeros are equal and no pattern without a number equals anything. -/
def sameNumber (x y : Binary64) : Bool := x.compare? y == some .eq

/-- The nearest number to a natural number below `2 ^ 64`, a tie going to the even significand. -/
def ofMagnitude (negative : Bool) (magnitude : Nat) : Binary64 :=
  let width := magnitude.log2
  if magnitude = 0 then ofParts false 0
  else if width ≤ 52 then
    ofParts negative (((width + 1023) <<< 52) + (magnitude <<< (52 - width) - (1 <<< 52)))
  else
    let dropped := width - 52
    let kept := magnitude >>> dropped
    let remainder := magnitude % (1 <<< dropped)
    let half := 1 <<< (dropped - 1)
    let rounded :=
      if half < remainder || (remainder == half && kept % 2 == 1) then kept + 1 else kept
    ofParts negative (((width + 1023) <<< 52) + (rounded - (1 <<< 52)))

/-- The nearest number to an integer, a tie going to the even significand. -/
def ofInt64 (i : Int64) : Binary64 :=
  ofMagnitude (i.toInt < 0) i.toInt.natAbs

/-- The integer part, toward zero; numbers beyond the range go to its ends and a pattern without
a number goes to zero. -/
def toInt64 (x : Binary64) : Int64 :=
  if x.isNaN then 0
  else
    let whole : Nat :=
      if x.isInfinite then 1 <<< 63
      else if x.scale < 0 then x.significand >>> (-x.scale).toNat
      else if 64 < x.scale then 1 <<< 63
      else x.significand <<< x.scale.toNat
    if x.isNegative then
      if 1 <<< 63 ≤ whole then Int64.minValue else Int64.ofInt (-(whole : Int))
    else
      if 1 <<< 63 ≤ whole then Int64.maxValue else Int64.ofNat whole

/-- The number written by a pattern of 32 bits: sign, eight exponent bits and twenty-three
fraction bits. -/
def ofSingleBits (bits : UInt32) : Binary64 :=
  let pattern := bits.toNat
  let negative := 1 <<< 31 ≤ pattern
  let field : Nat := pattern / (1 <<< 23) % (1 <<< 8)
  let fraction : Nat := pattern % (1 <<< 23)
  if field = 255 then
    if fraction = 0 then ofParts negative infinityBits
    else ofParts negative (infinityBits + (1 <<< 51) + (fraction % (1 <<< 22)) <<< 29)
  else if field = 0 then ofScaled negative fraction (-149)
  else ofScaled negative ((1 <<< 23) + fraction) ((field : Int) - 150)

end Binary64

end ScriptMachine
