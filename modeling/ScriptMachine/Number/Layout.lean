import ScriptMachine.Number.Shortest

/-!
# Texts of floating-point numbers

Both texts of a number show its shortest digits.  The plain text never has an exponent and shows a
whole number without a point; the marked text always has a point or an exponent, so that it cannot
be taken for an integer.
-/

namespace ScriptMachine

/-- Decisions that separate one text of a number from another. -/
structure FloatLayout where
  /-- The powers of ten of the leading digit that are written with an exponent. -/
  usesExponent : Int → Bool
  /-- What follows a whole number written without an exponent. -/
  wholeMark : String

namespace FloatLayout

/-- Never an exponent; a whole number has no point. -/
def plain : FloatLayout where
  usesExponent := fun _ => false
  wholeMark := ""

/-- An exponent from `10 ^ 16` on and below `10 ^ -4`; a whole number ends in `.0`. -/
def marked : FloatLayout where
  usesExponent := fun leading => leading < -4 || 16 ≤ leading
  wholeMark := ".0"

/-- Digits with the point at its place, filled up with zeros. -/
def positional (layout : FloatLayout) (digits : List Char) (exponent : Int) : List Char :=
  if 0 ≤ exponent then
    digits ++ List.replicate exponent.toNat '0' ++ layout.wholeMark.toList
  else
    let places := (-exponent).toNat
    if places < digits.length then
      digits.take (digits.length - places) ++ '.' :: digits.drop (digits.length - places)
    else
      '0' :: '.' :: List.replicate (places - digits.length) '0' ++ digits

/-- One digit before the point, then the exponent of that digit. -/
def scientific (digits : List Char) (leading : Int) : List Char :=
  let fraction := digits.drop 1
  digits.take 1 ++ (if fraction.isEmpty then [] else '.' :: fraction) ++
    'e' :: (toString leading).toList

/-- The text of a decimal other than zero. -/
def renderDecimal (layout : FloatLayout) (d : Decimal) : List Char :=
  let digits := Nat.toDigits 10 d.digits
  let leading := d.exponent + digits.length - 1
  if layout.usesExponent leading then scientific digits leading
  else layout.positional digits d.exponent

/-- The text of a number. -/
def render (layout : FloatLayout) (x : Binary64) : String :=
  if x.isNaN then "NaN"
  else
    let sign := if x.isNegative then "-" else ""
    if x.isInfinite then sign ++ "inf"
    else if x.isZero then sign ++ "0" ++ layout.wholeMark
    else sign ++ String.ofList (layout.renderDecimal x.shortest)

end FloatLayout

end ScriptMachine
