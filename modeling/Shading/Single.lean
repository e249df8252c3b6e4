/- Single precision rules beyond the four operations of arithmetic: passing
   between integers and floats, whole numbers, and the lane functions that a
   processor does not offer as one instruction.

   Integers go to floats through their magnitude, which rounds to the nearest
   float with ties to even; floats go to integers through the magnitude too,
   which drops the fraction and stops at the end of the range. Both therefore
   reduce by evaluation, so that closed facts about 32-bit values can be
   checked. -/
namespace Shading.Single

/-- The float nearest to a 32-bit integer. Rounding to nearest is symmetric, so
the magnitude may be rounded first and the sign put back. -/
def ofInt (i : Int32) : Float32 :=
  let magnitude := i.toInt.natAbs.toUInt32.toFloat32
  if i < 0 then -magnitude else magnitude

/-- A truth value as a number: one or zero. -/
def ofBool (b : Bool) : Float32 := if b then 1 else 0

/-- The integer part of a float, toward zero. What lies past the 64-bit range
stops at its end, and what is not a number counts as zero. -/
def truncate (x : Float32) : Int :=
  if x < 0 then max Int64.minValue.toInt (-(-x).toUInt64.toNat)
  else min Int64.maxValue.toInt x.toUInt64.toNat

/-- The integer part of a float, held inside the 32-bit range. -/
def toInt (x : Float32) : Int32 :=
  Int32.ofInt (max Int32.minValue.toInt (min Int32.maxValue.toInt (truncate x)))

/-- Whether a float is a whole number. From `2 ^ 23` on every finite float is;
below, taking the integer part must change nothing. -/
def isWhole (x : Float32) : Bool :=
  x.isFinite && (decide (8388608 ≤ x.abs) || x.abs.toUInt32.toFloat32 == x.abs)

/-- The larger of two floats; one that is not a number gives way to the other. -/
def maximum (a b : Float32) : Float32 :=
  if a.isNaN then b else if b.isNaN then a else if a < b then b else a

/-- The smaller of two floats; one that is not a number gives way to the other. -/
def minimum (a b : Float32) : Float32 :=
  if a.isNaN then b else if b.isNaN then a else if b < a then b else a

/-- The sign of a float; either zero and what is not a number stay as they are. -/
def sign (x : Float32) : Float32 :=
  if 0 < x then 1 else if x < 0 then -1 else x

/-- The part of a float above the whole number below it. -/
def fraction (x : Float32) : Float32 := x - x.floor

/-- The remainder of a division whose quotient is rounded down. -/
def modulo (x y : Float32) : Float32 := x - y * (x / y).floor

/-- One over the square root. -/
def inverseSqrt (x : Float32) : Float32 := 1 / x.sqrt

end Shading.Single
