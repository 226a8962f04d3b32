import EnvSettings.Decimal.Layout

namespace EnvSettings

/-- Numbers that values are compared with. -/
inductive Number where
  | int (value : Int64)
  | float (value : Float)

namespace Number

/-- The number as a float. -/
def toFloat : Number → Float
  | int value => Float.ofInt value.toInt
  | float value => value

/-- The order of two floats; none if one of them is a NaN. -/
def compareFloats (x y : Float) : Option Ordering :=
  if x < y then some .lt else if x == y then some .eq else if y < x then some .gt else none

/-- The order of two numbers. Two integers compare exactly; otherwise both sides compare as floats,
so a NaN is not ordered. -/
def compare : Number → Number → Option Ordering
  | int a, int b => some (Ord.compare a.toInt b.toInt)
  | a, b => compareFloats a.toFloat b.toFloat

/-- Equality of the same kind of number; an integer never equals a float. -/
def same : Number → Number → Bool
  | int a, int b => a == b
  | float a, float b => a == b
  | _, _ => false

/-- The number as messages show it. -/
def text : Number → String
  | int value => toString value.toInt
  | float value => Decimal.Layout.bound.write value

end Number

end EnvSettings
