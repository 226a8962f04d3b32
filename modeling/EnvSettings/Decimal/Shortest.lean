namespace EnvSettings.Decimal

/-- What the bits of a float say. -/
inductive Decoded where
  | nan
  | infinite (negative : Bool)
  | finite (negative : Bool) (mantissa : Nat) (exponent : Int)
  deriving DecidableEq, Repr

/-- The meaning of the 64 bits of a float. -/
def Decoded.ofBits (bits : Nat) : Decoded :=
  let negative := bits.testBit 63
  let field : Nat := (bits >>> 52) % 0x800
  let fraction : Nat := bits % (1 <<< 52)
  if field = 2047 then if fraction = 0 then .infinite negative else .nan
  else if field = 0 then .finite negative fraction (-1074)
  else .finite negative (fraction + (1 <<< 52)) ((field : Int) - 1075)

/-- The meaning of a float. -/
def Decoded.ofFloat (x : Float) : Decoded :=
  .ofBits x.toBits.toNat

/-- A decimal: `coefficient · 10 ^ exponent`. -/
structure Digits where
  coefficient : Nat
  exponent : Int
  deriving DecidableEq, Repr

/-- Quarters of the unit of the mantissa, so that the ends of the interval are whole numbers. -/
structure Interval where
  low : Nat
  value : Nat
  high : Nat
  closed : Bool
  exponent : Int

/-- The reals that round to `mantissa · 2 ^ exponent`. Below a power of two the floats lie twice as
dense as above it. The ends belong to the interval when the mantissa is even. -/
def Interval.around (mantissa : Nat) (exponent : Int) : Interval where
  low := if mantissa = 1 <<< 52 ∧ exponent > -1074 then 4 * mantissa - 1 else 4 * mantissa - 2
  value := 4 * mantissa
  high := 4 * mantissa + 2
  closed := mantissa % 2 == 0
  exponent := exponent - 2

/-- The factors that make points of the grid `10 ^ k` comparable with points of the interval. -/
def Interval.factors (i : Interval) (k : Int) : Nat × Nat :=
  (Nat.pow 10 k.toNat <<< (-i.exponent).toNat, Nat.pow 10 (-k).toNat <<< i.exponent.toNat)

/-- Whether the grid point `d · 10 ^ k` lies in the interval. -/
def Interval.holds (i : Interval) (k : Int) (d : Nat) : Bool :=
  let (a, b) := i.factors k
  if i.closed then i.low * b ≤ d * a && d * a ≤ i.high * b
  else i.low * b < d * a && d * a < i.high * b

/-- The point of the grid `10 ^ k` in the interval that is nearest to the value. -/
def Interval.nearest? (i : Interval) (k : Int) : Option Nat :=
  let (a, b) := i.factors k
  let below := i.value * b / a
  let above := below + 1
  match i.holds k below, i.holds k above with
  | true, false => some below
  | false, true => some above
  | false, false => none
  | true, true =>
    let down := i.value * b - below * a
    let up := above * a - i.value * b
    if down < up then some below
    else if up < down then some above
    else if below % 2 == 0 then some below else some above

/-- The number of digits before the decimal point of the value. -/
def Interval.magnitude (i : Interval) : Int :=
  let bits : Int := Nat.log2 i.value + i.exponent
  let guess := bits * 30103 / 100000
  let exceeds (e : Int) : Bool := let (a, b) := i.factors e; i.value * b < a
  if exceeds (guess - 1) then guess - 1
  else if exceeds guess then guess
  else if exceeds (guess + 1) then guess + 1
  else guess + 2

/-- A decimal without zeros at its end. -/
def Digits.strip (coefficient : Nat) (exponent : Int) : Nat → Digits
  | 0 => ⟨coefficient, exponent⟩
  | n + 1 =>
    if coefficient ≠ 0 ∧ coefficient % 10 = 0 then strip (coefficient / 10) (exponent + 1) n
    else ⟨coefficient, exponent⟩

/-- The shortest decimal in the interval of a positive `mantissa · 2 ^ exponent`: the first of the
grids of one, two, ... seventeen digits with a point in the interval gives the digits, and of two
such points the one nearer to the value, the even one if they are equally near. -/
def shortest (mantissa : Nat) (exponent : Int) : Digits :=
  let i := Interval.around mantissa exponent
  let top := i.magnitude
  let found := (List.range 17).findSome? fun (n : Nat) =>
    let k : Int := top - (n + 1)
    (i.nearest? k).map fun d => (d, k)
  match found with
  | some (d, k) => Digits.strip d k 20
  | none => ⟨0, 0⟩

end EnvSettings.Decimal
