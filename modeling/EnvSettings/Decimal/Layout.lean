import EnvSettings.Decimal.Shortest

namespace EnvSettings.Decimal

/-- The decisions of a layout: the decimal exponents that are written positionally (no bound means
all), whether a whole number gets a fraction digit, and whether a positive exponent gets a sign. -/
structure Layout where
  least : Option Int
  greatest : Option Int
  fraction : Bool
  plus : Bool

namespace Layout

/-- JSON writes exponents from -5 to 15 positionally, at least one fraction digit, and signs every
exponent. -/
def json : Layout := ⟨some (-5), some 15, true, true⟩

/-- Bounds in messages are positional for exponents from -4 to 15, with at least one fraction
digit. -/
def bound : Layout := ⟨some (-4), some 15, true, false⟩

/-- Plain amounts are always positional, without needless fraction digits. -/
def plain : Layout := ⟨none, none, false, false⟩

/-- The digits with the point after the first `point` of them. -/
def positional (layout : Layout) (digits : List Char) (point : Int) : List Char :=
  if point ≤ 0 then ['0', '.'] ++ List.replicate (-point).toNat '0' ++ digits
  else
    let n := point.toNat
    if digits.length ≤ n then
      digits ++ List.replicate (n - digits.length) '0' ++
        (if layout.fraction then ['.', '0'] else [])
    else digits.take n ++ '.' :: digits.drop n

/-- The digits with the point after the first and an exponent. -/
def scientific (layout : Layout) (digits : List Char) (exponent : Int) : List Char :=
  let tail := match digits.drop 1 with
    | [] => []
    | rest => '.' :: rest
  let sign := if exponent < 0 then ['-'] else if layout.plus then ['+'] else []
  digits.take 1 ++ tail ++ 'e' :: sign ++ Nat.toDigits 10 exponent.natAbs

/-- The text of a nonnegative finite number. -/
def magnitude (layout : Layout) (mantissa : Nat) (exponent : Int) : List Char :=
  if mantissa = 0 then layout.positional ['0'] 1
  else
    let d := shortest mantissa exponent
    let digits := Nat.toDigits 10 d.coefficient
    let top := digits.length + d.exponent - 1
    if layout.least.all (· ≤ top) && layout.greatest.all (top ≤ ·) then
      layout.positional digits (top + 1)
    else layout.scientific digits top

/-- The text of a float. -/
def write (layout : Layout) (x : Float) : String :=
  match Decoded.ofFloat x with
  | .nan => "NaN"
  | .infinite negative => if negative then "-inf" else "inf"
  | .finite negative mantissa exponent =>
    let body := layout.magnitude mantissa exponent
    String.ofList (if negative then '-' :: body else body)

end Layout

end EnvSettings.Decimal
