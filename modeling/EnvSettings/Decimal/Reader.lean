import EnvSettings.Text.Case
import EnvSettings.Word

namespace EnvSettings.Decimal

/-- Why a text is no integer. -/
inductive IntegerFault where
  | empty
  | invalidDigit
  | tooLarge
  | tooSmall
  deriving DecidableEq, Repr

/-- The fault as it is shown. -/
def IntegerFault.message : IntegerFault → String
  | empty => "cannot parse integer from empty string"
  | invalidDigit => "invalid digit found in string"
  | tooLarge => "number too large to fit in target type"
  | tooSmall => "number too small to fit in target type"

/-- Why a text is no float. -/
inductive FloatFault where
  | empty
  | invalid
  deriving DecidableEq, Repr

/-- The fault as it is shown. -/
def FloatFault.message : FloatFault → String
  | empty => "cannot parse float from empty string"
  | invalid => "invalid float literal"

/-- The value of a decimal digit. -/
def digitValue (c : Char) : Nat :=
  c.toNat - '0'.toNat

/-- The number that a sequence of digits denotes. -/
def ofDigits (digits : List Char) : Nat :=
  digits.foldl (fun n c => 10 * n + digitValue c) 0

/-- Reads digits onto `n`. The first character that is no digit, or that carries the number past
`bound`, decides the fault. -/
def readDigits (bound : Nat) (beyond : IntegerFault) : Nat → List Char → Except IntegerFault Nat
  | n, [] => .ok n
  | n, c :: s =>
    if !c.isDigit then .error .invalidDigit
    else if bound < 10 * n + digitValue c then .error beyond
    else readDigits bound beyond (10 * n + digitValue c) s

/-- Reads a nonempty sequence of digits. -/
def readMagnitude (bound : Nat) (beyond : IntegerFault) (s : List Char) : Except IntegerFault Nat :=
  if s.isEmpty then .error .invalidDigit else readDigits bound beyond 0 s

/-- Reads an integer with an optional sign that fits 64 bits. -/
def readInt64 : List Char → Except IntegerFault Int64
  | [] => .error .empty
  | '+' :: s => (readMagnitude Word.signedMax .tooLarge s).map fun n => Int64.ofInt n
  | '-' :: s => (readMagnitude (Word.signedMax + 1) .tooSmall s).map fun n => Int64.ofInt (-n)
  | s => (readMagnitude Word.signedMax .tooLarge s).map fun n => Int64.ofInt n

/-- The float nearest to `coefficient · 10 ^ exponent`. Numbers far outside the range of floats are
settled by their magnitude alone. -/
def nearest (coefficient : Nat) (exponent : Int) : Float :=
  let top := (Nat.toDigits 10 coefficient).length + exponent
  if coefficient = 0 ∨ top < -400 then Float.ofScientific 0 false 0
  else if top > 400 then Float.ofBits 0x7ff0000000000000
  else Float.ofScientific coefficient (exponent < 0) exponent.natAbs

/-- A sign at the beginning of a text, and the rest. -/
def cutSign : List Char → Bool × List Char
  | '-' :: s => (true, s)
  | '+' :: s => (false, s)
  | s => (false, s)

/-- The exponent that follows the digits of a float: nothing, or a mark and a signed integer. -/
def readExponent? : List Char → Option Int
  | [] => some 0
  | c :: s =>
    if c = 'e' ∨ c = 'E' then
      let (negative, digits) := cutSign s
      if digits.isEmpty || !digits.all Char.isDigit then none
      else some (if negative then -(ofDigits digits : Int) else ofDigits digits)
    else none

/-- The coefficient and exponent of an unsigned decimal: digits with at most one point, at least one
digit, and an optional exponent. -/
def readDecimal? (s : List Char) : Option (Nat × Int) :=
  let whole := s.takeWhile Char.isDigit
  let rest := s.dropWhile Char.isDigit
  let (fraction, rest) := match rest with
    | '.' :: r => (r.takeWhile Char.isDigit, r.dropWhile Char.isDigit)
    | r => ([], r)
  if whole.isEmpty && fraction.isEmpty then none
  else (readExponent? rest).map fun e => (ofDigits (whole ++ fraction), e - fraction.length)

/-- Reads a float: a decimal, an infinity or a NaN, with an optional sign. -/
def readFloat (s : List Char) : Except FloatFault Float :=
  if s.isEmpty then .error .empty
  else
    let (negative, body) := cutSign s
    let signed (x : Float) : Float := if negative then -x else x
    let word := body.map Char.toLower
    if word = "inf".toList ∨ word = "infinity".toList then
      .ok (signed (Float.ofBits 0x7ff0000000000000))
    else if word = "nan".toList then .ok (signed (Float.ofBits 0x7ff8000000000000))
    else match readDecimal? body with
      | some (coefficient, exponent) => .ok (signed (nearest coefficient exponent))
      | none => .error .invalid

end EnvSettings.Decimal
