import EnvSettings.Decimal.Reader
import EnvSettings.Temporal.Calendar
import EnvSettings.Text.Space

namespace EnvSettings.Temporal

/-- Why a text does not match a pattern. -/
inductive PatternFault where
  | tooShort
  | invalid
  | outOfRange
  | tooLong
  deriving DecidableEq, Repr

/-- The fault as it is shown. -/
def PatternFault.message : PatternFault → String
  | tooShort => "premature end of input"
  | invalid => "input contains invalid characters"
  | outOfRange => "input is out of range"
  | tooLong => "trailing input"

/-- An element of a pattern. -/
inductive Item where
  | year
  | month
  | day
  | hour
  | minute
  | second
  /-- A point and digits, or nothing. Digits beyond the ninth do not count. -/
  | fraction
  /-- Signed hours and minutes, two digits each. -/
  | offset
  | letter (c : Char)
  /-- Any run of white space, also an empty one. -/
  | space
  deriving DecidableEq, Repr

/-- What has been read so far. -/
structure Fields where
  year : Int := 0
  month : Nat := 0
  day : Nat := 0
  hour : Nat := 0
  minute : Nat := 0
  second : Nat := 0
  nano : Nat := 0
  offset : Int := 0
  deriving DecidableEq, Repr

/-- Reads a number of at least one digit and at most `width`. -/
def readNumber (width : Nat) (s : List Char) : Except PatternFault (Nat × List Char) :=
  let digits := (s.take width).takeWhile Char.isDigit
  if digits.isEmpty then .error (if s.isEmpty then .tooShort else .invalid)
  else .ok (Decimal.ofDigits digits, s.drop digits.length)

/-- Reads a number of at most two digits that lies between two bounds. -/
def readTwoDigits (least greatest : Nat) (s : List Char) :
    Except PatternFault (Nat × List Char) := do
  let (n, rest) ← readNumber 2 (Text.trimLeft s)
  if n < least ∨ greatest < n then .error .outOfRange else .ok (n, rest)

/-- Reads a year: a sign and any number of digits, or at most four digits. -/
def readYear (s : List Char) : Except PatternFault (Int × List Char) := do
  let (n, rest) ← match Text.trimLeft s with
    | '-' :: s => do
      let (n, rest) ← readNumber s.length s
      .ok (-(n : Int), rest)
    | '+' :: s => do
      let (n, rest) ← readNumber s.length s
      .ok ((n : Int), rest)
    | s => do
      let (n, rest) ← readNumber 4 s
      .ok ((n : Int), rest)
  if n < Int32.minValue.toInt ∨ Int32.maxValue.toInt < n then .error .outOfRange else .ok (n, rest)

/-- Reads a fraction of a second in nanoseconds. -/
def readFraction (s : List Char) : Except PatternFault (Nat × List Char) :=
  match s with
  | '.' :: s => do
    let (n, rest) ← readNumber 9 s
    let digits := s.length - rest.length
    .ok (n * Nat.pow 10 (9 - digits), rest.dropWhile Char.isDigit)
  | s => .ok (0, s)

/-- Reads two digits, the first of them at most `tens`. -/
def readPair (tens : Nat) : List Char → Except PatternFault (Nat × List Char)
  | a :: b :: s =>
    if a.isDigit && b.isDigit then
      if tens < Decimal.digitValue a then .error .outOfRange
      else .ok (10 * Decimal.digitValue a + Decimal.digitValue b, s)
    else .error .invalid
  | _ => .error .tooShort

/-- Reads an offset in minutes. -/
def readOffset (s : List Char) : Except PatternFault (Int × List Char) := do
  let (negative, s) ← match Text.trimLeft s with
    | [] => .error .tooShort
    | c :: s =>
      if c = '+' then .ok (false, s)
      else if c = '-' ∨ c = Char.ofNat 0x2212 then .ok (true, s)
      else .error .invalid
  let (hours, s) ← readPair 9 s
  let (minutes, s) ← readPair 5 (s.dropWhile fun c => c == ':' || Text.isSpace c)
  let total : Int := 60 * hours + minutes
  .ok (if negative then -total else total, s)

namespace Item

/-- Reads one element of a pattern. -/
def read (item : Item) (f : Fields) (s : List Char) : Except PatternFault (Fields × List Char) :=
  match item with
  | year => (readYear s).map fun (n, s) => ({ f with year := n }, s)
  | month => (readTwoDigits 1 12 s).map fun (n, s) => ({ f with month := n }, s)
  | day => (readTwoDigits 1 31 s).map fun (n, s) => ({ f with day := n }, s)
  | hour => (readTwoDigits 0 23 s).map fun (n, s) => ({ f with hour := n }, s)
  | minute => (readTwoDigits 0 59 s).map fun (n, s) => ({ f with minute := n }, s)
  | second => (readTwoDigits 0 60 s).map fun (n, s) => ({ f with second := n }, s)
  | fraction => (readFraction s).map fun (n, s) => ({ f with nano := n }, s)
  | offset => (readOffset s).map fun (n, s) => ({ f with offset := n }, s)
  | letter c =>
    match s with
    | [] => .error .tooShort
    | d :: s => if c = d then .ok (f, s) else .error .invalid
  | space => .ok (f, Text.trimLeft s)

end Item

/-- Reads the elements of a pattern one after the other. -/
def readItems : List Item → Fields → List Char → Except PatternFault (Fields × List Char)
  | [], f, s => .ok (f, s)
  | item :: items, f, s => do
    let (f, s) ← item.read f s
    readItems items f s

/-- Reads a text that matches a pattern from end to end. -/
def readPattern (items : List Item) (s : List Char) : Except PatternFault Fields := do
  let (f, rest) ← readItems items {} s
  if rest.isEmpty then .ok f else .error .tooLong

namespace Fields

/-- The date that the fields give, if the calendar has it. -/
def date (f : Fields) : Except PatternFault Date :=
  let d : Date := ⟨f.year, f.month, f.day⟩
  if d.valid then .ok d else .error .outOfRange

/-- The time of day that the fields give. -/
def time (f : Fields) : Time :=
  ⟨f.hour, f.minute, f.second, f.nano⟩

/-- The timestamp that the fields give, if the calendar has its date. -/
def timestamp (f : Fields) : Except PatternFault Timestamp :=
  f.date.map fun d => ⟨d, f.time⟩

/-- The zoned timestamp that the fields give; offsets are below a day. -/
def zoned (f : Fields) : Except PatternFault ZonedTimestamp := do
  let z : ZonedTimestamp := ⟨← f.timestamp, f.offset⟩
  if f.offset.natAbs < 24 * 60 && z.inRange then .ok z else .error .outOfRange

end Fields

end EnvSettings.Temporal
