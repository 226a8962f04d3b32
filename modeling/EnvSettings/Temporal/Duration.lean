import EnvSettings.Decimal.Layout
import EnvSettings.Decimal.Reader
import EnvSettings.Temporal.Calendar
import EnvSettings.Text.Space
import EnvSettings.Text.Split

namespace EnvSettings.Temporal

/-- A span of time in nanoseconds. -/
structure Duration where
  nanos : Int
  deriving DecidableEq, Repr, Inhabited

/-- Whole seconds, toward zero. -/
def Duration.seconds (d : Duration) : Int :=
  d.nanos.tdiv nanosPerSecond

/-- The nanoseconds beyond the whole seconds, with the sign of the span. -/
def Duration.subsecond (d : Duration) : Int :=
  d.nanos.tmod nanosPerSecond

/-- Why a text is no duration. -/
inductive DurationFault where
  | empty
  | number (fault : Decimal.FloatFault)
  | integer (fault : Decimal.IntegerFault)
  | secondsOutOfRange (seconds : String)
  | clockFormat (text : String)
  | clockMinutes (text : String)
  | clockSeconds (text : String)
  | clockOutOfRange (text : String)
  | iso (text : String)
  deriving DecidableEq, Repr

/-- The fault as it is shown. -/
def DurationFault.message : DurationFault → String
  | empty => "empty duration value"
  | number fault => fault.message
  | integer fault => fault.message
  | secondsOutOfRange seconds => s!"duration out of range: {seconds} seconds"
  | clockFormat text => s!"invalid clock duration format: {text}"
  | clockMinutes text => s!"invalid minutes value in duration: {text}"
  | clockSeconds text => s!"invalid seconds value in duration: {text}"
  | clockOutOfRange text => s!"duration out of range: {text}"
  | iso text => s!"invalid ISO 8601 duration: {text}"

/-- The whole number nearest to a finite float; a half goes away from zero. -/
def roundFloat? (x : Float) : Option Int :=
  match Decimal.Decoded.ofFloat x with
  | .finite negative mantissa exponent =>
    let n : Nat :=
      if 0 ≤ exponent then mantissa <<< exponent.toNat
      else (2 * mantissa + (1 <<< exponent.natAbs)) >>> (exponent.natAbs + 1)
    some (if negative then -(n : Int) else n)
  | _ => none

/-- The least number of microseconds, of either sign, that no duration has. -/
def microsecondBound : Nat := 9200000000000000000

/-- The span of a number of seconds, to the microsecond. -/
def ofSeconds (seconds : Float) : Except DurationFault Duration :=
  let beyond := .error (.secondsOutOfRange (Decimal.Layout.plain.write seconds))
  match roundFloat? (seconds * 1000000.0) with
  | none => beyond
  | some micros => if microsecondBound ≤ micros.natAbs then beyond else .ok ⟨1000 * micros⟩

/-- Whether a text has digits and nothing else. -/
def isDigits (s : List Char) : Bool :=
  !s.isEmpty && s.all Char.isDigit

/-- Whether a text is a plain decimal number: digits, a fraction if there is a point, and an
optional sign. -/
def isDecimalSeconds (s : List Char) : Bool :=
  let body := (Decimal.cutSign s).2
  match Text.cutAt? '.' body with
  | some (whole, fraction) => isDigits whole && isDigits fraction
  | none => isDigits body

/-- The number with its sign. -/
def withSign (negative : Bool) (x : Float) : Float :=
  (if negative then -1.0 else 1.0) * x

/-- The whole seconds of hours and minutes, if they fit 64 bits. -/
def clockSeconds? (hours minutes : Int) : Option Int :=
  if Word.fitsSigned (hours * 3600) && Word.fitsSigned (hours * 3600 + minutes * 60) then
    some (hours * 3600 + minutes * 60)
  else none

/-- Reads hours, minutes and optionally seconds between colons. The sign in front holds for all of
them. -/
def readClock (s : List Char) : Except DurationFault Duration := do
  let text := String.ofList s
  let (negative, body) := Decimal.cutSign s
  let readSeconds (part : List Char) : Except DurationFault Float :=
    (Decimal.readFloat (Text.trim part)).mapError .number
  let readInteger (part : List Char) : Except DurationFault Int64 :=
    (Decimal.readInt64 (Text.trim part)).mapError .integer
  let (hours, minutes, seconds) ← match Text.splitAtChar ':' body with
    | [h, m] => do .ok ((← readInteger h).toInt, (← readInteger m).toInt, 0.0)
    | [h, m, s] => do .ok ((← readInteger h).toInt, (← readInteger m).toInt, ← readSeconds s)
    | _ => .error (.clockFormat text)
  if minutes < 0 ∨ 60 ≤ minutes then .error (.clockMinutes text)
  else if !(0.0 ≤ seconds && seconds < 60.0) then .error (.clockSeconds text)
  else match clockSeconds? hours minutes with
    | some whole => ofSeconds (withSign negative (Float.ofInt whole + seconds))
    | none => .error (.clockOutOfRange text)

/-- A unit of an ISO 8601 duration: its letter and its seconds. -/
abbrev IsoUnit := Char × Float

/-- The units before the `T` in their order. -/
def dateUnits : List IsoUnit := [('W', 604800.0), ('D', 86400.0)]

/-- The units after the `T` in their order. -/
def timeUnits : List IsoUnit := [('H', 3600.0), ('M', 60.0), ('S', 1.0)]

/-- The units from a letter on: its seconds, and the units that may still follow. -/
def findUnit : Char → List IsoUnit → Option (Float × List IsoUnit)
  | _, [] => none
  | c, (letter, seconds) :: units => if letter = c then some (seconds, units) else findUnit c units

/-- Sums numbers with units. Units come in the order of the list, each at most once; `number` holds
the digits and points read since the last unit, in reverse. -/
def sumUnits (total : Float) (number : List Char) (units : List IsoUnit) :
    List Char → Option Float
  | [] => if number.isEmpty then some total else none
  | c :: s =>
    if c.isDigit || c == '.' then sumUnits total (c :: number) units s
    else match findUnit c units with
      | none => none
      | some (seconds, units) =>
        match Decimal.readFloat number.reverse with
        | .ok amount => sumUnits (total + amount * seconds) [] units s
        | .error _ => none

/-- The seconds of the parts of an ISO 8601 duration before and after its `T`. -/
def isoSeconds? (s : List Char) : Option Float := do
  match Text.cutAt? 'T' s with
  | none => if s.isEmpty then none else sumUnits 0.0 [] dateUnits s
  | some (date, time) =>
    let days ← sumUnits 0.0 [] dateUnits date
    if time.isEmpty then none
    else
      let clock ← sumUnits 0.0 [] timeUnits time
      some (days + clock)

/-- Reads an ISO 8601 duration with an optional sign. -/
def readIso (s : List Char) : Except DurationFault Duration :=
  let (negative, body) := Decimal.cutSign s
  match (Text.dropLead? ['P'] body).bind isoSeconds? with
  | some seconds => ofSeconds (withSign negative seconds)
  | none => .error (.iso (String.ofList s))

/-- Reads a duration in any of its spellings. -/
def readDuration (s : List Char) : Except DurationFault Duration :=
  let s := Text.trim s
  if s.isEmpty then .error .empty
  else if isDecimalSeconds s then
    match Decimal.readFloat s with
    | .ok seconds => ofSeconds seconds
    | .error fault => .error (.number fault)
  else if s.contains ':' then readClock s
  else readIso s

end EnvSettings.Temporal
