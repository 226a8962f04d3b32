import EnvSettings.Temporal.Pattern
import EnvSettings.Text.Quoted
import EnvSettings.Text.Split

namespace EnvSettings.Temporal

open Item

/-- Year, month and day with hyphens between them. -/
def datePattern : List Item :=
  [year, letter '-', month, letter '-', day]

/-- Hour and minute with a colon between them. -/
def minutePattern : List Item :=
  [hour, letter ':', minute]

/-- Hour, minute and second with colons between them, and a fraction of the second. -/
def secondPattern : List Item :=
  minutePattern ++ [letter ':', second, fraction]

/-- The patterns of zoned timestamps, in the order in which they are tried. -/
def zonedPatterns : List (List Item) :=
  [datePattern ++ letter 'T' :: secondPattern ++ [offset],
    datePattern ++ space :: secondPattern ++ [offset],
    datePattern ++ letter 'T' :: minutePattern ++ [offset],
    datePattern ++ space :: minutePattern ++ [offset]]

/-- The patterns of timestamps without an offset, in the order in which they are tried. -/
def timestampPatterns : List (List Item) :=
  [datePattern ++ letter 'T' :: secondPattern,
    datePattern ++ space :: secondPattern,
    datePattern ++ letter 'T' :: minutePattern,
    datePattern ++ space :: minutePattern]

/-- Why a text is no time of day. -/
inductive TimeFault where
  | zone
  | invalid (text : String)
  deriving DecidableEq, Repr

/-- The fault as it is shown. -/
def TimeFault.message : TimeFault → String
  | zone => "time zone offsets other than UTC are not supported"
  | invalid text => s!"invalid isoformat time: {Text.quoted text}"

/-- Why a text is no timestamp. -/
inductive TimestampFault where
  | invalid (text : String)
  deriving DecidableEq, Repr

/-- The fault as it is shown. -/
def TimestampFault.message : TimestampFault → String
  | invalid text => s!"invalid isoformat string: {Text.quoted text}"

/-- A timestamp with or without an offset. -/
inductive AnyTimestamp where
  | zoned (z : ZonedTimestamp)
  | plain (s : Timestamp)

/-- The trimmed text with a final `Z` written as an offset. -/
def spellUtc (s : List Char) : List Char :=
  let s := Text.trim s
  match Text.dropTail? ['Z'] s with
  | some rest => rest ++ "+00:00".toList
  | none => s

/-- Reads a date. -/
def readDate (s : List Char) : Except PatternFault Date := do
  (← readPattern datePattern (Text.trim s)).date

/-- Reads a time of day. The offset of universal time may be written, no other. -/
def readTime (s : List Char) : Except TimeFault Time :=
  let spelled := spellUtc s
  let naive := match Text.dropTail? "+00:00".toList spelled with
    | some rest => rest
    | none => (Text.dropTail? "-00:00".toList spelled).getD spelled
  if naive.contains '+' || naive.contains '-' then .error .zone
  else match readPattern secondPattern naive with
    | .ok f => .ok f.time
    | .error _ =>
      match readPattern minutePattern naive with
      | .ok f => .ok f.time
      | .error _ => .error (.invalid (String.ofList (Text.trim s)))

/-- Reads a timestamp; a date alone is its midnight. -/
def readTimestamp (s : List Char) : Except TimestampFault AnyTimestamp :=
  let spelled := spellUtc s
  let zoned? := zonedPatterns.findSome? fun p => (readPattern p spelled >>= Fields.zoned).toOption
  let plain? := timestampPatterns.findSome? fun p =>
    (readPattern p spelled >>= Fields.timestamp).toOption
  match zoned?, plain? with
  | some z, _ => .ok (.zoned z)
  | none, some t => .ok (.plain t)
  | none, none =>
    match readPattern datePattern spelled >>= Fields.date with
    | .ok d => .ok (.plain ⟨d, Time.midnight⟩)
    | .error _ => .error (.invalid (String.ofList (Text.trim s)))

end EnvSettings.Temporal
