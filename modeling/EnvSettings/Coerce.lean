import EnvSettings.Convert
import EnvSettings.Json.Reader

namespace EnvSettings.Coerce

/-- The words for true. -/
def trueTokens : List String := ["1", "true", "t", "yes", "y", "on"]

/-- The words for false. -/
def falseTokens : List String := ["0", "false", "f", "no", "n", "off"]

/-- Why a text is no truth value. -/
structure BoolFault where
  raw : String
  deriving DecidableEq, Repr

/-- The fault as it is shown. -/
def BoolFault.message (f : BoolFault) : String :=
  s!"invalid boolean value: {f.raw}"

/-- The truth value that a token denotes, in any letter case. -/
def readBool (raw : String) : Except BoolFault Bool :=
  let token := Text.lower (Text.trimmed raw)
  if trueTokens.contains token then .ok true
  else if falseTokens.contains token then .ok false
  else .error ⟨raw⟩

/-- Why a text is no finite number. -/
inductive FloatFault where
  | literal (fault : Decimal.FloatFault)
  | notFinite (text : String)
  deriving DecidableEq, Repr

/-- The fault as it is shown. -/
def FloatFault.message : FloatFault → String
  | literal fault => fault.message
  | notFinite text => s!"non-finite float: {text}"

/-- The finite number that a trimmed text denotes. -/
def readFloat (raw : String) : Except FloatFault Float :=
  match Decimal.readFloat (Text.trim raw.toList) with
  | .error fault => .error (.literal fault)
  | .ok x => if x.isFinite then .ok x else .error (.notFinite (Text.trimmed raw))

/-- A result whose fault is shown as a text. -/
def reading {ε α : Type} (message : ε → String) (value : α → Value) (result : Except ε α) :
    Except Cause Value :=
  match result with
  | .ok x => .ok (value x)
  | .error fault => .error (.text (message fault))

/-- Reads JSON and converts it to a type. -/
def ofJsonText (c : Catalog) (levels : Nat) (t : FieldType) (raw : String) : Except Cause Value :=
  match Json.parse raw with
  | .error fault => .error (.json fault)
  | .ok j => reading (·.message) id (Convert.value c levels t (Value.ofJson j))

/-- Coerces a text to a type that is no union. -/
def scalar (c : Catalog) (levels : Nat) (t : FieldType) (raw : String) : Except Cause Value :=
  match t with
  | .any | .str => .ok (.str raw)
  | .bool => reading (·.message) .bool (readBool raw)
  | .int => reading (·.message) .int (Decimal.readInt64 (Text.trim raw.toList))
  | .float => reading (·.message) .float (readFloat raw)
  | .date => reading (·.message) .date (Temporal.readDate raw.toList)
  | .time => reading (·.message) .time (Temporal.readTime raw.toList)
  | .datetime => reading (·.message) id (readTimestampValue raw.toList)
  | .duration => reading (·.message) .duration (Temporal.readDuration raw.toList)
  | .enum spec => reading (·.message) id (spec.read raw)
  | t => ofJsonText c levels t raw

/-- The error for a text that does not coerce. -/
def fault (c : Catalog) (t : FieldType) (raw path : String) (causes : List Cause) : Error :=
  { problem := .parse path (c.typeName t) raw, causes := causes }

/-- Coerces a text to a type that is no union, and checks the constraints. -/
def member (c : Catalog) (levels : Nat) (info : FieldInfo) (t : FieldType) (raw path : String) :
    Except Error Value :=
  match scalar c levels t raw with
  | .error cause => .error (fault c t raw path [cause])
  | .ok v => do
    info.checkSetting v path (c.typeName t) raw
    .ok v

mutual

/-- Coerces a text to a type and checks the constraints. A union takes the first of its members that
accepts the text; null does not count as one. -/
def value (c : Catalog) (levels : Nat) (info : FieldInfo) :
    FieldType → String → String → Except Error Value
  | .union members, raw, path =>
    match first c levels info members raw path with
    | some (.ok v) => .ok v
    | some (.error e) => .error (fault c (.union members) raw path e.asCauses)
    | none => .error (fault c (.union members) raw path [])
  | t, raw, path => member c levels info t raw path

/-- The result of the first member type that accepts the text, or of the last one. -/
def first (c : Catalog) (levels : Nat) (info : FieldInfo) :
    List FieldType → String → String → Option (Except Error Value)
  | [], _, _ => none
  | t :: ts, raw, path =>
    if t.isNull then first c levels info ts raw path
    else match value c levels info t raw path with
      | .ok v => some (.ok v)
      | .error e =>
        match first c levels info ts raw path with
        | some result => some result
        | none => some (.error e)

end

end EnvSettings.Coerce
