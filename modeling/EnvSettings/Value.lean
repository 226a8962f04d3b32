import EnvSettings.Error
import EnvSettings.Entries
import EnvSettings.Number
import EnvSettings.Temporal.Calendar
import EnvSettings.Temporal.Duration

namespace EnvSettings

open Temporal (Date Time Timestamp ZonedTimestamp Duration)

/-- A member of a declared enum. -/
structure EnumValue where
  enumName : String
  member : String
  value : String
  deriving DecidableEq, Repr

/-- A setting value. The entries of a map stand in ascending order of their names, the fields of a
record in the order of their declaration. -/
inductive Value where
  | null
  | bool (value : Bool)
  | int (value : Int64)
  | float (value : Float)
  | str (value : String)
  | date (value : Date)
  | time (value : Time)
  | zoned (value : ZonedTimestamp)
  | timestamp (value : Timestamp)
  | duration (value : Duration)
  | enum (value : EnumValue)
  | list (items : List Value)
  | set (items : List Value)
  | map (entries : List (String × Value))
  | record (schema : String) (fields : List (String × Value))

instance : Inhabited Value := ⟨.null⟩

/-- The entries of a map value. -/
abbrev Entries := List (String × Value)

/-- The fields of a loaded schema with their values. -/
structure Record where
  schema : String
  fields : List (String × Value) := []

namespace Record

/-- The record as a value. -/
def toValue (r : Record) : Value :=
  .record r.schema r.fields

/-- The value of a field. -/
def get? (r : Record) (field : String) : Option Value :=
  r.fields.lookup field

/-- Stores a value: in place of the one of the field, else after all others. -/
def insert (r : Record) (field : String) (v : Value) : Record :=
  { r with fields := Entries.put field v r.fields }

/-- Replaces the value of a field that the record has, and gives the one that was there. -/
def set (r : Record) (field : String) (v : Value) : Except Error (Value × Record) :=
  match r.get? field with
  | some old => .ok (old, r.insert field v)
  | none => .error (.config (.undeclaredRecordField r.schema field))

end Record

namespace Value

/-- The kind of a value in one word. -/
def kind : Value → String
  | null => "null"
  | bool _ => "bool"
  | int _ => "int"
  | float _ => "float"
  | str _ => "str"
  | date _ => "date"
  | time _ => "time"
  | zoned _ | timestamp _ => "datetime"
  | duration _ => "duration"
  | enum _ => "enum"
  | list _ => "list"
  | set _ => "set"
  | map _ => "map"
  | record _ _ => "record"

/-- Whether a value is null. -/
def isNull : Value → Bool
  | null => true
  | _ => false

/-- The text that a value is. -/
def asStr? : Value → Option String
  | str s => some s
  | _ => none

/-- The integer that a value is. -/
def asInt? : Value → Option Int64
  | int n => some n
  | _ => none

/-- The float that a value is; an integer is converted. -/
def asFloat? : Value → Option Float
  | float x => some x
  | int n => some (Float.ofInt n.toInt)
  | _ => none

/-- The truth value that a value is. -/
def asBool? : Value → Option Bool
  | bool b => some b
  | _ => none

/-- The record that a value is. -/
def asRecord? : Value → Option Record
  | record schema fields => some ⟨schema, fields⟩
  | _ => none

/-- The number that bounds compare; a truth value counts as 0 or 1. -/
def number? : Value → Option Number
  | int n => some (.int n)
  | float x => some (.float x)
  | bool b => some (.int (if b then 1 else 0))
  | _ => none

/-- The number of characters, items or entries. -/
def length? : Value → Option Nat
  | str s => some s.length
  | list items | set items => some items.length
  | map entries => some entries.length
  | _ => none

mutual

/-- Equality of values. Floats compare as numbers, zoned timestamps by their instants. -/
def same : Value → Value → Bool
  | null, null => true
  | bool a, bool b => a == b
  | int a, int b => a == b
  | float a, float b => a == b
  | str a, str b => a == b
  | date a, date b => a == b
  | time a, time b => a == b
  | zoned a, zoned b => a.sameInstant b
  | timestamp a, timestamp b => a == b
  | duration a, duration b => a == b
  | enum a, enum b => a == b
  | list as, list bs => sameItems as bs
  | set as, set bs => sameItems as bs
  | map as, map bs => sameEntries as bs
  | record s as, record t bs => s == t && sameEntries as bs
  | _, _ => false

/-- Equality of lists of values. -/
def sameItems : List Value → List Value → Bool
  | [], [] => true
  | a :: as, b :: bs => same a b && sameItems as bs
  | _, _ => false

/-- Equality of entries, by their order. -/
def sameEntries : List (String × Value) → List (String × Value) → Bool
  | [], [] => true
  | (k, a) :: as, (l, b) :: bs => k == l && same a b && sameEntries as bs
  | _, _ => false

end

/-- The items without those that equal an earlier one. -/
def distinct (items : List Value) : List Value :=
  items.foldl (fun kept v => if kept.any (same · v) then kept else kept ++ [v]) []

end Value

end EnvSettings
