import EnvSettings.Json.Printer
import EnvSettings.Temporal.Printer
import EnvSettings.Value

namespace EnvSettings

namespace Value

/-- The seconds and nanoseconds of a duration. -/
def durationJson (d : Temporal.Duration) : Json :=
  .object [("nanos", .number (.int (Int64.ofInt d.subsecond))),
    ("secs", .number (.int (Int64.ofInt d.seconds)))]

mutual

/-- The JSON form of a value. -/
def toJson : Value → Json
  | null => .null
  | bool b => .bool b
  | int n => .number (.int n)
  | float x => if x.isFinite then .number (.float x) else .null
  | str s => .string s
  | date d => .string (String.ofList d.print)
  | time t => .string (String.ofList t.print)
  | zoned z => .string (String.ofList z.print)
  | timestamp s => .string (String.ofList s.print)
  | duration d => durationJson d
  | enum m => .string m.value
  | list items => .array (itemsToJson items)
  | set items => .array (itemsToJson items)
  | map entries => .object (entriesToJson entries)
  | record _ fields => .object (Entries.sorted (entriesToJson fields))

/-- The items of a list as JSON. -/
def itemsToJson : List Value → List Json
  | [] => []
  | v :: vs => toJson v :: itemsToJson vs

/-- The entries of a map as JSON. -/
def entriesToJson : List (String × Value) → List (String × Json)
  | [] => []
  | (name, v) :: es => (name, toJson v) :: entriesToJson es

end

mutual

/-- The value of plain data. Integers beyond 64 bits with a sign become floats. -/
def ofJson : Json → Value
  | .null => null
  | .bool b => bool b
  | .number (.int n) => int n
  | .number n => float n.toFloat
  | .string s => str s
  | .array items => list (itemsOfJson items)
  | .object entries => map (entriesOfJson entries)

/-- The items of an array as values. -/
def itemsOfJson : List Json → List Value
  | [] => []
  | j :: js => ofJson j :: itemsOfJson js

/-- The entries of an object as values. -/
def entriesOfJson : List (String × Json) → List (String × Value)
  | [] => []
  | (name, j) :: es => (name, ofJson j) :: entriesOfJson es

end

/-- The value as messages show it. -/
def text (v : Value) : String :=
  v.toJson.compact

end Value

namespace Record

/-- A record as JSON, an object with its fields. -/
def toJson (r : Record) : Json :=
  r.toValue.toJson

end Record

end EnvSettings
