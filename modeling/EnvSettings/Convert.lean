import EnvSettings.Schema
import EnvSettings.Temporal.Reader
import EnvSettings.Value.Json

namespace EnvSettings

/-- Why a text is no member of an enum. -/
structure EnumFault where
  enum : String
  raw : String
  deriving DecidableEq, Repr

/-- The fault as it is shown. -/
def EnumFault.message (f : EnumFault) : String :=
  s!"{Text.quoted f.raw} is not a valid {f.enum}"

/-- The member of an enum that a text names. -/
def EnumSpec.read (spec : EnumSpec) (raw : String) : Except EnumFault Value :=
  match spec.lookup? raw with
  | some (member, value) => .ok (.enum ⟨spec.name, member, value⟩)
  | none => .error ⟨spec.name, raw⟩

/-- The value of a timestamp text. -/
def readTimestampValue (s : List Char) : Except Temporal.TimestampFault Value :=
  (Temporal.readTimestamp s).map fun
    | .zoned z => .zoned z
    | .plain t => .timestamp t

/-- Why a value does not convert, and where. -/
inductive Misfit where
  | mismatch (expected kind location : String)
  | length (expected found : Nat) (location : String)
  | missingField (field location : String)
  | refused (reason location : String)
  | number (fault : Temporal.DurationFault)
  | tooDeep (location : String)
  deriving DecidableEq, Repr

/-- The misfit as it is shown. -/
def Misfit.message : Misfit → String
  | mismatch expected kind location => s!"expected `{expected}`, got `{kind}` - at `{location}`"
  | length expected found location =>
    s!"expected array of length {expected}, got {found} - at `{location}`"
  | missingField field location => s!"object missing required field `{field}` - at `{location}`"
  | refused reason location => s!"{reason} - at `{location}`"
  | number fault => fault.message
  | tooDeep location => s!"records nest too deeply - at `{location}`"

/-- How many records may be nested in each other. Records are converted through so many levels, so
that a catalog whose defaults nest without end is refused. -/
def nestingLimit : Nat := 1000000

namespace Convert

/-- Converts the entries of a map to a record of a schema. -/
abbrev RecordBuilder := SchemaId → Entries → String → Except Misfit Record

/-- The value does not have the form of the type. -/
def mismatch {α : Type} (c : Catalog) (t : FieldType) (v : Value) (location : String) :
    Except Misfit α :=
  .error (.mismatch (c.typeName t) v.kind location)

/-- Reads a text value; a fault is reported with its place. -/
def readText {ε : Type} (message : ε → String) (read : List Char → Except ε Value)
    (c : Catalog) (t : FieldType) (v : Value) (location : String) : Except Misfit Value :=
  match v with
  | .str raw => (read raw.toList).mapError fun fault => .refused (message fault) location
  | _ => mismatch c t v location

/-- The place of an item. -/
def itemPlace (location : String) (index : Nat) : String :=
  s!"{location}[{index}]"

/-- The place of a map entry. -/
def entryPlace (location name : String) : String :=
  s!"{location}[{Text.quoted name}]"

/-- Converts items with their places, from an index on. -/
def eachItem (convert : Value → String → Except Misfit Value) (location : String) :
    Nat → List Value → Except Misfit (List Value)
  | _, [] => .ok []
  | index, v :: vs => do
    let v ← convert v (itemPlace location index)
    let vs ← eachItem convert location (index + 1) vs
    .ok (v :: vs)

/-- Converts map entries with their places. -/
def eachEntry (convert : Value → String → Except Misfit Value) (location : String) :
    Entries → Except Misfit Entries
  | [] => .ok []
  | (name, v) :: es => do
    let v ← convert v (entryPlace location name)
    let es ← eachEntry convert location es
    .ok ((name, v) :: es)

mutual

/-- Converts a value to a type; `build` converts nested records. -/
def toType (c : Catalog) (build : RecordBuilder) :
    FieldType → Value → String → Except Misfit Value
  | .any, v, _ => .ok v
  | .null, v, place =>
    match v with
    | .null => .ok .null
    | _ => mismatch c .null v place
  | .str, v, place =>
    match v with
    | .str _ => .ok v
    | _ => mismatch c .str v place
  | .bool, v, place =>
    match v with
    | .bool _ => .ok v
    | _ => mismatch c .bool v place
  | .int, v, place =>
    match v with
    | .int _ => .ok v
    | _ => mismatch c .int v place
  | .float, v, place =>
    match v with
    | .float x => if x.isFinite then .ok v else mismatch c .float v place
    | .int n => .ok (.float (Float.ofInt n.toInt))
    | _ => mismatch c .float v place
  | .date, v, place =>
    match v with
    | .date _ => .ok v
    | _ => readText (·.message) (fun s => (Temporal.readDate s).map .date) c .date v place
  | .time, v, place =>
    match v with
    | .time _ => .ok v
    | _ => readText (·.message) (fun s => (Temporal.readTime s).map .time) c .time v place
  | .datetime, v, place =>
    match v with
    | .zoned _ | .timestamp _ => .ok v
    | _ => readText (·.message) readTimestampValue c .datetime v place
  | .duration, v, place =>
    match v with
    | .duration _ => .ok v
    | .int _ | .float _ =>
      ((Temporal.readDuration v.text.toList).map .duration).mapError .number
    | _ =>
      readText (·.message) (fun s => (Temporal.readDuration s).map .duration) c .duration v place
  | .enum spec, v, place =>
    match v with
    | .enum m => if m.enumName = spec.name then .ok v else mismatch c (.enum spec) v place
    | _ => readText EnumFault.message (fun s => spec.read (String.ofList s)) c (.enum spec) v place
  | .list item, v, place =>
    match v with
    | .list vs | .set vs => (eachItem (toType c build item) place 0 vs).map .list
    | _ => mismatch c (.list item) v place
  | .set item, v, place =>
    match v with
    | .list vs | .set vs =>
      (eachItem (toType c build item) place 0 vs).map fun vs => .set (Value.distinct vs)
    | _ => mismatch c (.set item) v place
  | .map value, v, place =>
    match v with
    | .map es => (eachEntry (toType c build value) place es).map .map
    | _ => mismatch c (.map value) v place
  | .tuple members, v, place =>
    match v with
    | .list vs =>
      if vs.length = members.length then (toEach c build members vs place 0).map .list
      else .error (.length members.length vs.length place)
    | _ => mismatch c (.tuple members) v place
  | .nested id, v, place =>
    match v with
    | .record schema _ =>
      if schema = c.schemaName id then .ok v else mismatch c (.nested id) v place
    | .map es => (build id es place).map Record.toValue
    | _ => mismatch c (.nested id) v place
  | .union members, v, place =>
    match v with
    | .null =>
      if FieldType.anyNullable members then .ok .null else mismatch c (.union members) v place
    | _ =>
      match toFirst c build members v place with
      | some result => result
      | none => mismatch c (.union members) v place

/-- Converts the items of a tuple, each to its own type. -/
def toEach (c : Catalog) (build : RecordBuilder) :
    List FieldType → List Value → String → Nat → Except Misfit (List Value)
  | t :: ts, v :: vs, place, index => do
    let v ← toType c build t v (itemPlace place index)
    let vs ← toEach c build ts vs place (index + 1)
    .ok (v :: vs)
  | _, _, _, _ => .ok []

/-- Converts to the first member type other than null that takes the value, else to the last of
them; without any such member there is no result. -/
def toFirst (c : Catalog) (build : RecordBuilder) :
    List FieldType → Value → String → Option (Except Misfit Value)
  | [], _, _ => none
  | t :: ts, v, place =>
    if t.isNull then toFirst c build ts v place
    else match toType c build t v place with
      | .ok v => some (.ok v)
      | .error e =>
        match toFirst c build ts v place with
        | some result => some result
        | none => some (.error e)

end

/-- Converts the value of a field and checks its constraints. -/
def field (c : Catalog) (build : RecordBuilder) (f : Field) (v : Value) (location : String) :
    Except Misfit Value := do
  let v ← toType c build f.type v location
  (f.info.check v).mapError fun violation => .refused violation.message location
  .ok v

/-- Converts the fields of a record in their order; a missing one takes its default. -/
def fields (c : Catalog) (build : RecordBuilder) (es : Entries) (location : String) :
    List Field → Except Misfit Entries
  | [] => .ok []
  | f :: fs => do
    let place := s!"{location}.{f.name}"
    let v ← match (es.lookup f.name).or f.info.default with
      | some v => field c build f v place
      | none => .error (.missingField f.name location)
    let rest ← fields c build es location fs
    .ok ((f.name, v) :: rest)

/-- Converts the entries of a map to a record, through at most `levels` records inside each
other. -/
def record (c : Catalog) : Nat → RecordBuilder
  | 0, _, _, location => .error (.tooDeep location)
  | levels + 1, id, es, location => do
    let schema := c.schema id
    let fs ← fields c (record c levels) es location schema.fields
    .ok ⟨schema.name, fs⟩

/-- Converts a value to a type; `$` is the place of the value itself. -/
def value (c : Catalog) (levels : Nat) (t : FieldType) (v : Value) : Except Misfit Value :=
  toType c (record c levels) t v "$"

/-- Converts the value of a setting; a misfit is reported with the value. -/
def setting (c : Catalog) (levels : Nat) (t : FieldType) (v : Value) (path : String) :
    Except Error Value :=
  (value c levels t v).mapError fun misfit =>
    { problem := .parse path (c.typeName t) v.text, causes := [.text misfit.message] }

end Convert

end EnvSettings
