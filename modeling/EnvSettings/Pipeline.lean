import EnvSettings.Value.Json
import EnvSettings.Schema

namespace EnvSettings.Pipeline

/-- A transform left a value that does not have the form of the type. -/
def incompatible (c : Catalog) (type : FieldType) (mode : TransformMode) (name path : String)
    (v : Value) (reason : String) : Error :=
  let failure : TransformFailure := ⟨path, mode, name, c.typeName type, some v.text, reason⟩
  { problem := .transform failure }

/-- The error for a failure, described by its reason. A transform error raised inside a transform
stands as it is. -/
def report (describe : String → TransformFailure) : Failure → Error
  | .text reason => { problem := .transform (describe reason), causes := [.text reason] }
  | .error e =>
    if e.problem.isTransform then e
    else { problem := .transform (describe e.message), causes := e.asCauses }

/-- Runs a field transform. -/
def invoke (c : Catalog) (schema : Shape) (t : FieldTransform) (type : FieldType) (path : String)
    (v : Value) : Except Error Value :=
  (t.run schema v).mapError <| report fun reason =>
    ⟨path, t.stage.mode, t.name, c.typeName type, some v.text, reason⟩

/-- Runs the transforms of a field before coercion. -/
def applyBefore (c : Catalog) (schema : Schema) (f : Field) (path : String) (v : Value) :
    Except Error Value :=
  (schema.transforms.transforms .before f.name).foldlM
    (fun v t => invoke c schema.toShape t f.type path v) v

/-- Runs one transform after coercion; its result must have the form of the type. -/
def applyOneAfter (c : Catalog) (schema : Schema) (f : Field) (path : String) (v : Value)
    (t : FieldTransform) : Except Error Value := do
  let v ← invoke c schema.toShape t f.type path v
  if c.compatible f.type v then .ok v
  else
    .error (incompatible c f.type t.stage.mode t.name path v
      "after transform changed value to incompatible type")

/-- Runs the transforms of a field after coercion. -/
def applyAfter (c : Catalog) (schema : Schema) (f : Field) (path : String) (v : Value) :
    Except Error Value :=
  (schema.transforms.transforms .after f.name).foldlM (applyOneAfter c schema f path) v

/-- The transforms before coercion left a value that is neither text nor of the type. -/
def incompatibleRaw (c : Catalog) (f : Field) (path : String) (v : Value) : Error :=
  incompatible c f.type .before "<before-transform-chain>" path v
    "before transform returned incompatible type"

/-- The path of a field below another; the root has an empty path. -/
def fieldPath (path field : String) : String :=
  if path = "" then field else s!"{path}.{field}"

/-- A check of a nested record against a schema, at a path. -/
abbrev NestedCheck := SchemaId → String → Except Error Unit

/-- Checks the value of a field: its form, its constraints, and the record in it. -/
def recheckField (c : Catalog) (f : Field) (path : String) (v : Value) (nested : NestedCheck) :
    Except Error Unit := do
  if !c.compatible f.type v then
    .error (incompatible c f.type .record "<struct-transform-chain>" path v
      "transform_struct changed value to incompatible type")
  f.info.checkSetting v path (c.typeName f.type) v.text
  match f.type.nestedSchema?, v with
  | some id, .record name _ => if name = c.schemaName id then nested id path else .ok ()
  | _, _ => .ok ()

/-- Checks the fields of a schema against values that come with the checks of the records in them. A
missing value counts as null. -/
def recheckFields (c : Catalog) (values : List (String × Value × NestedCheck)) (path : String) :
    List Field → Except Error Unit
  | [] => .ok ()
  | f :: fs => do
    let (v, nested) := (values.lookup f.name).getD (.null, fun _ _ => .ok ())
    recheckField c f (fieldPath path f.name) v nested
    recheckFields c values path fs

mutual

/-- Checks the record that a value is; other values have nothing to check. -/
def recheck (c : Catalog) : Value → NestedCheck
  | .record _ fields => fun id path =>
    recheckFields c (recheckEntries c fields) path (c.schema id).fields
  | _ => fun _ _ => .ok ()

/-- The values of entries, each with the check of the record in it. -/
def recheckEntries (c : Catalog) : Entries → List (String × Value × NestedCheck)
  | [] => []
  | (name, v) :: es => (name, v, recheck c v) :: recheckEntries c es

end

/-- Runs one record transform. -/
def applyOneToRecord (schema : Shape) (scope : String) (r : Record) (t : RecordTransform) :
    Except Error Record :=
  (t.run schema r).mapError fun (failure, r) =>
    report (fun reason =>
      ⟨scope, .record, t.name, schema.name, some r.toJson.compact, reason⟩) failure

/-- Runs the record transforms of a schema and checks the result; without any there is nothing to
check. -/
def applyToRecord (c : Catalog) (id : SchemaId) (r : Record) (path : String) :
    Except Error Record := do
  let schema := c.schema id
  let scope := if path = "" then schema.name else path
  let r ← schema.recordTransforms.foldlM (applyOneToRecord schema.toShape scope) r
  if schema.recordTransforms.isEmpty then .ok r
  else do
    recheck c r.toValue id path
    .ok r

end EnvSettings.Pipeline
