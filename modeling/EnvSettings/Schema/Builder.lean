import EnvSettings.Schema

namespace EnvSettings

/-- A field as it is declared: two layers of metadata, the second of which goes first. -/
structure FieldDecl where
  name : String
  type : FieldType
  annotation : Option FieldInfo := none
  info : Option FieldInfo := none

namespace FieldDecl

/-- The field with its metadata merged and checked. -/
def resolve (d : FieldDecl) : Except Error Field := do
  let info := (FieldInfo.merge d.annotation d.info).getD {}
  (info.validate).mapError fun problem => .config (.fieldInfo d.name problem)
  .ok ⟨d.name, d.type, info⟩

end FieldDecl

/-- A schema under construction. -/
structure SchemaBuilder where
  name : String
  inherited : Schema := { name := "" }
  declared : List FieldDecl := []
  config : Option Config := none
  transforms : List FieldTransform := []
  recordTransforms : List RecordTransform := []

namespace SchemaBuilder

/-- Takes over the fields and transforms of a parent, and its configuration unless there is one. -/
def inherit (b : SchemaBuilder) (parent : Schema) : SchemaBuilder :=
  { b with inherited := parent, config := b.config.or parent.config }

/-- Sets the configuration. -/
def withConfig (b : SchemaBuilder) (config : Config) : SchemaBuilder :=
  { b with config := some config }

/-- Declares a field. -/
def withField (b : SchemaBuilder) (d : FieldDecl) : SchemaBuilder :=
  { b with declared := b.declared ++ [d] }

/-- Declares a transform of a field. -/
def withTransform (b : SchemaBuilder) (t : FieldTransform) : SchemaBuilder :=
  { b with transforms := b.transforms ++ [t] }

/-- Declares a record transform. -/
def withRecordTransform (b : SchemaBuilder) (t : RecordTransform) : SchemaBuilder :=
  { b with recordTransforms := b.recordTransforms ++ [t] }

/-- Stores a field: in place of the one with its name, else at the end. -/
def putField (field : Field) : List Field → List Field
  | [] => [field]
  | f :: fs => if f.name = field.name then field :: fs else f :: putField field fs

/-- Adds declared fields to the fields so far; `seen` holds the names declared before. -/
def addFields (schema : String) (seen : List String) (fields : List Field) :
    List FieldDecl → Except Error (List Field)
  | [] => .ok fields
  | d :: ds =>
    if d.name = "" then .error (.config (.emptyFieldName schema))
    else if seen.contains d.name then .error (.config (.duplicateField schema d.name))
    else do
      let field ← d.resolve
      addFields schema (seen ++ [d.name]) (putField field fields) ds

/-- Why a transform cannot be bound to a field of a schema. -/
def bindingProblem? (fields : List Field) (t : FieldTransform) : Option String :=
  if t.name = "" then some "transform name must be a non-empty string"
  else if t.field = "" then some "transform field_name must be a non-empty string"
  else if t.field.toList.contains '.' then
    some "transform field_name must be top-level (no dotted paths)"
  else if !fields.any (·.name == t.field) then some "transform field is not declared in schema"
  else none

/-- Checks that a transform is named and bound to a field. -/
def checkBinding (fields : List Field) (t : FieldTransform) : Except Error Unit :=
  match bindingProblem? fields t with
  | none => .ok ()
  | some reason =>
    .error { problem := .transform ⟨t.field, t.stage.mode, t.name, "any", none, reason⟩ }

/-- Checks that a record transform is named. -/
def checkNamed (schema : String) (t : RecordTransform) : Except Error Unit :=
  if t.name = "" then
    let reason := "struct transform name must be a non-empty string"
    .error { problem := .transform ⟨schema, .record, t.name, schema, none, reason⟩ }
  else .ok ()

/-- The finished schema. A declared field takes the place of an inherited one with its name;
metadata, names and transform bindings are checked. -/
def build (b : SchemaBuilder) : Except Error Schema := do
  let fields ← addFields b.name [] b.inherited.fields b.declared
  b.transforms.forM (checkBinding fields)
  b.recordTransforms.forM (checkNamed b.name)
  .ok {
    name := b.name
    fields := fields
    config := b.config
    transforms := TransformRegistry.compose b.inherited.transforms b.transforms
    recordTransforms := composeRecordTransforms b.inherited.recordTransforms b.recordTransforms }

end SchemaBuilder

end EnvSettings
