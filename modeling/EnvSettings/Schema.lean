import EnvSettings.Text.Case
import EnvSettings.Transform

namespace EnvSettings

/-- A schema: its shape and its transforms. -/
structure Schema extends Shape where
  transforms : TransformRegistry := {}
  recordTransforms : List RecordTransform := []
  deriving Inhabited

namespace Schema

/-- The field of a name. -/
def field? (s : Shape) (name : String) : Option Field :=
  s.fields.find? (·.name == name)

/-- Whether a segment of an environment name spells a name. -/
def spells (caseSensitive : Bool) (segment name : String) : Bool :=
  if caseSensitive then name == segment else Text.lower name == Text.lower segment

/-- The field that a segment of an environment name means: by name first, then by alias. -/
def matchField? (s : Shape) (segment : String) (caseSensitive : Bool) : Option Field :=
  match s.fields.find? (fun f => spells caseSensitive segment f.name) with
  | some f => some f
  | none => s.fields.find? fun f => f.info.envAlias.any (spells caseSensitive segment)

end Schema

/-- The schemas that nested types refer to. -/
structure Catalog where
  schemas : Array Schema := #[]
  deriving Inhabited

namespace Catalog

/-- The schema at a position; beyond the last one stand schemas without name and fields. -/
def schema (c : Catalog) (id : SchemaId) : Schema :=
  c.schemas.getD id { name := "" }

/-- The name of a schema. -/
def schemaName (c : Catalog) (id : SchemaId) : String :=
  (c.schema id).name

/-- The catalog with one more schema, and its position. -/
def add (c : Catalog) (s : Schema) : Catalog × SchemaId :=
  (⟨c.schemas.push s⟩, c.schemas.size)

/-- The text of a type. -/
def typeName (c : Catalog) (t : FieldType) : String :=
  t.print c.schemaName

mutual

/-- Whether a value has the outer form that a type asks for. Items of collections are not looked
at. -/
def compatible (c : Catalog) : FieldType → Value → Bool
  | .any, _ => true
  | .union members, v => compatibleWithAny c members v
  | .null, .null => true
  | .str, .str _ => true
  | .bool, .bool _ => true
  | .int, .int _ => true
  | .float, .float _ => true
  | .date, .date _ => true
  | .time, .time _ => true
  | .datetime, .zoned _ => true
  | .datetime, .timestamp _ => true
  | .duration, .duration _ => true
  | .list _, .list _ => true
  | .tuple _, .list _ => true
  | .set _, .set _ => true
  | .map _, .map _ => true
  | .enum spec, .enum m => m.enumName == spec.name
  | .nested id, .record schema _ => schema == c.schemaName id
  | _, _ => false

/-- Whether a value has the form of some member. -/
def compatibleWithAny (c : Catalog) : List FieldType → Value → Bool
  | [], _ => false
  | t :: ts, v => compatible c t v || compatibleWithAny c ts v

end

end Catalog

end EnvSettings
