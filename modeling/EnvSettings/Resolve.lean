import EnvSettings.Coerce
import EnvSettings.Pipeline
import EnvSettings.Projection

namespace EnvSettings

/-- What a resolution works with: the schemas, and the bound on nesting that the configuration
sets. -/
structure Resolver where
  catalog : Catalog
  bound : Option Nat := none

namespace Resolver

/-- Builds a nested record from the entries of a map, at a path and a depth. -/
abbrev Builder := SchemaId → Entries → String → Nat → Except Error Record

/-- The raw value as messages show it: a text stands for itself. -/
def shown : Value → String
  | .str text => text
  | v => v.text

/-- Builds the record of a nested field one level deeper. -/
def nestedRecord (r : Resolver) (build : Builder) (id : SchemaId) (entries : Entries)
    (path : String) (depth : Nat) : Except Error Value := do
  ensureDepth r.bound (depth + 1) path
  let record ← build id entries path (depth + 1)
  .ok record.toValue

/-- Coerces a text to the type of a field. A nested field takes a JSON object, or null if its type
allows it. -/
def coerceText (r : Resolver) (levels : Nat) (build : Builder) (f : Field) (text path : String)
    (depth : Nat) : Except Error Value :=
  match f.type.nestedSchema? with
  | none => Coerce.value r.catalog levels f.info f.type text path
  | some id =>
    match Json.parse text with
    | .error fault => .error (Coerce.fault r.catalog f.type text path [.json fault])
    | .ok j =>
      match Value.ofJson j with
      | .map entries => r.nestedRecord build id entries path depth
      | v =>
        if v.isNull && f.type.nullable then .ok .null
        else
          let reason := s!"expected a JSON object, got {v.kind}"
          .error (Coerce.fault r.catalog f.type text path [.text reason])

/-- Brings a text, after the transforms before coercion, to the type of a field. -/
def coerceTransformed (r : Resolver) (levels : Nat) (build : Builder) (f : Field) (path : String)
    (depth : Nat) (v : Value) : Except Error Value :=
  match v, f.type.nestedSchema? with
  | .str text, _ => r.coerceText levels build f text path depth
  | .map entries, some id => r.nestedRecord build id entries path depth
  | v, _ =>
    if r.catalog.compatible f.type v then .ok v
    else .error (Pipeline.incompatibleRaw r.catalog f path v)

/-- Brings a raw value to the type of a field. Only texts pass the transforms before coercion. -/
def coerceRaw (r : Resolver) (levels : Nat) (build : Builder) (schema : Schema) (f : Field)
    (raw : Value) (path : String) (depth : Nat) : Except Error Value :=
  match raw, f.type.nestedSchema? with
  | .str text, _ => do
    let v ← Pipeline.applyBefore r.catalog schema f path (.str text)
    r.coerceTransformed levels build f path depth v
  | .map entries, some id => r.nestedRecord build id entries path depth
  | v, _ => Convert.setting r.catalog levels f.type v path

/-- Resolves a field from its raw value. -/
def coerceField (r : Resolver) (levels : Nat) (build : Builder) (schema : Schema) (f : Field)
    (raw : Value) (path : String) (depth : Nat) : Except Error Value := do
  let v ← r.coerceRaw levels build schema f raw path depth
  let v ← Pipeline.applyAfter r.catalog schema f path v
  f.info.checkSetting v path (r.catalog.typeName f.type) (shown raw)
  .ok v

/-- Resolves fields in their order, each from what `rawOf` gives for it. -/
def coerceFields (rawOf : Field → Except Error Value)
    (coerce : Field → Value → Except Error Value) : List Field → Except Error Entries
  | [] => .ok []
  | f :: fs => do
    let raw ← rawOf f
    let v ← coerce f raw
    let rest ← coerceFields rawOf coerce fs
    .ok ((f.name, v) :: rest)

/-- The raw value of a field of a nested record: its entry, else its default. -/
def entryOf (schema : Schema) (entries : Entries) (path : String) (f : Field) :
    Except Error Value :=
  match (entries.lookup f.name).or f.info.default with
  | some v => .ok v
  | none =>
    .error { problem := .parse path schema.name (Value.map entries).text
             causes := [.text s!"missing required field '{f.name}'"] }

/-- Builds a nested record, through at most `levels` records inside each other. -/
def buildRecord (r : Resolver) : Nat → Builder
  | 0, _, _, path, depth => .error { problem := .nestedDepth path depth nestingLimit }
  | levels + 1, id, entries, path, depth => do
    let schema := r.catalog.schema id
    let coerce (f : Field) (raw : Value) : Except Error Value :=
      r.coerceField levels (r.buildRecord levels) schema f raw s!"{path}.{f.name}" depth
    let fields ← coerceFields (entryOf schema entries path) coerce schema.fields
    Pipeline.applyToRecord r.catalog id ⟨schema.name, fields⟩ path

end Resolver

end EnvSettings
