import EnvSettings.Merge
import EnvSettings.Resolve

namespace EnvSettings

/-- A schema to load, and where its settings come from. -/
structure Loader where
  catalog : Catalog
  root : SchemaId
  config : Config := {}
  /-- The runtime entries; without them the environment of the process is taken. -/
  env : Option EnvMap := none
  overrides : List (String × Value) := []

/-- The outcome of loading: a record or an error, and the warnings on the way. -/
structure Loading where
  result : Except Error Record
  warnings : List Dotenv.Warning := []

namespace Loader

/-- The schema that is loaded. -/
def schema (l : Loader) : Schema :=
  l.catalog.schema l.root

/-- A loader with the configuration of its schema. -/
def ofSchema (catalog : Catalog) (root : SchemaId) : Loader :=
  { catalog, root, config := ((catalog.schema root).config).getD {} }

/-- What nested environment names and overrides set, in ascending order of the field names. -/
def payload (l : Loader) (bound : Option Nat) (env : EnvMap) : Except Error Entries := do
  let projected ← match l.config.delimiter? with
    | none => .ok []
    | some delimiter =>
      let p : Projection := ⟨l.config.lead, delimiter, l.config.caseSensitive, bound⟩
      p.apply l.catalog l.root env.toList []
  let declared := l.overrides.filter fun o => (Schema.field? l.schema.toShape o.1).isSome
  .ok (declared.foldl (fun data o => Entries.putSorted o.1 o.2 data) projected)

/-- The environment value of the first of a field's names that has one. -/
def lookupEnv (l : Loader) (env : EnvMap) (f : Field) : Option String :=
  f.envNames.findSome? fun name => env.get? (envKey l.config.lead name l.config.caseSensitive)

/-- The raw value of a field: what overrides and nested environment names set, else the environment
value of the first of its names, else its default. -/
def rawValue (l : Loader) (payload : Entries) (env : EnvMap) (f : Field) : Except Error Value :=
  match payload.lookup f.name with
  | some v => .ok v
  | none =>
    match l.lookupEnv env f with
    | some text => .ok (.str text)
    | none =>
      match f.info.default with
      | some v => .ok v
      | none =>
        let key := envKey l.config.lead f.primaryName l.config.caseSensitive
        .error { problem := .missingSetting f.name key }

/-- Resolves all fields from a merged environment. -/
def resolve (l : Loader) (bound : Option Nat) (env : EnvMap) : Except Error Record := do
  let payload ← l.payload bound env
  let r : Resolver := ⟨l.catalog, bound⟩
  let coerce (f : Field) (raw : Value) : Except Error Value :=
    r.coerceField nestingLimit (r.buildRecord nestingLimit) l.schema f raw f.name 0
  let fields ← Resolver.coerceFields (l.rawValue payload env) coerce l.schema.fields
  Pipeline.applyToRecord l.catalog l.root ⟨l.schema.name, fields⟩ ""

/-- Loads the settings of a schema. -/
def load (l : Loader) (host : Host) : Loading :=
  match l.config.maxDepth with
  | .error e => ⟨.error e, []⟩
  | .ok bound =>
    let mode : Dotenv.Mode := if l.config.strictEnvFile then .strict else .lenient
    match Merge.build host l.env l.config.envFile l.config.caseSensitive mode with
    | .error e => ⟨.error e, []⟩
    | .ok reading => ⟨l.resolve bound reading.env, reading.warnings⟩

end Loader

namespace Record

/-- Reads a record as a type of one's own through its JSON form. -/
def readAs {α : Type} (r : Record) (read : Json → Option α) (path : String) : Except Error α :=
  match read r.toJson with
  | some x => .ok x
  | none =>
    .error { problem := .parse path r.schema r.toJson.compact, causes := [.json .wrongShape] }

end Record

end EnvSettings
