import EnvSettings.Document.Declarations
import EnvSettings.Schema.Builder

namespace EnvSettings.Document

/-- The schemas built so far, by name. -/
abbrev Built := List (String × Schema)

/-- A step of building. -/
abbrev Build := StateT Built (Except Error)

/-- A step that fails. -/
def Build.fail {α : Type} (problem : ConfigProblem) : Build α :=
  throw (Error.config problem)

/-- The error of a field: a problem of configuration tells where it was met. -/
def atField (schema field : String) (e : Error) : Error :=
  match e.problem with
  | .config problem => .config (.inField schema field problem)
  | _ => e

/-- A step within the type of a field. -/
def Build.atField {α : Type} (schema field : String) (step : Build α) : Build α :=
  fun built => (step built).mapError (Document.atField schema field)

mutual

/-- The type that an expression means; `refer` gives the position of a schema. -/
def typeOf (enum? : String → Option EnumSpec) (refer : String → Build SchemaId) :
    TypeExpr → Build FieldType
  | .builtin type => pure type
  | .list item => .list <$> typeOf enum? refer item
  | .set item => .set <$> typeOf enum? refer item
  | .optional item => .optional <$> typeOf enum? refer item
  | .map value => .map <$> typeOf enum? refer value
  | .tuple members => .tuple <$> typesOf enum? refer members
  | .union members => .union <$> typesOf enum? refer members
  | .named name =>
    match enum? name with
    | some spec => pure (.enum spec)
    | none =>
      if name = "" then Build.fail (.typeExpression .empty) else .nested <$> refer name
  | .faulty problem => Build.fail (.typeExpression problem)

/-- The types that expressions mean. -/
def typesOf (enum? : String → Option EnumSpec) (refer : String → Build SchemaId) :
    List TypeExpr → Build (List FieldType)
  | [] => pure []
  | e :: es => do
    let t ← typeOf enum? refer e
    let ts ← typesOf enum? refer es
    return t :: ts

end

namespace Declarations

/-- Builds the field of a schema; `visit` builds a schema by name. -/
def field (d : Declarations) (visit : String → Build Schema) (schema : String) (f : FieldOutline) :
    Build FieldDecl := do
  let refer (name : String) : Build SchemaId := (fun _ => d.idOf name) <$> visit name
  let type ← Build.atField schema f.name (typeOf d.enum? refer (TypeExpr.parse f.type))
  return { name := f.name, type := type, info := some f.info }

/-- Builds a schema from its outline; `visit` builds the ones it needs. The configuration of the
document belongs to the root. -/
def assemble (d : Declarations) (visit : String → Build Schema) (s : SchemaOutline) :
    Build Schema := do
  let mut b : SchemaBuilder := { name := s.name }
  if let some parent := s.parent then b := b.inherit (← visit parent)
  if s.name = d.root then b := d.config.elim b b.withConfig
  let fields ← s.fields.mapM (d.field visit s.name)
  (fields.foldl SchemaBuilder.withField b).build

/-- Builds a schema by name. The schemas in `pending` are being built and need this one. All of them
are declared and different, so `room` never runs out when it counts the schemas that can still join
them. -/
def visit (d : Declarations) : Nat → List String → String → Build Schema
  | 0, pending, name => Build.fail (.recursiveSchema (pending ++ [name]))
  | room + 1, pending, name => do
    match (← get).lookup name with
    | some schema => return schema
    | none =>
      if pending.contains name then Build.fail (.recursiveSchema (pending ++ [name]))
      match d.schema? name with
      | none => Build.fail (.unknownType name)
      | some outline =>
        let schema ← d.assemble (d.visit room (pending ++ [name])) outline
        modify ((name, schema) :: ·)
        return schema

/-- Builds the schemas of the given names in their order. -/
def buildAll (d : Declarations) (order : List String) : Except Error Built := do
  let visits := order.forM fun name => discard (d.visit (d.schemas.length + 1) [] name)
  return (← visits.run []).2

end Declarations

end EnvSettings.Document
