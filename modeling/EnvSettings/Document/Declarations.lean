import EnvSettings.Document.Outline
import EnvSettings.Error
import EnvSettings.TypeExpr

namespace EnvSettings.Document

/-- The declarations of a document: enums with members and distinct names, schemas with distinct
names that mean nothing else, and the root, which is one of them. -/
structure Declarations where
  config : Option Config
  root : String
  enums : List EnumSpec
  schemas : List SchemaOutline

/-- Checks enums; `seen` holds the names of those before. -/
def checkEnums (seen : List String) : List EnumSpec → Except ConfigProblem Unit
  | [] => .ok ()
  | e :: es =>
    if e.members.isEmpty then .error (.enumWithoutMembers e.name)
    else if seen.contains e.name then .error (.duplicateEnum e.name)
    else checkEnums (e.name :: seen) es

/-- Checks the names of schemas beside the names of the enums; `seen` holds those before. -/
def checkSchemas (enums seen : List String) : List SchemaOutline → Except ConfigProblem Unit
  | [] => .ok ()
  | s :: ss =>
    if enums.contains s.name || TypeExpr.isBuiltin s.name then .error (.shadowedName s.name)
    else if seen.contains s.name then .error (.duplicateSchema s.name)
    else checkSchemas enums (s.name :: seen) ss

/-- The root of an outline: the one it names, else its first schema. -/
def Outline.rootName (o : Outline) : Except ConfigProblem String :=
  match o.root, o.schemas with
  | some name, _ => .ok name
  | none, s :: _ => .ok s.name
  | none, [] => .error .noSchemas

/-- The declarations of an outline, if its names are in order. -/
def Outline.declare (o : Outline) : Except ConfigProblem Declarations := do
  let root ← o.rootName
  checkEnums [] o.enums
  checkSchemas (o.enums.map (·.name)) [] o.schemas
  if o.schemas.any (·.name == root) then .ok ⟨o.config, root, o.enums, o.schemas⟩
  else .error (.undeclaredRoot root)

namespace Declarations

/-- The names of the schemas in order. -/
def names (d : Declarations) : List String :=
  d.schemas.map (·.name)

/-- The enum of a name. -/
def enum? (d : Declarations) (name : String) : Option EnumSpec :=
  d.enums.find? (·.name == name)

/-- The schema of a name. -/
def schema? (d : Declarations) (name : String) : Option SchemaOutline :=
  d.schemas.find? (·.name == name)

/-- The position of a schema, which is what nested types refer to. -/
def idOf (d : Declarations) (name : String) : SchemaId :=
  d.names.idxOf name

end Declarations

end EnvSettings.Document
