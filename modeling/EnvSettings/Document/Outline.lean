import EnvSettings.Config
import EnvSettings.FieldInfo
import EnvSettings.FieldType

namespace EnvSettings.Document

/-- A field as a document declares it, with its type not read yet. -/
structure FieldOutline where
  name : String
  /-- The type expression. -/
  type : String
  info : FieldInfo

/-- A schema as a document declares it. -/
structure SchemaOutline where
  name : String
  /-- The schema whose fields come first. -/
  parent : Option String
  fields : List FieldOutline

/-- What a schema document says, before any of its names is looked up. -/
structure Outline where
  config : Option Config
  root : Option String
  enums : List EnumSpec
  schemas : List SchemaOutline

end EnvSettings.Document
