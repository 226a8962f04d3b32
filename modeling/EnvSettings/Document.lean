import EnvSettings.Document.Builder

namespace EnvSettings

/-- The schemas of a document, and the one to load. -/
structure Document where
  catalog : Catalog
  root : SchemaId

namespace Document

/-- The catalog of declared schemas that are all built. -/
def ofBuilt (d : Declarations) (built : Built) : Document :=
  let schemas := d.names.map fun name => (built.lookup name).getD { name }
  ⟨⟨schemas.toArray⟩, d.idOf d.root⟩

/-- Builds what an outline declares. -/
def ofOutline (o : Outline) : Except Error Document := do
  let d ← o.declare.mapError Error.config
  return ofBuilt d (← d.buildAll d.names)

/-- Reads a document; `outline?` tells what a text says, if it says anything. -/
def parse (outline? : String → Option Outline) (text : String) : Except Error Document :=
  match outline? text with
  | some outline => ofOutline outline
  | none => .error { problem := .schemaDocument }

/-- Reads a document from a file. -/
def read (outline? : String → Option Outline) (files : FileTree) (path : String) :
    Except Error Document := do
  parse outline? (← (files.readText path).mapError fun fault => { problem := .io fault })

/-- The position of a schema by its name. -/
def schema? (d : Document) (name : String) : Option SchemaId :=
  d.catalog.schemas.findIdx? (·.name == name)

end Document

end EnvSettings
