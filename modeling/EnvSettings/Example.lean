import EnvSettings.Loader

namespace EnvSettings.Example

/-- A name of an example and the description of its field. -/
structure Entry where
  key : String
  description : Option String := none
  deriving DecidableEq, Repr

/-- The entry of a field that is no nested record, below the given parents. -/
def leaf (config : Config) (parents : List String) (f : Field) : Entry :=
  let name := match config.delimiter? with
    | some delimiter => delimiter.intercalate (parents ++ [f.primaryName])
    | none => f.primaryName
  ⟨envKey config.lead name config.caseSensitive, f.info.description⟩

/-- The entries of fields; `deeper` gives those of a nested schema with its parents and lineage. -/
def ofFields (c : Catalog) (config : Config) (bound : Option Nat)
    (deeper : SchemaId → List String → List String → Except Error (List Entry))
    (parents lineage : List String) : List Field → Except Error (List Entry)
  | [] => .ok []
  | f :: fs => do
    let entries ← match f.type.nestedSchema?, config.delimiter? with
      | some id, some _ => do
        let path := parents ++ [f.primaryName]
        ensureDepth bound path.length (dotted path)
        let name := c.schemaName id
        if lineage.contains name then .error (.config (.recursiveExample (lineage ++ [name])))
        else deeper id path (lineage ++ [name])
      | _, _ => .ok [leaf config parents f]
    let rest ← ofFields c config bound deeper parents lineage fs
    .ok (entries ++ rest)

/-- The entries of a schema below the given parents. The lineage holds the names of the schemas from
the root to this one, all of them different, so `room` never runs out when it counts the schemas
that can still join it. -/
def ofSchema (c : Catalog) (config : Config) (bound : Option Nat) :
    Nat → SchemaId → List String → List String → Except Error (List Entry)
  | 0, _, _, lineage => .error (.config (.recursiveExample lineage))
  | room + 1, id, parents, lineage =>
    ofFields c config bound (ofSchema c config bound room) parents lineage (c.schema id).fields

/-- The entries of an example. -/
def entries (c : Catalog) (root : SchemaId) (config : Config) : Except Error (List Entry) := do
  let bound ← config.maxDepth
  ofSchema c config bound (c.schemas.size + 2) root [] [c.schemaName root]

/-- The lines of an entry: its description as comments, and the name. -/
def Entry.block (e : Entry) : List Char :=
  let comments := match e.description with
    | some text => (Text.lines text.toList).flatMap fun line => '#' :: ' ' :: line ++ ['\n']
    | none => []
  comments ++ e.key.toList ++ ['=']

/-- The text of an example with a configuration; blank lines stand between the entries. -/
def renderWith (c : Catalog) (root : SchemaId) (config : Config) : Except Error String := do
  let blocks := (← entries c root config).map Entry.block
  if blocks.isEmpty then .ok ""
  else .ok (String.ofList (['\n', '\n'].intercalate blocks ++ ['\n']))

/-- The text of an example with the configuration of the schema. -/
def render (c : Catalog) (root : SchemaId) : Except Error String :=
  renderWith c root ((c.schema root).config.getD {})

/-- An error of the file system. -/
def ioError {α : Type} (result : Except IoFault α) : Except Error α :=
  result.mapError fun fault => { problem := .io fault }

/-- Writes an example to a file and creates the directories it lacks. -/
def write (c : Catalog) (root : SchemaId) (files : FileTree) (path : String) :
    Except Error FileTree := do
  let content ← render c root
  let files ← match FileTree.parent? path with
    | some parent => ioError (files.createDirectories parent)
    | none => .ok files
  ioError (files.write path content.toUTF8)

end EnvSettings.Example
