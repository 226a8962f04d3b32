import EnvSettings.Document.Outline
import EnvSettings.Value.Json
import EnvSettings.Yaml.Reader
import EnvSettings.Yaml.Scalar

namespace EnvSettings.Document.Outline

open EnvSettings.Yaml (Node Scalar)

/-- The text of a scalar as it is written. -/
def text? : Node → Option String
  | .scalar text _ => some text
  | _ => none

/-- What a scalar means. -/
def scalar? : Node → Option Scalar
  | .scalar text plain => Node.meaning? text plain
  | _ => none

/-- Whether a node is a plain null, or nothing. -/
def isNull : Node → Bool
  | .scalar text plain => plain && Scalar.isNullWord text
  | _ => false

/-- The items of a sequence; where nothing is written there are none. -/
def items? : Node → Option (List Node)
  | .sequence items => some items
  | node => if node.isAbsent then some [] else none

/-- The entries of a mapping by the texts of their keys; where nothing is written there are none. -/
def entries? : Node → Option (List (String × Node))
  | .mapping pairs => pairs.mapM fun p => (text? p.1).map (·, p.2)
  | node => if node.isAbsent then some [] else none

/-- The entries, unless two of them have one of the given names. -/
def distinct? (names : List String) (es : List (String × Node)) : Option (List (String × Node)) :=
  if ((es.map (·.1)).filter names.contains).Nodup then some es else none

/-- The entries, if each has another one of the given names. -/
def only? (names : List String) (es : List (String × Node)) : Option (List (String × Node)) :=
  if es.all (names.contains ·.1) then distinct? names es else none

/-- What `read` makes of an entry; without the entry it is `absent`. -/
def entryOr {α : Type} (es : List (String × Node)) (name : String) (absent : α)
    (read : Node → Option α) : Option α :=
  match es.lookup name with
  | some node => read node
  | none => some absent

/-- What `read` makes of an entry that has to be there. -/
def entry? {α : Type} (es : List (String × Node)) (name : String) (read : Node → Option α) :
    Option α :=
  es.lookup name >>= read

/-- What `read` makes of a node other than null. -/
def orNull {α : Type} (read : Node → Option α) (node : Node) : Option (Option α) :=
  if isNull node then some none else (read node).map some

/-- A text that is not the spelling of anything else. -/
def properText? (node : Node) : Option String :=
  match scalar? node with
  | some (.text s) => some s
  | _ => none

/-- A plain truth value. -/
def bool? : Node → Option Bool
  | .scalar text true => Scalar.bool? text
  | _ => none

/-- A plain integer that fits 64 bits with a sign. -/
def int64? : Node → Option Int
  | .scalar text true => (Scalar.integer? text.toList).filter Word.fitsSigned
  | _ => none

/-- A bound on a value: an integer if it fits 64 bits with a sign, else a float. -/
def number? (node : Node) : Option Number :=
  match scalar? node with
  | some (.int n) =>
    some (if Word.fitsSigned n then .int (Int64.ofInt n) else .float (Float.ofInt n))
  | some (.float x) => some (.float x)
  | _ => none

/-- A bound on a length. -/
def size? (node : Node) : Option Nat :=
  match scalar? node with
  | some (.int n) => if 0 ≤ n then some n.toNat else none
  | _ => none

/-- A default; null is a default too. -/
def default? (node : Node) : Option (Option Value) :=
  node.toJson?.map fun j => some (.ofJson j)

/-- The configuration of the document. -/
def config? (node : Node) : Option Config := do
  let es ← entries? node >>= only? ["env_prefix", "case_sensitive", "env_nested_delimiter",
    "env_file", "strict_env_file", "max_nested_struct_depth"]
  return {
    lead := ← entryOr es "env_prefix" "" text?
    caseSensitive := ← entryOr es "case_sensitive" false bool?
    nestedDelimiter := ← entryOr es "env_nested_delimiter" none (orNull text?)
    envFile := ← entryOr es "env_file" none (orNull text?)
    strictEnvFile := ← entryOr es "strict_env_file" true bool?
    nestingBound := ← entryOr es "max_nested_struct_depth" none (orNull int64?) }

/-- What a key of an enum member stands for: a text for itself, and a number for the part that it
counts from zero. Keys of other kinds are refused. -/
def memberKey? (key : Node) : Option String :=
  match scalar? key with
  | some (.text s) => some s
  | some (.int n) =>
    if n = 0 then some "name" else if n = 1 then some "value"
    else if 0 ≤ n then some (toString n) else none
  | _ => none

/-- A member of an enum: its value, which names it too, or a mapping of its name and its value. -/
def member? (node : Node) : Option (String × String) :=
  match node with
  | .scalar _ _ => (properText? node).map fun s => (s, s)
  | .sequence _ => none
  | .mapping pairs => do
    if !node.isMeaningful then none
    let es ← pairs.mapM fun p => (memberKey? p.1).map (·, p.2)
    let es ← distinct? ["name", "value"] es
    return (← entry? es "name" properText?, ← entry? es "value" properText?)

/-- An enum with its members, each of which may have a text of its own. -/
def enum? (node : Node) : Option EnumSpec := do
  let es ← entries? node >>= only? ["name", "members"]
  let name ← entry? es "name" text?
  let members ← entry? es "members" fun n => items? n >>= (·.mapM member?)
  return ⟨name, members⟩

/-- The metadata of a field. -/
def info? (es : List (String × Node)) : Option FieldInfo := do
  let es ← distinct? ["default", "alias", "description", "gt", "ge", "lt", "le", "min_length",
    "max_length"] es
  if !es.all (·.2.isMeaningful) then none
  return {
    default := ← entryOr es "default" none default?
    envAlias := ← entryOr es "alias" none (orNull properText?)
    description := ← entryOr es "description" none (orNull properText?)
    gt := ← entryOr es "gt" none (orNull number?)
    ge := ← entryOr es "ge" none (orNull number?)
    lt := ← entryOr es "lt" none (orNull number?)
    le := ← entryOr es "le" none (orNull number?)
    minLength := ← entryOr es "min_length" none (orNull size?)
    maxLength := ← entryOr es "max_length" none (orNull size?) }

/-- A field with its type and its metadata; unknown keys are ignored. -/
def field? (node : Node) : Option FieldOutline := do
  let es ← entries? node >>= distinct? ["name", "type"]
  let info ← info? (es.filter fun e => e.1 != "name" && e.1 != "type")
  return ⟨← entry? es "name" text?, ← entry? es "type" text?, info⟩

/-- A schema with its fields; unknown keys are refused. -/
def schema? (node : Node) : Option SchemaOutline := do
  let es ← entries? node >>= only? ["name", "extends", "fields"]
  return {
    name := ← entry? es "name" text?
    parent := ← entryOr es "extends" none (orNull text?)
    fields := ← entryOr es "fields" [] fun n => items? n >>= (·.mapM field?) }

/-- The outline of a document; unknown keys are refused. -/
def ofNode? (node : Node) : Option Outline := do
  let es ← entries? node >>= only? ["config", "root", "enums", "schemas"]
  return {
    config := ← entryOr es "config" none (orNull config?)
    root := ← entryOr es "root" none (orNull text?)
    enums := ← entryOr es "enums" [] fun n => items? n >>= (·.mapM enum?)
    schemas := ← entry? es "schemas" fun n => items? n >>= (·.mapM schema?) }

/-- Reads the outline of a document from YAML, as far as `Yaml.parse?` takes it. Unknown keys are
refused in the document, its configuration, its enums and its schemas, and ignored in fields and
enum members. A text is taken from any scalar as it is written, except in the metadata of fields and
in enum members: there a plain scalar has to mean text. -/
def parse? (text : String) : Option Outline :=
  Yaml.parse? text >>= ofNode?

end EnvSettings.Document.Outline
