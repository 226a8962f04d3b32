import EnvSettings.EnvMap
import EnvSettings.Schema
import EnvSettings.Text.Split

namespace EnvSettings

/-- A nesting depth beyond the bound is refused with the path that reached it. -/
def ensureDepth (bound : Option Nat) (depth : Nat) (path : String) : Except Error Unit :=
  match bound with
  | none => .ok ()
  | some limit =>
    if limit < depth then .error { problem := .nestedDepth path depth limit } else .ok ()

/-- A path of field names as messages show it. -/
def dotted (path : List String) : String :=
  ".".intercalate path

/-- How nested environment names are read: behind a lead text, segments between delimiters are
matched against the fields of nested schemas one after the other. -/
structure Projection where
  lead : String
  delimiter : String
  caseSensitive : Bool
  bound : Option Nat := none

namespace Projection

/-- The lead text as the names of the environment spell it. -/
def spelledLead (p : Projection) : List Char :=
  if p.caseSensitive then p.lead.toList else Text.upperCase p.lead.toList

/-- The segments of a name: at least two nonempty parts after the lead text. -/
def segments? (p : Projection) (name : String) : Option (List String) :=
  match Text.dropLead? p.spelledLead name.toList with
  | none => none
  | some rest =>
    if !Text.occursIn p.delimiter.toList rest then none
    else
      let parts := (Text.splitOn p.delimiter.toList rest).filter (!·.isEmpty)
      if parts.length < 2 then none else some (parts.map String.ofList)

/-- The entries of the map stored under a name; anything else counts as an empty map. -/
def innerMap (name : String) (data : Entries) : Entries :=
  match data.lookup name with
  | some (.map entries) => entries
  | _ => []

/-- Sets a value at the end of the segments, below the fields of `path`. Segments that match no
field, or go on below a field that is not nested, set nothing. -/
def setAt (p : Projection) (c : Catalog) (value : String) :
    List String → SchemaId → List String → Entries → Except Error Entries
  | [], _, _, data => .ok data
  | segment :: rest, id, path, data =>
    match Schema.matchField? (c.schema id).toShape segment p.caseSensitive with
    | none => .ok data
    | some f =>
      if rest.isEmpty then .ok (Entries.putSorted f.name (.str value) data)
      else match f.type.nestedSchema? with
        | none => .ok data
        | some next => do
          let path := path ++ [f.name]
          ensureDepth p.bound path.length (dotted path)
          let inner ← p.setAt c value rest next path (innerMap f.name data)
          .ok (Entries.putSorted f.name (.map inner) data)

/-- Sets the value of one environment name. -/
def applyEntry (p : Projection) (c : Catalog) (root : SchemaId) (data : Entries)
    (e : String × String) : Except Error Entries :=
  match p.segments? e.1 with
  | none => .ok data
  | some segments => p.setAt c e.2 segments root [] data

/-- Sets the values of environment names in their order. -/
def apply (p : Projection) (c : Catalog) (root : SchemaId) (env : List (String × String))
    (data : Entries) : Except Error Entries :=
  env.foldlM (p.applyEntry c root) data

end Projection

end EnvSettings
