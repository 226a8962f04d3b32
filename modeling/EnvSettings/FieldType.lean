namespace EnvSettings

/-- A position in a catalog of schemas. -/
abbrev SchemaId := Nat

/-- A declared enum: its members' names and values. -/
structure EnumSpec where
  name : String
  members : List (String × String)
  deriving DecidableEq, Repr

/-- The member with a name, else the one with a value. -/
def EnumSpec.lookup? (spec : EnumSpec) (raw : String) : Option (String × String) :=
  match spec.members.find? (·.1 == raw) with
  | some m => some m
  | none => spec.members.find? (·.2 == raw)

/-- Types of settings. A nested type refers to a schema by its position in a catalog, so schemas may
refer to each other and to themselves. -/
inductive FieldType where
  | any
  | str
  | bool
  | int
  | float
  | date
  | time
  | datetime
  | duration
  | null
  | enum (spec : EnumSpec)
  | list (item : FieldType)
  | set (item : FieldType)
  | map (value : FieldType)
  | tuple (members : List FieldType)
  | nested (id : SchemaId)
  | union (members : List FieldType)
  deriving Repr

instance : Inhabited FieldType := ⟨.any⟩

namespace FieldType

/-- The type of values of a type or null. -/
def optional (type : FieldType) : FieldType :=
  .union [type, .null]

/-- Whether a type is that of null. -/
def isNull : FieldType → Bool
  | null => true
  | _ => false

mutual

/-- Whether null is a value of the type. -/
def nullable : FieldType → Bool
  | null | any => true
  | union members => anyNullable members
  | _ => false

/-- Whether some member takes null. -/
def anyNullable : List FieldType → Bool
  | [] => false
  | t :: ts => nullable t || anyNullable ts

end

/-- The schema of a member, if it is a nested type. -/
def nestedId? : FieldType → Option SchemaId
  | nested id => some id
  | _ => none

/-- The schema that the fields of a nested value belong to: that of the type itself, or of the first
nested member of a union. -/
def nestedSchema? : FieldType → Option SchemaId
  | nested id => some id
  | union members => members.findSome? nestedId?
  | _ => none

mutual

/-- The text of a type; `nameOf` gives the names of schemas. -/
def print (nameOf : SchemaId → String) : FieldType → String
  | any => "any"
  | str => "str"
  | bool => "bool"
  | int => "int"
  | float => "float"
  | date => "date"
  | time => "time"
  | datetime => "datetime"
  | duration => "duration"
  | null => "None"
  | enum spec => spec.name
  | list item => "list[" ++ print nameOf item ++ "]"
  | set item => "set[" ++ print nameOf item ++ "]"
  | map value => "dict[str, " ++ print nameOf value ++ "]"
  | tuple members => "tuple[" ++ ", ".intercalate (printAll nameOf members) ++ "]"
  | nested id => nameOf id
  | union members => " | ".intercalate (printAll nameOf members)

/-- The types as they are shown. -/
def printAll (nameOf : SchemaId → String) : List FieldType → List String
  | [] => []
  | t :: ts => print nameOf t :: printAll nameOf ts

end

end FieldType

end EnvSettings
