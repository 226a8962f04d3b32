namespace EnvSettings

/-- Why the metadata of a field is refused. -/
inductive InfoProblem where
  | emptyAlias
  | bothLower
  | bothUpper
  | lengthOrder
  | gtNotBelowLt
  | gtNotBelowLe
  | geNotBelowLt
  | geAboveLe
  deriving DecidableEq, Repr

/-- The problem as it is shown. -/
def InfoProblem.message : InfoProblem → String
  | emptyAlias => "alias cannot be an empty string"
  | bothLower => "use either gt or ge, not both"
  | bothUpper => "use either lt or le, not both"
  | lengthOrder => "min_length cannot be greater than max_length"
  | gtNotBelowLt => "gt must be lower than lt"
  | gtNotBelowLe => "gt must be lower than le"
  | geNotBelowLt => "ge must be lower than lt"
  | geAboveLe => "ge must be lower than or equal to le"

/-- Why a type expression is refused, apart from the schemas that it names. -/
inductive TypeProblem where
  | unbalanced (expr : String)
  | arity (head : String) (expected found : Nat) (expr : String)
  | mapArguments (head expr : String)
  | emptyTuple (expr : String)
  | noArguments (head : String)
  | empty
  deriving DecidableEq, Repr

/-- The problem as it is shown. -/
def TypeProblem.message : TypeProblem → String
  | unbalanced expr => s!"unbalanced brackets in '{expr}'"
  | arity head expected found expr =>
    s!"'{head}' takes {expected} type argument(s), got {found} in '{expr}'"
  | mapArguments head expr => s!"'{head}' takes string keys and one value type, got '{expr}'"
  | emptyTuple expr => s!"empty tuple type '{expr}'"
  | noArguments head => s!"'{head}' does not take type arguments"
  | empty => "empty type expression"

/-- Why a declaration is refused. -/
inductive ConfigProblem where
  | depthBound
  | emptyFieldName (schema : String)
  | duplicateField (schema field : String)
  | fieldInfo (field : String) (problem : InfoProblem)
  | unknownShell (name : String)
  | invalidVariableName (name : String)
  | recursiveExample (lineage : List String)
  | undeclaredRecordField (schema field : String)
  | noSchemas
  | enumWithoutMembers (name : String)
  | duplicateEnum (name : String)
  | shadowedName (name : String)
  | duplicateSchema (name : String)
  | undeclaredRoot (name : String)
  | unknownType (name : String)
  | recursiveSchema (chain : List String)
  | typeExpression (problem : TypeProblem)
  | inField (schema field : String) (problem : ConfigProblem)
  deriving DecidableEq, Repr

namespace ConfigProblem

/-- The problem as it is shown. -/
def message : ConfigProblem → String
  | depthBound => "max_nested_struct_depth must be a positive integer"
  | emptyFieldName schema => s!"schema {schema}: field name cannot be empty"
  | duplicateField schema field => s!"schema {schema}: duplicate field '{field}'"
  | fieldInfo field problem => s!"field '{field}': {problem.message}"
  | unknownShell name =>
    s!"unknown shell type '{name}': supported shells are bash, zsh, fish, powershell"
  | invalidVariableName name =>
    s!"invalid environment variable name '{name}': must contain only alphanumeric characters " ++
      "and underscores, and start with a letter or underscore"
  | recursiveExample lineage =>
    "recursive schema reference in env example: " ++ " -> ".intercalate lineage
  | undeclaredRecordField schema field => s!"record {schema} has no field '{field}'"
  | noSchemas => "schema document declares no schemas"
  | enumWithoutMembers name => s!"enum {name} has no members"
  | duplicateEnum name => s!"duplicate enum '{name}'"
  | shadowedName name => s!"schema name '{name}' shadows another type"
  | duplicateSchema name => s!"duplicate schema '{name}'"
  | undeclaredRoot name => s!"root schema '{name}' is not declared"
  | unknownType name => s!"unknown type '{name}'"
  | recursiveSchema chain => "recursive schema reference: " ++ " -> ".intercalate chain
  | typeExpression problem => problem.message
  | inField schema field problem => s!"schema {schema}, field '{field}': {problem.message}"

end ConfigProblem

end EnvSettings
