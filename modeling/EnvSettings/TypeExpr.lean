import EnvSettings.Error.Config
import EnvSettings.FieldType
import EnvSettings.Text.Bracket
import EnvSettings.Text.Case
import EnvSettings.Text.Space

namespace EnvSettings

/-- A type expression whose names are not resolved yet. What is wrong with a part stands in the tree
at that part, so the first flaw from the left is the one that is found when names are resolved. -/
inductive TypeExpr where
  | builtin (type : FieldType)
  | list (item : TypeExpr)
  | set (item : TypeExpr)
  | optional (item : TypeExpr)
  | map (value : TypeExpr)
  | tuple (members : List TypeExpr)
  | union (members : List TypeExpr)
  /-- The name of a declared enum or schema. -/
  | named (name : String)
  /-- A part that is no type expression. -/
  | faulty (problem : TypeProblem)
  deriving Repr

namespace TypeExpr

instance : Inhabited TypeExpr := ⟨.builtin .any⟩

/-- The words for types without arguments. -/
def builtinWords : List (String × FieldType) :=
  [("str", .str), ("string", .str), ("int", .int), ("integer", .int), ("float", .float),
    ("bool", .bool), ("boolean", .bool), ("any", .any), ("date", .date), ("time", .time),
    ("datetime", .datetime), ("duration", .duration), ("timedelta", .duration), ("none", .null),
    ("null", .null)]

/-- The words for types with arguments. -/
def genericWords : List String :=
  ["list", "set", "optional", "dict", "map", "tuple"]

/-- Whether a name means a type that needs no declaration; case does not matter. -/
def isBuiltin (name : String) : Bool :=
  let word := Text.lower name
  genericWords.contains word || builtinWords.any (·.1 == word)

/-- A word without arguments. -/
def word (name : String) : TypeExpr :=
  match builtinWords.lookup (Text.lower name) with
  | some type => builtin type
  | none => named name

/-- The type that `form` makes of exactly one argument. -/
def withOne (form : TypeExpr → TypeExpr) (head expr : String) : List TypeExpr → TypeExpr
  | [item] => form item
  | args => faulty (.arity head 1 args.length expr)

/-- The type of maps for the arguments: the values, or text keys and the values. -/
def mapOf (head expr : String) (read : List Char → TypeExpr) : List (List Char) → TypeExpr
  | [value] => map (read value)
  | [key, value] =>
    if Text.trim key = "str".toList then map (read value) else faulty (.mapArguments head expr)
  | _ => faulty (.mapArguments head expr)

/-- A word with its arguments; `read` reads one of them. -/
def applied (read : List Char → TypeExpr) (head expr : String) (args : List (List Char)) :
    TypeExpr :=
  let lower := Text.lower head
  if lower = "list" then withOne list head expr (args.map read)
  else if lower = "set" then withOne set head expr (args.map read)
  else if lower = "optional" then withOne optional head expr (args.map read)
  else if lower = "dict" ∨ lower = "map" then mapOf head expr read args
  else if lower = "tuple" then
    if args.isEmpty then faulty (.emptyTuple expr) else tuple (args.map read)
  else if args.isEmpty then word head
  else faulty (.noArguments head)

/-- Reads an expression that is no union. -/
def single (read : List Char → TypeExpr) (s : List Char) : TypeExpr :=
  let expr := String.ofList s
  match Text.cutAt? '[' s with
  | none => applied read expr expr []
  | some (head, rest) =>
    match Text.dropTail? [']'] rest with
    | none => faulty (.unbalanced expr)
    | some inner =>
      match Text.splitOutside ',' inner with
      | none => faulty (.unbalanced (String.ofList inner))
      | some args => applied read (String.ofList (Text.trim head)) expr args

/-- Reads an expression without white space at its ends, with at most `depth` arguments or members
nested in it. -/
def parseWithin : Nat → List Char → TypeExpr
  | 0, _ => faulty .empty
  | depth + 1, s =>
    let read (part : List Char) := parseWithin depth (Text.trim part)
    match Text.splitOutside '|' s with
    | none => faulty (.unbalanced (String.ofList s))
    | some (first :: second :: more) => union ((first :: second :: more).map read)
    | some _ => single read s

/-- Reads an expression. Every argument and member is shorter than what it stands in, so the length
of the text bounds the nesting. -/
def parse (text : String) : TypeExpr :=
  let s := Text.trim text.toList
  parseWithin (s.length + 1) s

mutual

/-- The names of enums and schemas in an expression. -/
def names : TypeExpr → List String
  | builtin _ | faulty _ => []
  | list item | set item | optional item | map item => names item
  | tuple members | union members => namesOfAll members
  | named name => [name]

/-- The names of enums and schemas in expressions. -/
def namesOfAll : List TypeExpr → List String
  | [] => []
  | e :: es => names e ++ namesOfAll es

end

end TypeExpr

end EnvSettings
