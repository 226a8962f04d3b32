import EnvSettings.Json.Printer
import EnvSettings.Shell

namespace EnvSettings

/-- The output formats of an environment map. -/
inductive OutputFormat where
  | dotenv
  | json
  | human
  | exports (shell : Shell)
  deriving DecidableEq, Repr

namespace OutputFormat

/-- The commands that set the variables of a map, one a line. -/
def exportLines (shell : Shell) : List (String × String) → Except Error (List String)
  | [] => .ok []
  | (name, value) :: entries => do
    Dotenv.checkName name
    let rest ← exportLines shell entries
    .ok (String.ofList (shell.assignment name.toList value.toList) :: rest)

/-- A map as a JSON object that keeps the order of the entries. -/
def jsonOf (env : EnvMap) : Json :=
  .object (env.toList.map fun e => (e.1, .string e.2))

/-- Text filled with spaces up to a number of characters. -/
def padRight (width : Nat) (s : String) : String :=
  s ++ String.ofList (List.replicate (width - s.length) ' ')

/-- The listing for a reader: a headline, then the names in a column as wide as the longest name in
bytes, and the quoted values. -/
def listing (env : EnvMap) : String :=
  if env.isEmpty then "No variables defined."
  else
    let width := (env.keys.map String.utf8ByteSize).foldl Nat.max 0
    let headline := s!"Environment ({env.size} variables):"
    let lines := env.toList.map fun e => s!"  {padRight width e.1}  {Text.quoted e.2}"
    "\n".intercalate (headline :: lines)

/-- The text of a map in a format. Env files and shells take variable names only. -/
def render (format : OutputFormat) (env : EnvMap) : Except Error String :=
  match format with
  | dotenv => Dotenv.print env
  | json => .ok (jsonOf env).pretty
  | human => .ok (listing env)
  | exports shell => do
    let lines ← exportLines shell env.toList
    .ok ("\n".intercalate lines)

end OutputFormat

end EnvSettings
