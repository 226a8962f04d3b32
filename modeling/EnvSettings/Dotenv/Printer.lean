import EnvSettings.Dotenv.Name
import EnvSettings.EnvMap
import EnvSettings.Error

namespace EnvSettings

/-- Characters that no reader of env files or shells gives a meaning of its own. -/
def isPlain (c : Char) : Bool :=
  c.isAlphanum || "_./:@%+,-".toList.contains c

namespace Dotenv

/-- A name has to be a variable name to be written. -/
def checkName (name : String) : Except Error Unit :=
  if validName name then .ok () else .error (.config (.invalidVariableName name))

/-- One character between double quotes. -/
def protect (c : Char) : List Char :=
  if c = '\\' then ['\\', '\\']
  else if c = '"' then ['\\', '"']
  else if c = '\n' then ['\\', 'n']
  else if c = '\r' then ['\\', 'r']
  else if c = '\t' then ['\\', 't']
  else if c = '$' then ['\\', '$']
  else [c]

/-- A value as an env file writes it. -/
def printValue (value : List Char) : List Char :=
  if value.all isPlain then value else '"' :: value.flatMap protect ++ ['"']

/-- The line of one entry. -/
def printEntry (name value : List Char) : List Char :=
  name ++ '=' :: printValue value ++ ['\n']

/-- The lines of the entries, as long as every name is a variable name. -/
def printEntries : List (String × String) → Except Error (List Char)
  | [] => .ok []
  | (name, value) :: entries => do
    checkName name
    let rest ← printEntries entries
    .ok (printEntry name.toList value.toList ++ rest)

/-- The text of an env file with the entries of a map. -/
def print (env : EnvMap) : Except Error String :=
  (printEntries env.toList).map String.ofList

end Dotenv

end EnvSettings
