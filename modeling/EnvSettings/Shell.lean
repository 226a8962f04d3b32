import EnvSettings.Dotenv.Printer

namespace EnvSettings

/-- The shells that commands can be written for. -/
inductive Shell where
  | bash
  | zsh
  | fish
  | powerShell
  deriving DecidableEq, Repr

namespace Shell

/-- The shell that a name denotes, in any letter case. -/
def ofName (name : String) : Except Error Shell :=
  let low := Text.lower name
  if low = "bash" ∨ low = "sh" then .ok bash
  else if low = "zsh" then .ok zsh
  else if low = "fish" then .ok fish
  else if low = "powershell" ∨ low = "pwsh" ∨ low = "ps" then .ok powerShell
  else .error (.config (.unknownShell name))

/-- The shell that a process environment points to: a version variable of a shell first, then the
path in `SHELL`. -/
def detect (environment : EnvMap) : Shell :=
  if environment.contains "ZSH_VERSION" then zsh
  else if environment.contains "FISH_VERSION" then fish
  else if environment.contains "PSModulePath" then powerShell
  else match environment.get? "SHELL" with
    | none => bash
    | some path =>
      let mentions (name : String) : Bool := Text.occursIn name.toList path.toList
      if mentions "zsh" then zsh
      else if mentions "fish" then fish
      else if mentions "pwsh" || mentions "powershell" then powerShell
      else bash

/-- Words of plain characters need no quotes. -/
def isPlainWord (value : List Char) : Bool :=
  !value.isEmpty && value.all isPlain

/-- A word of bash and zsh. A quote inside single quotes closes them, stands behind a backslash, and
opens them again. -/
def posixWord (value : List Char) : List Char :=
  if isPlainWord value then value
  else '\'' :: value.flatMap (fun c => if c = '\'' then ['\'', '\\', '\'', '\''] else [c]) ++ ['\'']

/-- A word of fish, where a backslash protects itself and the quote inside single quotes. -/
def fishWord (value : List Char) : List Char :=
  if isPlainWord value then value
  else
    '\'' ::
      value.flatMap (fun c => if c = '\\' ∨ c = '\'' then ['\\', c] else [c]) ++ ['\'']

/-- A string of PowerShell, where a quote inside single quotes is written twice. -/
def powerShellString (value : List Char) : List Char :=
  '\'' :: value.flatMap (fun c => if c = '\'' then ['\'', '\''] else [c]) ++ ['\'']

/-- The command that sets and exports a variable. -/
def assignment (shell : Shell) (name value : List Char) : List Char :=
  match shell with
  | bash | zsh => "export ".toList ++ name ++ '=' :: posixWord value
  | fish => "set -x ".toList ++ name ++ ' ' :: fishWord value
  | powerShell => "$env:".toList ++ name ++ '=' :: powerShellString value

end Shell

end EnvSettings
