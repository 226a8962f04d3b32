import EnvSettings.Output

namespace EnvSettings

/-- An output format as it is named on the command line. -/
inductive FormatName where
  | dotenv
  | json
  | exports
  | human
  deriving DecidableEq, Repr

/-- A shell that completions are made for. -/
inductive CompletionShell where
  | bash
  | elvish
  | fish
  | powerShell
  | zsh
  deriving DecidableEq, Repr

/-- The choices that every command shares. -/
structure Options where
  verbose : Bool := false
  quiet : Bool := false
  nonStrict : Bool := false
  deriving DecidableEq, Repr

/-- A command of the program with its choices. -/
inductive Command where
  /-- Prints the variables of an env file. -/
  | parse (file : String) (format : FormatName) (shell : Option String)
  /-- Tells whether an env file is in order. -/
  | check (file : String)
  /-- Prints the environment over an env file. -/
  | merge (envFile : Option String) (caseSensitive : Bool) (format : FormatName)
      (shell : Option String)
  /-- Prints or writes the example env file of a schema document. -/
  | sample (schema : String) (output : Option String)
  /-- Prints the settings that a schema document describes. -/
  | load (schema : String) (envFile : Option String)
  /-- Prints a completion script. -/
  | completions (shell : CompletionShell)
  deriving DecidableEq, Repr

/-- A command with its choices. -/
structure Invocation where
  options : Options
  command : Command
  deriving DecidableEq, Repr

namespace FormatName

/-- The format of a name, in any case of its ASCII letters. -/
def ofName? (name : String) : Option FormatName :=
  [("dotenv", dotenv), ("json", json), ("export", exports), ("human", human)].lookup name.toLower

end FormatName

namespace CompletionShell

/-- The name of a shell on the command line. -/
def name : CompletionShell → String
  | bash => "bash"
  | elvish => "elvish"
  | fish => "fish"
  | powerShell => "powershell"
  | zsh => "zsh"

/-- The shells in the order in which they are listed. -/
def all : List CompletionShell :=
  [bash, elvish, fish, powerShell, zsh]

/-- The shell of a name. -/
def ofName? (name : String) : Option CompletionShell :=
  all.find? (·.name == name)

end CompletionShell

end EnvSettings
