import EnvSettings.Command
import EnvSettings.Command.Argument

namespace EnvSettings.CommandLine

/-- What the request for the version prints. -/
def versionText : String := "strictenv 0.1.0\n"

/-- Whether a text may be a path. -/
def isPath (text : String) : Bool :=
  !text.isEmpty

/-- Whether a text is a truth value. -/
def isTruth (text : String) : Bool :=
  text == "true" || text == "false"

/-- The arguments that may stand before and after the name of a command. -/
def sharedParams : List Param :=
  [{ name := "verbose", kind := .flag }, { name := "quiet", kind := .flag },
    { name := "non-strict", kind := .flag, envName := some "STRICTENV_NON_STRICT",
      accepts := isTruth },
    { name := "help", kind := .help, short := some 'h' }]

/-- The output format, and the shell that it is for. -/
def formatParams : List Param :=
  [{ name := "format", accepts := fun s => (FormatName.ofName? s).isSome }, { name := "shell" }]

/-- The env file of a schema. -/
def envFileParam : Param :=
  { name := "env-file", accepts := isPath }

/-- The schema document. -/
def schemaParam : Param :=
  { name := "schema", required := true, accepts := isPath }

/-- The env file to read. -/
def fileParam : Param :=
  { name := "file", required := true, accepts := isPath }

/-- Where the output goes. -/
def outputParam : Param :=
  { name := "output", short := some 'o', accepts := isPath }

/-- The shell that is completed. -/
def completionShellParam : Param :=
  { name := "shell", required := true, accepts := fun s => (CompletionShell.ofName? s).isSome }

/-- The commands, and the arguments of each beside the shared ones. -/
def commands : List (String × Grammar) :=
  [("parse", { params := formatParams, positionals := [fileParam] }),
    ("check", { params := [], positionals := [fileParam] }),
    ("merge",
      { params := envFileParam :: { name := "case-sensitive", kind := .flag } :: formatParams }),
    ("example", { params := [schemaParam, outputParam] }),
    ("load", { params := [schemaParam, envFileParam] }),
    ("completions", { params := [], positionals := [completionShellParam] })]

/-- The grammar of the arguments before the name of a command. -/
def topGrammar : Grammar :=
  { params := sharedParams ++ [{ name := "version", kind := .version, short := some 'V' }]
    commands := commands.map (·.1) ++ ["help"] }

/-- The grammar of the arguments after the name of a command. -/
def grammarOf (name : String) : Grammar :=
  let own := (commands.lookup name).getD { params := [] }
  { own with params := sharedParams ++ own.params }

/-- What the arguments after `help` ask for: they may name one command. -/
def helpFault : List String → UsageFault
  | [] => .help
  | [name] => if topGrammar.commands.contains name then .help else .unknownCommand
  | _ => .unknownCommand

/-- Whether a flag is given. -/
def hasFlag (given : Given) (name : String) : Bool :=
  given.lookup name == some "true"

/-- The shared choices, made before or after the name of a command. -/
def optionsOf (before after : Given) : Options :=
  let either (name : String) := hasFlag before name || hasFlag after name
  { verbose := either "verbose", quiet := either "quiet", nonStrict := either "non-strict" }

/-- The format that is given, or else that of env files. -/
def formatOf (given : Given) : FormatName :=
  ((given.lookup "format").bind FormatName.ofName?).getD .dotenv

/-- The command that arguments in order make. -/
def commandOf (name : String) (given : Given) : Option Command := do
  match name with
  | "parse" => return .parse (← given.lookup "file") (formatOf given) (given.lookup "shell")
  | "check" => return .check (← given.lookup "file")
  | "merge" =>
    return .merge (given.lookup "env-file") (hasFlag given "case-sensitive") (formatOf given)
      (given.lookup "shell")
  | "example" => return .sample (← given.lookup "schema") (given.lookup "output")
  | "load" => return .load (← given.lookup "schema") (given.lookup "env-file")
  | "completions" => return .completions (← given.lookup "shell" >>= CompletionShell.ofName?)
  | _ => none

/-- Reads an argument list. The arguments of the command are checked before those in front of it. -/
def read (environment : EnvMap) (arguments : List String) : Except UsageFault Invocation := do
  let (before, rest) ← topGrammar.read arguments
  match rest with
  | [] =>
    let before ← Grammar.addVariables environment before topGrammar.params
    .error (if before.isEmpty then .noArguments else .noCommand)
  | name :: rest =>
    if name = "help" then .error (helpFault rest)
    else
      let grammar := grammarOf name
      let (after, _) ← grammar.read rest
      let after ← Grammar.addVariables environment after grammar.params
      grammar.checkRequired after
      let before ← Grammar.addVariables environment before topGrammar.params
      match commandOf name after with
      | some command => .ok ⟨optionsOf before after, command⟩
      | none => .error .missingArgument

end EnvSettings.CommandLine
