import EnvSettings.Command.Completion
import EnvSettings.Document
import EnvSettings.Example

namespace EnvSettings

/-- What commands take from elsewhere: what the text of a schema document says, and the completion
scripts. -/
structure Externals where
  outline? : String → Option Document.Outline
  script : CompletionShell → String

/-- How env files are read under the options. -/
def Options.mode (options : Options) : Dotenv.Mode :=
  if options.nonStrict then .lenient else .strict

/-- Why a command fails. -/
inductive CommandFailure where
  | library (error : Error)
  | unknownShell (error : Error)
  | schemaNotFound (path : String)
  | invalidEnvFile (path : String)
  deriving DecidableEq, Repr

namespace CommandFailure

/-- The failure as it is shown. -/
def message : CommandFailure → String
  | library error => error.message
  | unknownShell error => s!"Invalid arguments: {error.message}"
  | schemaNotFound path => s!"Invalid arguments: Schema file not found: {path}"
  | invalidEnvFile path => s!"{path} is not a valid env file"

/-- The exit code for a problem: 1 for settings and env files that are not in order, 5 for files
that cannot be used, 7 for declarations, 6 for the rest. -/
def problemCode : Problem → UInt32
  | .envFileFormat .. | .envKeyConflict .. | .missingSetting .. | .parse .. | .nestedDepth ..
  | .transform .. => 1
  | .config _ | .schemaDocument => 7
  | .io _ => 5
  | .envFileNotFound _ | .envFileRead .. => 6

/-- The exit code of a failure. -/
def exitCode : CommandFailure → UInt32
  | library error => problemCode error.problem
  | unknownShell _ | schemaNotFound _ => 4
  | invalidEnvFile _ => 1

end CommandFailure

/-- What comes of a command. -/
structure Outcome where
  files : FileTree
  stdout : String := ""
  stderr : String := ""
  warnings : List Dotenv.Warning := []
  failure : Option CommandFailure := none

namespace Outcome

/-- The exit code of an outcome. -/
def exitCode (o : Outcome) : UInt32 :=
  o.failure.elim 0 CommandFailure.exitCode

/-- Text as it is printed: with a line feed at its end, unless it is empty. -/
def printed (text : String) : String :=
  if text.isEmpty || text.toList.getLast? = some '\n' then text else text ++ "\n"

/-- The outcome of a step that prints its result or fails. -/
def ofResult (host : Host) (warnings : List Dotenv.Warning) :
    Except CommandFailure String → Outcome
  | .ok text => { files := host.files, stdout := printed text, warnings }
  | .error failure => { files := host.files, warnings, failure := some failure }

end Outcome

namespace Command

/-- The output format of a name. Only the format for shells looks at the shell, which is the one of
the environment unless it is named. -/
def resolveFormat (host : Host) (shell : Option String) :
    FormatName → Except CommandFailure OutputFormat
  | .dotenv => .ok .dotenv
  | .json => .ok .json
  | .human => .ok .human
  | .exports =>
    match shell with
    | none => .ok (.exports (Shell.detect host.environment))
    | some name => ((Shell.ofName name).map .exports).mapError .unknownShell

/-- Prints entries in a format. -/
def printEntries (host : Host) (format : OutputFormat) (reading : Dotenv.Reading) : Outcome :=
  .ofResult host reading.warnings ((format.render reading.env).mapError .library)

/-- Prints what is read, once the format is known. -/
def printReading (host : Host) (format : Except CommandFailure OutputFormat)
    (read : Except Error Dotenv.Reading) : Outcome :=
  match format with
  | .error failure => .ofResult host [] (.error failure)
  | .ok format =>
    match read with
    | .error e => .ofResult host [] (.error (.library e))
    | .ok reading => printEntries host format reading

/-- Prints the variables of an env file. -/
def runParse (host : Host) (options : Options) (file : String) (format : FormatName)
    (shell : Option String) : Outcome :=
  printReading host (resolveFormat host shell format) (Dotenv.parseFile host options.mode file)

/-- Tells whether an env file is in order; it always has to be in strict order. -/
def runCheck (host : Host) (options : Options) (file : String) : Outcome :=
  match Dotenv.parseFile host .strict file with
  | .ok reading =>
    let report := if options.quiet then "" else s!"OK ({reading.env.size} keys)\n"
    { files := host.files, stdout := report, warnings := reading.warnings }
  | .error e =>
    if e.problem.isEnvFile then
      { files := host.files, stderr := e.message ++ "\n", failure := some (.invalidEnvFile file) }
    else .ofResult host [] (.error (.library e))

/-- The entries whose names every format can write. -/
def printable (reading : Dotenv.Reading) : Dotenv.Reading :=
  { reading with env := EnvMap.ofList (reading.env.toList.filter fun e => Dotenv.validName e.1) }

/-- Prints the environment over an env file. -/
def runMerge (host : Host) (options : Options) (envFile : Option String) (caseSensitive : Bool)
    (format : FormatName) (shell : Option String) : Outcome :=
  printReading host (resolveFormat host shell format)
    ((Merge.build host none envFile caseSensitive options.mode).map printable)

/-- The schema document in a file. -/
def readDocument (externals : Externals) (host : Host) (path : String) :
    Except CommandFailure Document :=
  if host.files.pathExists path then
    (Document.read externals.outline? host.files path).mapError .library
  else .error (.schemaNotFound path)

/-- Prints or writes the example of a schema document. -/
def runSample (externals : Externals) (host : Host) (options : Options) (schema : String)
    (output : Option String) : Outcome :=
  match readDocument externals host schema with
  | .error failure => .ofResult host [] (.error failure)
  | .ok d =>
    match output with
    | none => .ofResult host [] ((Example.render d.catalog d.root).mapError .library)
    | some path =>
      match Example.write d.catalog d.root host.files path with
      | .error e => .ofResult host [] (.error (.library e))
      | .ok files =>
        let report := s!"Wrote example for {d.catalog.schemaName d.root} to {path}\n"
        { files, stderr := if options.quiet then "" else report }

/-- The loader of a schema document; the command line may name the env file and ask to read it
leniently. -/
def loaderOf (d : Document) (options : Options) (envFile : Option String) : Loader :=
  let l := Loader.ofSchema d.catalog d.root
  let config := { l.config with
    envFile := envFile.or l.config.envFile
    strictEnvFile := l.config.strictEnvFile && !options.nonStrict }
  { l with config }

/-- Prints the settings that a schema document describes. -/
def runLoad (externals : Externals) (host : Host) (options : Options) (schema : String)
    (envFile : Option String) : Outcome :=
  match readDocument externals host schema with
  | .error failure => .ofResult host [] (.error failure)
  | .ok d =>
    let loading := (loaderOf d options envFile).load host
    let shown := loading.result.map fun record => record.toJson.pretty
    .ofResult host loading.warnings (shown.mapError .library)

/-- Prints a completion script. -/
def runCompletions (externals : Externals) (host : Host) (options : Options)
    (shell : CompletionShell) : Outcome :=
  { files := host.files, stdout := externals.script shell
    stderr := if options.quiet then "" else shell.heading }

end Command

/-- Runs a command. -/
def Invocation.run (i : Invocation) (externals : Externals) (host : Host) : Outcome :=
  match i.command with
  | .parse file format shell => Command.runParse host i.options file format shell
  | .check file => Command.runCheck host i.options file
  | .merge envFile caseSensitive format shell =>
    Command.runMerge host i.options envFile caseSensitive format shell
  | .sample schema output => Command.runSample externals host i.options schema output
  | .load schema envFile => Command.runLoad externals host i.options schema envFile
  | .completions shell => Command.runCompletions externals host i.options shell

end EnvSettings
