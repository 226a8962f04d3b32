import EnvSettings.Command.Line
import EnvSettings.Command.Run
import EnvSettings.Document.Reader
import EnvSettings.Log

namespace EnvSettings.Program

/-- The name that the program is called by. -/
def name : String := "strictenv"

/-- The names of the commands, for the scripts. -/
def commandNames : String :=
  "parse check merge example load completions help"

/-- A completion script that offers the names of the commands. -/
def script : CompletionShell → String
  | .bash => s!"complete -W '{commandNames}' {name}\n"
  | .zsh => s!"#compdef {name}\n_arguments '1:command:({commandNames})' '*:file:_files'\n"
  | .fish => s!"complete -c {name} -n __fish_use_subcommand -a '{commandNames}'\n"
  | .powerShell =>
    s!"Register-ArgumentCompleter -Native -CommandName {name} -ScriptBlock \x7b\n" ++
      s!"  '{commandNames}'.Split(' ')\n\x7d\n"
  | .elvish =>
    s!"set edit:completion:arg-completer[{name}] = \x7b|@words| put {commandNames} \x7d\n"

/-- Schema documents are read as far as the reader of YAML goes. -/
def externals : Externals := ⟨Document.Outline.parse?, script⟩

/-- The environment of the process. -/
def environment : IO EnvMap := do
  let entries := (String.fromUTF8? (← IO.FS.readBinFile "/proc/self/environ")).getD ""
  let entry? (text : String) : Option (String × String) :=
    (Text.cutAt? '=' text.toList).map fun (name, value) => (String.ofList name, String.ofList value)
  return EnvMap.ofList ((entries.splitOn "\x00").filterMap entry?)

/-- What a path leads to on the machine. A directory is what cannot be read for its type. -/
def probe (path : String) : IO (Option FileNode) := do
  match ← (IO.FS.readBinFile path).toBaseIO with
  | .ok content => return some (.file content)
  | .error (.inappropriateType ..) => return some .directory
  | .error _ => return none

/-- Adds to a tree what stands at a path and above it. -/
def fetch (files : FileTree) (path : String) : IO FileTree := do
  let names := (FileTree.names path).filter fun name => name != "" && name != "."
  let mut files := files
  for length in List.range names.length do
    let place := names.take (length + 1)
    let text := "/".intercalate (if place.head? = some "/" then "" :: place.tail else place)
    if let some node ← probe (if text = "" then "/" else text) then files := files.plant place node
  return files

/-- The paths that a command looks at; the files known so far may name more of them. -/
def paths (i : Invocation) (files : FileTree) : List String :=
  match i.command with
  | .parse file _ _ | .check file => [file]
  | .merge envFile _ _ _ => envFile.toList
  | .sample schema output => schema :: output.toList
  | .load schema envFile =>
    let named := match Document.read externals.outline? files schema with
      | .ok d => (Command.loaderOf d i.options envFile).config.envFile
      | .error _ => none
    schema :: named.toList
  | .completions _ => []

/-- Writes the file that a command has produced. -/
def store (i : Invocation) (o : Outcome) : IO Unit := do
  match i.command, o.failure with
  | .sample _ (some path), none =>
    if let some parent := FileTree.parent? path then
      if parent ≠ "" then IO.FS.createDirAll parent
    if let .ok content := o.files.read path then IO.FS.writeBinFile path content
  | _, _ => return ()

/-- Runs an invocation and prints what comes of it. -/
def perform (i : Invocation) (environment : EnvMap) : IO UInt32 := do
  let schema ← (paths i {}).foldlM fetch {}
  let files ← (paths i schema).foldlM fetch schema
  let outcome := i.run externals ⟨files, environment⟩
  let level := LogLevel.choose i.options.verbose i.options.quiet environment
  for warning in outcome.warnings do
    IO.eprint ((level.line? .warn warning.message).getD "")
  store i outcome
  IO.print outcome.stdout
  IO.eprint outcome.stderr
  if let some failure := outcome.failure then IO.eprintln s!"Error: {failure.message}"
  return outcome.exitCode

/-- Answers a request for help or for the version, or a mistake in the arguments. -/
def explain (fault : UsageFault) : IO UInt32 := do
  let usage := s!"Usage: {name} [OPTIONS] <COMMAND>\n\nCommands: {commandNames}\n"
  match fault with
  | .version => IO.print CommandLine.versionText
  | .help => IO.print usage
  | _ => IO.eprint usage
  return fault.exitCode

end EnvSettings.Program

open EnvSettings Program in
/-- Runs the command that the arguments ask for. -/
def main (arguments : List String) : IO UInt32 := do
  let environment ← environment
  match CommandLine.read environment arguments with
  | .ok invocation => perform invocation environment
  | .error fault => explain fault
