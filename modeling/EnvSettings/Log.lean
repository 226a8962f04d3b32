import EnvSettings.EnvMap
import EnvSettings.Text.Space

namespace EnvSettings

/-- How much is logged, least first. -/
inductive LogLevel where
  | quiet
  | normal
  | verbose
  deriving DecidableEq, Repr

/-- How serious a log record is, most serious first. -/
inductive Severity where
  | error
  | warn
  | info
  | debug
  | trace
  deriving DecidableEq, Repr

namespace Severity

/-- The severity at the beginning of a line. -/
def tag : Severity → String
  | error => "ERROR"
  | warn => "WARN"
  | info => "INFO"
  | debug => "DEBUG"
  | trace => "TRACE"

/-- How verbose a severity is. -/
def rank : Severity → Nat
  | error => 0
  | warn => 1
  | info => 2
  | debug => 3
  | trace => 4

end Severity

/-- Why a text is no log level. -/
structure LogLevelFault where
  text : String
  deriving DecidableEq, Repr

/-- The fault as it is shown. -/
def LogLevelFault.message (f : LogLevelFault) : String :=
  s!"invalid log level: {f.text}"

namespace LogLevel

/-- The name of a level. -/
def name : LogLevel → String
  | quiet => "quiet"
  | normal => "normal"
  | verbose => "verbose"

/-- The rank of the most verbose severity that a level shows. -/
def rank : LogLevel → Nat
  | quiet => 0
  | normal => 1
  | verbose => 2

/-- The level that a text names, in any letter case. -/
def ofName (text : String) : Except LogLevelFault LogLevel :=
  let low := Text.lower (Text.trimmed text)
  if low = "quiet" then .ok quiet
  else if low = "normal" then .ok normal
  else if low = "verbose" then .ok verbose
  else .error ⟨text⟩

/-- The least serious records that a level lets through. -/
def filter : LogLevel → Severity
  | quiet => .error
  | normal => .warn
  | verbose => .trace

/-- Whether a level lets a record through. -/
def enables (level : LogLevel) (severity : Severity) : Bool :=
  severity.rank ≤ level.filter.rank

/-- The line that a record prints, if the level lets it through. -/
def line? (level : LogLevel) (severity : Severity) (message : String) : Option String :=
  if level.enables severity then some s!"{severity.tag}: {message}\n" else none

/-- The environment variable that sets the level. -/
def modeVariable : String := "STRICTENV_LOG_MODE"

/-- The level that flags and the environment ask for: verbosity first, then quiet, then the
variable, if it names a level. -/
def choose (verboseFlag quietFlag : Bool) (environment : EnvMap) : LogLevel :=
  if verboseFlag then verbose
  else if quietFlag then quiet
  else match environment.get? modeVariable with
    | none => normal
    | some text =>
      match ofName text with
      | .ok level => level
      | .error _ => normal

end LogLevel

end EnvSettings
