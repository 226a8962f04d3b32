import EnvSettings.Error

namespace EnvSettings.Dotenv

/-- Whether a defect fails the reading or is worked around with a warning. -/
inductive Mode where
  | strict
  | lenient
  deriving DecidableEq, Repr

/-- A defect that a lenient reading worked around. -/
inductive Warning where
  | skippedLine (origin : String) (line : Nat) (defect : LineDefect)
  | unterminatedQuote (origin : String) (line : Nat)
  | cyclicReference (origin key : String)
  | undefinedReference (origin name key : String)
  | missingFile (path : String)
  | unreadableFile (path : String) (fault : ReadFault)
  deriving DecidableEq, Repr

/-- The warning as it is shown. -/
def Warning.message : Warning → String
  | skippedLine origin line defect => s!"{origin}:{line}: skipping line ({defect.message})"
  | unterminatedQuote origin line =>
    s!"{origin}:{line}: unterminated quoted value, keeping partial content"
  | cyclicReference origin key => s!"{origin}: cyclic reference to {key}, expanding to empty"
  | undefinedReference origin name key =>
    s!"{origin}: undefined reference {name} in {key}, expanding to empty"
  | missingFile path => s!"env file {path} not found, ignoring"
  | unreadableFile path (.io fault) => s!"env file {path} unreadable, ignoring: {fault.message}"
  | unreadableFile path .invalidUtf8 => s!"env file {path} is not valid UTF-8, ignoring"

/-- A defect of a file: the line that a message names, the text it shows, and what is wrong. -/
structure LineFault where
  line : Nat
  text : String
  defect : LineDefect
  deriving DecidableEq, Repr

/-- The error for a fault of a line. -/
def LineFault.toError (origin : String) (f : LineFault) : Error :=
  { problem := .envFileFormat origin f.line f.text f.defect }

end EnvSettings.Dotenv
