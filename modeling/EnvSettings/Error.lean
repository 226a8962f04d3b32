import EnvSettings.Error.Config
import EnvSettings.Error.Line
import EnvSettings.FileTree
import EnvSettings.Text.Quoted

namespace EnvSettings

/-- When a transform runs: on a raw field, on a coerced field, or on a whole record. -/
inductive TransformMode where
  | before
  | after
  | record
  deriving DecidableEq, Repr

/-- The name of a mode in messages. -/
def TransformMode.name : TransformMode → String
  | before => "before"
  | after => "after"
  | record => "struct_after"

/-- Why the content of an env file is not available. -/
inductive ReadFault where
  | io (fault : IoFault)
  | invalidUtf8
  deriving DecidableEq, Repr

/-- The fault as it is shown. -/
def ReadFault.message : ReadFault → String
  | io fault => fault.message
  | invalidUtf8 => "invalid UTF-8 encoding"

/-- Why a text is not JSON, or JSON of the wrong shape for its target. -/
inductive JsonFault where
  | malformed
  | endOfText
  | wrongShape
  deriving DecidableEq, Repr

/-- A transform that failed or broke a declared type. -/
structure TransformFailure where
  field : String
  mode : TransformMode
  name : String
  target : String
  value : Option String
  reason : String
  deriving DecidableEq, Repr

namespace TransformFailure

/-- The failure as it is shown. -/
def message (f : TransformFailure) : String :=
  let value := match f.value with
    | some value => s!" value={value}"
    | none => ""
  let reason := if f.reason = "" then "" else s!" ({f.reason})"
  s!"transform failure [{f.mode.name}] '{f.name}' for field '{f.field}' as {f.target}:" ++
    value ++ reason

end TransformFailure

/-- What went wrong. -/
inductive Problem where
  | envFileNotFound (path : String)
  | envFileRead (path : String) (fault : ReadFault)
  | envFileFormat (path : String) (line : Nat) (text : String) (defect : LineDefect)
  | envKeyConflict (normalized first second : String)
  | missingSetting (field key : String)
  | parse (field target raw : String)
  | nestedDepth (path : String) (depth limit : Nat)
  | transform (failure : TransformFailure)
  | config (problem : ConfigProblem)
  | schemaDocument
  | io (fault : IoFault)
  deriving DecidableEq, Repr

namespace Problem

/-- The wording of every problem. -/
def message : Problem → String
  | envFileNotFound path => s!"environment file not found: {path}"
  | envFileRead path fault => s!"failed to read environment file {path}: {fault.message}"
  | envFileFormat path line text defect =>
    s!"invalid env file format in {path}:{line}: {defect.message} ({Text.quoted text})"
  | envKeyConflict normalized first second =>
    s!"case-insensitive key collision: {Text.quoted first} and {Text.quoted second} map to " ++
      Text.quoted normalized
  | missingSetting field key => s!"missing required setting: {key} (field '{field}')"
  | parse field target raw => s!"failed to parse setting '{field}' as {target}: {Text.quoted raw}"
  | nestedDepth path depth limit =>
    s!"nested struct depth exceeded: path '{path}' reached depth {depth}, max allowed is {limit}"
  | transform failure => failure.message
  | config problem => s!"configuration error: {problem.message}"
  | schemaDocument => "schema document error"
  | io fault => s!"I/O error: {fault.message}"

/-- Whether the problem lies in an env file. -/
def isEnvFile : Problem → Bool
  | envFileNotFound _ | envFileRead _ _ | envFileFormat _ _ _ _ => true
  | _ => false

/-- Whether the problem is a failed transform. -/
def isTransform : Problem → Bool
  | transform _ => true
  | _ => false

end Problem

/-- A link in the chain of causes. -/
inductive Cause where
  | text (reason : String)
  | json (fault : JsonFault)
  | io (fault : IoFault)
  | problem (problem : Problem)
  deriving DecidableEq, Repr

/-- A problem and what caused it, outermost cause first. -/
structure Error where
  problem : Problem
  causes : List Cause := []
  deriving DecidableEq, Repr

namespace Error

/-- The wording of an error is that of its problem. -/
def message (e : Error) : String :=
  e.problem.message

/-- The chain that starts with the error itself. -/
def asCauses (e : Error) : List Cause :=
  .problem e.problem :: e.causes

/-- The error for a problem of configuration. -/
def config (problem : ConfigProblem) : Error :=
  { problem := .config problem }

end Error

end EnvSettings
