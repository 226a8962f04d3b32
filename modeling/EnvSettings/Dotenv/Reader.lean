import EnvSettings.Dotenv.Reference

namespace EnvSettings

/-- What a reading can see of the machine: its files and the environment of the process. -/
structure Host where
  files : FileTree := {}
  environment : EnvMap := EnvMap.empty

namespace Dotenv

/-- The outcome of a reading: the entries, and what a lenient reading reports. -/
structure Reading where
  env : EnvMap
  warnings : List Warning := []

/-- A text without a byte order mark at its beginning. -/
def dropByteOrderMark : List Char → List Char
  | [] => []
  | c :: s => if c.toNat = 0xfeff then s else c :: s

/-- Reads the text of an env file. References to names that the file does not declare are looked up
with `outside`; `origin` is the path that messages name. -/
def parseWith (origin : String) (mode : Mode) (outside : String → Option String)
    (content : String) : Except Error Reading :=
  let lines := Text.lines (dropByteOrderMark content.toList)
  let reading : Except LineFault Reading := do
    let scan ← declarations origin mode lines
    let scope : Scope := ⟨origin, mode, scan.declarations, outside⟩
    let (env, memo) ← scope.expand
    .ok ⟨env, scan.warnings ++ memo.warnings⟩
  reading.mapError (·.toError origin)

/-- Reads the text of an env file whose outside references name process variables. -/
def parse (host : Host) (origin : String) (mode : Mode) (content : String) :
    Except Error Reading :=
  parseWith origin mode host.environment.get? content

/-- Fetches the text of an env file. A lenient reading goes on without a file that is missing or
not readable. -/
def fetch (host : Host) (mode : Mode) (path : String) :
    Except Error (Option String × List Warning) :=
  match host.files.read path with
  | .error .notFound =>
    match mode with
    | .strict => .error { problem := .envFileNotFound path }
    | .lenient => .ok (none, [.missingFile path])
  | .error fault =>
    match mode with
    | .strict => .error { problem := .envFileRead path (.io fault), causes := [.io fault] }
    | .lenient => .ok (none, [.unreadableFile path (.io fault)])
  | .ok bytes =>
    match String.fromUTF8? bytes with
    | some content => .ok (some content, [])
    | none =>
      match mode with
      | .strict => .error { problem := .envFileRead path .invalidUtf8 }
      | .lenient => .ok (none, [.unreadableFile path .invalidUtf8])

/-- Reads an env file. -/
def parseFile (host : Host) (mode : Mode) (path : String) : Except Error Reading := do
  match ← fetch host mode path with
  | (some content, _) => parse host path mode content
  | (none, warnings) => .ok ⟨EnvMap.empty, warnings⟩

end Dotenv

end EnvSettings
