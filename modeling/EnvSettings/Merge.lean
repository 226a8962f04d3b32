import EnvSettings.Dotenv.Reader

namespace EnvSettings.Merge

/-- The upper-case form of every name. Names with the same form share the place of the first and
the text of the last. -/
def upperKeys (entries : List (String × String)) : EnvMap :=
  EnvMap.ofList (entries.map fun e => (Text.upper e.1, e.2))

/-- The upper-case form of every name, where no two names may share one. `taken` maps the forms met
so far to their names. -/
def upperKeysFrom (taken : List (String × String)) (normalized : EnvMap) :
    List (String × String) → Except Error EnvMap
  | [] => .ok normalized
  | (key, text) :: rest =>
    let form := Text.upper key
    match taken.lookup form with
    | some first =>
      if first = key then upperKeysFrom taken (normalized.insert form text) rest
      else .error { problem := .envKeyConflict form first key }
    | none => upperKeysFrom ((form, key) :: taken) (normalized.insert form text) rest

/-- The merged map as the case policy wants it. -/
def applyCase (caseSensitive : Bool) (mode : Dotenv.Mode) (merged : EnvMap) :
    Except Error EnvMap :=
  if caseSensitive then .ok merged
  else match mode with
    | .lenient => .ok (upperKeys merged.toList)
    | .strict => upperKeysFrom [] EnvMap.empty merged.toList

/-- Lays the runtime entries over those of the file. -/
def overlay (file runtime : EnvMap) : EnvMap :=
  file.insertAll runtime.toList

/-- The merged environment of a host: an env file below the runtime entries, its names brought to
upper case unless case matters. Without explicit runtime entries the environment of the process is
taken. -/
def build (host : Host) (runtime : Option EnvMap) (envFile : Option String)
    (caseSensitive : Bool) (mode : Dotenv.Mode) : Except Error Dotenv.Reading := do
  let file ← match envFile with
    | some path => Dotenv.parseFile host mode path
    | none => .ok ⟨EnvMap.empty, []⟩
  let env ← applyCase caseSensitive mode (overlay file.env (runtime.getD host.environment))
  .ok ⟨env, file.warnings⟩

end EnvSettings.Merge
