import EnvSettings.Error

namespace EnvSettings

/-- How the settings of a schema are found in an environment. -/
structure Config where
  /-- The text in front of every environment name. -/
  lead : String := ""
  caseSensitive : Bool := false
  /-- The text between the segments of nested environment names. -/
  nestedDelimiter : Option String := none
  envFile : Option String := none
  strictEnvFile : Bool := true
  /-- How deep records may nest; it has to be positive. -/
  nestingBound : Option Int := none
  deriving DecidableEq, Repr, Inhabited

namespace Config

/-- The delimiter that separates segments; an empty one separates nothing. -/
def delimiter? (c : Config) : Option String :=
  c.nestedDelimiter.filter (· ≠ "")

/-- The bound on nesting, if there is one. -/
def maxDepth (c : Config) : Except Error (Option Nat) :=
  match c.nestingBound with
  | none => .ok none
  | some bound => if 0 < bound then .ok (some bound.toNat) else .error (.config .depthBound)

end Config

end EnvSettings
