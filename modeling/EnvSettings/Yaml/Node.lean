namespace EnvSettings.Yaml

/-- A node. A scalar is plain if it stands without quotes and not as a block: only then its text may
mean something other than text. -/
inductive Node where
  | scalar (text : String) (plain : Bool)
  | sequence (items : List Node)
  | mapping (pairs : List (Node × Node))
  deriving Repr

instance : Inhabited Node := ⟨.scalar "" true⟩

namespace Node

/-- The node that stands where nothing is written. -/
def absent : Node :=
  .scalar "" true

/-- Whether nothing is written. -/
def isAbsent : Node → Bool
  | scalar text plain => plain && text.isEmpty
  | _ => false

end Node

end EnvSettings.Yaml
