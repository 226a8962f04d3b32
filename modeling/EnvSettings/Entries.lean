namespace EnvSettings.Entries

variable {α : Type}

/-- Stores an entry: in place of the one with its name, else at the end. -/
def put (name : String) (x : α) : List (String × α) → List (String × α)
  | [] => [(name, x)]
  | e :: es => if e.1 = name then (name, x) :: es else e :: put name x es

/-- Stores an entry in a list with ascending names. -/
def putSorted (name : String) (x : α) : List (String × α) → List (String × α)
  | [] => [(name, x)]
  | e :: es =>
    if e.1 = name then (name, x) :: es
    else if name < e.1 then (name, x) :: e :: es
    else e :: putSorted name x es

/-- The entries in ascending order of their names; the last of several with one name counts. -/
def sorted (es : List (String × α)) : List (String × α) :=
  es.foldl (fun acc e => putSorted e.1 e.2 acc) []

end EnvSettings.Entries
