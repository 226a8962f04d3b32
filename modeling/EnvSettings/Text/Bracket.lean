import EnvSettings.Text.Split

namespace EnvSettings.Text

/-- The parts between the occurrences of `sep` outside of brackets, where `depth` brackets are open
already; `none` if the brackets are not balanced. -/
def splitOutsideFrom (sep : Char) : Nat → List Char → Option (List (List Char))
  | depth, [] => if depth = 0 then some [[]] else none
  | depth, c :: s =>
    if c = '[' then (splitOutsideFrom sep (depth + 1) s).map (consFirst c)
    else if c = ']' then
      match depth with
      | 0 => none
      | depth + 1 => (splitOutsideFrom sep depth s).map (consFirst c)
    else if c = sep ∧ depth = 0 then (splitOutsideFrom sep 0 s).map ([] :: ·)
    else (splitOutsideFrom sep depth s).map (consFirst c)

/-- The parts between the occurrences of `sep` outside of brackets; `none` if the brackets are not
balanced. -/
def splitOutside (sep : Char) (s : List Char) : Option (List (List Char)) :=
  splitOutsideFrom sep 0 s

end EnvSettings.Text
