namespace EnvSettings.Text

/-- Puts a character in front of the first part. -/
def consFirst (c : Char) : List (List Char) → List (List Char)
  | [] => [[c]]
  | part :: parts => (c :: part) :: parts

/-- The parts between the occurrences of `sep`; always at least one. -/
def splitAtChar (sep : Char) : List Char → List (List Char)
  | [] => [[]]
  | c :: s => if c = sep then [] :: splitAtChar sep s else consFirst c (splitAtChar sep s)

/-- The text without one carriage return at its end. -/
def dropCarriageReturn (s : List Char) : List Char :=
  if s.getLast? = some '\r' then s.dropLast else s

/-- The physical lines of a text. A line feed ends a line, together with a carriage return right
before it; an empty rest after the last line feed is no line. -/
def lines (s : List Char) : List (List Char) :=
  let parts := splitAtChar '\n' s
  let ended := parts.dropLast.map dropCarriageReturn
  match parts.getLast? with
  | some [] | none => ended
  | some last => ended ++ [last]

/-- The texts before and after the first occurrence of `sep`. -/
def cutAt? (sep : Char) : List Char → Option (List Char × List Char)
  | [] => none
  | c :: s =>
    if c = sep then some ([], s)
    else (cutAt? sep s).map fun (before, after) => (c :: before, after)

/-- The rest of a text that begins with `lead`. -/
def dropLead? : List Char → List Char → Option (List Char)
  | [], s => some s
  | _ :: _, [] => none
  | l :: lead, c :: s => if l = c then dropLead? lead s else none

/-- The rest of a text that ends with `tail`, without that end. -/
def dropTail? (tail s : List Char) : Option (List Char) :=
  (dropLead? tail.reverse s.reverse).map List.reverse

/-- Splits after `skip` more characters; see `splitOn`. -/
def splitOnFrom (sep : List Char) : Nat → List Char → List (List Char)
  | _, [] => [[]]
  | skip + 1, _ :: s => splitOnFrom sep skip s
  | 0, c :: s =>
    if sep.isPrefixOf (c :: s) then [] :: splitOnFrom sep (sep.length - 1) s
    else consFirst c (splitOnFrom sep 0 s)

/-- The parts between the occurrences of a nonempty `sep`, found from the left without overlap. -/
def splitOn (sep s : List Char) : List (List Char) :=
  splitOnFrom sep 0 s

/-- Whether `part` occurs in `s`. -/
def occursIn (part : List Char) : List Char → Bool
  | [] => part.isEmpty
  | c :: s => part.isPrefixOf (c :: s) || occursIn part s

end EnvSettings.Text
