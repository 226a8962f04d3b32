import EnvSettings.Text.Case.Table

namespace EnvSettings.Text

/-- Whether `n` lies in one of the inclusive ranges. -/
def inRanges (ranges : List (Nat × Nat)) (n : Nat) : Bool :=
  ranges.any fun r => r.1 ≤ n && n ≤ r.2

namespace CaseRun

/-- Whether the run maps the character with code `n`. -/
def holds (run : CaseRun) (n : Nat) : Bool :=
  run.first ≤ n && n ≤ run.last && (n - run.first) % run.step == 0

/-- The character that the run maps the code `n` to. -/
def apply (run : CaseRun) (n : Nat) : Char :=
  Char.ofNat (Int.toNat (n + run.offset))

end CaseRun

/-- The character that the first matching run gives, or the character itself. -/
def mapByRuns (runs : List CaseRun) (c : Char) : Char :=
  match runs.find? (·.holds c.toNat) with
  | some run => run.apply c.toNat
  | none => c

/-- The full upper case of a character. -/
def upperChar (c : Char) : List Char :=
  if c.toNat < 0x80 then [c.toUpper]
  else match upperExpansions.lookup c.toNat with
    | some codes => codes.map Char.ofNat
    | none => [mapByRuns upperRuns c]

/-- The full lower case of a character that stands alone. -/
def lowerChar (c : Char) : List Char :=
  if c.toNat < 0x80 then [c.toLower]
  else if c.toNat == 0x130 then [Char.ofNat 0x69, Char.ofNat 0x307]
  else [mapByRuns lowerRuns c]

/-- Whether a cased character follows once the case-ignorable ones are skipped. -/
def casedAhead (s : List Char) : Bool :=
  match s.dropWhile fun c => inRanges caseIgnorableRanges c.toNat with
  | c :: _ => inRanges casedRanges c.toNat
  | [] => false

/-- The upper case of a text, character by character. -/
def upperCase (s : List Char) : List Char :=
  s.flatMap upperChar

/-- The lower case of a text whose characters so far, last one first, are `before`. A sigma takes
its final form when a cased character stands before it and none after. -/
def lowerCaseFrom (before : List Char) : List Char → List Char
  | [] => []
  | c :: s =>
    let low :=
      if c.toNat == 0x3a3 then
        if casedAhead before && !casedAhead s then [Char.ofNat 0x3c2] else [Char.ofNat 0x3c3]
      else lowerChar c
    low ++ lowerCaseFrom (c :: before) s

/-- The lower case of a text. -/
def lowerCase (s : List Char) : List Char :=
  lowerCaseFrom [] s

/-- `upperCase` on strings. -/
def upper (s : String) : String :=
  String.ofList (upperCase s.toList)

/-- `lowerCase` on strings. -/
def lower (s : String) : String :=
  String.ofList (lowerCase s.toList)

end EnvSettings.Text
