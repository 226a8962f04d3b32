import EnvSettings.Yaml.Scalar.Quoted

namespace EnvSettings.Yaml

/-- The characters that no plain scalar begins with. -/
def indicators : List Char :=
  "-?:,[]\x7b\x7d#&*!|>'\"%@`".toList

/-- The characters that end a word of a plain scalar within a flow collection. -/
def flowIndicators : List Char :=
  ",[]\x7b\x7d".toList

/-- Whether a plain scalar begins here. A dash begins one if a word goes on after it; in block
content so do a question mark and a colon. -/
def beginsPlain (flow : Bool) : List Glyph → Bool
  | [] => false
  | g :: s =>
    if g.char = '-' then !endsWord s
    else if g.char = '?' ∨ g.char = ':' then !flow && !endsWord s
    else !isSpacing g.char && !indicators.contains g.char

/-- Whether a colon before `s` may not stand in a word of a flow collection. -/
def colonMisplaced (flow : Bool) : List Glyph → Bool
  | [] => false
  | g :: _ => flow && ('?' :: flowIndicators).contains g.char

/-- Reads up to the end of a word, or to a colon that ends the scalar. -/
def plainWord (flow : Bool) : List Glyph → Option (Parsed (List Char))
  | [] => some ([], [])
  | g :: s =>
    if isSpacing g.char ∨ (flow ∧ flowIndicators.contains g.char) then some ([], g :: s)
    else if g.char = ':' then
      if colonMisplaced flow s then none
      else if endsWord s then some ([], g :: s)
      else (plainWord flow s).map (prepend [g.char])
    else (plainWord flow s).map (prepend [g.char])

/-- Whether a tab stands in white space where the indentation of a continued line should be. -/
def tabIndents (indent : Int) (spacing : List Glyph) : Bool :=
  (spacing.dropWhile fun g => !isBreak g.char).any fun g => g.char == '\t' && g.column ≤ indent

/-- Whether a plain scalar ends before `s`, which follows white space. -/
def endsPlain (flow : Bool) (indent : Int) : List Glyph → Bool
  | [] => true
  | g :: s => g.char == '#' || atMark (g :: s) || (!flow && g.column ≤ indent)

/-- Reads the words of a plain scalar, at most `fuel` of them. In block content its lines stand
right of the column `indent`. -/
def plainWords (flow : Bool) (indent : Int) : Nat → List Glyph → Option (Parsed (List Char))
  | 0, s => some ([], s)
  | fuel + 1, s => do
    let (word, rest) ← plainWord flow s
    if word.isEmpty then return ([], s)
    let spacing := rest.takeWhile fun g => isSpacing g.char
    let next := rest.dropWhile fun g => isSpacing g.char
    if tabIndents indent spacing then none
    if spacing.isEmpty || endsPlain flow indent next then return (word, next)
    let (more, rest) ← plainWords flow indent fuel next
    return (if more.isEmpty then word else word ++ fold (spacing.map (·.char)) ++ more, rest)

/-- Reads a plain scalar. -/
def plain? (flow : Bool) (indent : Int) (s : List Glyph) : Option (Parsed (List Char)) :=
  if beginsPlain flow s then plainWords flow indent s.length s else none

end EnvSettings.Yaml
