import EnvSettings.Yaml.Scalar.Quoted

namespace EnvSettings.Yaml

/-- What becomes of the breaks at the end of a block scalar. -/
inductive Chomping where
  | strip
  | clip
  | keep
  deriving DecidableEq, Repr

/-- The chomping that a character stands for. -/
def Chomping.ofChar? (c : Char) : Option Chomping :=
  if c = '-' then some strip else if c = '+' then some keep else none

/-- The first line of a block scalar: its chomping, and its indentation if that is given. -/
structure BlockHeader where
  chomping : Chomping := .clip
  indent : Option Nat := none

/-- Reads an optional chomping indicator. -/
def chomping? : List Glyph → Option (Parsed Chomping)
  | [] => none
  | g :: s => (Chomping.ofChar? g.char).map (·, s)

/-- Reads an optional digit of indentation. -/
def indentDigit? : List Glyph → Option (Parsed Nat)
  | [] => none
  | g :: s => if g.char.isDigit then some (g.char.toNat - '0'.toNat, s) else none

/-- Reads the two indicators in either order. -/
def blockIndicators (s : List Glyph) : Parsed BlockHeader :=
  match chomping? s with
  | some (c, s) => match indentDigit? s with
    | some (n, s) => (⟨c, some n⟩, s)
    | none => (⟨c, none⟩, s)
  | none => match indentDigit? s with
    | some (n, s) => match chomping? s with
      | some (c, s) => (⟨c, some n⟩, s)
      | none => (⟨.clip, some n⟩, s)
    | none => ({}, s)

/-- The rest after the end of a line that holds only blanks and a comment. -/
def lineEnd? (comment : Bool) : List Glyph → Option (List Glyph)
  | [] => some []
  | g :: s =>
    if isBreak g.char then some s
    else if comment ∨ isBlank g.char then lineEnd? comment s
    else if g.char = '#' then lineEnd? true s
    else none

/-- Reads what follows the bar or bracket up to the end of the line. -/
def blockHeader? (s : List Glyph) : Option (Parsed BlockHeader) := do
  let (header, rest) := blockIndicators s
  if header.indent = some 0 then none
  (lineEnd? false rest).map (header, ·)

/-- Whether a column is within the indentation, as far as that is known. -/
def withinIndent (indent : Option Nat) (column : Nat) : Bool :=
  indent.all (column < ·)

/-- Reads empty lines and the indentation of the line after them: the breaks, and the greatest
column reached. A tab cannot indent. -/
def emptyLines (indent : Option Nat) (breaks : List Char) (deepest : Nat) :
    List Glyph → Option (Parsed (List Char × Nat))
  | [] => some ((breaks.reverse, deepest), [])
  | g :: s =>
    if withinIndent indent g.column ∧ g.char = ' ' then emptyLines indent breaks deepest s
    else if withinIndent indent g.column ∧ g.char = '\t' then none
    else if isBreak g.char then emptyLines indent (g.char :: breaks) (max deepest g.column) s
    else some ((breaks.reverse, max deepest g.column), g :: s)

/-- How far the reading of a block scalar has come. -/
structure BlockState where
  /-- The break of the last line, and the breaks of the empty lines after it. -/
  lineBreak : List Char := []
  emptyBreaks : List Char := []
  /-- Whether the last line began with white space. -/
  spaced : Bool := false

/-- The breaks between the last line and one that begins with white space or not. Between two lines
without, a folded scalar has a space for a single line feed and drops the first of several. -/
def BlockState.separator (b : BlockState) (folded spaced : Bool) : List Char :=
  if folded && b.lineBreak == ['\n'] && !b.spaced && !spaced then
    if b.emptyBreaks.isEmpty then [' '] else b.emptyBreaks
  else b.lineBreak ++ b.emptyBreaks

/-- The breaks that stay after the last line. -/
def BlockState.ending (b : BlockState) : Chomping → List Char
  | .strip => []
  | .clip => b.lineBreak
  | .keep => b.lineBreak ++ b.emptyBreaks

/-- Reads the lines at a column, at most `fuel` of them. -/
def blockLines (folded : Bool) (chomping : Chomping) (column : Nat) :
    Nat → BlockState → List Glyph → Option (Parsed (List Char))
  | 0, b, s => some (b.ending chomping, s)
  | _, b, [] => some (b.ending chomping, [])
  | fuel + 1, b, g :: s =>
    if g.column ≠ column then some (b.ending chomping, g :: s)
    else do
      let spaced := isBlank g.char
      let line := (g :: s).takeWhile fun g => !isBreak g.char
      let rest := (g :: s).dropWhile fun g => !isBreak g.char
      let ((breaks, _), next) ← emptyLines (some column) [] 0 rest.tail
      let state := ⟨(rest.take 1).map (·.char), breaks, spaced⟩
      (blockLines folded chomping column fuel state next).map
        (prepend (b.separator folded spaced ++ line.map (·.char)))

/-- Reads a block scalar after its bar or bracket. Its lines stand right of the column `parent`; the
first of them and the empty lines before it set the column, unless the header does. -/
def blockScalar? (folded : Bool) (parent : Int) (s : List Glyph) : Option (Parsed (List Char)) := do
  let (header, rest) ← blockHeader? s
  let fixed := header.indent.map fun n => (max parent 0 + n).toNat
  let ((breaks, deepest), next) ← emptyLines fixed [] 0 rest
  let column := fixed.getD (max (max deepest (parent + 1).toNat) 1)
  blockLines folded header.chomping column next.length ⟨[], breaks, false⟩ next

end EnvSettings.Yaml
