import EnvSettings.Text.Hex
import EnvSettings.Yaml.Glyph

namespace EnvSettings.Yaml

/-- Puts text in front of what has been read. -/
def prepend (text : List Char) (p : Parsed (List Char)) : Parsed (List Char) :=
  (text ++ p.1, p.2)

/-- Reads the rest of a single-quoted scalar; `pending` is the white space before it, backwards. -/
def singleQuoted (pending : List Char) : List Glyph → Option (Parsed (List Char))
  | [] => none
  | g :: s =>
    if isSpacing g.char then singleQuoted (g.char :: pending) s
    else if atMark (g :: s) then none
    else (if g.char = '\'' then
        match s with
        | q :: r => if q.char = '\'' then (singleQuoted [] r).map (prepend ['\'']) else some ([], s)
        | [] => some ([], [])
      else (singleQuoted [] s).map (prepend [g.char])).map (prepend (fold pending.reverse))

/-- The character with a code of exactly `count` hexadecimal digits. -/
def codeEscape (count : Nat) (s : List Glyph) : Option Char := do
  let digits ← (s.take count).mapM fun g => Text.hexDigit? g.char
  let code := digits.foldl (fun n d => 16 * n + d) 0
  if digits.length = count ∧ code.isValidChar then some (Char.ofNat code) else none

/-- The escapes of one character after the backslash. -/
def letterEscapes : List (Char × Char) :=
  [('0', '\u0000'), ('a', '\u0007'), ('b', '\u0008'), ('t', '\t'), ('\t', '\t'), ('n', '\n'),
    ('v', '\u000b'), ('f', '\u000c'), ('r', '\r'), ('e', '\u001b'), (' ', ' '), ('"', '"'),
    ('/', '/'), ('\\', '\\'), ('N', '\u0085'), ('_', '\u00a0'), ('L', '\u2028'), ('P', '\u2029')]

/-- The character of an escape after its backslash, and how many characters it takes. -/
def escape? : List Glyph → Option (Char × Nat)
  | [] => none
  | g :: s =>
    if g.char = 'x' then (codeEscape 2 s).map (·, 3)
    else if g.char = 'u' then (codeEscape 4 s).map (·, 5)
    else if g.char = 'U' then (codeEscape 8 s).map (·, 9)
    else (letterEscapes.lookup g.char).map (·, 1)

/-- Whether a break follows; an escaped one joins two lines. -/
def breaksHere : List Glyph → Bool
  | [] => false
  | g :: _ => isBreak g.char

/-- Reads the rest of a double-quoted scalar. Its first `skip` characters belong to an escape;
`pending` is the white space before it, backwards, and `joined` tells that an escaped break stands
before that. -/
def doubleQuoted (skip : Nat) (joined : Bool) (pending : List Char) :
    List Glyph → Option (Parsed (List Char))
  | [] => none
  | g :: s =>
    match skip with
    | skip + 1 => doubleQuoted skip joined pending s
    | 0 =>
      if isSpacing g.char then doubleQuoted 0 joined (g.char :: pending) s
      else if atMark (g :: s) then none
      else
        let spacing := pending.reverse
        let before := if joined then spacing.filter isBreak else fold spacing
        (if g.char = '"' then some ([], s)
          else if g.char = '\\' then
            if breaksHere s then doubleQuoted 1 true [] s
            else do
              let (c, used) ← escape? s
              (doubleQuoted used false [] s).map (prepend [c])
          else (doubleQuoted 0 false [] s).map (prepend [g.char])).map (prepend before)

end EnvSettings.Yaml
