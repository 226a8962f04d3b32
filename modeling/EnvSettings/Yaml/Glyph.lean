namespace EnvSettings.Yaml

/-- A character, with the number of characters, lines and characters of its line before it. The
columns are those of indentation. -/
structure Glyph where
  char : Char
  index : Nat
  line : Nat
  column : Nat
  deriving DecidableEq, Repr

/-- What has been read, and the rest. -/
abbrev Parsed (α : Type) := α × List Glyph

/-- Whether a character may stand in a text as it is. -/
def isPrintable (c : Char) : Bool :=
  let n := c.toNat
  n == 9 || n == 10 || n == 13 || (0x20 ≤ n && n ≤ 0x7e) || n == 0x85 ||
    (0xa0 ≤ n && n ≤ 0xfffd && n != 0xfeff) || 0x10000 ≤ n

/-- Whether a character ends a line, once the spellings of a line feed are one. -/
def isBreak (c : Char) : Bool :=
  c == '\n' || c == '\u2028' || c == '\u2029'

/-- A space or a tab. -/
def isBlank (c : Char) : Bool :=
  c == ' ' || c == '\t'

/-- A blank or the end of a line. -/
def isSpacing (c : Char) : Bool :=
  isBlank c || isBreak c

/-- The text with a line feed for each carriage return, next-line character and pair of carriage
return and line feed. -/
def unifyBreaks : List Char → List Char
  | [] => []
  | '\r' :: '\n' :: s => '\n' :: unifyBreaks s
  | c :: s => (if c = '\r' ∨ c = '\u0085' then '\n' else c) :: unifyBreaks s

/-- The characters with their places, counted on from a place. -/
def place (index line column : Nat) : List Char → List Glyph
  | [] => []
  | c :: s =>
    ⟨c, index, line, column⟩ ::
      if isBreak c then place (index + 1) (line + 1) 0 s else place (index + 1) line (column + 1) s

/-- The glyphs of a text after its byte order mark, unless it holds a character that may not stand
in a text. -/
def glyphs? (text : String) : Option (List Glyph) :=
  let body := match text.toList with
    | '\ufeff' :: s => s
    | s => s
  if body.all isPrintable then some (place 0 0 0 (unifyBreaks body)) else none

/-- Whether a word ends here: at white space, at a break or at the end. -/
def endsWord : List Glyph → Bool
  | [] => true
  | g :: _ => isSpacing g.char

/-- Whether a line begins here with three times the character `mark` as its first word. -/
def isMark (mark : Char) : List Glyph → Bool
  | a :: b :: c :: s =>
    a.column == 0 && a.char == mark && b.char == mark && c.char == mark && endsWord s
  | _ => false

/-- Whether a mark that begins or ends a document stands here. -/
def atMark (s : List Glyph) : Bool :=
  isMark '-' s || isMark '.' s

/-- The column of the next token; left of all columns at the end of the document. -/
def columnAt : List Glyph → Int
  | [] => -1
  | g :: s => if atMark (g :: s) then -1 else g.column

/-- Whether an item of a block sequence begins here. -/
def isEntry : List Glyph → Bool
  | [] => false
  | g :: s => g.char == '-' && endsWord s

/-- The rest after white space, comments and breaks. A comment runs to the end of its line. A tab is
white space while `tabs` holds; after a break it is so only within a flow collection. -/
def gapFrom (flow : Bool) (comment tabs : Bool) : List Glyph → List Glyph
  | [] => []
  | g :: s =>
    if isBreak g.char then gapFrom flow false flow s
    else if comment ∨ g.char = ' ' ∨ (g.char = '\t' ∧ tabs) then gapFrom flow comment tabs s
    else if g.char = '#' then gapFrom flow true tabs s
    else g :: s

/-- The next token of block content within a line. -/
def blockGap (s : List Glyph) : List Glyph :=
  gapFrom false false true s

/-- The next token of block content where a tab may not stand in front of it. -/
def indentGap (s : List Glyph) : List Glyph :=
  gapFrom false false false s

/-- The next token of a flow collection. -/
def flowGap (s : List Glyph) : List Glyph :=
  gapFrom true false true s

/-- The text that blanks and breaks within a scalar stand for. Blanks alone stay; one line feed is a
space, and of several all but the first stay; a separator of lines or paragraphs stays. -/
def fold (spacing : List Char) : List Char :=
  match spacing.filter isBreak with
  | [] => spacing
  | ['\n'] => [' ']
  | '\n' :: breaks => breaks
  | breaks => breaks

end EnvSettings.Yaml
