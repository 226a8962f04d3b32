import EnvSettings.Yaml.Node
import EnvSettings.Yaml.Scalar.Block
import EnvSettings.Yaml.Scalar.Plain

namespace EnvSettings.Yaml

/-- How many collections may be nested. -/
def nestingLimit : Nat := 128

/-- How many characters a key may take. -/
def keyLimit : Nat := 1024

/-- The rest after a colon that makes the node that began at `start` a key: one on the same line,
not too far away, which in block content ends a word. -/
def afterKey? (flow : Bool) (start : Glyph) : List Glyph → Option (List Glyph)
  | [] => none
  | g :: s =>
    if g.char = ':' ∧ g.line = start.line ∧ g.index ≤ start.index + keyLimit ∧
        (flow ∨ endsWord s) then some s
    else none

/-- Whether an item of a flow collection ends here. -/
def endsItem (close : Char) : List Glyph → Bool
  | [] => false
  | g :: _ => g.char == ',' || g.char == close

/-- Reads the value after the colon of a flow collection; there may be none. -/
def flowValue (node : List Glyph → Option (Parsed Node)) (close : Char) (s : List Glyph) :
    Option (Parsed Node) :=
  let s := flowGap s
  if endsItem close s then some (.absent, s) else node s

/-- Reads an item and, if it turns out to be a key, its value. -/
def flowPair (node : List Glyph → Option (Parsed Node)) (close : Char) (s : List Glyph) :
    Option (Parsed (Node × Option Node)) := do
  let start ← s.head?
  let (key, rest) ← node s
  match afterKey? true start (flowGap rest) with
  | none => return ((key, none), rest)
  | some after =>
    let (value, rest) ← flowValue node close after
    return ((key, some value), rest)

/-- Reads the items of a flow collection up to its closing bracket, at most `fuel` of them. -/
def flowPairs (node : List Glyph → Option (Parsed Node)) (close : Char) :
    Nat → List Glyph → Option (Parsed (List (Node × Option Node)))
  | 0, _ => none
  | fuel + 1, s =>
    match flowGap s with
    | [] => none
    | g :: r =>
      if g.char = close then some ([], r)
      else do
        let (pair, rest) ← flowPair node close (g :: r)
        match flowGap rest with
        | [] => none
        | g :: r =>
          if g.char = ',' then do
            let (more, rest) ← flowPairs node close fuel r
            return (pair :: more, rest)
          else if g.char = close then return ([pair], r)
          else none

/-- An item of a flow sequence; a pair is a mapping of one key. -/
def sequenceItem : Node × Option Node → Node
  | (item, none) => item
  | (key, some value) => .mapping [(key, value)]

/-- An entry of a flow mapping. -/
def mappingEntry (p : Node × Option Node) : Node × Node :=
  (p.1, p.2.getD .absent)

/-- A scalar that is read as text, or as what plain text means. -/
def scalarOf (plain : Bool) (p : Parsed (List Char)) : Parsed Node :=
  (.scalar (String.ofList p.1) plain, p.2)

/-- Reads a flow collection, or a quoted or plain scalar, with at most `depth` collections nested in
it. Plain scalars stand right of the column `indent`. -/
def inline : Nat → Bool → Int → List Glyph → Option (Parsed Node)
  | _, _, _, [] => none
  | depth, flow, indent, g :: r =>
    if atMark (g :: r) then none
    else if g.char = '\'' then (singleQuoted [] r).map (scalarOf false)
    else if g.char = '"' then (doubleQuoted 0 false [] r).map (scalarOf false)
    else if g.char = '[' then
      match depth with
      | 0 => none
      | depth + 1 => do
        let (items, rest) ← flowPairs (inline depth true indent) ']' r.length r
        return (.sequence (items.map sequenceItem), rest)
    else if g.char = '\x7b' then
      match depth with
      | 0 => none
      | depth + 1 => do
        let (pairs, rest) ← flowPairs (inline depth true indent) '\x7d' r.length r
        return (.mapping (pairs.map mappingEntry), rest)
    else (plain? flow indent (g :: r)).map (scalarOf true)

/-- Reads a block scalar, a flow collection, or a quoted or plain scalar. -/
def content (depth : Nat) (indent : Int) : List Glyph → Option (Parsed Node)
  | [] => none
  | g :: r =>
    if g.char = '|' ∨ g.char = '>' then
      (blockScalar? (g.char == '>') indent r).map (scalarOf false)
    else inline depth false indent (g :: r)

/-- Reads the items of a block sequence whose dashes stand at a column, at most `fuel` of them. An
item stands right of its dash. -/
def blockItems (node : List Glyph → Option (Parsed Node)) (column : Nat) :
    Nat → List Glyph → Option (Parsed (List Node))
  | 0, s => some ([], s)
  | fuel + 1, s =>
    if columnAt s = column ∧ isEntry s then do
      let start := indentGap s.tail
      let (item, rest) ← if column < columnAt start then node start else some (.absent, start)
      let (more, rest) ← blockItems node column fuel (blockGap rest)
      return (item :: more, rest)
    else some ([], s)

/-- Reads the value after the colon of a block mapping whose keys stand at a column. On the line of
the colon no collection of blocks begins; below it a sequence may stand at the column of the key. -/
def blockValue (node plain : List Glyph → Option (Parsed Node)) (column line : Nat)
    (s : List Glyph) : Option (Parsed Node) :=
  match blockGap s with
  | [] => some (.absent, [])
  | g :: r =>
    if g.line = line then plain (g :: r)
    else if column < columnAt (g :: r) ∨ (columnAt (g :: r) = column ∧ isEntry (g :: r)) then
      node (g :: r)
    else some (.absent, g :: r)

/-- Reads the entries of a block mapping after the first key, which stands on a line, at most `fuel`
of them. -/
def blockPairs (node plain key : List Glyph → Option (Parsed Node)) (column : Nat) :
    Nat → Node → Nat → List Glyph → Option (Parsed (List (Node × Node)))
  | 0, _, _, _ => none
  | fuel + 1, first, line, s => do
    let (value, rest) ← blockValue node plain column line s
    let next := blockGap rest
    if columnAt next ≠ column then return ([(first, value)], next)
    let start ← next.head?
    let (second, rest) ← key next
    let after ← afterKey? false start (blockGap rest)
    let (more, rest) ← blockPairs node plain key column fuel second start.line after
    return ((first, value) :: more, rest)

/-- Reads a node whose parent's keys or dashes stand at the column `indent`, with at most `depth`
collections nested in it. -/
def block : Nat → Int → List Glyph → Option (Parsed Node)
  | _, _, [] => none
  | depth, indent, g :: r =>
    if isEntry (g :: r) then
      match depth with
      | 0 => none
      | depth + 1 => do
        let (items, rest) ← blockItems (block depth g.column) g.column (r.length + 1) (g :: r)
        return (.sequence items, rest)
    else do
      let (node, rest) ← content depth indent (g :: r)
      match afterKey? false g (blockGap rest) with
      | none => return (node, rest)
      | some after =>
        match depth with
        | 0 => none
        | depth + 1 =>
          let (pairs, rest) ← blockPairs (block depth g.column) (content depth g.column)
            (inline depth false g.column) g.column r.length node g.line after
          return (.mapping pairs, rest)

/-- Whether nothing follows a document but marks that end it. -/
def isEnd : Nat → List Glyph → Bool
  | 0, _ => false
  | fuel + 1, s => s.isEmpty || (isMark '.' s && isEnd fuel (blockGap (s.drop 3)))

/-- Reads the root of a document. After a mark, the line of the mark holds no collection of
blocks. -/
def root (s : List Glyph) : Option (Parsed Node) :=
  let start := indentGap s
  if isMark '-' start then
    match blockGap (start.drop 3) with
    | [] => some (.absent, [])
    | g :: r =>
      if atMark (g :: r) then some (.absent, g :: r)
      else if start.head?.any (·.line == g.line) then content nestingLimit (-1) (g :: r)
      else block nestingLimit (-1) (g :: r)
  else if start.isEmpty then some (.absent, [])
  else block nestingLimit (-1) start

/-- Reads a text that holds at most one document. The reader takes block and flow collections,
scalars of every style, comments and document marks. It refuses anchors, aliases, tags, directives
and keys written with a question mark. -/
def parse? (text : String) : Option Node := do
  let s ← glyphs? text
  let (node, rest) ← root s
  if isEnd (rest.length + 1) (blockGap rest) then some node else none

end EnvSettings.Yaml
