namespace EnvSettings.Dotenv

/-- The two quotes that may enclose a value. -/
inductive Quote where
  | double
  | single
  deriving DecidableEq, Repr

namespace Quote

/-- The character of a quote. -/
def char : Quote → Char
  | double => '"'
  | single => '\''

/-- The quote of a character. -/
def ofChar? (c : Char) : Option Quote :=
  if c = '"' then some double else if c = '\'' then some single else none

/-- The texts before and after the first quote that no backslash protects. -/
def cut? (q : Quote) : List Char → Option (List Char × List Char)
  | [] => none
  | '\\' :: [] => none
  | '\\' :: c :: s => (q.cut? s).map fun (before, after) => ('\\' :: c :: before, after)
  | c :: s =>
    if c = q.char then some ([], s)
    else (q.cut? s).map fun (before, after) => (c :: before, after)

/-- The character that a backslash and `c` stand for. -/
def escaped (q : Quote) (c : Char) : Char :=
  match q, c with
  | double, 'n' => '\n'
  | double, 'r' => '\r'
  | double, 't' => '\t'
  | _, c => c

/-- The value that stands between the quotes. A backslash at the very end stands for itself. -/
def unescape (q : Quote) : List Char → List Char
  | [] => []
  | '\\' :: [] => ['\\']
  | '\\' :: c :: s => q.escaped c :: q.unescape s
  | c :: s => c :: q.unescape s

end Quote

end EnvSettings.Dotenv
