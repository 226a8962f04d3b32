import EnvSettings.Dotenv.Name
import EnvSettings.Dotenv.Quote
import EnvSettings.Dotenv.Warning
import EnvSettings.Text.Space
import EnvSettings.Text.Split

namespace EnvSettings.Dotenv

/-- A name, its value as written (unquoted and unescaped), and the line where it is declared. -/
structure Declaration where
  key : String
  raw : String
  line : Nat
  deriving DecidableEq, Repr

/-- What a physical line says when no quoted value is open. -/
inductive Statement where
  | blank
  | faulty (defect : LineDefect)
  | assign (key value : List Char)
  deriving DecidableEq, Repr

/-- The statement on a line that is already trimmed. The value is without leading white space. -/
def Statement.ofTrimmed (line : List Char) : Statement :=
  if line.isEmpty || line.head? = some '#' then .blank
  else
    let entry := match Text.dropLead? "export ".toList line with
      | some rest => Text.trimLeft rest
      | none => line
    match Text.cutAt? '=' entry with
    | none => .faulty .missingDelimiter
    | some (before, after) =>
      let key := Text.trim before
      if key.isEmpty then .faulty .emptyKey
      else if !isName key then .faulty .invalidName
      else .assign key (Text.trimLeft after)

/-- Cuts an unquoted value at a `#` that begins it or follows white space. `previous` is the
character before the value. -/
def cutComment (previous : Option Char) : List Char → Option (List Char)
  | [] => none
  | c :: s =>
    if c = '#' && previous.all Text.isSpace then some []
    else (cutComment (some c) s).map (c :: ·)

/-- The value of an unquoted assignment: an inline comment and the white space before it go. -/
def plainValue (value : List Char) : List Char :=
  match cutComment none value with
  | some kept => Text.trimRight kept
  | none => Text.trim value

/-- A quoted value that has not been closed yet: its declaration's name and line, the text of the
first line from the quote on, and all text after the quote. -/
structure OpenQuote where
  key : List Char
  line : Nat
  opening : List Char
  quote : Quote
  body : List Char
  deriving DecidableEq, Repr

/-- How far the reading of a file has come. -/
structure Scan where
  declarations : List Declaration := []
  pending : Option OpenQuote := none
  warnings : List Warning := []
  deriving DecidableEq, Repr

namespace Scan

/-- Stores a declaration: in place of the one with the same name, else at the end. -/
def declareIn (d : Declaration) : List Declaration → List Declaration
  | [] => [d]
  | e :: es => if e.key = d.key then d :: es else e :: declareIn d es

/-- Declares a key, in the place of an earlier declaration of it if there is one. -/
def declare (scan : Scan) (key value : List Char) (line : Nat) : Scan :=
  { scan with
    declarations := declareIn ⟨String.ofList key, String.ofList value, line⟩ scan.declarations
    pending := none }

/-- Whether a key is declared. -/
def declares (scan : Scan) (key : List Char) : Bool :=
  scan.declarations.any (·.key == String.ofList key)

/-- Looks for the closing quote of an open value. -/
def closeQuote (mode : Mode) (scan : Scan) (q : OpenQuote) : Except LineFault Scan :=
  match q.quote.cut? q.body with
  | none => .ok { scan with pending := some q }
  | some (value, rest) =>
    let rest := Text.trim rest
    if mode = .strict && !rest.isEmpty && rest.head? != some '#' then
      .error ⟨q.line, String.ofList (q.quote.char :: q.body), .textAfterQuote⟩
    else .ok (scan.declare q.key (q.quote.unescape value) q.line)

/-- Reads a line on which no quoted value is open. -/
def statement (origin : String) (mode : Mode) (scan : Scan) (n : Nat) (line : List Char) :
    Except LineFault Scan :=
  let trimmed := Text.trim line
  match Statement.ofTrimmed trimmed with
  | .blank => .ok scan
  | .faulty defect =>
    match mode with
    | .strict => .error ⟨n, String.ofList trimmed, defect⟩
    | .lenient => .ok { scan with warnings := scan.warnings ++ [.skippedLine origin n defect] }
  | .assign key value =>
    if mode = .strict && scan.declares key then
      .error ⟨n, String.ofList trimmed, .duplicateKey (String.ofList key)⟩
    else match value with
      | [] => .ok (scan.declare key [] n)
      | c :: body =>
        match Quote.ofChar? c with
        | some quote => scan.closeQuote mode ⟨key, n, value, quote, body⟩
        | none => .ok (scan.declare key (plainValue value) n)

/-- Reads one physical line. -/
def line (origin : String) (mode : Mode) (scan : Scan) (n : Nat) (line : List Char) :
    Except LineFault Scan :=
  match scan.pending with
  | some q => scan.closeQuote mode { q with body := q.body ++ '\n' :: line }
  | none => scan.statement origin mode n line

/-- Reads physical lines, the first of which has number `n`. -/
def lines (origin : String) (mode : Mode) : Scan → Nat → List (List Char) → Except LineFault Scan
  | scan, _, [] => .ok scan
  | scan, n, l :: ls => do
    let scan ← scan.line origin mode n l
    scan.lines origin mode (n + 1) ls

/-- Ends the reading. A value that is still open is a defect of the line where it began. -/
def finish (origin : String) (mode : Mode) (scan : Scan) : Except LineFault Scan :=
  match scan.pending with
  | none => .ok scan
  | some q =>
    match mode with
    | .strict => .error ⟨q.line, String.ofList q.opening, .unterminatedQuote⟩
    | .lenient =>
      let scan := scan.declare q.key (q.quote.unescape q.body) q.line
      .ok { scan with warnings := scan.warnings ++ [.unterminatedQuote origin q.line] }

end Scan

/-- The declarations of a sequence of physical lines, with what a lenient reading reports. -/
def declarations (origin : String) (mode : Mode) (ls : List (List Char)) :
    Except LineFault Scan := do
  let scan ← Scan.lines origin mode {} 1 ls
  scan.finish origin mode

end EnvSettings.Dotenv
