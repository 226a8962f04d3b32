import EnvSettings.Decimal.Layout
import EnvSettings.Json

namespace EnvSettings

/-- A hexadecimal digit in lower case. -/
def hexDigit (n : Nat) : Char :=
  if n < 10 then Char.ofNat (n + 48) else Char.ofNat (n + 87)

namespace Json

/-- One character inside a JSON string. -/
def writeChar (c : Char) : List Char :=
  if c = '"' then ['\\', '"']
  else if c = '\\' then ['\\', '\\']
  else if c = '\n' then ['\\', 'n']
  else if c = '\r' then ['\\', 'r']
  else if c = '\t' then ['\\', 't']
  else if c = Char.ofNat 8 then ['\\', 'b']
  else if c = Char.ofNat 12 then ['\\', 'f']
  else if c.toNat < 0x20 then
    ['\\', 'u', '0', '0', hexDigit (c.toNat / 16), hexDigit (c.toNat % 16)]
  else [c]

/-- A text between double quotes. -/
def writeString (s : String) : List Char :=
  '"' :: s.toList.flatMap writeChar ++ ['"']

/-- A number; an integer without a point. -/
def writeNumber : JsonNumber → List Char
  | .int value => (toString value.toInt).toList
  | .large value => Nat.toDigits 10 value.toNat
  | .float value =>
    if value.isFinite then (Decimal.Layout.json.write value).toList else "null".toList

mutual

/-- The text of a value on one line, without spaces. -/
def write : Json → List Char
  | null => "null".toList
  | bool true => "true".toList
  | bool false => "false".toList
  | number n => writeNumber n
  | string s => writeString s
  | array items => '[' :: writeItems items ++ [']']
  | object entries => '{' :: writeEntries entries ++ ['}']

/-- The items of an array, each but the first behind a comma. -/
def writeItems : List Json → List Char
  | [] => []
  | [item] => write item
  | item :: items => write item ++ ',' :: writeItems items

/-- The entries of an object, each but the first behind a comma. -/
def writeEntries : List (String × Json) → List Char
  | [] => []
  | [(name, value)] => writeString name ++ ':' :: write value
  | (name, value) :: entries =>
    writeString name ++ ':' :: write value ++ ',' :: writeEntries entries

end

/-- A new line at a depth of nesting. -/
def newLine (depth : Nat) : List Char :=
  '\n' :: List.replicate (2 * depth) ' '

mutual

/-- The indented text of a value that stands at a depth of nesting. -/
def writeIndented (depth : Nat) : Json → List Char
  | array [] => ['[', ']']
  | array (item :: items) =>
    '[' :: newLine (depth + 1) ++ writeIndented (depth + 1) item ++
      writeItemsIndented (depth + 1) items ++ newLine depth ++ [']']
  | object [] => ['{', '}']
  | object ((name, value) :: entries) =>
    '{' :: newLine (depth + 1) ++ writeString name ++ ':' :: ' ' ::
      writeIndented (depth + 1) value ++ writeEntriesIndented (depth + 1) entries ++
      newLine depth ++ ['}']
  | null => "null".toList
  | bool true => "true".toList
  | bool false => "false".toList
  | number n => writeNumber n
  | string s => writeString s

/-- The items of an array on lines of their own. -/
def writeItemsIndented (depth : Nat) : List Json → List Char
  | [] => []
  | item :: items =>
    ',' :: newLine depth ++ writeIndented depth item ++ writeItemsIndented depth items

/-- The entries of an object on lines of their own. -/
def writeEntriesIndented (depth : Nat) : List (String × Json) → List Char
  | [] => []
  | (name, value) :: entries =>
    ',' :: newLine depth ++ writeString name ++ ':' :: ' ' :: writeIndented depth value ++
      writeEntriesIndented depth entries

end

/-- The text of a value on one line. -/
def compact (j : Json) : String :=
  String.ofList j.write

/-- The indented text of a value. -/
def pretty (j : Json) : String :=
  String.ofList (j.writeIndented 0)

end Json

end EnvSettings
