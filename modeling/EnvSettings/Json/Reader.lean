import EnvSettings.Decimal.Reader
import EnvSettings.Error
import EnvSettings.Json
import EnvSettings.Text.Hex

namespace EnvSettings.Json

/-- The greatest number of arrays and objects around a value. -/
def depthLimit : Nat := 127

/-- What a reading step yields: a result and the rest of the text. -/
abbrev Parsed (α : Type) := α × List Char

/-- White space of JSON. -/
def isBlank (c : Char) : Bool :=
  c == ' ' || c == '\n' || c == '\t' || c == '\r'

/-- The text behind its white space. -/
def skipBlank (s : List Char) : List Char :=
  s.dropWhile isBlank

/-- Reads the rest of a word that has to stand there letter by letter. -/
def word {α : Type} (value : α) : List Char → List Char → Except JsonFault (Parsed α)
  | [], s => .ok (value, s)
  | _ :: _, [] => .error .endOfText
  | l :: letters, c :: s => if l = c then word value letters s else .error .malformed

/-- Appends digits to a number as long as it fits 64 bits, and counts the digits left over. -/
def absorb : Nat → List Char → Nat × Nat
  | n, [] => (n, 0)
  | n, c :: s =>
    let next := 10 * n + Decimal.digitValue c
    if next < UInt64.size then absorb next s else (n, s.length + 1)

/-- A power of ten as a float. -/
def powerOfTen (k : Nat) : Float :=
  Float.ofScientific 1 false k

/-- `x · 10 ^ exponent`, in steps of at most `10 ^ 308`; a result beyond all floats is a fault. Four
steps always suffice, since a positive exponent takes one and a negative one soon reaches zero. -/
def scale : Nat → Float → Int → Except JsonFault Float
  | 0, x, _ => .ok x
  | steps + 1, x, exponent =>
    if exponent.natAbs ≤ 308 then
      if 0 ≤ exponent then
        let y := x * powerOfTen exponent.natAbs
        if y.isFinite then .ok y else .error .malformed
      else .ok (x / powerOfTen exponent.natAbs)
    else if x == 0 then .ok x
    else if 0 ≤ exponent then .error .malformed
    else scale steps (x / powerOfTen 308) (exponent + 308)

/-- A float with the given sign, digits and exponent: the digits that fit 64 bits, times or divided
by a power of ten; each of the two steps rounds. -/
def floatOf (negative : Bool) (significand : Nat) (exponent : Int) :
    Except JsonFault JsonNumber := do
  let x ← scale 4 (Float.ofNat significand) exponent
  .ok (.float (if negative then -x else x))

/-- The greatest exponent that is read digit by digit: the largest integer of 32 bits. -/
def exponentLimit : Nat := 0x7fffffff

/-- A number whose exponent begins after the mark. -/
def exponentTail (negative : Bool) (significand : Nat) (exponent : Int) (s : List Char) :
    Except JsonFault (Parsed JsonNumber) :=
  let (down, s) := Decimal.cutSign s
  match s with
  | [] => .error .endOfText
  | c :: _ =>
    if !c.isDigit then .error .malformed
    else
      let digits := s.takeWhile Char.isDigit
      let rest := s.dropWhile Char.isDigit
      let n := Decimal.ofDigits digits
      if exponentLimit < n then
        if significand ≠ 0 && !down then .error .malformed
        else .ok (.float (if negative then -(Float.ofNat 0) else Float.ofNat 0), rest)
      else do
        let number ← floatOf negative significand (if down then exponent - n else exponent + n)
        .ok (number, rest)

/-- A number that goes on, or ends, after its digits. -/
def afterDigits (negative : Bool) (significand : Nat) (exponent : Int) (s : List Char)
    (whole : Except JsonFault JsonNumber) : Except JsonFault (Parsed JsonNumber) :=
  match s with
  | c :: r =>
    if c = 'e' ∨ c = 'E' then exponentTail negative significand exponent r
    else whole.map (·, s)
  | [] => whole.map (·, s)

/-- The number that a whole significand with a sign denotes. -/
def wholeNumber (negative : Bool) (n : Nat) : JsonNumber :=
  if negative then
    if n = 0 ∨ !Word.fitsSigned (-n) then .float (-(Float.ofNat n)) else .int (Int64.ofInt (-n))
  else if Word.fitsSigned n then .int (Int64.ofInt n) else .large (UInt64.ofNat n)

/-- Reads a number whose sign has been read. -/
def unsigned (negative : Bool) (s : List Char) : Except JsonFault (Parsed JsonNumber) :=
  match s with
  | [] => .error .endOfText
  | c :: r =>
    if !c.isDigit then .error .malformed
    else if c = '0' ∧ r.head?.any Char.isDigit then .error .malformed
    else
      let (significand, left) := absorb 0 (s.takeWhile Char.isDigit)
      match s.dropWhile Char.isDigit with
      | '.' :: t =>
        let fraction := t.takeWhile Char.isDigit
        let rest := t.dropWhile Char.isDigit
        if fraction.isEmpty then
          if rest.isEmpty then .error .endOfText else .error .malformed
        else
          let (significand, cut) := absorb significand fraction
          let exponent : Int := left - (fraction.length - cut)
          afterDigits negative significand exponent rest (floatOf negative significand exponent)
      | rest =>
        afterDigits negative significand left rest
          (if left = 0 then .ok (wholeNumber negative significand)
            else floatOf negative significand left)

/-- The number that four hexadecimal digits denote. Fewer than four bytes of text mean that it ends
too early. -/
def hex4 (s : List Char) : Except JsonFault Nat :=
  let four := s.take 4
  if (four.map Char.utf8Size).foldl (· + ·) 0 < 4 then .error .endOfText
  else match four.mapM Text.hexDigit? with
    | some [a, b, c, d] => .ok (((a * 16 + b) * 16 + c) * 16 + d)
    | _ => .error .malformed

/-- The character of a numeric escape whose digits `s` begins with, and how many characters it
takes. Characters beyond 16 bits are a pair of escapes; half a pair is malformed. -/
def numericEscape (s : List Char) : Except JsonFault (Char × Nat) := do
  let n ← hex4 s
  if 0xdc00 ≤ n ∧ n ≤ 0xdfff then .error .malformed
  else if n < 0xd800 ∨ 0xdbff < n then .ok (Char.ofNat n, 4)
  else match s.drop 4 with
    | [] => .error .endOfText
    | '\\' :: [] => .error .endOfText
    | '\\' :: 'u' :: t => do
      let m ← hex4 t
      if m < 0xdc00 ∨ 0xdfff < m then .error .malformed
      else .ok (Char.ofNat ((n - 0xd800) * 0x400 + (m - 0xdc00) + 0x10000), 10)
    | _ => .error .malformed

/-- The character of an escape after its backslash, and how many characters it takes. -/
def escape : List Char → Except JsonFault (Char × Nat)
  | [] => .error .endOfText
  | 'u' :: s => do
    let (c, used) ← numericEscape s
    .ok (c, used + 1)
  | '"' :: _ => .ok ('"', 1)
  | '\\' :: _ => .ok ('\\', 1)
  | '/' :: _ => .ok ('/', 1)
  | 'b' :: _ => .ok (Char.ofNat 8, 1)
  | 'f' :: _ => .ok (Char.ofNat 12, 1)
  | 'n' :: _ => .ok ('\n', 1)
  | 'r' :: _ => .ok ('\r', 1)
  | 't' :: _ => .ok ('\t', 1)
  | _ => .error .malformed

/-- Reads the rest of a string after its opening quote; its first `skip` characters belong to an
escape. -/
def stringBody : Nat → List Char → Except JsonFault (Parsed (List Char))
  | _, [] => .error .endOfText
  | skip + 1, _ :: s => stringBody skip s
  | 0, c :: s =>
    if c = '"' then .ok ([], s)
    else if c = '\\' then do
      let (d, used) ← escape s
      let (text, rest) ← stringBody used s
      .ok (d :: text, rest)
    else if c.toNat < 0x20 then .error .malformed
    else do
      let (text, rest) ← stringBody 0 s
      .ok (c :: text, rest)

/-- Reads the items of an array up to its closing bracket, at most `fuel` of them. -/
def items (value : List Char → Except JsonFault (Parsed Json)) :
    Nat → List Char → Except JsonFault (Parsed (List Json))
  | 0, _ => .error .malformed
  | fuel + 1, s => do
    let (item, rest) ← value s
    match skipBlank rest with
    | [] => .error .endOfText
    | ']' :: rest => .ok ([item], rest)
    | ',' :: rest =>
      match skipBlank rest with
      | [] => .error .endOfText
      | ']' :: _ => .error .malformed
      | rest => do
        let (more, rest) ← items value fuel rest
        .ok (item :: more, rest)
    | _ => .error .malformed

/-- Reads the name and the value of an entry. -/
def entry (value : List Char → Except JsonFault (Parsed Json)) :
    List Char → Except JsonFault (Parsed (String × Json))
  | '"' :: s => do
    let (name, rest) ← stringBody 0 s
    match skipBlank rest with
    | [] => .error .endOfText
    | ':' :: rest => do
      let (j, rest) ← value rest
      .ok ((String.ofList name, j), rest)
    | _ => .error .malformed
  | _ => .error .malformed

/-- Reads the entries of an object up to its closing brace, at most `fuel` of them. -/
def members (value : List Char → Except JsonFault (Parsed Json)) :
    Nat → List Char → Except JsonFault (Parsed (List (String × Json)))
  | 0, _ => .error .malformed
  | fuel + 1, s => do
    let (e, rest) ← entry value s
    match skipBlank rest with
    | [] => .error .endOfText
    | '}' :: rest => .ok ([e], rest)
    | ',' :: rest =>
      match skipBlank rest with
      | [] => .error .endOfText
      | rest => do
        let (more, rest) ← members value fuel rest
        .ok (e :: more, rest)
    | _ => .error .malformed

/-- Reads a value with at most `depth` arrays and objects nested in it. -/
def value : Nat → List Char → Except JsonFault (Parsed Json)
  | depth, s =>
    match skipBlank s with
    | [] => .error .endOfText
    | c :: r =>
      if c = 'n' then word null "ull".toList r
      else if c = 't' then word (bool true) "rue".toList r
      else if c = 'f' then word (bool false) "alse".toList r
      else if c = '-' then do
        let (n, rest) ← unsigned true r
        .ok (number n, rest)
      else if c.isDigit then do
        let (n, rest) ← unsigned false (c :: r)
        .ok (number n, rest)
      else if c = '"' then do
        let (text, rest) ← stringBody 0 r
        .ok (string (String.ofList text), rest)
      else if c = '[' then
        match depth with
        | 0 => .error .malformed
        | depth + 1 =>
          match skipBlank r with
          | [] => .error .endOfText
          | ']' :: rest => .ok (array [], rest)
          | rest => do
            let (js, rest) ← items (value depth) rest.length rest
            .ok (array js, rest)
      else if c = '{' then
        match depth with
        | 0 => .error .malformed
        | depth + 1 =>
          match skipBlank r with
          | [] => .error .endOfText
          | '}' :: rest => .ok (object [], rest)
          | rest => do
            let (es, rest) ← members (value depth) rest.length rest
            .ok (object (Entries.sorted es), rest)
      else .error .malformed

/-- Reads a text that holds one value and nothing else. A text that ends too early is told apart
from one that is malformed. -/
def parse (text : String) : Except JsonFault Json := do
  let (j, rest) ← value depthLimit text.toList
  if (skipBlank rest).isEmpty then .ok j else .error .malformed

end EnvSettings.Json
