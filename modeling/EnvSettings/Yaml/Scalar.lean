import EnvSettings.Decimal.Reader
import EnvSettings.Json
import EnvSettings.Text.Hex
import EnvSettings.Text.Split
import EnvSettings.Yaml.Node

namespace EnvSettings.Yaml

/-- The meaning of a scalar. -/
inductive Scalar where
  | null
  | bool (value : Bool)
  | int (value : Int)
  | float (value : Float)
  | text (value : String)

namespace Scalar

/-- The words for null. -/
def isNullWord (s : String) : Bool :=
  ["", "~", "null", "Null", "NULL"].contains s

/-- The truth value of a word. -/
def bool? (s : String) : Option Bool :=
  if ["true", "True", "TRUE"].contains s then some true
  else if ["false", "False", "FALSE"].contains s then some false
  else none

/-- The number that digits to a base denote. -/
def digitsTo? (base : Nat) (s : List Char) : Option Nat := do
  if s.isEmpty then none
  let digits ← s.mapM Text.hexDigit?
  if digits.all (· < base) then some (digits.foldl (fun n d => base * n + d) 0) else none

/-- The marks of numbers to another base than ten. -/
def bases : List (List Char × Nat) :=
  [("0x".toList, 16), ("0o".toList, 8), ("0b".toList, 2)]

/-- The number after a mark of its base. -/
def based? (s : List Char) : Option Nat :=
  bases.findSome? fun (mark, base) => (Text.dropLead? mark s).bind (digitsTo? base)

/-- The text behind its sign, if it has one. -/
def dropSign : List Char → List Char
  | '-' :: s => s
  | '+' :: s => s
  | s => s

/-- Whether a number of several digits begins with a zero. -/
def zeroLed (s : List Char) : Bool :=
  match dropSign s with
  | '0' :: c :: s => (c :: s).all Char.isDigit
  | _ => false

/-- Reads an integer of any size: decimal, or after the mark of another base. -/
def integer? (s : List Char) : Option Int :=
  let (negative, body) := Decimal.cutSign s
  match based? body with
  | some n => some (if negative then -n else n)
  | none =>
    if zeroLed s then none
    else (digitsTo? 10 body).map fun n => if negative then -n else n

/-- Reads a float: a finite decimal, an infinity or a NaN. -/
def float? (s : List Char) : Option Float :=
  let (negative, body) := Decimal.cutSign s
  let word := String.ofList body
  if [".inf", ".Inf", ".INF"].contains word then
    let infinity := Float.ofBits 0x7ff0000000000000
    some (if negative then -infinity else infinity)
  else if [".nan", ".NaN", ".NAN"].contains (String.ofList s) then
    some (Float.ofBits 0x7ff8000000000000)
  else if zeroLed s ∨ dropSign body ≠ body then none
  else match Decimal.readFloat s with
    | .ok x => if x.isFinite then some x else none
    | .error _ => none

/-- Whether an integer fits 64 bits, with a sign if it is negative. -/
def fitsWord (n : Int) : Bool :=
  Word.fitsSigned n || Word.fitsUnsigned n

/-- Whether an integer fits 128 bits, with a sign if it is negative. -/
def fitsPair (n : Int) : Bool :=
  if n < 0 then n.natAbs ≤ 1 <<< 127 else n.natAbs < 1 <<< 128

/-- The meaning of a plain scalar. Integers that take more than 64 bits, but no more than 128, have
none. -/
def ofPlain? (s : String) : Option Scalar :=
  if isNullWord s then some null
  else match bool? s with
    | some b => some (bool b)
    | none =>
      let other := match float? s.toList with
        | some x => float x
        | none => text s
      match integer? s.toList with
      | none => some other
      | some n => if fitsWord n then some (int n) else if fitsPair n then none else some other

end Scalar

namespace Node

/-- The meaning of a scalar; quoted and block scalars are text. Digits after a leading zero are
text, too, so that codes such as `007` stay as they are written. -/
def meaning? (text : String) (plain : Bool) : Option Scalar :=
  if plain then Scalar.ofPlain? text else some (.text text)

/-- An integer as a JSON number: those beyond the signed range of a word are kept apart. -/
def jsonInteger (n : Int) : JsonNumber :=
  if Word.fitsSigned n then .int (Int64.ofInt n) else .large (UInt64.ofNat n.toNat)

/-- A scalar as a JSON value; JSON has no infinities and no NaN. -/
def jsonScalar : Scalar → Json
  | .null => .null
  | .bool b => .bool b
  | .int n => .number (jsonInteger n)
  | .float x => if x.isFinite then .number (.float x) else .null
  | .text s => .string s

/-- The text of a key, unless it means something else. -/
def keyText? : Node → Option String
  | scalar text plain => match meaning? text plain with
    | some (.text s) => some s
    | _ => none
  | _ => none

mutual

/-- A node as a JSON value. Keys have to be texts; of two equal ones the last one counts. -/
def toJson? : Node → Option Json
  | scalar text plain => (meaning? text plain).map jsonScalar
  | sequence items => (itemsToJson? items).map .array
  | mapping pairs => (pairsToJson? pairs).map fun es => .object (Entries.sorted es)

/-- The items of a sequence as JSON. -/
def itemsToJson? : List Node → Option (List Json)
  | [] => some []
  | n :: ns => do
    let j ← toJson? n
    let js ← itemsToJson? ns
    return j :: js

/-- The entries of a mapping as JSON. -/
def pairsToJson? : List (Node × Node) → Option (List (String × Json))
  | [] => some []
  | (k, n) :: ns => do
    let key ← keyText? k
    let j ← toJson? n
    let js ← pairsToJson? ns
    return (key, j) :: js

end

mutual

/-- Whether every scalar in a node has a meaning. -/
def isMeaningful : Node → Bool
  | scalar text plain => (meaning? text plain).isSome
  | sequence items => allMeaningful items
  | mapping pairs => pairsMeaningful pairs

/-- Whether all items of a sequence are meaningful. -/
def allMeaningful : List Node → Bool
  | [] => true
  | n :: ns => isMeaningful n && allMeaningful ns

/-- Whether all entries of a mapping are meaningful. -/
def pairsMeaningful : List (Node × Node) → Bool
  | [] => true
  | (k, n) :: ns => isMeaningful k && isMeaningful n && pairsMeaningful ns

end

end Node

end EnvSettings.Yaml
