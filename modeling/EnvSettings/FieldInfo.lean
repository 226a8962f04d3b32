import EnvSettings.Error.Config
import EnvSettings.Value

namespace EnvSettings

/-- Metadata of a field: default, alias, description, and the constraints that a value has to
meet. -/
structure FieldInfo where
  default : Option Value := none
  envAlias : Option String := none
  description : Option String := none
  gt : Option Number := none
  ge : Option Number := none
  lt : Option Number := none
  le : Option Number := none
  minLength : Option Nat := none
  maxLength : Option Nat := none
  deriving Inhabited

/-- How a value breaks a constraint. -/
inductive Violation where
  | unordered (symbol kind limit : String)
  | unmet (symbol limit : String)
  | noLength (kind : String)
  | tooShort (least : Nat)
  | tooLong (greatest : Nat)
  deriving DecidableEq, Repr

/-- The violation as it is shown. -/
def Violation.message : Violation → String
  | unordered symbol kind limit => s!"'{symbol}' not supported between {kind} and number {limit}"
  | unmet symbol limit => s!"Value must be {symbol} {limit}"
  | noLength kind => s!"{kind} has no length"
  | tooShort least => s!"Length must be >= {least}"
  | tooLong greatest => s!"Length must be <= {greatest}"

/-- A comparison that a constraint asks for. -/
inductive Comparison where
  | gt
  | ge
  | lt
  | le
  deriving DecidableEq, Repr

namespace Comparison

/-- The sign of a comparison. -/
def symbol : Comparison → String
  | gt => ">"
  | ge => ">="
  | lt => "<"
  | le => "<="

/-- Whether the comparison holds for a number that stands in an order to the bound. -/
def accepts : Comparison → Ordering → Bool
  | gt, .gt => true
  | ge, .gt | ge, .eq => true
  | lt, .lt => true
  | le, .lt | le, .eq => true
  | _, _ => false

/-- Whether `a` stands to `b` as the comparison says. Numbers without an order never do. -/
def holds (c : Comparison) (a b : Number) : Bool :=
  (a.compare b).any c.accepts

/-- Checks a value against a bound, if there is one. -/
def check (c : Comparison) (bound : Option Number) (v : Value) : Except Violation Unit :=
  match bound with
  | none => .ok ()
  | some b =>
    match v.number? with
    | none => .error (.unordered c.symbol v.kind b.text)
    | some n => if c.holds n b then .ok () else .error (.unmet c.symbol b.text)

end Comparison

namespace FieldInfo

/-- A field without a default has to be given. -/
def required (info : FieldInfo) : Bool :=
  info.default.isNone

/-- Two layers of metadata as one, attribute by attribute; the second layer goes first. -/
def overlay (base overrides : FieldInfo) : FieldInfo where
  default := overrides.default.or base.default
  envAlias := overrides.envAlias.or base.envAlias
  description := overrides.description.or base.description
  gt := overrides.gt.or base.gt
  ge := overrides.ge.or base.ge
  lt := overrides.lt.or base.lt
  le := overrides.le.or base.le
  minLength := overrides.minLength.or base.minLength
  maxLength := overrides.maxLength.or base.maxLength

/-- `overlay` where a layer may be missing. -/
def merge : Option FieldInfo → Option FieldInfo → Option FieldInfo
  | none, overrides => overrides
  | base, none => base
  | some base, some overrides => some (base.overlay overrides)

/-- Checks a pair of bounds that have to stand in an order. -/
def checkOrder (c : Comparison) (problem : InfoProblem) (lower upper : Option Number) :
    Except InfoProblem Unit :=
  match lower, upper with
  | some a, some b => if c.holds a b then .ok () else .error problem
  | _, _ => .ok ()

/-- Checks that the metadata can be met at all. -/
def validate (info : FieldInfo) : Except InfoProblem Unit := do
  if info.envAlias = some "" then .error .emptyAlias
  if info.gt.isSome && info.ge.isSome then .error .bothLower
  if info.lt.isSome && info.le.isSome then .error .bothUpper
  match info.minLength, info.maxLength with
  | some least, some greatest => if greatest < least then .error .lengthOrder
  | _, _ => .ok ()
  checkOrder .lt .gtNotBelowLt info.gt info.lt
  checkOrder .lt .gtNotBelowLe info.gt info.le
  checkOrder .lt .geNotBelowLt info.ge info.lt
  checkOrder .le .geAboveLe info.ge info.le

/-- Checks the length of a value. -/
def checkLength (info : FieldInfo) (v : Value) : Except Violation Unit :=
  if info.minLength.isNone && info.maxLength.isNone then .ok ()
  else match v.length? with
    | none => .error (.noLength v.kind)
    | some n =>
      match info.minLength.filter (n < ·), info.maxLength.filter (· < n) with
      | some least, _ => .error (.tooShort least)
      | none, some greatest => .error (.tooLong greatest)
      | none, none => .ok ()

/-- Checks a value against the constraints. Null meets all of them. -/
def check (info : FieldInfo) (v : Value) : Except Violation Unit :=
  if v.isNull then .ok ()
  else do
    Comparison.gt.check info.gt v
    Comparison.ge.check info.ge v
    Comparison.lt.check info.lt v
    Comparison.le.check info.le v
    info.checkLength v

/-- Checks the value of a setting; a violation is reported with the text it came from. -/
def checkSetting (info : FieldInfo) (v : Value) (path target raw : String) : Except Error Unit :=
  (info.check v).mapError fun violation =>
    { problem := .parse path target raw, causes := [.text violation.message] }

end FieldInfo

end EnvSettings
