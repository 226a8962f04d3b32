import EnvSettings.Dotenv.Declaration
import EnvSettings.EnvMap

namespace EnvSettings.Dotenv

/-- A value is a sequence of characters and references. -/
inductive Piece where
  | char (c : Char)
  | reference (name : String)
  deriving DecidableEq, Repr

/-- The name between braces that a text begins with. -/
def braced? : List Char → Option (List Char)
  | '{' :: s =>
    match Text.cutAt? '}' s with
    | some (name, _) => if isName name then some name else none
    | none => none
  | _ => none

/-- The pieces of a text whose first `skip` characters belong to a reference before it. -/
def piecesFrom : Nat → List Char → List Piece
  | _, [] => []
  | skip + 1, _ :: s => piecesFrom skip s
  | 0, c :: s =>
    match if c = '$' then braced? s else none with
    | some name => .reference (String.ofList name) :: piecesFrom (name.length + 2) s
    | none => .char c :: piecesFrom 0 s

/-- The pieces of a text, found from left to right. A dollar sign without a name in braces after it
is a character like any other. -/
def pieces (s : List Char) : List Piece :=
  piecesFrom 0 s

/-- What an expansion reads: the declarations of the file, and the environment around it. -/
structure Scope where
  origin : String
  mode : Mode
  declarations : List Declaration
  outside : String → Option String

/-- The values expanded so far and the warnings on the way. -/
structure Memo where
  values : List (String × String) := []
  warnings : List Warning := []

namespace Scope

/-- The declaration of a name in the file. -/
def declaration? (scope : Scope) (name : String) : Option Declaration :=
  scope.declarations.find? (·.key == name)

/-- A fault in the value of a declared name. -/
def fault (scope : Scope) (key : String) (defect : LineDefect) : LineFault :=
  match scope.declaration? key with
  | some d => ⟨d.line, d.raw, defect⟩
  | none => ⟨0, "", defect⟩

/-- A name refers back to itself through the names of the stack. -/
def cyclic (scope : Scope) (stack : List String) (key : String) (memo : Memo) :
    Except LineFault (String × Memo) :=
  match scope.mode with
  | .strict => .error (scope.fault key (.cyclicReference (stack ++ [key])))
  | .lenient =>
    .ok ("", { memo with warnings := memo.warnings ++ [.cyclicReference scope.origin key] })

/-- The text that a reference to `name` inside the value of `key` stands for; `resolve` expands the
declarations of the file. -/
def refer (scope : Scope) (resolve : String → Memo → Except LineFault (String × Memo))
    (key name : String) (memo : Memo) : Except LineFault (String × Memo) :=
  match scope.declaration? name with
  | some _ => resolve name memo
  | none =>
    match scope.outside name with
    | some text => .ok (text, memo)
    | none =>
      match scope.mode with
      | .strict => .error (scope.fault key (.undefinedReference name))
      | .lenient =>
        .ok ("", { memo with
          warnings := memo.warnings ++ [.undefinedReference scope.origin name key] })

end Scope

/-- The text of a sequence of pieces, references resolved from left to right. -/
def fill (refer : String → Memo → Except LineFault (String × Memo)) :
    List Piece → Memo → Except LineFault (List Char × Memo)
  | [], memo => .ok ([], memo)
  | .char c :: ps, memo => do
    let (text, memo) ← fill refer ps memo
    .ok (c :: text, memo)
  | .reference name :: ps, memo => do
    let (value, memo) ← refer name memo
    let (text, memo) ← fill refer ps memo
    .ok (value.toList ++ text, memo)

namespace Scope

/-- Expands the value of a declared name. The stack holds the names being expanded; at most `room`
more names can join it. Each value is expanded once, and substituted text is not read again. -/
def resolve (scope : Scope) : Nat → List String → String → Memo →
    Except LineFault (String × Memo)
  | room, stack, key, memo =>
    match memo.values.lookup key with
    | some value => .ok (value, memo)
    | none =>
      if stack.contains key then scope.cyclic stack key memo
      else match room with
        | 0 => scope.cyclic stack key memo
        | room + 1 => do
          let raw := match scope.declaration? key with
            | some d => d.raw.toList
            | none => []
          let deeper := scope.resolve room (stack ++ [key])
          let (text, memo) ← fill (scope.refer deeper key) (pieces raw) memo
          let value := String.ofList text
          .ok (value, { memo with values := (key, value) :: memo.values })

/-- Expands the declarations from `ds` on, in their order. -/
def expandFrom (scope : Scope) : List Declaration → Memo → EnvMap →
    Except LineFault (EnvMap × Memo)
  | [], memo, env => .ok (env, memo)
  | d :: ds, memo, env => do
    let (value, memo) ← scope.resolve scope.declarations.length [] d.key memo
    scope.expandFrom ds memo (env.insert d.key value)

/-- Expands all declarations of the file. -/
def expand (scope : Scope) : Except LineFault (EnvMap × Memo) :=
  scope.expandFrom scope.declarations {} EnvMap.empty

end Scope

end EnvSettings.Dotenv
