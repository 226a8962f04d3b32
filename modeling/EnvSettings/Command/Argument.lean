import EnvSettings.EnvMap

namespace EnvSettings

/-- Why an argument list runs no command: a request for help or for the version, or a mistake. -/
inductive UsageFault where
  | help
  | version
  /-- Nothing is asked for. -/
  | noArguments
  | noCommand
  | unknownCommand
  | unknownArgument
  | invalidValue
  /-- A flag is given a value. -/
  | unexpectedValue
  | repeatedArgument
  | missingArgument
  deriving DecidableEq, Repr

/-- Requests succeed; mistakes do not. -/
def UsageFault.exitCode : UsageFault → UInt32
  | help | version => 0
  | _ => 2

/-- How a parameter is given: a flag, an option with a value, or a positional value. -/
inductive ParamKind where
  | flag
  | valued
  | help
  | version
  deriving DecidableEq, Repr

/-- A flag, option or positional argument. -/
structure Param where
  name : String
  kind : ParamKind := .valued
  short : Option Char := none
  required : Bool := false
  /-- The environment variable that gives the value where the arguments do not. -/
  envName : Option String := none
  /-- Whether a text is a value of the argument. -/
  accepts : String → Bool := fun _ => true

/-- The arguments that are understood, and the commands that may follow them. -/
structure Grammar where
  params : List Param
  positionals : List Param := []
  commands : List String := []

/-- The values given, by the names of the arguments. -/
abbrev Given := List (String × String)

/-- How far an argument list has been read. -/
structure ArgumentState where
  given : Given := []
  /-- The last argument, which takes effect when the next one begins, and its value so far. -/
  pending : Option (Param × Option String) := none
  positionals : List Param
  /-- Whether all that follows is positional. -/
  literal : Bool := false

namespace ArgumentState

/-- Lets the pending argument take effect. -/
def settle (s : ArgumentState) : Except UsageFault ArgumentState :=
  match s.pending with
  | none => .ok s
  | some (_, none) => .error .invalidValue
  | some (p, some value) =>
    if (s.given.lookup p.name).isSome then .error .repeatedArgument
    else if p.accepts value then
      .ok { s with given := (p.name, value) :: s.given, pending := none }
    else .error .invalidValue

/-- Begins an argument. -/
def begin (s : ArgumentState) (p : Param) (value : Option String) :
    Except UsageFault ArgumentState := do
  return { ← s.settle with pending := some (p, value) }

/-- Takes in a flag or option, with the value attached to it. -/
def enter (s : ArgumentState) (p : Param) (attached : Option String) :
    Except UsageFault ArgumentState :=
  match p.kind, attached with
  | .valued, none => s.begin p none
  | .valued, some value => do (← s.begin p (some value)).settle
  | _, some _ => .error .unexpectedValue
  | .flag, none => do (← s.begin p (some "true")).settle
  | .help, none => do
    discard s.settle
    .error .help
  | .version, none => do
    discard s.settle
    .error .version

/-- Takes in a long flag or option after its two dashes. -/
def enterLong (g : Grammar) (s : ArgumentState) (text : List Char) :
    Except UsageFault ArgumentState :=
  let name := String.ofList (text.takeWhile (· != '='))
  match g.params.find? (·.name == name) with
  | none => .error .unknownArgument
  | some p => s.enter p <|
    match text.dropWhile (· != '=') with
    | _ :: value => some (String.ofList value)
    | [] => none

/-- Takes in short flags and options after their dash. What follows an option is its value. -/
def enterShort (g : Grammar) (s : ArgumentState) : List Char → Except UsageFault ArgumentState
  | [] => .ok s
  | c :: text =>
    match g.params.find? (·.short == some c) with
    | none => .error .unknownArgument
    | some p =>
      match p.kind, text with
      | .valued, '=' :: value => s.enter p (some (String.ofList value))
      | .valued, [] => s.enter p none
      | .valued, value => s.enter p (some (String.ofList value))
      | _, _ => do enterShort g (← s.enter p none) text

/-- Takes in a positional value. -/
def enterPositional (g : Grammar) (s : ArgumentState) (value : String) :
    Except UsageFault ArgumentState :=
  match s.positionals with
  | p :: more => do return { ← s.begin p (some value) with positionals := more }
  | [] =>
    if g.commands.isEmpty || (s.literal && g.commands.contains value) then .error .unknownArgument
    else .error .unknownCommand

/-- Whether the pending argument waits for its value. -/
def isWaiting (s : ArgumentState) : Bool :=
  match s.pending with
  | some (_, none) => true
  | _ => false

/-- Takes in an argument that is no command. -/
def enterArgument (g : Grammar) (s : ArgumentState) (text : String) :
    Except UsageFault ArgumentState :=
  if s.literal then s.enterPositional g text
  else match text.toList with
    | ['-', '-'] => .ok { s with literal := true }
    | '-' :: '-' :: name => s.enterLong g name
    | '-' :: c :: more => s.enterShort g (c :: more)
    | _ =>
      match s.pending with
      | some (p, none) => .ok { s with pending := some (p, some text) }
      | _ => s.enterPositional g text

end ArgumentState

namespace Grammar

/-- Reads arguments up to the name of a command; gives back the name and what follows it. -/
def readFrom (g : Grammar) : ArgumentState → List String → Except UsageFault (Given × List String)
  | s, [] => do return ((← s.settle).given, [])
  | s, text :: more =>
    if !s.literal && !s.isWaiting && g.commands.contains text then do
      return ((← s.settle).given, text :: more)
    else do readFrom g (← s.enterArgument g text) more

/-- Reads the arguments that a grammar covers, and leaves the rest. -/
def read (g : Grammar) (arguments : List String) : Except UsageFault (Given × List String) :=
  g.readFrom { positionals := g.positionals } arguments

/-- Adds what environment variables give to arguments that are not given. -/
def addVariables (environment : EnvMap) (given : Given) : List Param → Except UsageFault Given
  | [] => .ok given
  | p :: ps => do
    let given ← match given.lookup p.name, p.envName.bind environment.get? with
      | none, some value =>
        if p.accepts value then .ok ((p.name, value) :: given) else .error .invalidValue
      | _, _ => .ok given
    addVariables environment given ps

/-- Checks that nothing required is missing. -/
def checkRequired (g : Grammar) (given : Given) : Except UsageFault Unit :=
  if (g.params ++ g.positionals).all fun p => !p.required || (given.lookup p.name).isSome then
    .ok ()
  else .error .missingArgument

end Grammar

end EnvSettings
