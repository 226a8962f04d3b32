namespace EnvSettings

/-- A defect of an env file, found at one of its lines. -/
inductive LineDefect where
  | missingDelimiter
  | emptyKey
  | invalidName
  | duplicateKey (key : String)
  | textAfterQuote
  | unterminatedQuote
  | cyclicReference (chain : List String)
  | undefinedReference (name : String)
  deriving DecidableEq, Repr

/-- The reason that a message gives for a defect. -/
def LineDefect.message : LineDefect → String
  | missingDelimiter => "missing '=' delimiter"
  | emptyKey => "empty key"
  | invalidName => "invalid variable name"
  | duplicateKey key => s!"duplicate key: {key}"
  | textAfterQuote => "unexpected characters after closing quote"
  | unterminatedQuote => "unterminated quoted value"
  | cyclicReference chain => "cyclic variable reference: " ++ " -> ".intercalate chain
  | undefinedReference name => s!"undefined variable reference: {name}"

end EnvSettings
