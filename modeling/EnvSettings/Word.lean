namespace EnvSettings.Word

/-- The largest integer that fits 64 bits with a sign. -/
def signedMax : Nat := 0x7fffffffffffffff

/-- Whether an integer fits 64 bits with a sign. -/
def fitsSigned (n : Int) : Bool :=
  -(signedMax : Int) - 1 ≤ n && n ≤ signedMax

/-- Whether an integer fits 64 bits without a sign. -/
def fitsUnsigned (n : Int) : Bool :=
  0 ≤ n && n < UInt64.size

end EnvSettings.Word
