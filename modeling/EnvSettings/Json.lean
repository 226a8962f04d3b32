import EnvSettings.Entries

namespace EnvSettings

/-- A JSON number: an integer that fits 64 bits with a sign, a larger one that fits 64 bits without,
or a float. -/
inductive JsonNumber where
  | int (value : Int64)
  | large (value : UInt64)
  | float (value : Float)

/-- JSON values. The entries of an object stand in ascending order of their names. -/
inductive Json where
  | null
  | bool (value : Bool)
  | number (value : JsonNumber)
  | string (value : String)
  | array (items : List Json)
  | object (entries : List (String × Json))

namespace JsonNumber

/-- The number as a float. -/
def toFloat : JsonNumber → Float
  | int value => Float.ofInt value.toInt
  | large value => Float.ofNat value.toNat
  | float value => value

end JsonNumber

instance : Inhabited Json := ⟨.null⟩

end EnvSettings
