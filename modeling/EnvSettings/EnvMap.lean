import Std.Data.ExtHashMap
import EnvSettings.Text.Case

namespace EnvSettings

/-- Names are told apart by equality. -/
local instance equivBEq_name : EquivBEq String where
  rfl := beq_self_eq_true _
  symm h := beq_iff_eq.2 (beq_iff_eq.1 h).symm
  trans h h' := beq_iff_eq.2 ((beq_iff_eq.1 h).trans (beq_iff_eq.1 h'))

/-- An insertion-ordered map from names to texts: the entries in the order of their first insertion,
and an index from names to positions. The index gives exactly the positions of the names, so no name
stands at two positions. The entries determine the map. -/
structure EnvMap where
  entries : Array (String × String)
  positions : Std.ExtHashMap String Nat
  positions_eq_some_iff : ∀ (name : String) (i : Nat),
    positions[name]? = some i ↔ entries[i]?.map Prod.fst = some name

namespace EnvMap

/-- The map without entries. -/
def empty : EnvMap where
  entries := #[]
  positions := ∅
  positions_eq_some_iff := by simp

instance : Inhabited EnvMap := ⟨empty⟩

/-- The entries in the order of their first insertion. -/
def toList (m : EnvMap) : List (String × String) :=
  m.entries.toList

/-- The names in the order of their first insertion. -/
def keys (m : EnvMap) : List String :=
  m.toList.map Prod.fst

/-- The number of entries. -/
def size (m : EnvMap) : Nat :=
  m.entries.size

/-- Whether there are no entries. -/
def isEmpty (m : EnvMap) : Bool :=
  m.entries.isEmpty

/-- The text stored under a name. -/
def get? (m : EnvMap) (name : String) : Option String :=
  m.positions[name]?.bind fun i => m.entries[i]?.map Prod.snd

/-- Whether a text is stored under a name. -/
def contains (m : EnvMap) (name : String) : Bool :=
  m.positions.contains name

/-- Stores a text under a name, and gives the text that was there. A name that is present keeps its
position. -/
def exchange (m : EnvMap) (name text : String) : Option String × EnvMap :=
  match h : m.positions[name]? with
  | some i => (m.entries[i]?.map Prod.snd,
    { entries := m.entries.setIfInBounds i (name, text)
      positions := m.positions
      positions_eq_some_iff := by
        intro k j
        rw [m.positions_eq_some_iff, Array.getElem?_setIfInBounds]
        have hi := (m.positions_eq_some_iff name i).1 h
        by_cases hij : i = j
        · subst hij
          rcases hx : m.entries[i]? with _ | ⟨x⟩
          · simp [hx] at hi
          · have hlt : i < m.entries.size := (Array.getElem?_eq_some_iff.1 hx).1
            simp only [hx, Option.map_some, Option.some.injEq] at hi
            simp [hlt, hi]
        · simp [hij] })
  | none => (none,
    { entries := m.entries.push (name, text)
      positions := m.positions.insert name m.entries.size
      positions_eq_some_iff := by
        intro k j
        have hfresh : ∀ i : Nat, m.entries[i]?.map Prod.fst ≠ some name := by
          intro i hi
          have := (m.positions_eq_some_iff name i).2 hi
          simp [h] at this
        rw [Std.ExtHashMap.getElem?_insert, Array.getElem?_push]
        by_cases hk : name = k
        · subst hk
          by_cases hj : j = m.entries.size
          · simp [hj]
          · have := hfresh j
            simp [hj, this, Ne.symm hj]
        · by_cases hj : j = m.entries.size
          · subst hj
            have : m.positions[k]? ≠ some m.entries.size := by
              intro hp
              have := (m.positions_eq_some_iff k _).1 hp
              simp at this
            simp [hk, this]
          · simp [hk, hj, m.positions_eq_some_iff] })

/-- Stores a text under a name, whatever was there. -/
def insert (m : EnvMap) (name text : String) : EnvMap :=
  (m.exchange name text).2

/-- Stores entries one after the other. -/
def insertAll (m : EnvMap) (entries : List (String × String)) : EnvMap :=
  entries.foldl (fun m e => m.insert e.1 e.2) m

/-- The map that results from storing the entries in their order. -/
def ofList (entries : List (String × String)) : EnvMap :=
  empty.insertAll entries

/-- Stores a text in a list of entries: in place if the name is there, else at the end. -/
def insertEntry (name text : String) : List (String × String) → List (String × String)
  | [] => [(name, text)]
  | e :: es => if e.1 = name then (name, text) :: es else e :: insertEntry name text es

instance : BEq EnvMap := ⟨fun m m' => m.toList == m'.toList⟩

end EnvMap

/-- The environment name of a setting: the lead text and the name, in upper case unless case
matters. -/
def envKey (lead name : String) (caseSensitive : Bool) : String :=
  if caseSensitive then lead ++ name else Text.upper (lead ++ name)

end EnvSettings
