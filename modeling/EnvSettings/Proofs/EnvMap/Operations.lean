import Mathlib
import EnvSettings.Proofs.EnvMap

namespace EnvSettings.EnvMap

/-- What changes a map: an entry is stored, entries are stored one after the other, or a new map is
made of entries. -/
inductive Operation where
  | insert (name text : String)
  | extend (entries : List (String × String))
  | collect (entries : List (String × String))

/-- The map after an operation. -/
def Operation.apply (m : EnvMap) : Operation → EnvMap
  | insert name text => m.insert name text
  | extend entries => m.insertAll entries
  | collect entries => ofList entries

/-- The map after operations that begin with the empty map. -/
def run (ops : List Operation) : EnvMap :=
  ops.foldl Operation.apply empty

/-- A map as names in an order, and the text under each name. -/
structure Ordered where
  names : List String
  text : String → Option String

namespace Ordered

/-- The map without names. -/
def empty : Ordered := ⟨[], fun _ => none⟩

/-- A new name comes last; a name that is there keeps its place. The text is replaced. -/
def insert (o : Ordered) (name text : String) : Ordered where
  names := if name ∈ o.names then o.names else o.names ++ [name]
  text := Function.update o.text name (some text)

/-- Stores entries one after the other. -/
def insertAll (o : Ordered) (entries : List (String × String)) : Ordered :=
  entries.foldl (fun o e => o.insert e.1 e.2) o

/-- The map after an operation. -/
def apply (o : Ordered) : Operation → Ordered
  | .insert name text => o.insert name text
  | .extend entries => o.insertAll entries
  | .collect entries => empty.insertAll entries

/-- The map after operations that begin with the empty map. -/
def run (ops : List Operation) : Ordered :=
  ops.foldl apply empty

/-- The names with their texts, in order. -/
def entries (o : Ordered) : List (String × String) :=
  o.names.filterMap fun name => (o.text name).map (name, ·)

end Ordered

/-- The index has the position of every name and nothing else, and no name stands twice. -/
structure InStep (m : EnvMap) : Prop where
  nodup : (m.entries.toList.map Prod.fst).Nodup
  indexed : ∀ name, name ∈ m.positions ↔ name ∈ m.entries.toList.map Prod.fst
  position : ∀ name i, m.positions[name]? = some i ↔
    ∃ hi : i < m.entries.size, m.entries[i].1 = name

/-- All questions to a map have the answers of the ordered map. -/
structure Answers (m : EnvMap) (o : Ordered) : Prop where
  get? : ∀ name, m.get? name = o.text name
  previous : ∀ name text, (m.exchange name text).1 = o.text name
  contains : ∀ name, m.contains name = (o.text name).isSome
  keys : m.keys = o.names
  size : m.size = o.names.length
  toList : m.toList = o.entries

/-- The index of every map is in step with its entries. -/
theorem inStep (m : EnvMap) : m.InStep where
  nodup := m.nodup_keys
  indexed name := by
    have hcontains := m.contains_eq name
    rwa [contains, Bool.eq_iff_iff, List.contains_iff_mem, Std.ExtHashMap.contains_iff_mem]
      at hcontains
  position name i := by
    rw [m.positions_eq_some_iff, Option.map_eq_some_iff]
    simp only [Array.getElem?_eq_some_iff]
    constructor
    · rintro ⟨_, ⟨hi, rfl⟩, hname⟩
      exact ⟨hi, hname⟩
    · rintro ⟨hi, hname⟩
      exact ⟨_, ⟨hi, rfl⟩, hname⟩

variable {m m' : EnvMap} {o : Ordered}

/-- The names in their order and the texts determine all other answers. -/
theorem Answers.of_keys_get? (hkeys : m.keys = o.names) (hget : ∀ name, m.get? name = o.text name) :
    m.Answers o where
  get? := hget
  previous name text := (m.exchange_fst name text).trans (hget name)
  contains name := by
    rw [contains_eq, ← hget, Bool.eq_iff_iff, List.contains_iff_mem, mem_keys_iff,
      Option.isSome_iff_ne_none]
  keys := hkeys
  size := by
    rw [← hkeys, EnvMap.keys, List.length_map, EnvMap.toList, Array.length_toList, EnvMap.size]
  toList := by
    rw [Ordered.entries, ← hkeys, EnvMap.keys, List.filterMap_map]
    refine ((List.filterMap_congr fun e he => ?_).trans List.filterMap_some).symm
    rw [Function.comp_apply, ← hget, get?_eq_some_iff.2 he]
    rfl

/-- The empty maps have the same answers. -/
theorem answers_empty : empty.Answers .empty :=
  .of_keys_get? rfl fun _ => get?_eq_none_iff.2 List.not_mem_nil

theorem Answers.insert (hanswers : m.Answers o) (name text : String) :
    (m.insert name text).Answers (o.insert name text) := by
  refine .of_keys_get? ?_ fun other => ?_
  · rw [Ordered.insert, ← hanswers.keys]
    dsimp only
    split_ifs with hmem
    · exact keys_insert_of_mem hmem
    · exact keys_insert_of_not_mem hmem
  · rw [get?_insert, hanswers.get?]
    exact (Function.update_apply o.text name (some text) other).symm

theorem Answers.insertAll (hanswers : m.Answers o) (entries : List (String × String)) :
    (m.insertAll entries).Answers (o.insertAll entries) := by
  induction entries generalizing m o with
  | nil => exact hanswers
  | cons e entries ih => exact ih (hanswers.insert e.1 e.2)

theorem Answers.apply (hanswers : m.Answers o) (op : Operation) :
    (op.apply m).Answers (o.apply op) := by
  cases op with
  | insert name text => exact hanswers.insert name text
  | extend entries => exact hanswers.insertAll entries
  | collect entries => exact answers_empty.insertAll entries

/-- Operations keep the answers the same. -/
theorem Answers.foldl (hanswers : m.Answers o) (ops : List Operation) :
    (ops.foldl Operation.apply m).Answers (ops.foldl Ordered.apply o) := by
  induction ops generalizing m o with
  | nil => exact hanswers
  | cons op ops ih => exact ih (hanswers.apply op)

/-- Maps are compared by their entries. -/
theorem beq_iff_eq_toList : (m == m') = true ↔ m.toList = m'.toList :=
  beq_iff_eq (a := m.toList)

/-- After any operations the index is in step with the entries, and the map answers like the ordered
map after the same operations. Maps are equal in both of their parts exactly if their entries are
the same, whatever operations have made them. -/
theorem run_answers (ops : List Operation) :
    (run ops).InStep ∧ (run ops).Answers (.run ops) ∧ ∀ ops',
      ((run ops).entries = (run ops').entries ∧ (run ops).positions = (run ops').positions ↔
        (run ops).toList = (run ops').toList) ∧
      ((run ops == run ops') = true ↔ run ops = run ops') := by
  refine ⟨inStep _, answers_empty.foldl ops, fun ops' => ⟨⟨fun h => ?_, fun h => ?_⟩, ?_⟩⟩
  · exact congrArg Array.toList h.1
  · rw [toList_inj.1 h]
    exact ⟨rfl, rfl⟩
  · rw [beq_iff_eq_toList, toList_inj]

end EnvSettings.EnvMap
