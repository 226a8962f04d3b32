import EnvSettings.Proofs.Number
import EnvSettings.Value.Json

namespace EnvSettings

namespace JsonNumber

/-- A number of a document is never an infinity or a NaN. -/
def IsFinite : JsonNumber → Prop
  | float x => x.isFinite
  | _ => True

/-- Whether the number, if it is an integer, fits 64 bits with a sign. -/
def IsSigned : JsonNumber → Prop
  | large _ => False
  | _ => True

/-- The number as values have it: a float stands for an integer that is too large. -/
def rounded : JsonNumber → JsonNumber
  | large n => float (Float.ofNat n.toNat)
  | n => n

variable {n : JsonNumber}

/-- A number stays as it is if it is no large integer without a sign. -/
theorem rounded_eq_self_iff : n.rounded = n ↔ n.IsSigned := by
  cases n <;> simp [rounded, IsSigned]

end JsonNumber

namespace Json

variable {p : JsonNumber → Prop} {f : JsonNumber → JsonNumber} {j : Json}

/-- All numbers in a document have a property. -/
inductive EachNumber (p : JsonNumber → Prop) : Json → Prop
  | null : EachNumber p .null
  | bool (b : Bool) : EachNumber p (.bool b)
  | number {n : JsonNumber} (hn : p n) : EachNumber p (.number n)
  | string (s : String) : EachNumber p (.string s)
  | array {items : List Json} (hitems : ∀ j ∈ items, EachNumber p j) : EachNumber p (.array items)
  | object {entries : List (String × Json)} (hentries : ∀ e ∈ entries, EachNumber p e.2) :
    EachNumber p (.object entries)

mutual

/-- The document with other numbers in the places of its numbers. -/
def mapNumbers (f : JsonNumber → JsonNumber) : Json → Json
  | null => null
  | bool b => bool b
  | number n => number (f n)
  | string s => string s
  | array items => array (mapNumbersInItems f items)
  | object entries => object (mapNumbersInEntries f entries)

/-- A function on the numbers of the items. -/
def mapNumbersInItems (f : JsonNumber → JsonNumber) : List Json → List Json
  | [] => []
  | j :: js => mapNumbers f j :: mapNumbersInItems f js

/-- A function on the numbers of the entries. -/
def mapNumbersInEntries (f : JsonNumber → JsonNumber) :
    List (String × Json) → List (String × Json)
  | [] => []
  | (name, j) :: es => (name, mapNumbers f j) :: mapNumbersInEntries f es

end

/-- The numbers of an array are those of its items. -/
theorem mapNumbers_array (f : JsonNumber → JsonNumber) (items : List Json) :
    (array items).mapNumbers f = .array (items.map (mapNumbers f)) := by
  rw [mapNumbers]
  congr 1
  induction items with
  | nil => rfl
  | cons j items ih => rw [mapNumbersInItems, ih, List.map_cons]

/-- The numbers of an object are those of its entries. -/
theorem mapNumbers_object (f : JsonNumber → JsonNumber) (entries : List (String × Json)) :
    (object entries).mapNumbers f = .object (entries.map fun e => (e.1, e.2.mapNumbers f)) := by
  rw [mapNumbers]
  congr 1
  induction entries with
  | nil => rfl
  | cons e entries ih => rw [mapNumbersInEntries, ih, List.map_cons]

/-- All numbers of an array are those of its items. -/
theorem eachNumber_array {items : List Json} :
    (array items).EachNumber p ↔ ∀ j ∈ items, j.EachNumber p :=
  ⟨fun | .array hitems => hitems, .array⟩

/-- All numbers of an object are those of its entries. -/
theorem eachNumber_object {entries : List (String × Json)} :
    (object entries).EachNumber p ↔ ∀ e ∈ entries, e.2.EachNumber p :=
  ⟨fun | .object hentries => hentries, .object⟩

/-- What holds for a document as soon as it holds for its parts holds for all documents. -/
theorem treeInduction {motive : Json → Prop} (null : motive .null) (bool : ∀ b, motive (.bool b))
    (number : ∀ n, motive (.number n)) (string : ∀ s, motive (.string s))
    (array : ∀ items, (∀ j ∈ items, motive j) → motive (.array items))
    (object : ∀ entries : List (String × Json), (∀ e ∈ entries, motive e.2) →
      motive (.object entries)) : ∀ j, motive j
  | .null => null
  | .bool b => bool b
  | .number n => number n
  | .string s => string s
  | .array items => array items fun j _ => treeInduction null bool number string array object j
  | .object entries => object entries fun e _ =>
    treeInduction null bool number string array object e.2
termination_by j => sizeOf j
decreasing_by
  · rename_i hmember
    have hsize := List.sizeOf_lt_of_mem hmember
    simp only [Json.array.sizeOf_spec]
    omega
  · rename_i hmember
    have hsize := List.sizeOf_lt_of_mem hmember
    obtain ⟨name, j⟩ := e
    simp only [Json.object.sizeOf_spec, Prod.mk.sizeOf_spec] at hsize ⊢
    omega

/-- A list stays as it is if each of its elements does. -/
theorem map_eq_self_iff {α : Type} {g : α → α} {xs : List α} :
    xs.map g = xs ↔ ∀ x ∈ xs, g x = x := by
  have hsame : xs.map g = xs.map id ↔ ∀ x ∈ xs, g x = x := List.map_inj_left
  rwa [List.map_id] at hsame

/-- A document stays as it is exactly if each of its numbers does. -/
theorem mapNumbers_eq_self_iff : j.mapNumbers f = j ↔ j.EachNumber fun n => f n = n := by
  induction j using treeInduction with
  | null => exact iff_of_true rfl .null
  | bool b => exact iff_of_true rfl (.bool b)
  | number n =>
    rw [mapNumbers, number.injEq]
    exact ⟨fun hn => .number hn, fun | .number hn => hn⟩
  | string s => exact iff_of_true rfl (.string s)
  | array items ih =>
    rw [mapNumbers_array, array.injEq, eachNumber_array, map_eq_self_iff]
    exact forall₂_congr ih
  | object entries ih =>
    rw [mapNumbers_object, object.injEq, eachNumber_object, map_eq_self_iff]
    refine forall₂_congr fun e he => ?_
    rw [← ih e he, Prod.ext_iff]
    exact and_iff_right rfl

end Json

namespace Value

/-- Nulls, truth values, integers, finite floats and texts, and lists and maps of these. -/
inductive Plain : Value → Prop
  | null : Plain .null
  | bool (b : Bool) : Plain (.bool b)
  | int (n : Int64) : Plain (.int n)
  | float {x : Float} (hx : x.isFinite) : Plain (.float x)
  | str (s : String) : Plain (.str s)
  | list {items : List Value} (hitems : ∀ v ∈ items, Plain v) : Plain (.list items)
  | map {entries : Entries} (hentries : ∀ e ∈ entries, Plain e.2) : Plain (.map entries)

theorem toJson_list (items : List Value) : (list items).toJson = .array (items.map toJson) := by
  rw [toJson]
  congr 1
  induction items with
  | nil => rfl
  | cons v items ih => rw [itemsToJson, ih, List.map_cons]

theorem toJson_map (entries : Entries) :
    (map entries).toJson = .object (entries.map fun e => (e.1, e.2.toJson)) := by
  rw [toJson]
  congr 1
  induction entries with
  | nil => rfl
  | cons e entries ih => rw [entriesToJson, ih, List.map_cons]

theorem ofJson_array (items : List Json) : ofJson (.array items) = list (items.map ofJson) := by
  rw [ofJson]
  congr 1
  induction items with
  | nil => rfl
  | cons j items ih => rw [itemsOfJson, ih, List.map_cons]

theorem ofJson_object (entries : List (String × Json)) :
    ofJson (.object entries) = map (entries.map fun e => (e.1, ofJson e.2)) := by
  rw [ofJson]
  congr 1
  induction entries with
  | nil => rfl
  | cons e entries ih => rw [entriesOfJson, ih, List.map_cons]

/-- A finite float and an integer come back as the kind of number that they are. -/
theorem ofJson_toJson {v : Value} (hv : v.Plain) : ofJson v.toJson = v := by
  induction hv with
  | null | bool | int | str => rfl
  | float hx => rw [toJson, if_pos hx, ofJson, JsonNumber.toFloat]; nofun
  | list _ ih =>
    rw [toJson_list, ofJson_array, List.map_map]
    congr 1
    exact (List.map_congr_left ih).trans (List.map_id _)
  | map _ ih =>
    rw [toJson_map, ofJson_object, List.map_map]
    congr 1
    refine (List.map_congr_left fun e he => ?_).trans (List.map_id _)
    exact Prod.ext rfl (ih e he)

/-- A document comes back with floats in the places of its large integers. -/
theorem toJson_ofJson {j : Json} (hj : j.EachNumber JsonNumber.IsFinite) :
    (ofJson j).toJson = j.mapNumbers JsonNumber.rounded := by
  induction hj with
  | null | bool | string => rfl
  | @number n hn =>
    cases n with
    | int n => rfl
    | large n =>
      have hfinite := Number.isFinite_of_fits (Number.fits_ofNat n.toNat_lt)
      exact if_pos hfinite
    | float x => exact if_pos hn
  | array _ ih =>
    rw [ofJson_array, toJson_list, Json.mapNumbers_array, List.map_map]
    congr 1
    exact List.map_congr_left ih
  | object _ ih =>
    rw [ofJson_object, toJson_map, Json.mapNumbers_object, List.map_map]
    congr 1
    exact List.map_congr_left fun e he => Prod.ext rfl (ih e he)

/-- Plain values come back from JSON as they were. Documents come back from values with floats in
the places of integers beyond 64 bits with a sign and no other difference, so those without such
integers come back as they were. -/
theorem plain_json_inverse :
    (∀ v : Value, v.Plain → ofJson v.toJson = v) ∧
    ∀ j : Json, j.EachNumber JsonNumber.IsFinite →
      (ofJson j).toJson = j.mapNumbers JsonNumber.rounded ∧
      ((ofJson j).toJson = j ↔ j.EachNumber JsonNumber.IsSigned) := by
  refine ⟨fun v hv => ofJson_toJson hv, fun j hj => ⟨toJson_ofJson hj, ?_⟩⟩
  rw [toJson_ofJson hj, Json.mapNumbers_eq_self_iff]
  simp only [JsonNumber.rounded_eq_self_iff]

/-- A document that keeps its numbers, and one whose integer becomes a float. -/
theorem plain_json_inverse_entries :
    ofJson (toJson (.map [("a", .list [.int 1, .float 2.5, .str "x", .null])])) =
      .map [("a", .list [.int 1, .float 2.5, .str "x", .null])] ∧
    (ofJson (.object [("n", .number (.large 18446744073709551615))])).toJson =
      .object [("n", .number (.float 18446744073709551616))] := by
  refine ⟨plain_json_inverse.1 _ (.map ?_),
    (plain_json_inverse.2 _ (.object ?_)).1.trans ?_⟩
  · simp only [List.mem_singleton, forall_eq]
    refine .list ?_
    simp only [List.forall_mem_cons]
    exact ⟨.int 1, .float (by decide +kernel), .str "x", .null, nofun⟩
  · simp only [List.mem_singleton, forall_eq]
    exact .number trivial
  · rw [Json.mapNumbers_object]
    have hrounded : Float.ofNat (18446744073709551615 : UInt64).toNat = 18446744073709551616 := by
      decide +kernel
    simp only [List.map_cons, List.map_nil, Json.mapNumbers, JsonNumber.rounded, hrounded]

end Value

end EnvSettings
