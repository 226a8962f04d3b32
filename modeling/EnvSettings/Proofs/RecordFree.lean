import EnvSettings.Proofs.Resolution

namespace EnvSettings

namespace Value

mutual

/-- Whether a value holds no record, and no member of an enum unless these are let in. -/
def recordFree (enums : Bool) : Value → Bool
  | enum _ => enums
  | list items => itemsRecordFree enums items
  | set items => itemsRecordFree enums items
  | map entries => entriesRecordFree enums entries
  | record _ _ => false
  | _ => true

/-- Whether a list has no records in it. -/
def itemsRecordFree (enums : Bool) : List Value → Bool
  | [] => true
  | v :: vs => recordFree enums v && itemsRecordFree enums vs

/-- Whether the entries of a map have no records in them. -/
def entriesRecordFree (enums : Bool) : List (String × Value) → Bool
  | [] => true
  | (_, v) :: es => recordFree enums v && entriesRecordFree enums es

end

variable {enums : Bool} {v : Value} {vs : List Value} {es : Entries}

/-- A list has no records if no item of it has any. -/
theorem itemsRecordFree_iff : itemsRecordFree enums vs ↔ ∀ v ∈ vs, v.recordFree enums := by
  induction vs with
  | nil => simp [itemsRecordFree]
  | cons v vs ih => simp [itemsRecordFree, ih]

/-- Entries have no records if no value in them has any. -/
theorem entriesRecordFree_iff : entriesRecordFree enums es ↔ ∀ e ∈ es, e.2.recordFree enums := by
  induction es with
  | nil => simp [entriesRecordFree]
  | cons e es ih =>
    obtain ⟨name, v⟩ := e
    simp [entriesRecordFree, ih]

@[simp]
theorem recordFree_list : (list vs).recordFree enums ↔ ∀ v ∈ vs, v.recordFree enums := by
  rw [recordFree, itemsRecordFree_iff]

@[simp]
theorem recordFree_set : (set vs).recordFree enums ↔ ∀ v ∈ vs, v.recordFree enums := by
  rw [recordFree, itemsRecordFree_iff]

/-- The items of a value without records have none. -/
theorem recordFree_of_mem (hitems : v = .list vs ∨ v = .set vs) (hv : v.recordFree enums) :
    ∀ w ∈ vs, w.recordFree enums := by
  obtain rfl | rfl := hitems
  · exact recordFree_list.1 hv
  · exact recordFree_set.1 hv

@[simp]
theorem recordFree_map : (map es).recordFree enums ↔ ∀ e ∈ es, e.2.recordFree enums := by
  rw [recordFree, entriesRecordFree_iff]

mutual

/-- Plain data has no records. -/
theorem recordFree_ofJson (enums : Bool) : ∀ j : Json, (ofJson j).recordFree enums
  | .null => rfl
  | .bool _ => rfl
  | .number (.int _) => rfl
  | .number (.large _) => rfl
  | .number (.float _) => rfl
  | .string _ => rfl
  | .array items => by
    rw [ofJson, recordFree_list]
    exact recordFree_itemsOfJson enums items
  | .object entries => by
    rw [ofJson, recordFree_map]
    exact recordFree_entriesOfJson enums entries

theorem recordFree_itemsOfJson (enums : Bool) :
    ∀ js : List Json, ∀ v ∈ itemsOfJson js, v.recordFree enums
  | [] => by simp [itemsOfJson]
  | j :: js => by
    rw [itemsOfJson, List.forall_mem_cons]
    exact ⟨recordFree_ofJson enums j, recordFree_itemsOfJson enums js⟩

theorem recordFree_entriesOfJson (enums : Bool) :
    ∀ entries : List (String × Json), ∀ e ∈ entriesOfJson entries, e.2.recordFree enums
  | [] => by simp [entriesOfJson]
  | (name, j) :: entries => by
    rw [entriesOfJson, List.forall_mem_cons]
    exact ⟨recordFree_ofJson enums j, recordFree_entriesOfJson enums entries⟩

end

end Value

open Value

variable {enums : Bool}

/-- Entries whose values hold no records. -/
def RecordFree (enums : Bool) (es : Entries) : Prop :=
  ∀ e ∈ es, e.2.recordFree enums

/-- The entries that a value without records gives have none. -/
theorem RecordFree.of_givesEntries {raw : Value} {es : Entries} (hraw : raw.recordFree enums)
    (hgives : Resolver.GivesEntries raw es) : RecordFree enums es := by
  cases hgives with
  | map es => exact recordFree_map.1 hraw
  | text hparse hobject => exact recordFree_map.1 (hobject ▸ recordFree_ofJson enums _)

namespace FieldType

mutual

/-- The schemas that a type mentions. -/
def schemas : FieldType → List SchemaId
  | list item => schemas item
  | set item => schemas item
  | map value => schemas value
  | tuple members => allSchemas members
  | nested id => [id]
  | union members => allSchemas members
  | _ => []

/-- The schemas that members refer to. -/
def allSchemas : List FieldType → List SchemaId
  | [] => []
  | t :: ts => schemas t ++ allSchemas ts

end

/-- A schema that members refer to is one that a member refers to. -/
theorem mem_allSchemas {ts : List FieldType} {id : SchemaId} :
    id ∈ allSchemas ts ↔ ∃ t ∈ ts, id ∈ t.schemas := by
  induction ts with
  | nil => simp [allSchemas]
  | cons t ts ih => simp [allSchemas, ih]

/-- A type that stands for a schema is nested itself, or it is a union with a nested member. -/
theorem eq_or_mem_of_nestedSchema? {t : FieldType} {id : SchemaId}
    (hnested : t.nestedSchema? = some id) :
    t = .nested id ∨ ∃ members, t = .union members ∧ .nested id ∈ members := by
  cases t with
  | nested id' => exact .inl (congrArg nested (Option.some.inj hnested))
  | union members =>
    obtain ⟨t, hmember, ht⟩ := List.exists_of_findSome?_eq_some hnested
    cases t with
    | nested id' =>
      obtain rfl : id' = id := Option.some.inj ht
      exact .inr ⟨members, rfl, hmember⟩
    | _ => cases ht
  | _ => cases hnested

/-- The nested schema of a type is one that it refers to. -/
theorem mem_schemas_of_nestedSchema? {t : FieldType} {id : SchemaId}
    (hnested : t.nestedSchema? = some id) : id ∈ t.schemas := by
  obtain rfl | ⟨members, rfl, hmember⟩ := eq_or_mem_of_nestedSchema? hnested
  · exact List.mem_singleton_self id
  · exact mem_allSchemas.2 ⟨_, hmember, List.mem_singleton_self id⟩

/-- Induction on unions within unions; all other types are taken as they are. -/
@[elab_as_elim]
theorem unionInduction {motive : FieldType → Prop}
    (union : ∀ members, (∀ t ∈ members, motive t) → motive (.union members))
    (other : ∀ t, (∀ members, t ≠ .union members) → motive t) : ∀ t, motive t
  | .union members => union members fun t _ => unionInduction union other t
  | .any | .str | .bool | .int | .float | .date | .time | .datetime | .duration | .null
  | .enum _ | .list _ | .set _ | .map _ | .tuple _ | .nested _ => other _ nofun
termination_by t => sizeOf t
decreasing_by
  rename_i hmember
  have hsize := List.sizeOf_lt_of_mem hmember
  simp only [FieldType.union.sizeOf_spec]
  omega

end FieldType

namespace Catalog

/-- A schema that a root schema mentions, or that stands below one that it mentions. -/
inductive Reaches (c : Catalog) (root : SchemaId) : SchemaId → Prop
  | root : Reaches c root root
  | field {id next : SchemaId} {f : Field} (hid : Reaches c root id)
    (hf : f ∈ (c.schema id).fields) (hnext : next ∈ f.type.schemas) : Reaches c root next

/-- Schemas that mention no others are all that a root among them reaches. -/
theorem Reaches.mem_of_closed {c : Catalog} {root id : SchemaId} (hid : c.Reaches root id)
    {ids : List SchemaId} (hroot : root ∈ ids)
    (hclosed : ∀ id ∈ ids, ∀ f ∈ (c.schema id).fields, ∀ next ∈ f.type.schemas, next ∈ ids) :
    id ∈ ids := by
  induction hid with
  | root => exact hroot
  | field _ hf hnext ih => exact hclosed _ ih _ hf _ hnext

/-- No schema below the root has transforms, and no default there holds a record. -/
structure Plain (c : Catalog) (root : SchemaId) (enums : Bool) : Prop where
  transformFree : ∀ id, c.Reaches root id → (c.schema id).TransformFree
  default : ∀ id, c.Reaches root id → ∀ f ∈ (c.schema id).fields, ∀ v, f.info.default = some v →
    v.recordFree enums

/-- A catalog is plain if a set of schemas that is closed under references has no transforms and no
records among its defaults. -/
theorem Plain.of_closed {c : Catalog} {root : SchemaId} (ids : List SchemaId) (hroot : root ∈ ids)
    (hclosed : ∀ id ∈ ids, ∀ f ∈ (c.schema id).fields, ∀ next ∈ f.type.schemas, next ∈ ids)
    (hfree : ∀ id ∈ ids, (c.schema id).transforms.slots.isEmpty ∧
      (c.schema id).recordTransforms.isEmpty)
    (hdefault : ∀ id ∈ ids, ∀ f ∈ (c.schema id).fields,
      f.info.default.all (recordFree enums)) : c.Plain root enums := by
  refine ⟨fun id hid => ?_, fun id hid f hf => ?_⟩
  · obtain ⟨hslots, hrecord⟩ := hfree id (hid.mem_of_closed hroot hclosed)
    refine ⟨fun stage name => ?_, List.isEmpty_iff.1 hrecord⟩
    rw [TransformRegistry.transforms, TransformRegistry.slot, List.isEmpty_iff.1 hslots]
    cases stage <;> rfl
  · exact (Option.all_eq_true _ _).1 (hdefault id (hid.mem_of_closed hroot hclosed) f hf)

/-- What a plain schema has for a field, given or by default, has no records. -/
theorem Plain.given {c : Catalog} {root id : SchemaId} (hplain : c.Plain root enums)
    (hid : c.Reaches root id) {f : Field} (hf : f ∈ (c.schema id).fields) {es : Entries}
    (hes : RecordFree enums es) {v : Value}
    (hgiven : (es.lookup f.name).or f.info.default = some v) : v.recordFree enums := by
  obtain hlookup | ⟨-, hdefault⟩ := Option.or_eq_some_iff.1 hgiven
  · exact hes _ (Entries.mem_of_lookup hlookup)
  · exact hplain.default id hid f hf v hdefault

end Catalog

namespace RecordFree

variable {data : Entries}

theorem putSorted (hdata : RecordFree enums data) (name : String) {v : Value}
    (hv : v.recordFree enums) : RecordFree enums (Entries.putSorted name v data) := by
  intro e hmem
  obtain rfl | hmem := Entries.mem_putSorted hmem
  · exact hv
  · exact hdata e hmem

/-- The map under a name has no records if the entries have none. -/
theorem innerMap (hdata : RecordFree enums data) (name : String) :
    RecordFree enums (Projection.innerMap name data) := by
  unfold Projection.innerMap
  split
  · rename_i hlookup
    exact recordFree_map.1 (hdata _ (Entries.mem_of_lookup hlookup))
  · simp [RecordFree]

/-- A change at a path adds no records if it adds none to the map there. -/
theorem editAt {change : Entries → Entries}
    (hchange : ∀ data, RecordFree enums data → RecordFree enums (change data))
    (hdata : RecordFree enums data) (names : List String) :
    RecordFree enums (Projection.editAt change names data) := by
  induction names generalizing data with
  | nil => exact hchange data hdata
  | cons name names ih =>
    exact hdata.putSorted name (recordFree_map.2 (ih (hdata.innerMap name)))

theorem edit (hdata : RecordFree enums data) (r : Projection.Route) (text : String) :
    RecordFree enums (r.edit text data) := by
  refine hdata.editAt (fun data hdata => ?_) r.entered
  unfold Projection.store
  split
  · exact hdata
  · exact hdata.putSorted _ rfl

/-- Environment values add no records, one after the other. -/
theorem applyEdits (hdata : RecordFree enums data)
    (edits : List (Projection.Route × String)) :
    RecordFree enums (Projection.applyEdits edits data) := by
  induction edits generalizing data with
  | nil => exact hdata
  | cons e edits ih => exact ih (hdata.edit e.1 e.2)

end RecordFree

namespace Loader

variable {l : Loader}

/-- What environment names and overrides set holds no records if no override does. -/
theorem recordFree_payload (hoverrides : RecordFree enums l.overrides) {bound : Option Nat}
    {env : EnvMap} {data : Entries} (hpayload : l.payload bound env = .ok data) :
    RecordFree enums data := by
  obtain ⟨-, rfl⟩ := payload_eq_ok_iff.1 hpayload
  have hprojected : RecordFree enums (Projection.applyEdits (l.edits env) []) :=
    RecordFree.applyEdits (by simp [RecordFree]) _
  have hdeclared : RecordFree enums
      (l.overrides.filter fun o => (Schema.field? l.schema.toShape o.1).isSome) :=
    fun o hmem => hoverrides o (List.mem_of_mem_filter hmem)
  unfold settings
  generalize l.overrides.filter _ = declared at hdeclared
  generalize Projection.applyEdits _ _ = projected at hprojected
  induction declared generalizing projected with
  | nil => exact hprojected
  | cons o os ih =>
    obtain ⟨hhead, htail⟩ := List.forall_mem_cons.1 hdeclared
    exact ih htail _ (hprojected.putSorted o.1 hhead)

/-- The raw value of a field holds no records if no override and no default of it does. -/
theorem recordFree_rawValue (hoverrides : RecordFree enums l.overrides) {bound : Option Nat}
    {env : EnvMap} {data : Entries} (hpayload : l.payload bound env = .ok data) {f : Field}
    (hdefault : ∀ v, f.info.default = some v → v.recordFree enums) {raw : Value}
    (hraw : l.rawValue data env f = .ok raw) : raw.recordFree enums := by
  obtain hmem | ⟨text, rfl⟩ | hraw := rawValue_eq_ok hraw
  · exact recordFree_payload hoverrides hpayload _ hmem
  · rfl
  · exact hdefault raw hraw

end Loader

end EnvSettings
