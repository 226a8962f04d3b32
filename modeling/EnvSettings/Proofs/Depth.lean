import EnvSettings.Proofs.Conversion

namespace EnvSettings

open Projection (Fits)

namespace Value

mutual

/-- How many records lie in each other in a value, in collections or not. -/
def records : Value → Nat
  | list items => recordsInItems items
  | set items => recordsInItems items
  | map entries => recordsInEntries entries
  | record _ fields => recordsInEntries fields + 1
  | _ => 0

/-- The greatest number of records that lie in each other in an item. -/
def recordsInItems : List Value → Nat
  | [] => 0
  | v :: vs => max (records v) (recordsInItems vs)

/-- The greatest number of records that lie in each other in an entry. -/
def recordsInEntries : List (String × Value) → Nat
  | [] => 0
  | (_, v) :: es => max (records v) (recordsInEntries es)

end

mutual

/-- In a value without records none lie in each other. -/
theorem records_eq_zero {enums : Bool} : ∀ v : Value, v.recordFree enums → v.records = 0
  | list items, hfree => by
    rw [records, recordsInItems_eq_zero items (recordFree_list.1 hfree)]
  | set items, hfree => by
    rw [records, recordsInItems_eq_zero items (recordFree_set.1 hfree)]
  | map entries, hfree => by
    rw [records, recordsInEntries_eq_zero entries (recordFree_map.1 hfree)]
  | null, _ | bool _, _ | int _, _ | float _, _ | str _, _ | date _, _ | time _, _
  | timestamp _, _ | zoned _, _ | duration _, _ | enum _, _ => rfl

theorem recordsInItems_eq_zero {enums : Bool} :
    ∀ vs : List Value, (∀ v ∈ vs, v.recordFree enums) → recordsInItems vs = 0
  | [], _ => rfl
  | v :: vs, hfree => by
    obtain ⟨hhead, htail⟩ := List.forall_mem_cons.1 hfree
    rw [recordsInItems, records_eq_zero v hhead, recordsInItems_eq_zero vs htail, Nat.max_self]

theorem recordsInEntries_eq_zero {enums : Bool} :
    ∀ es : Entries, (∀ e ∈ es, e.2.recordFree enums) → recordsInEntries es = 0
  | [], _ => rfl
  | (_, v) :: es, hfree => by
    obtain ⟨hhead, htail⟩ := List.forall_mem_cons.1 hfree
    rw [recordsInEntries, records_eq_zero v hhead, recordsInEntries_eq_zero es htail, Nat.max_self]

end

end Value

namespace FieldType

/-- Members refer to no schemas if none of them does. -/
theorem allSchemas_eq_nil_iff {ts : List FieldType} :
    allSchemas ts = [] ↔ ∀ t ∈ ts, t.schemas = [] := by
  induction ts with
  | nil => simp [allSchemas]
  | cons t ts ih => simp [allSchemas, ih]

/-- No collection of the type is of records: it is nested itself or mentions no schema, or it is a
union of such members. -/
def Direct : FieldType → Prop
  | nested _ => True
  | union members => ∀ t ∈ members, (∃ id, t = nested id) ∨ t.schemas = []
  | t => t.schemas = []

/-- A direct type without a nested schema refers to no schema at all. -/
theorem Direct.schemas_eq_nil {t : FieldType} (hdirect : t.Direct)
    (hnested : t.nestedSchema? = none) : t.schemas = [] := by
  cases t with
  | nested id => cases hnested
  | union members =>
    refine allSchemas_eq_nil_iff.2 fun t hmember => ?_
    obtain ⟨id, rfl⟩ | hnil := hdirect t hmember
    · cases List.findSome?_eq_none_iff.1 hnested _ hmember
    · exact hnil
  | _ => exact hdirect

end FieldType

/-- No schema below the root has a field with collections of records. -/
def Catalog.Direct (c : Catalog) (root : SchemaId) : Prop :=
  ∀ id, c.Reaches root id → ∀ f ∈ (c.schema id).fields, f.type.Direct

/-- A record lies so many levels below the entries of some fields; each level is a nested field that
holds a record. -/
inductive HoldsRecord (c : Catalog) : List Field → Entries → Nat → Prop
  | itself (fs : List Field) (es : Entries) : HoldsRecord c fs es 0
  | field {fs : List Field} {es inner : Entries} {f : Field} {name schema : String} {id : SchemaId}
    {n : Nat} (hfield : (f, name, .record schema inner) ∈ fs.zip es)
    (hnested : f.type.nestedSchema? = some id)
    (hinner : HoldsRecord c (c.schema id).fields inner n) : HoldsRecord c fs es (n + 1)

/-- A record in a later field is still there behind a first field. -/
theorem HoldsRecord.cons {c : Catalog} {fs : List Field} {es : Entries} {n : Nat}
    (hholds : HoldsRecord c fs es n) (f : Field) (e : String × Value) :
    HoldsRecord c (f :: fs) (e :: es) n := by
  cases hholds with
  | itself => exact .itself _ _
  | field hfield hnested hinner => exact .field (List.mem_cons_of_mem _ hfield) hnested hinner

theorem ScalarOf.recordFree {t : FieldType} {v : Value} (hv : ScalarOf t v) :
    v.recordFree true := by
  cases hv <;> rfl

/-- What holds of the second parts of all pairs holds of all second parts. -/
theorem forall_mem_of_forall₂ {α β : Type} {P : β → Prop} {as : List α} {bs : List β}
    (hall : List.Forall₂ (fun _ b => P b) as bs) : ∀ b ∈ bs, P b := by
  induction hall with
  | nil => simp
  | cons hb _ ih => exact List.forall_mem_cons.2 ⟨hb, ih⟩

namespace Convert

variable {c : Catalog} {build : RecordBuilder}

/-- Conversion to a type that mentions no schema makes no records. -/
theorem recordFree_toType {t : FieldType} {v w : Value} {place : String} (ht : t.schemas = [])
    (hv : v.recordFree true) (hw : toType c build t v place = .ok w) : w.recordFree true := by
  cases gives_of_toType hw with
  | any => exact hv
  | scalar hscalar => exact hscalar.recordFree
  | enum => rfl
  | list hitems heach =>
    rw [FieldType.schemas] at ht
    exact Value.recordFree_list.2 (forall_mem_eachItem (fun v hmem place w hw =>
      recordFree_toType ht (Value.recordFree_of_mem hitems hv v hmem) hw) heach)
  | set hitems heach =>
    rw [FieldType.schemas] at ht
    have hws := forall_mem_eachItem (fun v hmem place w hw =>
      recordFree_toType ht (Value.recordFree_of_mem hitems hv v hmem) hw) heach
    exact Value.recordFree_set.2 (distinct_induct hws (List.forall_mem_nil _) .nil).1
  | map heach =>
    rw [FieldType.schemas] at ht
    exact Value.recordFree_map.2 (forall_mem_eachEntry (fun e hmem place w hw =>
      recordFree_toType ht (Value.recordFree_map.1 hv e hmem) hw) heach)
  | tuple hlength heach =>
    have hitems := Value.recordFree_list.1 hv
    have hws := forall₂_toEach (P := fun _ w => w.recordFree true) hlength
      (fun t hmember v hmem place w hw =>
        recordFree_toType (FieldType.allSchemas_eq_nil_iff.1 ht t hmember) (hitems v hmem) hw) heach
    exact Value.recordFree_list.2 (forall_mem_of_forall₂ hws)
  | record | built => cases ht
  | null => rfl
  | member hmember hw =>
    exact recordFree_toType (FieldType.allSchemas_eq_nil_iff.1 ht _ hmember) hv hw
termination_by sizeOf t

/-- A plain value that becomes a record is a map. -/
theorem map_of_nested {id : SchemaId} {v w : Value} {place : String} (hv : v.recordFree true)
    (hw : toType c build (.nested id) v place = .ok w) : ∃ entries, v = .map entries := by
  cases gives_of_toType hw with
  | scalar hscalar => cases hscalar
  | record => cases hv
  | built => exact ⟨_, rfl⟩

/-- Conversion makes no records of anything but entries, if no collection is of records. -/
theorem recordFree_of_direct {t : FieldType} {v w : Value} {place : String} (ht : t.Direct)
    (hv : v.recordFree true) (hmap : ∀ entries, v ≠ .map entries)
    (hw : toType c build t v place = .ok w) : w.recordFree true := by
  cases t with
  | nested id =>
    obtain ⟨entries, heq⟩ := map_of_nested hv hw
    exact absurd heq (hmap entries)
  | union members =>
    cases gives_of_toType hw with
    | scalar hscalar => cases hscalar
    | null => rfl
    | member hmember hw =>
      obtain ⟨id, rfl⟩ | hnil := ht _ hmember
      · obtain ⟨entries, heq⟩ := map_of_nested hv hw
        exact absurd heq (hmap entries)
      · exact recordFree_toType hnil hv hw
  | _ => exact recordFree_toType ht hv hw

end Convert

namespace Coerce

variable {c : Catalog} {levels : Nat} {info : FieldInfo}

/-- A text of a type without schemas becomes a value without records. -/
theorem recordFree_value {t : FieldType} {raw path : String} {v : Value} (ht : t.schemas = [])
    (hv : value c levels info t raw path = .ok v) : v.recordFree true := by
  revert ht
  refine value_induct (P := fun t => t.schemas = [] → v.recordFree true)
    (fun t hscalar _ ht => ?_) (fun members t hmember ih ht => ?_) hv
  · obtain ⟨rfl, rfl⟩ | hscalar | ⟨j, hj⟩ := scalar_eq_ok hscalar
    · rfl
    · exact hscalar.recordFree
    · exact Convert.recordFree_toType ht (Value.recordFree_ofJson true j) hj
  · exact ih (FieldType.allSchemas_eq_nil_iff.1 ht t hmember)

end Coerce

namespace Resolver

variable {r : Resolver} {root id : SchemaId} {levels : Nat} {build : Builder} {f : Field}
  {raw v : Value} {path schema : String} {depth n : Nat} {inner : Entries}

/-- Below a record that the builder gives at a depth, no record lies beyond the bound. -/
def Bounds (r : Resolver) (root : SchemaId) (build : Builder) : Prop :=
  ∀ id, r.catalog.Reaches root id → ∀ es path depth record, RecordFree true es →
    build id es path depth = .ok record → ∀ n,
      HoldsRecord r.catalog (r.catalog.schema id).fields record.fields (n + 1) →
        Fits r.bound (depth + n + 1)

/-- The record in a nested field is built one level deeper, within the bound. -/
theorem Brought.fits (hbuild : r.Bounds root build) (hid : r.catalog.Reaches root id)
    (hraw : raw.recordFree true) (hnested : f.type.nestedSchema? = some id)
    (hv : Brought r levels build f raw path depth (.record schema inner))
    (hholds : HoldsRecord r.catalog (r.catalog.schema id).fields inner n) :
    Fits r.bound (depth + n + 1) := by
  obtain rfl | ⟨entries, hgives, hrecord⟩ := hv.eq_or_built hnested
  · cases hraw
  · obtain ⟨hfits, record, hbuilt, heq⟩ := nestedRecord_eq_ok_iff.1 hrecord
    obtain ⟨-, rfl⟩ := Value.record.inj heq
    cases n with
    | zero => exact hfits
    | succ n =>
      have hdeep := hbuild _ hid _ _ _ record (.of_givesEntries hraw hgives) hbuilt n hholds
      rwa [show depth + (n + 1) + 1 = depth + 1 + n + 1 by omega]

/-- Fields that are resolved at a depth hold no record beyond the bound. -/
theorem fits_of_resolved {s : Schema} {rawOf : Field → Except Error Value}
    {pathOf : Field → String} {fs : List Field} {es : Entries} (hfree : s.TransformFree)
    (hbuild : r.Bounds root build)
    (hreach : ∀ f ∈ fs, ∀ id ∈ f.type.schemas, r.catalog.Reaches root id)
    (hraw : ∀ f ∈ fs, ∀ raw, rawOf f = .ok raw → raw.recordFree true)
    (hfields : List.Forall₂ (Resolved rawOf fun f raw =>
      r.coerceField levels build s f raw (pathOf f) depth) fs es)
    (hholds : HoldsRecord r.catalog fs es (n + 1)) : Fits r.bound (depth + n + 1) := by
  cases hholds with
  | field hfield hnested hinner =>
    have hf := (List.of_mem_zip hfield).1
    have hresolved := (List.forall₂_iff_zip.1 hfields).2 hfield
    obtain ⟨raw, hrawOf, hv⟩ := bind_eq_ok_iff.1 hresolved.value
    have hbrought := brought_of_coerceRaw hfree ((coerceField_eq_ok_iff hfree).1 hv).1
    exact hbrought.fits hbuild (hreach _ hf _ (FieldType.mem_schemas_of_nestedSchema? hnested))
      (hraw _ hf raw hrawOf) hnested hinner

/-- Below a record that is built no record lies beyond the bound, however many levels there are. -/
theorem bounds_buildRecord (hplain : r.catalog.Plain root true) (levels : Nat) :
    r.Bounds root (r.buildRecord levels) := by
  induction levels with
  | zero =>
    intro id hid es path depth record hes hbuild
    cases hbuild
  | succ levels ih =>
    intro id hid es path depth record hes hbuild n hholds
    obtain ⟨inner, hlevels, -, hfields⟩ := buildRecord_eq_ok (hplain.transformFree id hid) hbuild
    obtain rfl : levels = inner := Nat.succ.inj hlevels
    exact fits_of_resolved (hplain.transformFree id hid) ih
      (fun f hf next hnext => hid.field hf hnext)
      (fun f hf raw hraw => hplain.given hid hf hes (entryOf_eq_ok_iff.1 hraw)) hfields hholds

/-- The longest chain of nested fields in the records that the builder gives is as long as records
lie in each other. -/
def Reveals (r : Resolver) (root : SchemaId) (build : Builder) : Prop :=
  ∀ id, r.catalog.Reaches root id → ∀ es path depth record, RecordFree true es →
    build id es path depth = .ok record →
      HoldsRecord r.catalog (r.catalog.schema id).fields record.fields
        (Value.recordsInEntries record.fields)

/-- A field takes no records, or one in which all lie along nested fields. -/
theorem Brought.reveals (hbuild : r.Reveals root build)
    (hreach : ∀ id ∈ f.type.schemas, r.catalog.Reaches root id) (hdirect : f.type.Direct)
    (hraw : raw.recordFree true) (hv : Brought r levels build f raw path depth v) :
    v.recordFree true ∨ ∃ id schema inner,
      f.type.nestedSchema? = some id ∧ v = .record schema inner ∧
        HoldsRecord r.catalog (r.catalog.schema id).fields inner
          (Value.recordsInEntries inner) := by
  cases hv with
  | built hnested hgives hv =>
    obtain ⟨-, record, hbuilt, rfl⟩ := nestedRecord_eq_ok_iff.1 hv
    have hid := hreach _ (FieldType.mem_schemas_of_nestedSchema? hnested)
    exact .inr ⟨_, _, _, hnested, rfl,
      hbuild _ hid _ _ _ record (.of_givesEntries hraw hgives) hbuilt⟩
  | null => exact .inl rfl
  | coerced hnone _ hvalue =>
    exact .inl (Coerce.recordFree_value (hdirect.schemas_eq_nil hnone) hvalue)
  | converted hmap hvalue =>
    obtain hnone | hmap := hmap
    · exact .inl (Convert.recordFree_toType (hdirect.schemas_eq_nil hnone) hraw hvalue)
    · exact .inl (Convert.recordFree_of_direct hdirect hraw hmap hvalue)

/-- Resolved fields have their longest chain of records along nested fields if the records that are
built for them have. -/
theorem reveals_of_resolved {s : Schema} {rawOf : Field → Except Error Value}
    {pathOf : Field → String} {fs : List Field} {es : Entries} (hfree : s.TransformFree)
    (hbuild : r.Reveals root build)
    (hreach : ∀ f ∈ fs, ∀ id ∈ f.type.schemas, r.catalog.Reaches root id)
    (hdirect : ∀ f ∈ fs, f.type.Direct)
    (hraw : ∀ f ∈ fs, ∀ raw, rawOf f = .ok raw → raw.recordFree true)
    (hfields : List.Forall₂ (Resolved rawOf fun f raw =>
      r.coerceField levels build s f raw (pathOf f) depth) fs es) :
    HoldsRecord r.catalog fs es (Value.recordsInEntries es) := by
  induction hfields with
  | nil => exact .itself _ _
  | cons hresolved _ ih =>
    rename_i f e fs es _
    obtain ⟨name, v⟩ := e
    obtain ⟨hreach, hreachs⟩ := List.forall_mem_cons.1 hreach
    obtain ⟨hdirect, hdirects⟩ := List.forall_mem_cons.1 hdirect
    obtain ⟨hraw, hraws⟩ := List.forall_mem_cons.1 hraw
    obtain ⟨raw, hrawOf, hv⟩ := bind_eq_ok_iff.1 hresolved.value
    have hbrought := brought_of_coerceRaw hfree ((coerceField_eq_ok_iff hfree).1 hv).1
    rw [Value.recordsInEntries]
    obtain hmax | hmax := max_choice v.records (Value.recordsInEntries es)
    · rw [hmax]
      obtain hnone | ⟨id, schema, inner, hnested, rfl, hinner⟩ :=
        hbrought.reveals hbuild hreach hdirect (hraw raw hrawOf)
      · rw [Value.records_eq_zero v hnone]
        exact .itself _ _
      · exact .field List.mem_cons_self hnested hinner
    · rw [hmax]
      exact (ih hreachs hdirects hraws).cons f (name, v)

/-- In a record that is built, records lie in each other along nested fields only, if the types are
direct. -/
theorem reveals_buildRecord (hplain : r.catalog.Plain root true) (hdirect : r.catalog.Direct root)
    (levels : Nat) : r.Reveals root (r.buildRecord levels) := by
  induction levels with
  | zero =>
    intro id hid es path depth record hes hbuild
    cases hbuild
  | succ levels ih =>
    intro id hid es path depth record hes hbuild
    obtain ⟨inner, hlevels, -, hfields⟩ := buildRecord_eq_ok (hplain.transformFree id hid) hbuild
    obtain rfl : levels = inner := Nat.succ.inj hlevels
    exact reveals_of_resolved (hplain.transformFree id hid) ih
      (fun f hf next hnext => hid.field hf hnext) (hdirect id hid)
      (fun f hf raw hraw => hplain.given hid hf hes (entryOf_eq_ok_iff.1 hraw)) hfields

end Resolver

namespace Loader

variable {l : Loader} {host : Host} {record : Record} {bound n : Nat}

/-- Along nested fields no record lies deeper below the root than the configuration allows; without
collections of records, none does at all. -/
theorem load_within_bound (hplain : l.catalog.Plain l.root true)
    (hoverrides : RecordFree true l.overrides) (hbound : l.config.maxDepth = .ok (some bound))
    (hload : (l.load host).result = .ok record) :
    (∀ n, HoldsRecord l.catalog l.schema.fields record.fields n → n ≤ bound) ∧
      (l.catalog.Direct l.root → Value.recordsInEntries record.fields ≤ bound) := by
  have hfree : l.schema.TransformFree := hplain.transformFree l.root .root
  obtain ⟨limit, reading, data, hlimit, -, hpayload, -, hfields⟩ := load_eq_ok hfree hload
  obtain rfl : limit = some bound := Except.ok.inj (hlimit.symm.trans hbound)
  let r : Resolver := ⟨l.catalog, some bound⟩
  have hreach : ∀ f ∈ l.schema.fields, ∀ id ∈ f.type.schemas, r.catalog.Reaches l.root id :=
    fun f hf next hnext => .field .root hf hnext
  have hraw : ∀ f ∈ l.schema.fields, ∀ raw, l.rawValue data reading.env f = .ok raw →
      raw.recordFree true :=
    fun f hf raw => recordFree_rawValue hoverrides hpayload (hplain.default l.root .root f hf)
  have hwithin : ∀ n, HoldsRecord l.catalog l.schema.fields record.fields n → n ≤ bound := by
    intro n hholds
    cases n with
    | zero => exact Nat.zero_le bound
    | succ n =>
      have hfits := r.fits_of_resolved hfree (Resolver.bounds_buildRecord hplain _) hreach hraw
        hfields hholds
      simpa using hfits bound rfl
  refine ⟨hwithin, fun hdirect => hwithin _ ?_⟩
  exact r.reveals_of_resolved hfree (Resolver.reveals_buildRecord hplain hdirect _) hreach
    (hdirect l.root .root) hraw hfields

/-- An application has a database, and the database perhaps a replica. -/
def replicas : Catalog :=
  ⟨#[{ name := "Replica", fields := [{ name := "host", type := .str }] },
    { name := "Database"
      fields := [{ name := "replica", type := .optional (.nested 0)
                   info := { default := some .null } }] },
    { name := "App", fields := [{ name := "db", type := .nested 1 }] }]⟩

/-- A load with records at most two levels below the root. -/
def replicaLoader : Loader where
  catalog := replicas
  root := 2
  config := { caseSensitive := true, nestingBound := some 2 }
  env := some (EnvMap.ofList [("db", "\x7b\"replica\":\x7b\"host\":\"x\"\x7d\x7d")])

/-- The record with its two levels. -/
def replicaRecord : Record where
  schema := "App"
  fields := [("db", .record "Database" [("replica", .record "Replica" [("host", .str "x")])])]

/-- The load succeeds. -/
theorem replicaLoader_load : (replicaLoader.load {}).result = .ok replicaRecord := by
  have hbound : replicaLoader.config.maxDepth = .ok (some 2) := rfl
  refine load_eq_of_resolve rfl rfl rfl (by simp) hbound fun env hlist hget => ?_
  delta Loader.resolve Loader.payload Loader.rawValue Loader.lookupEnv
  simp only [hlist, hget]
  clear hlist hget
  cbv

/-- No schema has transforms or records among its defaults. -/
theorem replicas_plain : replicas.Plain 2 true :=
  Catalog.Plain.of_closed [0, 1, 2] (by decide) (by decide) (by decide) (by decide)

/-- All nested schemas stand in fields of their own. -/
theorem replicas_direct : replicas.Direct 2 := by
  intro id hid
  have hmem : id ∈ [0, 1, 2] := hid.mem_of_closed (by decide) (by decide)
  simp only [List.mem_cons, List.not_mem_nil, or_false] at hmem
  rcases hmem with rfl | rfl | rfl <;>
    simp [replicas, Catalog.schema, FieldType.Direct, FieldType.optional, FieldType.schemas]

/-- The replica lies two levels below the root, and no record lies deeper. -/
theorem load_within_bound_replica :
    (replicaLoader.load {}).result = .ok replicaRecord ∧
      HoldsRecord replicas (replicas.schema 2).fields replicaRecord.fields 2 ∧
      (∀ n, HoldsRecord replicas (replicas.schema 2).fields replicaRecord.fields n → n ≤ 2) ∧
      Value.recordsInEntries replicaRecord.fields ≤ 2 := by
  have hoverrides : RecordFree true replicaLoader.overrides := List.forall_mem_nil _
  have hbound : replicaLoader.config.maxDepth = .ok (some 2) := rfl
  obtain ⟨hwithin, hall⟩ := load_within_bound replicas_plain hoverrides hbound replicaLoader_load
  refine ⟨replicaLoader_load, ?_, hwithin, hall replicas_direct⟩
  exact .field List.mem_cons_self rfl (.field List.mem_cons_self rfl (.itself _ _))

/-- An application has a database, and the database a list of parts. -/
def databases : Catalog :=
  ⟨#[{ name := "Part", fields := [{ name := "tag", type := .str }] },
    { name := "Database", fields := [{ name := "parts", type := .list (.nested 0) }] },
    { name := "App", fields := [{ name := "db", type := .nested 1 }] }]⟩

/-- A load with records at most one level below the root. -/
def databaseLoader : Loader where
  catalog := databases
  root := 2
  config := { caseSensitive := true, nestingBound := some 1 }
  env := some (EnvMap.ofList [("db", "\x7b\"parts\":[\x7b\"tag\":\"x\"\x7d]\x7d")])

/-- The record with a list of records. -/
def databaseRecord : Record where
  schema := "App"
  fields := [("db", .record "Database" [("parts", .list [.record "Part" [("tag", .str "x")]])])]

/-- The load succeeds, although the list goes beyond the bound. -/
theorem databaseLoader_load : (databaseLoader.load {}).result = .ok databaseRecord := by
  have hbound : databaseLoader.config.maxDepth = .ok (some 1) := rfl
  refine load_eq_of_resolve rfl rfl rfl (by simp) hbound fun env hlist hget => ?_
  delta Loader.resolve Loader.payload Loader.rawValue Loader.lookupEnv
  simp only [hlist, hget]
  clear hlist hget
  cbv

/-- No schema has transforms or records among its defaults. -/
theorem databases_plain : databases.Plain 2 true :=
  Catalog.Plain.of_closed [0, 1, 2] (by decide) (by decide) (by decide) (by decide)

/-- The part of the database lies two levels below the root, though one is the bound. -/
theorem load_beyond_bound :
    databases.Plain databaseLoader.root true ∧ RecordFree true databaseLoader.overrides ∧
      databaseLoader.config.maxDepth = .ok (some 1) ∧
      (databaseLoader.load {}).result = .ok databaseRecord ∧
      ¬ Value.recordsInEntries databaseRecord.fields ≤ 1 :=
  ⟨databases_plain, List.forall_mem_nil _, rfl, databaseLoader_load, by decide⟩

end Loader

end EnvSettings
