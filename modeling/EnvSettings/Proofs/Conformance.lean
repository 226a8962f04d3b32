import EnvSettings.Proofs.Conversion

namespace EnvSettings

open Value

namespace Resolver

variable {r : Resolver} {root : SchemaId} {levels : Nat} {build : Builder} {f : Field}
  {raw v : Value} {path : String} {depth : Nat}

/-- The builder gives records of the schemas that are asked for, if no records go in. -/
def Builds (r : Resolver) (root : SchemaId) (build : Builder) : Prop :=
  ∀ id, r.catalog.Reaches root id → ∀ es path depth record, RecordFree false es →
    build id es path depth = .ok record → Conforms r.catalog (.nested id) record.toValue

/-- However a field comes to its value, it conforms to the type. -/
theorem Brought.conforms (hplain : r.catalog.Plain root false) (hbuild : r.Builds root build)
    (hreach : ∀ id ∈ f.type.schemas, r.catalog.Reaches root id) (hraw : raw.recordFree false)
    (hv : Brought r levels build f raw path depth v) : Conforms r.catalog f.type v := by
  cases hv with
  | built hnested hgives hrecord =>
    obtain ⟨-, record, hbuilt, rfl⟩ := nestedRecord_eq_ok_iff.1 hrecord
    have hid := hreach _ (FieldType.mem_schemas_of_nestedSchema? hnested)
    exact .of_nestedSchema? hnested
      (hbuild _ hid _ _ _ record (.of_givesEntries hraw hgives) hbuilt)
  | null _ hnullable => exact (conforms_null_iff f.type).2 hnullable
  | coerced _ _ hvalue => exact Coerce.conforms_value hplain hreach hvalue
  | converted _ hvalue => exact Convert.conforms_value hplain hreach hraw hvalue

/-- A field takes a value of its type that meets its constraints. -/
theorem conforms_coerceField {schema : Schema} (hplain : r.catalog.Plain root false)
    (hfree : schema.TransformFree) (hbuild : r.Builds root build)
    (hreach : ∀ id ∈ f.type.schemas, r.catalog.Reaches root id) (hraw : raw.recordFree false)
    (hv : r.coerceField levels build schema f raw path depth = .ok v) :
    FieldConforms r.catalog f (f.name, v) := by
  obtain ⟨hbrought, hcheck⟩ := (coerceField_eq_ok_iff hfree).1 hv
  exact .intro ((brought_of_coerceRaw hfree hbrought).conforms hplain hbuild hreach hraw) hcheck

/-- Fields whose raw values hold no records resolve to entries of their types. -/
theorem conforms_resolved {rawOf : Field → Except Error Value}
    {coerce : Field → Value → Except Error Value} {fs : List Field} {es : Entries}
    (hfields : List.Forall₂ (Resolved rawOf coerce) fs es)
    (hcoerce : ∀ f ∈ fs, ∀ raw v, rawOf f = .ok raw → coerce f raw = .ok v →
      FieldConforms r.catalog f (f.name, v)) :
    List.Forall₂ (FieldConforms r.catalog) fs es := by
  induction hfields with
  | nil => exact .nil
  | cons hfield _ ih =>
    obtain ⟨hhead, htail⟩ := List.forall_mem_cons.1 hcoerce
    refine .cons ?_ (ih htail)
    rename_i f e _ _ _
    obtain ⟨raw, hraw, hv⟩ := bind_eq_ok_iff.1 hfield.value
    have hentry : e = (f.name, e.2) := Prod.ext hfield.name rfl
    exact hentry ▸ hhead raw e.2 hraw hv

/-- Nested records that are built field by field have the fields of their schema. -/
theorem builds_buildRecord (hplain : r.catalog.Plain root false) (levels : Nat) :
    r.Builds root (r.buildRecord levels) := by
  induction levels with
  | zero =>
    intro id hid es path depth record hes hbuild
    cases hbuild
  | succ levels ih =>
    intro id hid es path depth record hes hbuild
    obtain ⟨inner, hlevels, hschema, hfields⟩ :=
      buildRecord_eq_ok (hplain.transformFree id hid) hbuild
    obtain rfl : levels = inner := Nat.succ.inj hlevels
    rw [Record.toValue, hschema]
    refine .nested (conforms_resolved hfields fun f hf raw v hraw hv => ?_)
    exact conforms_coerceField hplain (hplain.transformFree id hid) ih
      (fun next hnext => hid.field hf hnext) (hplain.given hid hf hes (entryOf_eq_ok_iff.1 hraw)) hv

end Resolver

namespace Loader

variable {l : Loader} {host : Host} {record : Record}

/-- What a load returns has the declared fields in their order, each with a value of its type that
meets its constraints, and so have all records inside. -/
theorem load_conforms (hplain : l.catalog.Plain l.root false)
    (hoverrides : RecordFree false l.overrides) (hload : (l.load host).result = .ok record) :
    record.schema = l.schema.name ∧
      List.Forall₂ (FieldConforms l.catalog) l.schema.fields record.fields := by
  have hfree : l.schema.TransformFree := hplain.transformFree l.root .root
  obtain ⟨bound, reading, data, -, -, hpayload, hschema, hfields⟩ := load_eq_ok hfree hload
  refine ⟨hschema, Resolver.conforms_resolved (r := ⟨l.catalog, bound⟩) hfields
    fun f hf raw v hraw hv => ?_⟩
  have hrecordFree : raw.recordFree false :=
    recordFree_rawValue hoverrides hpayload (hplain.default l.root .root f hf) hraw
  exact Resolver.conforms_coerceField hplain hfree (Resolver.builds_buildRecord hplain _)
    (fun next hnext => .field .root hf hnext) hrecordFree hv

/-- A part has a grade; a store has parts, and labels, a span and prices besides. -/
def stores : Catalog :=
  ⟨#[{ name := "Part"
       fields := [{ name := "tag", type := .str, info := { minLength := some 1 } },
        { name := "grade", type := .enum ⟨"Grade", [("LOW", "low"), ("HIGH", "high")]⟩ }] },
    { name := "Store"
      fields := [{ name := "parts", type := .list (.nested 0) },
        { name := "labels", type := .set .str },
        { name := "span", type := .tuple [.int, .optional .bool] },
        { name := "prices", type := .map (.union [.int, .str]) },
        { name := "spare", type := .optional (.nested 0), info := { default := some .null } }] }]⟩

/-- A loader of the store from its entries. -/
def storeLoader : Loader where
  catalog := stores
  root := 1
  config := { caseSensitive := true }
  env := some (EnvMap.ofList
    [("parts", "[\x7b\"grade\":\"high\",\"tag\":\"a\"\x7d]"), ("labels", "[\"x\",\"y\",\"x\"]"),
      ("span", "[3,null]")])
  overrides := [("prices", .map [("first", .int 5), ("last", .str "?")])]

/-- The record of the store. -/
def storeRecord : Record where
  schema := "Store"
  fields :=
    [("parts", .list
        [.record "Part" [("tag", .str "a"), ("grade", .enum ⟨"Grade", "HIGH", "high"⟩)]]),
      ("labels", .set [.str "x", .str "y"]), ("span", .list [.int 3, .null]),
      ("prices", .map [("first", .int 5), ("last", .str "?")]), ("spare", .null)]

/-- The load succeeds. -/
theorem storeLoader_load : (storeLoader.load {}).result = .ok storeRecord := by
  have hbound : storeLoader.config.maxDepth = .ok none := rfl
  refine load_eq_of_resolve rfl rfl rfl (by simp) hbound fun env hlist hget => ?_
  delta Loader.resolve Loader.payload Loader.rawValue Loader.lookupEnv
  simp only [hlist, hget]
  clear hlist hget
  cbv

/-- No schema of the store has transforms or records among its defaults. -/
theorem stores_plain : stores.Plain 1 false :=
  Catalog.Plain.of_closed [0, 1] (by decide) (by decide) (by decide) (by decide)

/-- The store has the types of its fields, the part in its list too. -/
theorem load_conforms_store :
    (storeLoader.load {}).result = .ok storeRecord ∧ storeRecord.schema = "Store" ∧
      List.Forall₂ (FieldConforms stores) (stores.schema 1).fields storeRecord.fields :=
  ⟨storeLoader_load, load_conforms stores_plain (by simp [RecordFree, storeLoader]; decide)
    storeLoader_load⟩

end Loader

end EnvSettings
