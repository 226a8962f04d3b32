import EnvSettings.Proofs.Conversion

namespace EnvSettings

variable {c : Catalog}

theorem Catalog.compatibleWithAny_iff {members : List FieldType} {v : Value} :
    c.compatibleWithAny members v ↔ ∃ t ∈ members, c.compatible t v := by
  induction members with
  | nil => simp [compatibleWithAny]
  | cons t members ih => simp [compatibleWithAny, ih]

/-- A value has the form of a union if it has that of a member. -/
theorem Catalog.compatible_union_iff {members : List FieldType} {v : Value} :
    c.compatible (.union members) v ↔ ∃ t ∈ members, c.compatible t v := by
  rw [compatible, compatibleWithAny_iff]

/-- A record named like the schema has the form of its nested type. -/
theorem Catalog.compatible_nested (id : SchemaId) (es : Entries) :
    c.compatible (.nested id) (.record (c.schemaName id) es) := by
  simp [compatible]

theorem ScalarOf.compatible {t : FieldType} {v : Value} (hv : ScalarOf t v) :
    c.compatible t v := by
  cases hv <;> simp [Catalog.compatible]

/-- A value of a type has the form of the type. -/
theorem Conforms.compatible {t : FieldType} {v : Value} (hv : Conforms c t v) :
    c.compatible t v := by
  induction t using FieldType.unionInduction with
  | union members ih =>
    cases hv with
    | scalar hv => cases hv
    | union hmember hv => exact Catalog.compatible_union_iff.2 ⟨_, hmember, ih _ hmember hv⟩
  | other t hother =>
    cases hv with
    | any => simp [Catalog.compatible]
    | scalar hv => exact hv.compatible
    | list | set | map | tuple => simp [Catalog.compatible]
    | nested => exact Catalog.compatible_nested _ _
    | union => exact absurd rfl (hother _)

/-- A record of the schema that a type stands for has the form of the type. -/
theorem Catalog.compatible_of_nestedSchema? {t : FieldType} {id : SchemaId}
    (hnested : t.nestedSchema? = some id) (es : Entries) :
    c.compatible t (.record (c.schemaName id) es) := by
  obtain rfl | ⟨members, rfl, hmember⟩ := FieldType.eq_or_mem_of_nestedSchema? hnested
  · exact compatible_nested id es
  · exact compatible_union_iff.2 ⟨_, hmember, compatible_nested id es⟩

namespace Convert

/-- What conversion gives has the form of the type, whatever goes in. -/
theorem compatible_toType {build : RecordBuilder}
    (hbuild : ∀ id es place record, build id es place = .ok record →
      record.schema = c.schemaName id)
    {t : FieldType} {v w : Value} {place : String} (hw : toType c build t v place = .ok w) :
    c.compatible t w := by
  cases gives_of_toType hw with
  | any => simp [Catalog.compatible]
  | scalar hw => exact hw.compatible
  | enum hname => simp [Catalog.compatible, hname]
  | list | set | map | tuple => simp [Catalog.compatible]
  | record => exact Catalog.compatible_nested _ _
  | built hrecord =>
    rw [Record.toValue, hbuild _ _ _ _ hrecord]
    exact Catalog.compatible_nested _ _
  | null hnullable =>
    exact ((conforms_null_iff (c := c) (.union _)).2 hnullable).compatible
  | member hmember hw =>
    exact Catalog.compatible_union_iff.2 ⟨_, hmember, compatible_toType hbuild hw⟩
termination_by sizeOf t

theorem schema_record {levels : Nat} {id : SchemaId} {es : Entries} {place : String}
    {out : Record} (hout : record c levels id es place = .ok out) :
    out.schema = c.schemaName id := by
  cases levels with
  | zero => cases hout
  | succ levels =>
    simp only [record, bind_eq_ok_iff] at hout
    obtain ⟨fs, -, heq⟩ := hout
    obtain rfl := Except.ok.inj heq
    rfl

theorem compatible_value {levels : Nat} {t : FieldType} {v w : Value}
    (hw : value c levels t v = .ok w) : c.compatible t w :=
  compatible_toType (fun _ _ _ _ hrecord => schema_record hrecord) hw

end Convert

/-- What a text is coerced to has the form of the type. -/
theorem Coerce.compatible_value {levels : Nat} {info : FieldInfo} {t : FieldType}
    {raw path : String} {v : Value} (hv : value c levels info t raw path = .ok v) :
    c.compatible t v := by
  refine value_induct (P := fun t => c.compatible t v) (fun t hscalar _ => ?_)
    (fun members t hmember ht => Catalog.compatible_union_iff.2 ⟨t, hmember, ht⟩) hv
  obtain ⟨rfl, rfl⟩ | hscalar | ⟨j, hj⟩ := scalar_eq_ok hscalar
  · simp [Catalog.compatible]
  · exact hscalar.compatible
  · exact Convert.compatible_value hj

/-- A value that a field may hold: it has the form of the type and meets the constraints. -/
structure Admits (c : Catalog) (f : Field) (v : Value) : Prop where
  compatible : c.compatible f.type v
  check : f.info.check v = .ok ()

/-- The value under a name; a missing one counts as null. -/
def valueOf (es : Entries) (name : String) : Value :=
  (es.lookup name).getD .null

/-- The fields of a schema hold values they may hold, and so do the fields of the records that lie
in them and are named like the schemas of theirs. -/
inductive Checked (c : Catalog) : SchemaId → Entries → Prop
  | intro {id : SchemaId} {es : Entries}
    (hfields : ∀ f ∈ (c.schema id).fields, Admits c f (valueOf es f.name))
    (hnested : ∀ f ∈ (c.schema id).fields, ∀ next inner, f.type.nestedSchema? = some next →
      valueOf es f.name = .record (c.schemaName next) inner → Checked c next inner) :
    Checked c id es

/-- Fields are checked if each of them is admitted and so are those of the nested records. -/
theorem checked_iff {id : SchemaId} {es : Entries} :
    Checked c id es ↔ ∀ f ∈ (c.schema id).fields, Admits c f (valueOf es f.name) ∧
      ∀ next inner, f.type.nestedSchema? = some next →
        valueOf es f.name = .record (c.schemaName next) inner → Checked c next inner := by
  constructor
  · rintro ⟨hfields, hnested⟩ f hf
    exact ⟨hfields f hf, hnested f hf⟩
  · intro hall
    exact .intro (fun f hf => (hall f hf).1) fun f hf => (hall f hf).2

/-- A record in a field is smaller than the entries around it. -/
theorem sizeOf_lt_of_valueOf {es inner : Entries} {name schema : String}
    (hvalue : valueOf es name = .record schema inner) : sizeOf inner < sizeOf es := by
  rw [valueOf] at hvalue
  cases hlookup : es.lookup name with
  | none =>
    rw [hlookup] at hvalue
    cases hvalue
  | some v =>
    rw [hlookup] at hvalue
    obtain rfl : v = .record schema inner := hvalue
    have hsize := List.sizeOf_lt_of_mem (Entries.mem_of_lookup hlookup)
    simp only [Prod.mk.sizeOf_spec, Value.record.sizeOf_spec] at hsize
    omega

namespace Pipeline

/-- The check under a name is that of the value there. -/
theorem lookup_recheckEntries (es : Entries) (name : String) :
    (recheckEntries c es).lookup name = (es.lookup name).map fun v => (v, recheck c v) := by
  induction es with
  | nil => rfl
  | cons e es ih =>
    obtain ⟨name', v⟩ := e
    rw [recheckEntries, Entries.lookup_cons_eq, Entries.lookup_cons_eq, ih]
    split <;> rfl

/-- A field passes the check if it admits its value and the record in it passes. -/
theorem recheckField_eq_ok_iff {f : Field} {path : String} {v : Value} {nested : NestedCheck} :
    recheckField c f path v nested = .ok () ↔
      Admits c f v ∧ ∀ next inner, f.type.nestedSchema? = some next →
        v = .record (c.schemaName next) inner → nested next path = .ok () := by
  unfold recheckField
  cases hcompatible : c.compatible f.type v with
  | false =>
    constructor
    · intro h
      cases h
    · rintro ⟨hadmits, -⟩
      cases hcompatible.symm.trans hadmits.compatible
  | true =>
    rw [if_neg (by simp)]
    constructor
    · intro h
      obtain ⟨_, hcheck, hdescend⟩ := bind_eq_ok_iff.1 h
      refine ⟨⟨hcompatible, FieldInfo.checkSetting_eq_ok_iff.1 hcheck⟩,
        fun next inner hnext hv => ?_⟩
      subst hv
      simp only [hnext, ↓reduceIte] at hdescend
      exact hdescend
    · rintro ⟨hadmits, hnested⟩
      refine bind_eq_ok_iff.2 ⟨(), FieldInfo.checkSetting_eq_ok_iff.2 hadmits.check, ?_⟩
      split
      · rename_i next name inner hnext
        split
        · rename_i hname
          exact hnested next inner hnext (hname ▸ rfl)
        · rfl
      · rfl

theorem recheckFields_eq_ok_iff {es : Entries} {path : String} {fs : List Field} :
    recheckFields c (recheckEntries c es) path fs = .ok () ↔
      ∀ f ∈ fs, Admits c f (valueOf es f.name) ∧
        ∀ next inner, f.type.nestedSchema? = some next →
          valueOf es f.name = .record (c.schemaName next) inner →
            recheck c (valueOf es f.name) next (fieldPath path f.name) = .ok () := by
  have hfound : ∀ f : Field,
      ((recheckEntries c es).lookup f.name).getD (.null, fun _ _ => .ok ()) =
        (valueOf es f.name, recheck c (valueOf es f.name)) := by
    intro f
    rw [lookup_recheckEntries, valueOf]
    cases es.lookup f.name <;> rfl
  induction fs with
  | nil => simp [recheckFields]
  | cons f fs ih =>
    simp only [recheckFields, hfound, bind_eq_ok_iff, List.forall_mem_cons, ih,
      ← recheckField_eq_ok_iff]
    exact ⟨fun ⟨_, h⟩ => h, fun h => ⟨(), h⟩⟩

/-- The check of a record decides whether its fields are checked, at any path. -/
theorem recheck_eq_ok_iff {schema : String} {es : Entries} {id : SchemaId} {path : String} :
    recheck c (.record schema es) id path = .ok () ↔ Checked c id es := by
  rw [recheck, recheckFields_eq_ok_iff, checked_iff]
  refine forall₂_congr fun f _ => and_congr_right fun _ => ?_
  -- both descend into the same records, which are smaller than the entries around them
  refine forall₂_congr fun next inner => forall₂_congr fun _ hvalue => ?_
  have hsize := sizeOf_lt_of_valueOf hvalue
  rw [hvalue]
  exact recheck_eq_ok_iff
termination_by sizeOf es

end Pipeline

end EnvSettings
