import EnvSettings.Proofs.Except
import EnvSettings.Proofs.Loader

namespace EnvSettings

/-- A schema without transforms of fields or records. -/
structure Schema.TransformFree (s : Schema) : Prop where
  field : ∀ stage name, s.transforms.transforms stage name = []
  record : s.recordTransforms = []

/-- A value passes the check of a setting if it meets the constraints. -/
theorem FieldInfo.checkSetting_eq_ok_iff {info : FieldInfo} {v : Value} {path target raw : String} :
    info.checkSetting v path target raw = .ok () ↔ info.check v = .ok () :=
  mapError_eq_ok_iff

namespace Pipeline

variable {c : Catalog} {schema : Schema}

/-- Where no transform runs before coercion the raw value stays. -/
theorem applyBefore_eq (hfree : schema.TransformFree) (f : Field) (path : String) (v : Value) :
    applyBefore c schema f path v = .ok v := by
  rw [applyBefore, hfree.field]
  rfl

/-- Where no transform runs after coercion the value stays. -/
theorem applyAfter_eq (hfree : schema.TransformFree) (f : Field) (path : String) (v : Value) :
    applyAfter c schema f path v = .ok v := by
  rw [applyAfter, hfree.field]
  rfl

/-- Where no record transform runs the record stays. -/
theorem applyToRecord_eq {id : SchemaId} (hfree : (c.schema id).TransformFree) (r : Record)
    (path : String) : applyToRecord c id r path = .ok r := by
  simp only [applyToRecord, hfree.record]
  rfl

end Pipeline

/-- An entry has the name of a field and what the raw value of the field resolves to. -/
structure Resolved (rawOf : Field → Except Error Value)
    (coerce : Field → Value → Except Error Value) (f : Field) (e : String × Value) : Prop where
  name : e.1 = f.name
  value : rawOf f >>= coerce f = .ok e.2

namespace Resolver

variable {r : Resolver} {schema : Schema} {f : Field} {levels : Nat} {build : Builder}
  {raw v w : Value} {text path : String} {depth : Nat} {id : SchemaId} {entries : Entries}

/-- Fields are resolved to entries if each one is, in their order. -/
theorem coerceFields_eq_ok_iff {rawOf : Field → Except Error Value}
    {coerce : Field → Value → Except Error Value} {fs : List Field} {es : Entries} :
    coerceFields rawOf coerce fs = .ok es ↔ List.Forall₂ (Resolved rawOf coerce) fs es := by
  induction fs generalizing es with
  | nil => simp [coerceFields, eq_comm]
  | cons f fs ih =>
    simp only [coerceFields, bind_eq_ok_iff, List.forall₂_cons_left_iff]
    constructor
    · rintro ⟨raw, hraw, v, hv, rest, hrest, heq⟩
      refine ⟨(f.name, v), rest, ⟨rfl, bind_eq_ok_iff.2 ⟨raw, hraw, hv⟩⟩, ih.1 hrest, ?_⟩
      exact (Except.ok.inj heq).symm
    · rintro ⟨⟨name, v⟩, rest, ⟨rfl, hvalue⟩, hrest, rfl⟩
      obtain ⟨raw, hraw, hv⟩ := bind_eq_ok_iff.1 hvalue
      exact ⟨raw, hraw, v, hv, rest, ih.2 hrest, rfl⟩

/-- A field fails after the ones before it were resolved. -/
structure FailsAt (rawOf : Field → Except Error Value) (coerce : Field → Value → Except Error Value)
    (fs before : List Field) (f : Field) (e : Error) : Prop where
  leading : before ++ [f] <+: fs
  resolved : ∀ g ∈ before, ∃ v, rawOf g >>= coerce g = .ok v
  fault : rawOf f >>= coerce f = .error e

section FailsAt

variable {rawOf rawOf' : Field → Except Error Value} {coerce : Field → Value → Except Error Value}
  {fs before : List Field} {e : Error}

theorem FailsAt.mem (hfails : FailsAt rawOf coerce fs before f e) : f ∈ fs :=
  hfails.leading.subset (List.mem_append_right before List.mem_cons_self)

/-- What is given for later fields does not matter. -/
theorem FailsAt.congr (hfails : FailsAt rawOf coerce fs before f e)
    (hsame : ∀ g ∈ before ++ [f], rawOf' g = rawOf g) : FailsAt rawOf' coerce fs before f e := by
  refine ⟨hfails.leading, fun g hg => ?_, ?_⟩
  · rw [hsame g (List.mem_append_left [f] hg)]
    exact hfails.resolved g hg
  · rw [hsame f (List.mem_append_right before List.mem_cons_self)]
    exact hfails.fault

theorem FailsAt.cons {g : Field} {v : Value} (hg : rawOf g >>= coerce g = .ok v)
    (hfails : FailsAt rawOf coerce fs before f e) :
    FailsAt rawOf coerce (g :: fs) (g :: before) f e :=
  ⟨(List.prefix_cons_inj g).2 hfails.leading, List.forall_mem_cons.2 ⟨⟨v, hg⟩, hfails.resolved⟩,
    hfails.fault⟩

/-- The error of a record is that of its first field that fails. -/
theorem coerceFields_eq_error_iff :
    coerceFields rawOf coerce fs = .error e ↔ ∃ before f, FailsAt rawOf coerce fs before f e := by
  induction fs with
  | nil =>
    refine iff_of_false nofun ?_
    rintro ⟨before, f, hfails⟩
    cases hfails.mem
  | cons g fs ih =>
    rw [coerceFields_cons, bind_eq_error_iff]
    constructor
    · rintro (hg | ⟨v, hg, hrest⟩)
      · exact ⟨[], g, List.prefix_append [g] fs, List.forall_mem_nil _, hg⟩
      · obtain ⟨before, f, hfails⟩ := ih.1 (bind_ok_eq_error_iff.1 hrest)
        exact ⟨g :: before, f, hfails.cons hg⟩
    · rintro ⟨_ | ⟨g', before⟩, f, hleading, hresolved, hfault⟩
      · obtain ⟨rfl, -⟩ := List.cons_prefix_cons.1 hleading
        exact .inl hfault
      · obtain ⟨rfl, hbehind⟩ := List.cons_prefix_cons.1 hleading
        obtain ⟨⟨v, hv⟩, hresolved⟩ := List.forall_mem_cons.1 hresolved
        have hrest := ih.2 ⟨before, f, hbehind, hresolved, hfault⟩
        exact .inr ⟨v, hv, bind_ok_eq_error_iff.2 hrest⟩

end FailsAt

/-- Without transforms a field takes what its raw value is brought to, if it meets the
constraints. -/
theorem coerceField_eq_ok_iff (hfree : schema.TransformFree) :
    r.coerceField levels build schema f raw path depth = .ok v ↔
      r.coerceRaw levels build schema f raw path depth = .ok v ∧ f.info.check v = .ok () := by
  simp only [coerceField, Pipeline.applyAfter_eq hfree, bind_eq_ok_iff]
  constructor
  · rintro ⟨w, hraw, w', hw', u, hcheck, heq⟩
    obtain rfl : w = w' := Except.ok.inj hw'
    obtain rfl : w = v := Except.ok.inj heq
    exact ⟨hraw, FieldInfo.checkSetting_eq_ok_iff.1 hcheck⟩
  · rintro ⟨hraw, hcheck⟩
    exact ⟨v, hraw, v, rfl, (), FieldInfo.checkSetting_eq_ok_iff.2 hcheck, rfl⟩

/-- Without transforms a raw text is coerced as it is. -/
theorem coerceRaw_text (hfree : schema.TransformFree) :
    r.coerceRaw levels build schema f (.str text) path depth =
      r.coerceText levels build f text path depth := by
  simp only [coerceRaw, Pipeline.applyBefore_eq hfree]
  rfl

/-- A raw value gives the entries of a nested record: as a map, or as a text with a JSON object. -/
inductive GivesEntries : Value → Entries → Prop
  | map (entries : Entries) : GivesEntries (.map entries) entries
  | text {text : String} {j : Json} {entries : Entries} (hparse : Json.parse text = .ok j)
    (hobject : Value.ofJson j = .map entries) : GivesEntries (.str text) entries

/-- How a field comes to its value where no transform runs. -/
inductive Brought (r : Resolver) (levels : Nat) (build : Builder) (f : Field) (raw : Value)
    (path : String) (depth : Nat) : Value → Prop
  | built {id : SchemaId} {entries : Entries} {v : Value}
    (hnested : f.type.nestedSchema? = some id) (hgives : GivesEntries raw entries)
    (hbuild : r.nestedRecord build id entries path depth = .ok v) :
    Brought r levels build f raw path depth v
  | null {id : SchemaId} (hnested : f.type.nestedSchema? = some id)
    (hnullable : f.type.nullable = true) : Brought r levels build f raw path depth .null
  | coerced {text : String} {v : Value} (hnested : f.type.nestedSchema? = none)
    (htext : raw = .str text)
    (hvalue : Coerce.value r.catalog levels f.info f.type text path = .ok v) :
    Brought r levels build f raw path depth v
  | converted {v : Value}
    (hmap : f.type.nestedSchema? = none ∨ ∀ entries, raw ≠ .map entries)
    (hvalue : Convert.value r.catalog levels f.type raw = .ok v) :
    Brought r levels build f raw path depth v

/-- A text that is coerced has come to its value in one of the four ways. -/
theorem brought_of_coerceText (htext : r.coerceText levels build f text path depth = .ok v) :
    Brought r levels build f (.str text) path depth v := by
  rw [coerceText] at htext
  split at htext
  · rename_i hnested
    exact .coerced hnested rfl htext
  · rename_i id hnested
    split at htext
    · cases htext
    · rename_i j hparse
      split at htext
      · rename_i entries hobject
        exact .built hnested (.text hparse hobject) htext
      · split at htext
        · rename_i hnull
          obtain rfl : .null = v := Except.ok.inj htext
          exact .null hnested (Bool.and_eq_true_iff.1 hnull).2
        · cases htext

/-- A field that is resolved has been coerced, transformed again and checked. -/
theorem coerceField_stages (hv : r.coerceField levels build schema f raw path depth = .ok v) :
    ∃ w, r.coerceRaw levels build schema f raw path depth = .ok w ∧
      Pipeline.applyAfter r.catalog schema f path w = .ok v ∧ f.info.check v = .ok () := by
  simp only [coerceField, bind_eq_ok_iff] at hv
  obtain ⟨w, hw, v', hv', _, hcheck, heq⟩ := hv
  obtain rfl := Except.ok.inj heq
  exact ⟨w, hw, hv', FieldInfo.checkSetting_eq_ok_iff.1 hcheck⟩

/-- What the transforms before coercion leave is brought to the type, or is of the type already. -/
theorem brought_of_coerceTransformed
    (hv : r.coerceTransformed levels build f path depth w = .ok v) :
    Brought r levels build f w path depth v ∨ v = w ∧ r.catalog.compatible f.type w := by
  unfold coerceTransformed at hv
  split at hv
  · exact .inl (brought_of_coerceText hv)
  · rename_i hnested
    exact .inl (.built hnested (.map _) hv)
  · split at hv
    · rename_i hcompatible
      obtain rfl := Except.ok.inj hv
      exact .inr ⟨rfl, hcompatible⟩
    · cases hv

/-- A text comes to its value by way of the transforms before coercion, any other raw value without
them. -/
theorem coerceRaw_stages (hv : r.coerceRaw levels build schema f raw path depth = .ok v) :
    (∃ text w, raw = .str text ∧ Pipeline.applyBefore r.catalog schema f path raw = .ok w ∧
      r.coerceTransformed levels build f path depth w = .ok v) ∨
    Brought r levels build f raw path depth v := by
  unfold coerceRaw at hv
  split at hv
  · obtain ⟨w, hw, hv⟩ := bind_eq_ok_iff.1 hv
    exact .inl ⟨_, w, rfl, hw, hv⟩
  · rename_i hnested
    exact .inr (.built hnested (.map _) hv)
  · rename_i htext hmap
    refine .inr (.converted ?_ (mapError_eq_ok_iff.1 hv))
    cases hnested : f.type.nestedSchema? with
    | none => exact .inl rfl
    | some id => exact .inr fun entries heq => hmap entries id heq hnested

/-- Without transforms a raw value has come to its value in one of the four ways. -/
theorem brought_of_coerceRaw (hfree : schema.TransformFree)
    (hraw : r.coerceRaw levels build schema f raw path depth = .ok v) :
    Brought r levels build f raw path depth v := by
  obtain ⟨text, w, rfl, hw, htransformed⟩ | hbrought := coerceRaw_stages hraw
  · obtain rfl := Except.ok.inj ((Pipeline.applyBefore_eq hfree _ _ _).symm.trans hw)
    exact brought_of_coerceText htransformed
  · exact hbrought

/-- A nested record is one that is built one level deeper, within the bound. -/
theorem nestedRecord_eq_ok_iff :
    r.nestedRecord build id entries path depth = .ok v ↔
      Projection.Fits r.bound (depth + 1) ∧
        ∃ record, build id entries path (depth + 1) = .ok record ∧ record.toValue = v := by
  simp only [nestedRecord, bind_eq_ok_iff, Except.ok.injEq]
  constructor
  · rintro ⟨u, hdepth, hbuild⟩
    exact ⟨Projection.ensureDepth_eq_ok_iff.1 hdepth, hbuild⟩
  · rintro ⟨hfits, hbuild⟩
    exact ⟨(), Projection.ensureDepth_eq_ok_iff.2 hfits, hbuild⟩

/-- A nested record that is built without transforms has the fields of its schema, each resolved one
level of records further in. -/
theorem buildRecord_eq_ok {record : Record} (hfree : (r.catalog.schema id).TransformFree)
    (hbuild : r.buildRecord levels id entries path depth = .ok record) :
    ∃ inner, levels = inner + 1 ∧ record.schema = r.catalog.schemaName id ∧
      List.Forall₂
        (Resolved (entryOf (r.catalog.schema id) entries path) fun f raw =>
          r.coerceField inner (r.buildRecord inner) (r.catalog.schema id) f raw
            s!"{path}.{f.name}" depth)
        (r.catalog.schema id).fields record.fields := by
  cases levels with
  | zero => cases hbuild
  | succ inner =>
    simp only [buildRecord, Pipeline.applyToRecord_eq hfree, bind_eq_ok_iff,
      coerceFields_eq_ok_iff] at hbuild
    obtain ⟨fields, hfields, heq⟩ := hbuild
    obtain rfl := Except.ok.inj heq
    exact ⟨inner, rfl, rfl, hfields⟩

/-- An entry of a nested record is the one that is given, or else the default. -/
theorem entryOf_eq_ok_iff :
    entryOf schema entries path f = .ok v ↔ (entries.lookup f.name).or f.info.default = some v := by
  rw [entryOf]
  split <;> simp [*]

end Resolver

namespace Loader

variable {l : Loader} {host : Host} {record : Record}

/-- A load that succeeds went through a bound, a merged environment, the settings in it, and the
fields of the schema, each resolved from what the settings have for it. -/
theorem load_stages (hload : (l.load host).result = .ok record) :
    ∃ bound reading data fields, l.config.maxDepth = .ok bound ∧ l.merged host = .ok reading ∧
      l.payload bound reading.env = .ok data ∧
      List.Forall₂ (Resolved (l.rawValue data reading.env) (l.coerceRoot bound))
        l.schema.fields fields ∧
      Pipeline.applyToRecord l.catalog l.root ⟨l.schema.name, fields⟩ "" = .ok record := by
  rw [load_result] at hload
  obtain ⟨bound, hbound, hload⟩ := bind_eq_ok_iff.1 hload
  obtain ⟨reading, hmerged, hload⟩ := bind_eq_ok_iff.1 hload
  obtain ⟨data, hpayload, hload⟩ := bind_eq_ok_iff.1 hload
  obtain ⟨fields, hfields, hload⟩ := bind_eq_ok_iff.1 hload
  exact ⟨bound, reading, data, fields, hbound, hmerged, hpayload,
    Resolver.coerceFields_eq_ok_iff.1 hfields, hload⟩

/-- A load without record transforms gives the fields of its schema, each resolved from what the
settings have for it. -/
theorem load_eq_ok (hfree : l.schema.TransformFree) (hload : (l.load host).result = .ok record) :
    ∃ bound reading data, l.config.maxDepth = .ok bound ∧ l.merged host = .ok reading ∧
      l.payload bound reading.env = .ok data ∧ record.schema = l.schema.name ∧
        List.Forall₂ (Resolved (l.rawValue data reading.env) (l.coerceRoot bound))
          l.schema.fields record.fields := by
  obtain ⟨bound, reading, data, fields, hbound, hmerged, hpayload, hfields, hrecord⟩ :=
    load_stages hload
  obtain rfl := Except.ok.inj ((Pipeline.applyToRecord_eq hfree _ _).symm.trans hrecord)
  exact ⟨bound, reading, data, hbound, hmerged, hpayload, rfl, hfields⟩

/-- The raw value of a field is set, a text of the environment, or the default. -/
theorem rawValue_eq_ok {data : Entries} {env : EnvMap} {f : Field} {v : Value}
    (hraw : l.rawValue data env f = .ok v) :
    (f.name, v) ∈ data ∨ (∃ text, v = .str text) ∨ f.info.default = some v := by
  unfold rawValue at hraw
  split at hraw
  · rename_i hlookup
    obtain rfl := Except.ok.inj hraw
    exact .inl (Entries.mem_of_lookup hlookup)
  · split at hraw
    · exact .inr (.inl ⟨_, (Except.ok.inj hraw).symm⟩)
    · split at hraw
      · rename_i hdefault
        exact .inr (.inr (Except.ok.inj hraw ▸ hdefault))
      · cases hraw

end Loader

end EnvSettings
