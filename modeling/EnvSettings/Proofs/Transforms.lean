import EnvSettings.Proofs.Recheck

namespace EnvSettings

/-- A record transform changes a record in place: the schema it belongs to stays. -/
def RecordTransform.InPlace (t : RecordTransform) : Prop :=
  ∀ schema r out, t.run schema r = .ok out → out.schema = r.schema

/-- What every step of a fold keeps holds of its result. -/
theorem foldlM_induct {ε α β : Type} {step : β → α → Except ε β} {P : β → Prop} {as : List α}
    {b out : β} (hstep : ∀ a ∈ as, ∀ b b', P b → step b a = .ok b' → P b') (hb : P b)
    (hout : as.foldlM step b = .ok out) : P out := by
  induction as generalizing b with
  | nil =>
    obtain rfl := Except.ok.inj hout
    exact hb
  | cons a as ih =>
    obtain ⟨hhead, htail⟩ := List.forall_mem_cons.1 hstep
    obtain ⟨b', hb', hout⟩ := bind_eq_ok_iff.1 hout
    exact ih htail (hhead b b' hb hb') hout

namespace Pipeline

variable {c : Catalog} {schema : Schema} {f : Field} {path : String} {v w : Value} {id : SchemaId}
  {r out : Record}

/-- After the transforms a field has the value it had, or one of the form of its type. -/
theorem eq_or_compatible_of_applyAfter (hw : applyAfter c schema f path v = .ok w) :
    w = v ∨ c.compatible f.type w := by
  refine foldlM_induct (P := fun w => w = v ∨ c.compatible f.type w)
    (fun t _ u u' _ hu' => ?_) (.inl rfl) hw
  obtain ⟨u'', -, hform⟩ := bind_eq_ok_iff.1 hu'
  split at hform
  · rename_i hcompatible
    obtain rfl := Except.ok.inj hform
    exact .inr hcompatible
  · cases hform

/-- A record leaves its transforms unchanged if there are none, and checked otherwise. -/
theorem applyToRecord_eq_ok (hout : applyToRecord c id r path = .ok out) :
    (c.schema id).recordTransforms = [] ∧ out = r ∨
      (c.schema id).recordTransforms ≠ [] ∧ Checked c id out.fields := by
  obtain ⟨out', hrun, hcheck⟩ := bind_eq_ok_iff.1 hout
  cases htransforms : (c.schema id).recordTransforms with
  | nil =>
    rw [htransforms] at hrun hcheck
    obtain rfl := Except.ok.inj hrun
    exact .inl ⟨rfl, (Except.ok.inj hcheck).symm⟩
  | cons t ts =>
    rw [htransforms] at hcheck
    obtain ⟨_, hrecheck, heq⟩ := bind_eq_ok_iff.1 hcheck
    obtain rfl := Except.ok.inj heq
    exact .inr ⟨List.cons_ne_nil t ts, recheck_eq_ok_iff.1 hrecheck⟩

theorem schema_applyToRecord (hinplace : ∀ t ∈ (c.schema id).recordTransforms, t.InPlace)
    (hout : applyToRecord c id r path = .ok out) : out.schema = r.schema := by
  obtain ⟨out', hrun, hcheck⟩ := bind_eq_ok_iff.1 hout
  have hschema : out'.schema = r.schema := by
    refine foldlM_induct (P := fun r' => r'.schema = r.schema)
      (fun t ht r' r'' hr' hr'' => ?_) rfl hrun
    exact (hinplace t ht _ _ _ (mapError_eq_ok_iff.1 hr'')).trans hr'
  split at hcheck
  · exact Except.ok.inj hcheck ▸ hschema
  · obtain ⟨_, -, heq⟩ := bind_eq_ok_iff.1 hcheck
    exact Except.ok.inj heq ▸ hschema

end Pipeline

namespace Resolver

variable {r : Resolver} {levels : Nat} {build : Builder} {schema : Schema} {f : Field}
  {raw v w : Value} {path : String} {depth : Nat} {id : SchemaId}

/-- However a field comes to its value, it has the form of the type, unless it is a record that was
built for the type and does not have the name of its schema. -/
theorem Brought.compatible_or {P : Value → Prop}
    (hbuild : ∀ id, f.type.nestedSchema? = some id → ∀ es path depth record,
      build id es path depth = .ok record →
        record.schema = r.catalog.schemaName id ∨ P record.toValue)
    (hv : Brought r levels build f raw path depth v) : r.catalog.compatible f.type v ∨ P v := by
  cases hv with
  | built hnested _ hrecord =>
    obtain ⟨-, record, hbuilt, rfl⟩ := nestedRecord_eq_ok_iff.1 hrecord
    refine (hbuild _ hnested _ _ _ _ hbuilt).imp_left fun hname => ?_
    rw [Record.toValue, hname]
    exact Catalog.compatible_of_nestedSchema? hnested _
  | null _ hnullable =>
    exact .inl ((conforms_null_iff (c := r.catalog) f.type).2 hnullable).compatible
  | coerced _ _ hvalue => exact .inl (Coerce.compatible_value hvalue)
  | converted _ hvalue => exact .inl (Convert.compatible_value hvalue)

theorem check_coerceField (hv : r.coerceField levels build schema f raw path depth = .ok v) :
    f.info.check v = .ok () := by
  obtain ⟨w, -, -, hcheck⟩ := coerceField_stages hv
  exact hcheck

/-- Whatever the transforms of a field do, its value has the form of the type, unless it is a record
that was built for the type and does not have the name of its schema. -/
theorem compatible_or_of_coerceField {P : Value → Prop}
    (hbuild : ∀ id, f.type.nestedSchema? = some id → ∀ es path depth record,
      build id es path depth = .ok record →
        record.schema = r.catalog.schemaName id ∨ P record.toValue)
    (hv : r.coerceField levels build schema f raw path depth = .ok v) :
    r.catalog.compatible f.type v ∨ P v := by
  obtain ⟨w, hw, hafter, -⟩ := coerceField_stages hv
  obtain rfl | hcompatible := Pipeline.eq_or_compatible_of_applyAfter hafter
  · -- no transform after coercion has touched the value, so it is as coercion left it
    obtain ⟨text, u, -, -, htransformed⟩ | hbrought := coerceRaw_stages hw
    · obtain hbrought | ⟨rfl, hcompatible⟩ := brought_of_coerceTransformed htransformed
      · exact hbrought.compatible_or hbuild
      · exact .inl hcompatible
    · exact hbrought.compatible_or hbuild
  · exact .inl hcompatible

theorem compatible_coerceField
    (hbuild : ∀ id, f.type.nestedSchema? = some id → ∀ es path depth record,
      build id es path depth = .ok record → record.schema = r.catalog.schemaName id)
    (hv : r.coerceField levels build schema f raw path depth = .ok v) :
    r.catalog.compatible f.type v :=
  (compatible_or_of_coerceField (P := fun _ => False)
    (fun id hid es path depth record hrecord => .inl (hbuild id hid es path depth record hrecord))
    hv).resolve_right id

/-- A nested record is what the transforms of its schema make of one with the name of it. -/
theorem exists_applyToRecord {es : Entries} {record : Record}
    (hrecord : r.buildRecord levels id es path depth = .ok record) :
    ∃ fields, Pipeline.applyToRecord r.catalog id ⟨r.catalog.schemaName id, fields⟩ path =
      .ok record := by
  cases levels with
  | zero => cases hrecord
  | succ levels =>
    simp only [buildRecord, bind_eq_ok_iff] at hrecord
    obtain ⟨fields, -, hrecord⟩ := hrecord
    exact ⟨fields, hrecord⟩

/-- A nested record is named like its schema if its transforms leave it in place. -/
theorem schema_buildRecord {es : Entries} {record : Record}
    (hinplace : ∀ t ∈ (r.catalog.schema id).recordTransforms, t.InPlace)
    (hrecord : r.buildRecord levels id es path depth = .ok record) :
    record.schema = r.catalog.schemaName id := by
  obtain ⟨fields, happly⟩ := exists_applyToRecord hrecord
  exact Pipeline.schema_applyToRecord hinplace happly

/-- With distinct names each field is resolved to what the entries hold under its name. -/
theorem valueOf_of_resolved {rawOf : Field → Except Error Value}
    {coerce : Field → Value → Except Error Value} {fs : List Field} {es : Entries}
    (hnames : (fs.map (·.name)).Nodup) (hfields : List.Forall₂ (Resolved rawOf coerce) fs es) :
    ∀ f ∈ fs, rawOf f >>= coerce f = .ok (valueOf es f.name) := by
  induction hfields with
  | nil => exact List.forall_mem_nil _
  | cons hresolved hrest ih =>
    rename_i f e fs es
    rw [List.map_cons, List.nodup_cons] at hnames
    refine List.forall_mem_cons.2 ⟨?_, fun g hg => ?_⟩
    · rw [valueOf, Entries.lookup_cons_eq, if_pos hresolved.name.symm]
      exact hresolved.value
    · have hother : g.name ≠ e.1 := by
        rw [hresolved.name]
        exact fun heq => hnames.1 (heq ▸ List.mem_map_of_mem hg)
      rw [valueOf, Entries.lookup_cons_eq, if_neg hother]
      exact ih hnames.2 g hg

end Resolver

namespace Loader

variable {l : Loader} {host : Host} {record : Record}

/-- After record transforms of the root, the fields of what a load returns are checked; without any,
each is what some raw value of it resolves to. -/
theorem checked_or_resolved (hnames : (l.schema.fields.map (·.name)).Nodup)
    (hload : (l.load host).result = .ok record) :
    l.schema.recordTransforms ≠ [] ∧ Checked l.catalog l.root record.fields ∨
      l.schema.recordTransforms = [] ∧ ∃ bound, ∀ f ∈ l.schema.fields, ∃ raw,
        l.coerceRoot bound f raw = .ok (valueOf record.fields f.name) := by
  obtain ⟨bound, reading, data, fields, -, -, -, hfields, hrecord⟩ := load_stages hload
  obtain ⟨hnone, rfl⟩ | hchecked := Pipeline.applyToRecord_eq_ok hrecord
  · refine .inr ⟨hnone, bound, fun f hf => ?_⟩
    obtain ⟨raw, -, hv⟩ := bind_eq_ok_iff.1 (Resolver.valueOf_of_resolved hnames hfields f hf)
    exact ⟨raw, hv⟩
  · exact .inl hchecked

/-- The root fields of what a load returns meet their constraints. -/
theorem check_root (hnames : (l.schema.fields.map (·.name)).Nodup)
    (hload : (l.load host).result = .ok record) :
    ∀ f ∈ l.schema.fields, f.info.check (valueOf record.fields f.name) = .ok () := by
  intro f hf
  obtain ⟨-, hchecked⟩ | ⟨-, bound, hresolved⟩ := checked_or_resolved hnames hload
  · exact (checked_iff.1 hchecked f hf).1.check
  · obtain ⟨raw, hv⟩ := hresolved f hf
    exact Resolver.check_coerceField hv

/-- Makes a list of one name. -/
def splitName : FieldTransform where
  name := "split"
  field := "names"
  stage := .before
  order := 0
  run _ v := match v with
    | .str text => .ok (.list [.str text])
    | v => .ok v

/-- Adds a name to a list. -/
def extendNames : FieldTransform where
  name := "extend"
  field := "names"
  stage := .after
  order := 1
  run _ v := match v with
    | .list items => .ok (.list (items ++ [.str "root"]))
    | v => .ok v

/-- Sets the owner of a record. -/
def setOwner : RecordTransform where
  name := "own"
  order := 2
  run _ r := .ok (r.insert "owner" (.str "ops"))

theorem setOwner_inPlace : setOwner.InPlace := by
  intro schema r out hout
  obtain rfl := Except.ok.inj hout
  rfl

/-- A mailbox has an owner, whom a transform sets; an agent has names, which two transforms make,
and a mailbox. -/
def agents (ts : List RecordTransform) : Catalog :=
  ⟨#[{ name := "Mailbox", fields := [{ name := "owner", type := .str }]
       recordTransforms := [setOwner] },
    { name := "Agent"
      fields := [{ name := "names", type := .list .str, info := { minLength := some 2 } },
        { name := "mailbox", type := .nested 0 }]
      transforms := ⟨[("names", ⟨[splitName], [extendNames]⟩)]⟩
      recordTransforms := ts }]⟩

def agentLoader (ts : List RecordTransform) : Loader where
  catalog := agents ts
  root := 1
  config := { caseSensitive := true }
  env := some (EnvMap.ofList [("names", "daemon"), ("mailbox", "\x7b\"owner\":\"\"\x7d")])

/-- Gives an agent other names. -/
def renameAgent : RecordTransform where
  name := "rename"
  order := 3
  run _ r := .ok (r.insert "names" (.list [.str "agent", .str "root"]))

def agentRecord (name : String) : Record where
  schema := "Agent"
  fields := [("names", .list [.str name, .str "root"]),
    ("mailbox", .record "Mailbox" [("owner", .str "ops")])]

theorem agentLoader_load :
    ((agentLoader []).load {}).result = .ok (agentRecord "daemon") ∧
      ((agentLoader [renameAgent]).load {}).result = .ok (agentRecord "agent") := by
  constructor
  all_goals
    refine load_eq_of_resolve rfl rfl rfl (by simp) rfl fun env hlist hget => ?_
    delta Loader.resolve Loader.payload Loader.rawValue Loader.lookupEnv
    simp only [hlist, hget]
    clear hlist hget
    cbv

end Loader

end EnvSettings
