import EnvSettings.Proofs.Sources
import EnvSettings.Proofs.Transforms

namespace EnvSettings

variable {c : Catalog} {f : Field} {v : Value} {id : SchemaId}

/-- A record in a field that is named like the schema of the field is checked. -/
def VettedAt (c : Catalog) (f : Field) (v : Value) : Prop :=
  ∀ next inner, f.type.nestedSchema? = some next → v = .record (c.schemaName next) inner →
    Checked c next inner

/-- Fields are checked if each of them is admitted and vetted. -/
theorem checked_iff_vettedAt {es : Entries} :
    Checked c id es ↔ ∀ f ∈ (c.schema id).fields,
      Admits c f (valueOf es f.name) ∧ VettedAt c f (valueOf es f.name) :=
  checked_iff

/-- A value that a record of a schema can be made of without a check: a record of the schema is
checked, and the entries of a map are such values for the schemas of the nested fields. -/
inductive Vetted (c : Catalog) : SchemaId → Value → Prop
  | record {id : SchemaId} {schema : String} {inner : Entries}
    (hchecked : schema = c.schemaName id → Checked c id inner) :
    Vetted c id (.record schema inner)
  | map {id : SchemaId} {entries : Entries}
    (hentries : ∀ f ∈ (c.schema id).fields, ∀ next v, f.type.nestedSchema? = some next →
      entries.lookup f.name = some v → Vetted c next v) : Vetted c id (.map entries)
  | other {id : SchemaId} {v : Value} (hrecord : ∀ schema inner, v ≠ .record schema inner)
    (hmap : ∀ entries, v ≠ .map entries) : Vetted c id v

theorem Vetted.checked {inner : Entries} (hv : Vetted c id (.record (c.schemaName id) inner)) :
    Checked c id inner := by
  cases hv with
  | record hchecked => exact hchecked rfl
  | other hrecord => exact absurd rfl (hrecord _ _)

/-- The entries of a vetted map are vetted for their fields. -/
theorem Vetted.entry {entries : Entries} (hv : Vetted c id (.map entries))
    (hf : f ∈ (c.schema id).fields) {next : SchemaId} (hnext : f.type.nestedSchema? = some next)
    {w : Value} (hlookup : entries.lookup f.name = some w) : Vetted c next w := by
  cases hv with
  | map hentries => exact hentries f hf next w hnext hlookup
  | other _ hmap => exact absurd rfl (hmap _)

/-- Values without records are vetted for every schema. -/
theorem Vetted.of_recordFree {enums : Bool} :
    ∀ (v : Value) (id : SchemaId), v.recordFree enums → Vetted c id v
  | .map entries, id, hv => by
    refine .map fun f _ next w _ hlookup => ?_
    have hmem := Entries.mem_of_lookup hlookup
    have hsize := List.sizeOf_lt_of_mem hmem
    exact Vetted.of_recordFree w next (Value.recordFree_map.1 hv _ hmem)
  | .record _ _, _, hv => by cases hv
  | .null, _, _ | .bool _, _, _ | .int _, _, _ | .float _, _, _ | .str _, _, _ | .date _, _, _
  | .time _, _, _ | .timestamp _, _, _ | .zoned _, _, _ | .duration _, _, _ | .enum _, _, _
  | .list _, _, _ | .set _, _, _ => .other nofun nofun
termination_by v => sizeOf v
decreasing_by
  simp only [Prod.mk.sizeOf_spec, Value.map.sizeOf_spec] at hsize ⊢
  omega

/-- What a vetted value gives for a record is vetted. -/
theorem Vetted.of_givesEntries {raw : Value} {entries : Entries} (hraw : Vetted c id raw)
    (hgives : Resolver.GivesEntries raw entries) : Vetted c id (.map entries) := by
  cases hgives with
  | map => exact hraw
  | text _ hobject =>
    exact .of_recordFree _ _ (hobject ▸ Value.recordFree_ofJson true _)

namespace Catalog

/-- A schema that stands below a root along nested fields. -/
inductive Nests (c : Catalog) (root : SchemaId) : SchemaId → Prop
  | root : Nests c root root
  | field {id next : SchemaId} {f : Field} (hid : Nests c root id)
    (hf : f ∈ (c.schema id).fields) (hnext : f.type.nestedSchema? = some next) : Nests c root next

/-- No schema below the root lets records into nested fields that are not checked: the defaults
there are vetted, the transforms there keep vetted values vetted, and record transforms change
records in place. -/
structure Vets (c : Catalog) (root : SchemaId) : Prop where
  names : ∀ id, c.Nests root id → ((c.schema id).fields.map (·.name)).Nodup
  inPlace : ∀ id, c.Nests root id → ∀ t ∈ (c.schema id).recordTransforms, t.InPlace
  default : ∀ id, c.Nests root id → ∀ f ∈ (c.schema id).fields, ∀ next v,
    f.type.nestedSchema? = some next → f.info.default = some v → Vetted c next v
  before : ∀ id, c.Nests root id → ∀ f ∈ (c.schema id).fields, ∀ next,
    f.type.nestedSchema? = some next →
      ∀ t ∈ (c.schema id).transforms.transforms .before f.name, ∀ v w,
        Vetted c next v → t.run (c.schema id).toShape v = .ok w → Vetted c next w
  after : ∀ id, c.Nests root id → ∀ f ∈ (c.schema id).fields,
    ∀ t ∈ (c.schema id).transforms.transforms .after f.name, ∀ v w,
      VettedAt c f v → t.run (c.schema id).toShape v = .ok w → VettedAt c f w

end Catalog

namespace Resolver

variable {r : Resolver} {root : SchemaId} {levels : Nat} {build : Builder} {raw : Value}
  {path : String} {depth : Nat}

/-- The builder gives records with the names of the schemas that are asked for, and checked ones if
vetted entries go in. -/
structure BuildsChecked (r : Resolver) (root : SchemaId) (build : Builder) : Prop where
  named : ∀ id, r.catalog.Nests root id → ∀ es path depth record,
    build id es path depth = .ok record → record.schema = r.catalog.schemaName id
  checked : ∀ id, r.catalog.Nests root id → ∀ es path depth record,
    Vetted r.catalog id (.map es) → build id es path depth = .ok record →
      Checked r.catalog id record.fields

/-- A record in a nested field was vetted before, or it was built. -/
theorem Brought.vettedAt (hbuild : r.BuildsChecked root build)
    (hreach : ∀ next, f.type.nestedSchema? = some next → r.catalog.Nests root next)
    (hraw : ∀ next, f.type.nestedSchema? = some next → Vetted r.catalog next raw)
    (hv : Brought r levels build f raw path depth v) : VettedAt r.catalog f v := by
  rintro next inner hnested rfl
  obtain rfl | ⟨entries, hgives, hrecord⟩ := hv.eq_or_built hnested
  · exact (hraw next hnested).checked
  · obtain ⟨-, record, hbuilt, heq⟩ := nestedRecord_eq_ok_iff.1 hrecord
    obtain ⟨-, rfl⟩ := Value.record.inj heq
    have hentries := (hraw next hnested).of_givesEntries hgives
    exact hbuild.checked next (hreach next hnested) _ _ _ record hentries hbuilt

/-- A field of a schema below the root takes no record that is not checked. -/
theorem vettedAt_coerceField (hvets : r.catalog.Vets root) (hbuild : r.BuildsChecked root build)
    (hid : r.catalog.Nests root id) (hf : f ∈ (r.catalog.schema id).fields)
    (hraw : ∀ next, f.type.nestedSchema? = some next → Vetted r.catalog next raw)
    (hv : r.coerceField levels build (r.catalog.schema id) f raw path depth = .ok v) :
    VettedAt r.catalog f v := by
  obtain ⟨w, hw, hafter, -⟩ := coerceField_stages hv
  have hreach : ∀ next, f.type.nestedSchema? = some next → r.catalog.Nests root next :=
    fun _ => hid.field hf
  refine foldlM_induct (P := VettedAt r.catalog f) (fun t ht u u' hu hu' => ?_) ?_ hafter
  · obtain ⟨u'', hrun, hform⟩ := bind_eq_ok_iff.1 hu'
    split at hform
    · obtain rfl := Except.ok.inj hform
      exact hvets.after id hid f hf t ht u _ hu (mapError_eq_ok_iff.1 hrun)
    · cases hform
  · obtain ⟨text, u, -, hbefore, hu⟩ | hbrought := coerceRaw_stages hw
    · have hvetted : ∀ next, f.type.nestedSchema? = some next → Vetted r.catalog next u :=
        fun next hnext => foldlM_induct (P := Vetted r.catalog next)
          (fun t ht v v' hv hv' =>
            hvets.before id hid f hf next hnext t ht v v' hv (mapError_eq_ok_iff.1 hv'))
          (hraw next hnext) hbefore
      obtain hbrought | ⟨rfl, -⟩ := brought_of_coerceTransformed hu
      · exact hbrought.vettedAt hbuild hreach hvetted
      · rintro next inner hnested rfl
        exact (hvetted next hnested).checked
    · exact hbrought.vettedAt hbuild hreach hraw

/-- The fields of a schema below the root are checked once they are resolved from vetted values. -/
theorem checked_of_resolved (hvets : r.catalog.Vets root) (hbuild : r.BuildsChecked root build)
    (hid : r.catalog.Nests root id) {rawOf : Field → Except Error Value}
    {pathOf : Field → String} {es : Entries}
    (hraw : ∀ f ∈ (r.catalog.schema id).fields, ∀ next raw, f.type.nestedSchema? = some next →
      rawOf f = .ok raw → Vetted r.catalog next raw)
    (hfields : List.Forall₂ (Resolved rawOf fun f raw =>
      r.coerceField levels build (r.catalog.schema id) f raw (pathOf f) depth)
      (r.catalog.schema id).fields es) : Checked r.catalog id es := by
  refine checked_iff_vettedAt.2 fun f hf => ?_
  obtain ⟨raw, hrawOf, hv⟩ :=
    bind_eq_ok_iff.1 (valueOf_of_resolved (hvets.names id hid) hfields f hf)
  have hnamed : ∀ next, f.type.nestedSchema? = some next → ∀ es path depth record,
      build next es path depth = .ok record → record.schema = r.catalog.schemaName next :=
    fun next hnext => hbuild.named next (hid.field hf hnext)
  refine ⟨⟨compatible_coerceField hnamed hv, check_coerceField hv⟩, ?_⟩
  exact vettedAt_coerceField hvets hbuild hid hf
    (fun next hnext => hraw f hf next raw hnext hrawOf) hv

/-- Nested records below the root are checked once they are built, level by level. -/
theorem buildsChecked_buildRecord (hvets : r.catalog.Vets root) (levels : Nat) :
    r.BuildsChecked root (r.buildRecord levels) := by
  refine ⟨fun id hid es path depth record => schema_buildRecord (hvets.inPlace id hid), ?_⟩
  induction levels with
  | zero =>
    intro id hid es path depth record hes hbuild
    cases hbuild
  | succ levels ih =>
    intro id hid es path depth record hes hbuild
    simp only [buildRecord, bind_eq_ok_iff, coerceFields_eq_ok_iff] at hbuild
    obtain ⟨fields, hfields, hrecord⟩ := hbuild
    -- record transforms are followed by a check of the record, so only their absence needs work
    obtain ⟨-, rfl⟩ | ⟨-, hchecked⟩ := Pipeline.applyToRecord_eq_ok hrecord
    · have hlower : r.BuildsChecked root (r.buildRecord levels) :=
        ⟨fun id hid es path depth record => schema_buildRecord (hvets.inPlace id hid), ih⟩
      refine checked_of_resolved hvets hlower hid (fun f hf next raw hnext hraw => ?_) hfields
      obtain hlookup | ⟨-, hdefault⟩ := Option.or_eq_some_iff.1 (entryOf_eq_ok_iff.1 hraw)
      · exact hes.entry hf hnext hlookup
      · exact hvets.default id hid f hf next raw hnext hdefault
    · exact hchecked

end Resolver

namespace Loader

variable {l : Loader} {host : Host} {record : Record}

/-- What there is for a field is vetted for a schema if its last override and its default are. -/
theorem vetted_of_source? {bound : Option Nat} {env : EnvMap} {projected : Entries}
    (hprojected : l.projected bound env = .ok projected)
    (hoverride : ∀ v, l.override? f = some v → Vetted l.catalog id v)
    (hdefault : ∀ v, f.info.default = some v → Vetted l.catalog id v)
    (hsource : l.source? projected env f = some v) : Vetted l.catalog id v := by
  rw [source?, Option.or_eq_some_iff] at hsource
  obtain hoverridden | ⟨-, hsource⟩ := hsource
  · exact hoverride v hoverridden
  obtain hlookup | ⟨-, hsource⟩ := Option.or_eq_some_iff.1 hsource
  · have hfree : RecordFree true projected := by
      rw [← (projected_eq_ok_iff.1 hprojected).2]
      exact RecordFree.applyEdits (List.forall_mem_nil _) _
    exact .of_recordFree v id (hfree _ (Entries.mem_of_lookup hlookup))
  obtain htext | ⟨-, hsource⟩ := Option.or_eq_some_iff.1 hsource
  · obtain ⟨text, -, rfl⟩ := Option.map_eq_some_iff.1 htext
    exact .other (by simp) (by simp)
  · exact hdefault v hsource

/-- Without record transforms of the root, the check that a load leaves out passes exactly if the
root fields hold values of the form of their types, and no unchecked records named like the schemas
of the fields. It does pass where none come ready-made. -/
theorem load_recheck (hnames : (l.schema.fields.map (·.name)).Nodup)
    (hnone : l.schema.recordTransforms = []) (hload : (l.load host).result = .ok record) :
    (Pipeline.recheck l.catalog record.toValue l.root "" = .ok () ↔
      ∀ f ∈ l.schema.fields, l.catalog.compatible f.type (valueOf record.fields f.name) ∧
        VettedAt l.catalog f (valueOf record.fields f.name)) ∧
    (l.catalog.Vets l.root →
      (∀ f ∈ l.schema.fields, ∀ next v, f.type.nestedSchema? = some next →
        l.override? f = some v → Vetted l.catalog next v) →
      Pipeline.recheck l.catalog record.toValue l.root "" = .ok ()) := by
  rw [Record.toValue, Pipeline.recheck_eq_ok_iff]
  constructor
  · refine checked_iff_vettedAt.trans (forall₂_congr fun f hf => and_congr_left fun _ => ?_)
    exact ⟨Admits.compatible, fun hcompatible => ⟨hcompatible, check_root hnames hload f hf⟩⟩
  · intro hvets hoverrides
    obtain ⟨bound, reading, data, fields, -, -, hpayload, hfields, hrecord⟩ := load_stages hload
    obtain ⟨-, rfl⟩ | ⟨hsome, -⟩ := Pipeline.applyToRecord_eq_ok hrecord
    · let r : Resolver := ⟨l.catalog, bound⟩
      refine r.checked_of_resolved hvets (r.buildsChecked_buildRecord hvets _) .root
        (fun f hf next raw hnext hraw => ?_) hfields
      rw [payload_eq] at hpayload
      obtain ⟨projected, hprojected, rfl⟩ := map_eq_ok_iff.1 hpayload
      rw [rawValue_eq_sourced hf, sourced_eq_ok_iff] at hraw
      exact vetted_of_source? hprojected (fun v => hoverrides f hf next v hnext)
        (fun v => hvets.default l.root .root f hf next v hnext) hraw
    · exact absurd hnone hsome

theorem agents_vets : (agents []).Vets 1 := by
  have hids : ∀ id, (agents []).Nests 1 id → id = 0 ∨ id = 1 := by
    intro id hid
    induction hid with
    | root => exact .inr rfl
    | field hid hf hnext ih =>
      obtain rfl | rfl := ih
      · obtain rfl := List.mem_singleton.1 hf
        cases hnext
      · obtain rfl | rfl := List.mem_pair.1 hf
        · cases hnext
        · exact .inl (Option.some.inj hnext).symm
  have hfields : ∀ id, (agents []).Nests 1 id → ∀ f ∈ ((agents []).schema id).fields,
      f.info.default = none ∧ (f.type.nestedSchema?.isSome → ∀ stage,
        ((agents []).schema id).transforms.transforms stage f.name = []) := by
    intro id hid f hf
    obtain rfl | rfl := hids id hid
    · obtain rfl := List.mem_singleton.1 hf
      exact ⟨rfl, nofun⟩
    · obtain rfl | rfl := List.mem_pair.1 hf
      · exact ⟨rfl, nofun⟩
      · exact ⟨rfl, fun _ stage => by cases stage <;> rfl⟩
  refine ⟨fun id hid => ?_, fun id hid => ?_, fun id hid f hf next v hnext hdefault => ?_,
    fun id hid f hf next hnext t ht => ?_, fun id hid f hf t ht v w _ _ next inner hnext => ?_⟩
  · obtain rfl | rfl := hids id hid
    · change ["owner"].Nodup
      decide
    · change ["names", "mailbox"].Nodup
      decide
  · obtain rfl | rfl := hids id hid
    · intro t ht
      obtain rfl := List.mem_singleton.1 ht
      exact setOwner_inPlace
    · exact List.forall_mem_nil _
  · cases (hfields id hid f hf).1.symm.trans hdefault
  · rw [(hfields id hid f hf).2 (by rw [hnext]; rfl)] at ht
    cases ht
  · rw [(hfields id hid f hf).2 (by rw [hnext]; rfl)] at ht
    cases ht

/-- A check of the agent would pass: its mailbox was built. -/
theorem load_recheck_agent :
    ((agentLoader []).load {}).result = .ok (agentRecord "daemon") ∧
      Pipeline.recheck (agents []) (agentRecord "daemon").toValue 1 "" = .ok () := by
  have hnames : ((agentLoader []).schema.fields.map (·.name)).Nodup := agents_vets.names 1 .root
  obtain ⟨hplain, -⟩ := agentLoader_load
  obtain ⟨-, hrecheck⟩ := load_recheck hnames rfl hplain
  exact ⟨hplain, hrecheck agents_vets fun f _ next v _ hoverride => by cases hoverride⟩

/-- An application has a database, and the database a host. -/
def hosts : Catalog :=
  ⟨#[{ name := "Database", fields := [{ name := "host", type := .str }] },
    { name := "App", fields := [{ name := "db", type := .nested 0 }] }]⟩

/-- An override gives a database without a host. -/
def hostLoader : Loader where
  catalog := hosts
  root := 1
  config := { caseSensitive := true }
  env := some (EnvMap.ofList [])
  overrides := [("db", .record "Database" [])]

/-- The check that is left out would not pass: the database has no host. -/
theorem load_recheck_readyMade :
    hostLoader.schema.recordTransforms = [] ∧
      (hostLoader.load {}).result = .ok ⟨"App", [("db", .record "Database" [])]⟩ ∧
      Pipeline.recheck hosts (.record "App" [("db", .record "Database" [])]) 1 "" ≠ .ok () := by
  refine ⟨rfl, ?_, fun hrecheck => ?_⟩
  · have henv : hostLoader.env = some (EnvMap.ofList []) := rfl
    refine load_eq_of_resolve henv rfl rfl (by simp) rfl fun env hlist hget => ?_
    delta Loader.resolve Loader.payload Loader.rawValue Loader.lookupEnv
    simp only [hlist, hget]
    clear hlist hget
    cbv
  · have hfails : (Pipeline.recheck hosts (.record "App" [("db", .record "Database" [])]) 1
        "").toOption = none := by
      cbv
    rw [hrecheck] at hfails
    cases hfails

end Loader

end EnvSettings
