import EnvSettings.Proofs.Schema.Composition

namespace EnvSettings

variable {s : Schema}

/-- A resolved field has the name of its declaration, and metadata that passes the check. -/
theorem FieldDecl.resolve_eq_ok {d : FieldDecl} {f : Field} (hresolve : d.resolve = .ok f) :
    f.name = d.name ∧ f.info.validate = .ok () := by
  simp only [resolve, bind_eq_ok_iff, mapError_eq_ok_iff, Except.ok.injEq] at hresolve
  obtain ⟨⟨⟩, hvalid, rfl⟩ := hresolve
  exact ⟨rfl, hvalid⟩

/-- The type of a field is the declared one. -/
theorem FieldDecl.type_of_resolve {d : FieldDecl} {f : Field} (hresolve : d.resolve = .ok f) :
    f.type = d.type := by
  simp only [resolve, bind_eq_ok_iff, mapError_eq_ok_iff, Except.ok.injEq] at hresolve
  obtain ⟨⟨⟩, -, rfl⟩ := hresolve
  rfl

namespace SchemaBuilder

variable {schema : String} {seen : List String} {fields out own inherited : List Field}

/-- Declared fields laid over those that are taken over: a field with the name of an inherited one
stands in its place, and the others follow in their order. -/
def layOver (own inherited : List Field) : List Field :=
  inherited.map (fun f => (own.find? (·.name = f.name)).getD f) ++
    own.filter (·.name ∉ inherited.map (·.name))

/-- Inherited names come first, then the own ones that are new. -/
theorem map_name_layOver (own inherited : List Field) :
    (layOver own inherited).map (·.name) = inherited.map (·.name) ++
      (own.map (·.name)).filter (· ∉ inherited.map (·.name)) := by
  rw [layOver, List.map_append, List.map_map, List.filter_map]
  congr 1
  refine List.map_congr_left fun f _ => ?_
  rw [Function.comp_apply]
  cases hown : own.find? (·.name = f.name) with
  | none => rfl
  | some g => simpa using List.find?_some hown

/-- A field of the layout is an own or an inherited one. -/
theorem mem_layOver {f : Field} (hmem : f ∈ layOver own inherited) : f ∈ own ∨ f ∈ inherited := by
  obtain hmem | hmem := List.mem_append.1 hmem
  · obtain ⟨g, hg, rfl⟩ := List.mem_map.1 hmem
    cases hown : own.find? (·.name = g.name) with
    | none => exact .inr hg
    | some g' => exact .inl (List.mem_of_find?_eq_some hown)
  · exact .inl (List.mem_filter.1 hmem).1

theorem nodup_layOver (hinherited : (inherited.map (·.name)).Nodup)
    (hown : (own.map (·.name)).Nodup) : ((layOver own inherited).map (·.name)).Nodup := by
  rw [map_name_layOver, List.nodup_append]
  refine ⟨hinherited, hown.filter _, fun name hname other hother => ?_⟩
  rintro rfl
  exact of_decide_eq_true (List.mem_filter.1 hother).2 hname

/-- Putting a field is laying it over the others. -/
theorem putField_eq_layOver {field : Field} (hfields : (fields.map (·.name)).Nodup) :
    putField field fields = layOver [field] fields := by
  induction fields with
  | nil => rfl
  | cons f fields ih =>
    rw [List.map_cons, List.nodup_cons] at hfields
    rw [putField]
    by_cases hname : f.name = field.name
    · have hrest : ∀ g ∈ fields, ([field].find? (·.name = g.name)).getD g = g := by
        intro g hg
        have hne : field.name ≠ g.name := fun heq =>
          hfields.1 (hname.trans heq ▸ List.mem_map_of_mem hg)
        simp [hne]
      rw [if_pos hname, layOver, List.map_cons, List.map_congr_left hrest]
      simp [hname]
    · rw [if_neg hname, ih hfields.2]
      simp [layOver, List.filter_cons, Ne.symm hname]

/-- Storing a field and laying others over is laying all of them over. -/
theorem layOver_putField {field : Field} (hinherited : (inherited.map (·.name)).Nodup)
    (hfresh : field.name ∉ own.map (·.name)) :
    layOver own (putField field inherited) = layOver (field :: own) inherited := by
  have hnone : own.find? (·.name = field.name) = none := by
    simpa [List.find?_eq_none] using hfresh
  have hplace : ∀ f ∈ inherited,
      (own.find? (·.name = (([field].find? (·.name = f.name)).getD f).name)).getD
          (([field].find? (·.name = f.name)).getD f) =
        ((field :: own).find? (·.name = f.name)).getD f := by
    intro f _
    by_cases hname : field.name = f.name
    · simp [hname, hname ▸ hnone]
    · simp [hname]
  have hnew : ∀ g ∈ own, decide (g.name ∉ inherited.map (·.name) ++
        ([field].map (·.name)).filter (· ∉ inherited.map (·.name))) =
      decide (g.name ∉ inherited.map (·.name)) := by
    intro g hg
    have hother : g.name ∉ ([field].map (·.name)).filter (· ∉ inherited.map (·.name)) := by
      intro hmem
      have hname : g.name = field.name := List.mem_singleton.1 (List.mem_of_mem_filter hmem)
      exact hfresh (hname ▸ List.mem_map_of_mem hg)
    exact decide_eq_decide.2 (not_congr (List.mem_append.trans (or_iff_left hother)))
  rw [putField_eq_layOver hinherited, layOver, map_name_layOver, layOver, layOver, List.map_append,
    List.map_map, List.append_assoc, List.filter_congr hnew]
  congr 1
  · exact List.map_congr_left hplace
  · by_cases hmem : field.name ∈ inherited.map (·.name)
    · simp [-List.mem_map, hmem]
    · simp [-List.mem_map, hmem, hnone]

/-- Putting fields one after the other is laying them over the inherited ones. -/
theorem foldl_putField (hinherited : (inherited.map (·.name)).Nodup)
    (hown : (own.map (·.name)).Nodup) :
    own.foldl (fun fields f => putField f fields) inherited = layOver own inherited := by
  induction own generalizing inherited with
  | nil => simp [layOver]
  | cons f own ih =>
    rw [List.map_cons, List.nodup_cons] at hown
    have hnames : ((putField f inherited).map (·.name)).Nodup := by
      rw [putField_eq_layOver hinherited]
      exact nodup_layOver hinherited (List.nodup_singleton _)
    rw [List.foldl_cons, ih hnames hown.2, layOver_putField hinherited hown.1]

theorem mem_putField_self (field : Field) (fields : List Field) :
    field ∈ putField field fields := by
  induction fields with
  | nil => exact List.mem_singleton.2 rfl
  | cons f fields ih =>
    rw [putField]
    split_ifs
    · exact List.mem_cons_self
    · exact List.mem_cons_of_mem f ih

theorem mem_putField_of_ne {f field : Field} (hf : f ∈ fields) (hname : f.name ≠ field.name) :
    f ∈ putField field fields := by
  induction fields with
  | nil => cases hf
  | cons g fields ih =>
    rw [putField]
    obtain rfl | hf := List.mem_cons.1 hf
    · rw [if_neg hname]
      exact List.mem_cons_self
    · split_ifs
      · exact List.mem_cons_of_mem _ hf
      · exact List.mem_cons_of_mem _ (ih hf)

/-- Stored fields with names of their own stay. -/
theorem mem_foldl_putField (hown : (own.map (·.name)).Nodup) {f : Field} (hf : f ∈ own) :
    f ∈ own.foldl (fun fields f => putField f fields) inherited := by
  induction own using List.reverseRecOn with
  | nil => cases hf
  | append_singleton own g ih =>
    rw [List.map_append, List.map_singleton, List.nodup_append] at hown
    rw [List.foldl_append, List.foldl_cons, List.foldl_nil]
    obtain hf | hf := List.mem_append.1 hf
    · refine mem_putField_of_ne (ih hown.1 hf) ?_
      exact hown.2.2 _ (List.mem_map_of_mem hf) _ (List.mem_singleton.2 rfl)
    · rw [List.mem_singleton.1 hf]
      exact mem_putField_self g _

/-- The declarations that are added have names, each of its own, and resolve to valid fields, which
are stored in their order. -/
theorem addFields_eq_ok {ds : List FieldDecl} (hout : addFields schema seen fields ds = .ok out) :
    ∃ own, ds.mapM FieldDecl.resolve = .ok own ∧
      (∀ f ∈ own, f.name ≠ "" ∧ f.name ∉ seen ∧ f.info.validate = .ok ()) ∧
      (own.map (·.name)).Nodup ∧
      out = own.foldl (fun fields f => putField f fields) fields := by
  induction ds generalizing seen fields with
  | nil =>
    obtain rfl := Except.ok.inj hout
    exact ⟨[], rfl, List.forall_mem_nil _, List.nodup_nil, rfl⟩
  | cons d ds ih =>
    unfold addFields at hout
    split at hout
    · cases hout
    rename_i hempty
    split at hout
    · cases hout
    rename_i hseen
    obtain ⟨f, hresolve, hout⟩ := bind_eq_ok_iff.1 hout
    obtain ⟨own, hown, hvalid, hnames, rfl⟩ := ih hout
    obtain ⟨hname, hinfo⟩ := FieldDecl.resolve_eq_ok hresolve
    refine ⟨f :: own, ?_, List.forall_mem_cons.2 ⟨⟨?_, ?_, hinfo⟩, fun g hg => ?_⟩, ?_, rfl⟩
    · rw [List.mapM_cons, hresolve, hown]
      rfl
    · rwa [hname]
    · rwa [hname, ← List.contains_iff_mem]
    · obtain ⟨hne, hfresh, hinfo⟩ := hvalid g hg
      exact ⟨hne, fun hmem => hfresh (List.mem_append_left _ hmem), hinfo⟩
    · rw [List.map_cons, List.nodup_cons]
      refine ⟨fun hmem => ?_, hnames⟩
      obtain ⟨g, hg, heq⟩ := List.mem_map.1 hmem
      have hfresh := (hvalid g hg).2.1
      rw [heq, hname] at hfresh
      exact hfresh (List.mem_append_right _ List.mem_cons_self)

/-- Every declared field is built. -/
theorem exists_field_of_build {b : SchemaBuilder} (hbuild : b.build = .ok s) :
    ∀ d ∈ b.declared, ∃ f ∈ s.fields, f.name = d.name ∧ f.type = d.type := by
  intro d hd
  obtain ⟨fields, hfields, -, -, rfl⟩ := build_eq_ok_iff.1 hbuild
  obtain ⟨own, hown, -, hnames, rfl⟩ := addFields_eq_ok hfields
  obtain ⟨f, hf, hresolve⟩ := exists_of_mapM_eq_ok hown d hd
  exact ⟨f, mem_foldl_putField hnames hf, (FieldDecl.resolve_eq_ok hresolve).1,
    FieldDecl.type_of_resolve hresolve⟩

/-- A transform that passes the check has a name and is bound to a field. -/
theorem bound_of_checkBinding {t : FieldTransform} (hcheck : checkBinding fields t = .ok ()) :
    t.name ≠ "" ∧ t.field ∈ fields.map (·.name) := by
  have hnone : bindingProblem? fields t = none := by
    unfold checkBinding at hcheck
    split at hcheck
    · assumption
    · cases hcheck
  unfold bindingProblem? at hnone
  split at hnone
  · cases hnone
  rename_i hname
  split at hnone
  · cases hnone
  split at hnone
  · cases hnone
  split at hnone
  · cases hnone
  rename_i hfield
  exact ⟨hname, by simpa using hfield⟩

/-- A record transform that passes the check has a name. -/
theorem name_ne_of_checkNamed {t : RecordTransform} (hcheck : checkNamed schema t = .ok ()) :
    t.name ≠ "" := by
  rintro hname
  rw [checkNamed, if_pos hname] at hcheck
  cases hcheck

end SchemaBuilder

/-- What a run of additions leaves was there before or was added. -/
theorem mem_of_mem_foldl {σ α : Type} (members : σ → List α) {add : σ → α → σ}
    (hadd : ∀ r u, ∀ t ∈ members (add r u), t ∈ members r ∨ t = u) {us : List α} {r : σ} {t : α}
    (hmem : t ∈ members (us.foldl add r)) : t ∈ members r ∨ t ∈ us := by
  induction us generalizing r with
  | nil => exact .inl hmem
  | cons u us ih =>
    obtain hmem | hmem := ih hmem
    · obtain hmem | rfl := hadd r u t hmem
      · exact .inl hmem
      · exact .inr List.mem_cons_self
    · exact .inr (List.mem_cons_of_mem u hmem)

/-- A transform of a composed registry is inherited or declared. -/
theorem TransformRegistry.mem_all_compose {r : TransformRegistry} {declared : List FieldTransform}
    {t : FieldTransform} (hmem : t ∈ (compose r declared).all) : t ∈ r.all ∨ t ∈ declared := by
  refine (mem_of_mem_foldl all (fun r u t hmem => ?_) hmem).imp_right List.mem_mergeSort.1
  obtain hmem | hmem := List.mem_append.1 ((all_declare_perm r u).mem_iff.1 hmem)
  · exact .inl (List.mem_of_mem_filter hmem)
  · exact .inr (List.mem_singleton.1 hmem)

/-- A composed record transform is inherited or declared. -/
theorem mem_composeRecordTransforms {inherited declared : List RecordTransform}
    {t : RecordTransform} (hmem : t ∈ composeRecordTransforms inherited declared) :
    t ∈ inherited ∨ t ∈ declared := by
  refine (mem_of_mem_foldl id (fun ts u t hmem => ?_) hmem).imp_right List.mem_mergeSort.1
  obtain hmem | hmem := List.mem_append.1 hmem
  · exact .inl (List.mem_of_mem_filter hmem)
  · exact .inr (List.mem_singleton.1 hmem)

namespace Schema

open SchemaBuilder

/-- What holds of every schema: its fields have names of their own and valid metadata, and its
transforms have names and are bound to its fields. -/
structure WellFormed (s : Schema) : Prop where
  name_ne : ∀ f ∈ s.fields, f.name ≠ ""
  nodup : (s.fields.map (·.name)).Nodup
  valid : ∀ f ∈ s.fields, f.info.validate = .ok ()
  bound : ∀ t ∈ s.transforms.all, t.name ≠ "" ∧ t.field ∈ s.fields.map (·.name)
  named : ∀ t ∈ s.recordTransforms, t.name ≠ ""

theorem wellFormed_empty (name : String) : WellFormed { name } := by
  constructor <;> simp [TransformRegistry.all]

/-- The fields of what is built are the declared ones, laid over those of the parent. -/
theorem fields_of_build {b : SchemaBuilder} (hinherited : (b.inherited.fields.map (·.name)).Nodup)
    (hbuild : b.build = .ok s) :
    ∃ own, b.declared.mapM FieldDecl.resolve = .ok own ∧
      (∀ f ∈ own, f.name ≠ "" ∧ f.info.validate = .ok ()) ∧ (own.map (·.name)).Nodup ∧
      s.fields = layOver own b.inherited.fields := by
  obtain ⟨fields, hfields, -, -, rfl⟩ := build_eq_ok_iff.1 hbuild
  obtain ⟨own, hown, hvalid, hnames, rfl⟩ := addFields_eq_ok hfields
  refine ⟨own, hown, fun f hf => ?_, hnames, foldl_putField hinherited hnames⟩
  obtain ⟨hne, -, hinfo⟩ := hvalid f hf
  exact ⟨hne, hinfo⟩

/-- Building on a well-formed schema gives a well-formed schema. -/
theorem WellFormed.build {b : SchemaBuilder} (hinherited : b.inherited.WellFormed)
    (hbuild : b.build = .ok s) : s.WellFormed := by
  obtain ⟨own, -, hvalid, hnames, hfields⟩ := fields_of_build hinherited.nodup hbuild
  obtain ⟨fields, -, hbound, hnamed, rfl⟩ := build_eq_ok_iff.1 hbuild
  have hkept : ∀ name ∈ b.inherited.fields.map (·.name), name ∈ fields.map (·.name) := by
    intro name hname
    rw [show fields = layOver own b.inherited.fields from hfields, map_name_layOver]
    exact List.mem_append_left _ hname
  obtain rfl : fields = layOver own b.inherited.fields := hfields
  constructor
  case name_ne =>
    intro f hf
    exact (mem_layOver hf).elim (fun hf => (hvalid f hf).1) (hinherited.name_ne f)
  case nodup => exact nodup_layOver hinherited.nodup hnames
  case valid =>
    intro f hf
    exact (mem_layOver hf).elim (fun hf => (hvalid f hf).2) (hinherited.valid f)
  case bound =>
    intro t ht
    obtain ht | ht := TransformRegistry.mem_all_compose ht
    · obtain ⟨hname, hfield⟩ := hinherited.bound t ht
      exact ⟨hname, hkept _ hfield⟩
    · exact bound_of_checkBinding (hbound t ht)
  case named =>
    intro t ht
    exact (mem_composeRecordTransforms ht).elim (hinherited.named t)
      fun ht => name_ne_of_checkNamed (hnamed t ht)

/-- Whatever is built is well-formed. -/
theorem Built.wellFormed (hbuilt : Built s) : s.WellFormed := by
  induction hbuilt with
  | @intro name calls s hparents hbuild ih =>
    refine WellFormed.build ?_ hbuild
    rw [inherited_ofCalls]
    cases hparent : parent? calls with
    | none => exact wellFormed_empty ""
    | some parent => exact ih parent (inherit_mem_of_parent? hparent)

/-- What calls of a builder give is well formed, where the parents were built in the same way. Its
fields are the declared ones, each in the place of an inherited field of its name or else behind all
inherited fields, which keep their order. -/
theorem build_wellFormed {name : String} {calls : List Call}
    (hparents : ∀ parent, Call.inherit parent ∈ calls → Built parent)
    (hbuild : (ofCalls name calls).build = .ok s) :
    s.WellFormed ∧ ∃ own,
      (calls.filterMap Call.field?).mapM FieldDecl.resolve = .ok own ∧
      s.fields = layOver own ((parent? calls).getD { name := "" }).fields ∧
      s.fields.map (·.name) = ((parent? calls).getD { name := "" }).fields.map (·.name) ++
        (own.map (·.name)).filter
          (· ∉ ((parent? calls).getD { name := "" }).fields.map (·.name)) := by
  have hinherited : ((parent? calls).getD { name := "" }).WellFormed := by
    cases hparent : parent? calls with
    | none => exact wellFormed_empty ""
    | some parent => exact (hparents parent (inherit_mem_of_parent? hparent)).wellFormed
  have hparent : (ofCalls name calls).inherited = (parent? calls).getD { name := "" } :=
    inherited_ofCalls
  rw [← hparent] at hinherited ⊢
  obtain ⟨own, hown, -, -, hfields⟩ := fields_of_build hinherited.nodup hbuild
  rw [declared_ofCalls] at hown
  exact ⟨hinherited.build hbuild, own, hown, hfields, hfields ▸ map_name_layOver own _⟩

/-- A cache has a size, which a transform clips. -/
def cacheCalls : List Call := [
  .field { name := "size", type := .int }, .transform (idle "clip" "size" .before 8)]

/-- What the calls of the cache build. -/
def cache : Schema where
  name := "Cache"
  fields := [{ name := "size", type := .int }]
  transforms := ⟨[("size", { before := [idle "clip" "size" .before 8] })]⟩

/-- The port of a service within its bounds, one from each layer of metadata. -/
def boundedPort : FieldDecl where
  name := "port"
  type := .int
  annotation := some { ge := some (.int 1) }
  info := some { le := some (.int 65535) }

/-- A mirror takes over a cache, and then a service in its place. -/
def mirrorCalls : List Call := [
  .inherit cache, .field { name := "path", type := .str },
  .transform (idle "check" "path" .after 9), .field boundedPort, .inherit service]

/-- What the calls of the mirror build: nothing of it comes from the cache. -/
def mirror : Schema where
  name := "Mirror"
  fields := [{ name := "host", type := .str },
    { name := "port", type := .int, info := { ge := some (.int 1), le := some (.int 65535) } },
    { name := "path", type := .str }]
  transforms := ⟨[("host", { before := [idle "trim" "host" .before 1] }), ("port", {}),
    ("path", { after := [idle "check" "path" .after 9] })]⟩
  recordTransforms := [idleRecord "audit" 0]

theorem service_built : Built service := by
  have hbuild : (ofCalls "Service" serviceCalls).build = .ok service := by cbv
  exact .intro (by simp [serviceCalls]) hbuild

theorem cache_built : Built cache := by
  have hbuild : (ofCalls "Cache" cacheCalls).build = .ok cache := by cbv
  exact .intro (by simp [cacheCalls]) hbuild

/-- Nothing of the cache is left in the mirror, and the port keeps its place. -/
theorem build_wellFormed_mirror :
    (∀ parent, Call.inherit parent ∈ mirrorCalls → Built parent) ∧
      (ofCalls "Mirror" mirrorCalls).build = .ok mirror ∧ mirror.WellFormed ∧
      mirror.fields.map (·.name) = ["host", "port"] ++ ["path"] := by
  have hbuild : (ofCalls "Mirror" mirrorCalls).build = .ok mirror := by cbv
  have hparents : ∀ parent, Call.inherit parent ∈ mirrorCalls → Built parent := by
    intro parent hparent
    obtain rfl | rfl : parent = cache ∨ parent = service := by
      simpa [mirrorCalls] using hparent
    · exact cache_built
    · exact service_built
  obtain ⟨hwellFormed, own, hown, -, hnames⟩ := build_wellFormed hparents hbuild
  refine ⟨hparents, hbuild, hwellFormed, hnames.trans ?_⟩
  obtain rfl := Except.ok.inj (hown.symm.trans (by cbv : _ = Except.ok _))
  rfl

end Schema

end EnvSettings
