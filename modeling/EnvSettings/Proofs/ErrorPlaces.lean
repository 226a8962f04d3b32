import EnvSettings.Proofs.Conflict
import EnvSettings.Proofs.DepthRoutes
import EnvSettings.Proofs.Example.Keys

namespace EnvSettings

/-- The place that a message names: that of a value that does not fit, or of a record that is too
deep. -/
def Problem.place? : Problem → Option String
  | .parse path _ _ => some path
  | .nestedDepth path _ _ => some path
  | _ => none

/-- An error about the depth names the path that is too deep. -/
theorem place?_of_ensureDepth {bound : Option Nat} {depth : Nat} {path : String} {e : Error}
    (hfault : ensureDepth bound depth path = .error e) : e.problem.place? = some path := by
  unfold ensureDepth at hfault
  split at hfault
  · cases hfault
  · split at hfault
    · obtain rfl := Except.error.inj hfault
      rfl
    · cases hfault

namespace Catalog

/-- The first field is declared in a schema, and each further one in the schema that the field
before it leads to. -/
inductive IsPath (c : Catalog) : SchemaId → List Field → Prop
  | last {id : SchemaId} {f : Field} (hf : f ∈ (c.schema id).fields) : IsPath c id [f]
  | next {id next : SchemaId} {f : Field} {fs : List Field} (hf : f ∈ (c.schema id).fields)
      (hnested : f.type.nestedSchema? = some next) (hfs : IsPath c next fs) : IsPath c id (f :: fs)

/-- If an error names a place, then that of a field that the given fields lead to. -/
def Locates (c : Catalog) (root : SchemaId) (above : List Field) (e : Error) : Prop :=
  ∀ path, e.problem.place? = some path →
    ∃ fs, c.IsPath root (above ++ fs) ∧ path = dotted ((above ++ fs).map (·.name))

/-- Fields lead from the root into a schema, and on through its fields. -/
structure Opens (c : Catalog) (root : SchemaId) (above : List Field) (id : SchemaId) : Prop where
  enters : c.Enters root id
  isPath_append : ∀ fs, c.IsPath id fs → c.IsPath root (above ++ fs)

variable {c : Catalog} {id next start : SchemaId} {above : List Field} {f : Field} {e : Error}

/-- No field has to be entered to get to the root. -/
theorem Opens.root : c.Opens start [] start :=
  ⟨.root, fun _ hfs => hfs⟩

variable {root : SchemaId}

/-- A field of a schema that a path opens continues the path. -/
theorem Opens.isPath (hopens : c.Opens root above id) (hf : f ∈ (c.schema id).fields) :
    c.IsPath root (above ++ [f]) :=
  hopens.isPath_append [f] (.last hf)

/-- A nested field leads one schema further. -/
theorem Opens.field (hopens : c.Opens root above id) (hf : f ∈ (c.schema id).fields)
    (hnested : f.type.nestedSchema? = some next) : c.Opens root (above ++ [f]) next := by
  refine ⟨hopens.enters.field hf hnested, fun fs hfs => ?_⟩
  rw [List.append_assoc]
  exact hopens.isPath_append (f :: fs) (.next hf hnested hfs)

/-- An error that names no place is located trivially. -/
theorem Locates.of_none (hplace : e.problem.place? = none) : c.Locates root above e := by
  intro path hpath
  rw [hplace] at hpath
  cases hpath

/-- An error at the end of a path. -/
theorem Locates.of_path (habove : c.IsPath root above)
    (hplace : e.problem.place? = some (dotted (above.map (·.name)))) :
    c.Locates root above e := by
  intro path hpath
  refine ⟨[], by rwa [List.append_nil], ?_⟩
  rw [List.append_nil]
  exact Option.some.inj (hpath.symm.trans hplace)

/-- What lies below a path lies below its beginning. -/
theorem Locates.of_append {below : List Field} (hlocates : c.Locates root (above ++ below) e) :
    c.Locates root above e := by
  intro path hpath
  obtain ⟨fs, hfs, heq⟩ := hlocates path hpath
  rw [List.append_assoc] at hfs heq
  exact ⟨below ++ fs, hfs, heq⟩

end Catalog

/-- A violated constraint is reported at the path of the value. -/
theorem FieldInfo.place?_of_checkSetting {info : FieldInfo} {v : Value} {path target raw : String}
    {e : Error} (hfault : info.checkSetting v path target raw = .error e) :
    e.problem.place? = some path := by
  obtain ⟨violation, -, rfl⟩ := mapError_eq_error_iff.1 hfault
  rfl

/-- A conversion that fails is reported at the path of the value. -/
theorem Convert.place?_of_setting {c : Catalog} {levels : Nat} {t : FieldType} {v : Value}
    {path : String} {e : Error} (hfault : setting c levels t v path = .error e) :
    e.problem.place? = some path := by
  obtain ⟨misfit, -, rfl⟩ := mapError_eq_error_iff.1 hfault
  rfl

namespace Coerce

variable {c : Catalog} {levels : Nat} {info : FieldInfo} {t : FieldType} {raw path : String}
  {e : Error}

/-- A member of a union that fails is reported at the path of the value. -/
theorem place?_of_member (hfault : member c levels info t raw path = .error e) :
    e.problem.place? = some path := by
  unfold member at hfault
  split at hfault
  · obtain rfl := Except.error.inj hfault
    rfl
  · exact FieldInfo.place?_of_checkSetting (bind_ok_eq_error_iff.1 hfault)

/-- A union refuses a text in its own place, whatever its members say. -/
theorem place?_of_value (hfault : value c levels info t raw path = .error e) :
    e.problem.place? = some path := by
  unfold value at hfault
  split at hfault
  · split at hfault
    · cases hfault
    · obtain rfl := Except.error.inj hfault
      rfl
    · obtain rfl := Except.error.inj hfault
      rfl
  · exact place?_of_member hfault

end Coerce

namespace Resolver

variable {r : Resolver} {root id : SchemaId} {schema : Schema} {above : List Field} {f : Field}
  {levels depth : Nat} {build : Builder} {entries : Entries} {raw : Value} {text : String}
  {e : Error}

/-- Errors in the records that a builder makes for a field lie below the field. -/
def BuildsBelow (r : Resolver) (root : SchemaId) (build : Builder) (above : List Field)
    (f : Field) : Prop :=
  ∀ id entries depth e, f.type.nestedSchema? = some id →
    build id entries (dotted (above.map (·.name))) depth = .error e → r.catalog.Locates root above e

/-- A nested record that is not built is reported at a path of declared fields. -/
theorem locates_of_nestedRecord (hbuild : r.BuildsBelow root build above f)
    (habove : r.catalog.IsPath root above) (hnested : f.type.nestedSchema? = some id)
    (hfault : r.nestedRecord build id entries (dotted (above.map (·.name))) depth = .error e) :
    r.catalog.Locates root above e := by
  obtain hdepth | ⟨_, -, hfault⟩ := bind_eq_error_iff.1 hfault
  · exact .of_path habove (place?_of_ensureDepth hdepth)
  · exact hbuild _ _ _ _ hnested (bind_ok_eq_error_iff.1 hfault)

/-- A text that is not coerced is reported at a path of declared fields. -/
theorem locates_of_coerceText (hbuild : r.BuildsBelow root build above f)
    (habove : r.catalog.IsPath root above)
    (hfault : r.coerceText levels build f text (dotted (above.map (·.name))) depth = .error e) :
    r.catalog.Locates root above e := by
  unfold coerceText at hfault
  split at hfault
  · exact .of_path habove (Coerce.place?_of_value hfault)
  · rename_i id hnested
    split at hfault
    · obtain rfl := Except.error.inj hfault
      exact .of_path habove rfl
    · split at hfault
      · exact locates_of_nestedRecord hbuild habove hnested hfault
      · split at hfault
        · cases hfault
        · obtain rfl := Except.error.inj hfault
          exact .of_path habove rfl

/-- A raw value that is not brought to its type is reported at a path of declared fields. -/
theorem locates_of_coerceRaw (hfree : schema.TransformFree)
    (hbuild : r.BuildsBelow root build above f) (habove : r.catalog.IsPath root above)
    (hfault : r.coerceRaw levels build schema f raw (dotted (above.map (·.name))) depth =
      .error e) : r.catalog.Locates root above e := by
  by_cases htext : ∃ text, raw = .str text
  · obtain ⟨text, rfl⟩ := htext
    rw [coerceRaw_text hfree] at hfault
    exact locates_of_coerceText hbuild habove hfault
  · unfold coerceRaw at hfault
    split at hfault
    · exact absurd ⟨_, rfl⟩ htext
    · rename_i hnested
      exact locates_of_nestedRecord hbuild habove hnested hfault
    · exact .of_path habove (Convert.place?_of_setting hfault)

/-- A field without transforms fails at its own path or below it. -/
theorem locates_of_coerceField (hfree : schema.TransformFree)
    (hbuild : r.BuildsBelow root build above f) (habove : r.catalog.IsPath root above)
    (hfault : r.coerceField levels build schema f raw (dotted (above.map (·.name))) depth =
      .error e) : r.catalog.Locates root above e := by
  simp only [coerceField, Pipeline.applyAfter_eq hfree] at hfault
  obtain hraw | ⟨v, -, hfault⟩ := bind_eq_error_iff.1 hfault
  · exact locates_of_coerceRaw hfree hbuild habove hraw
  · have hcheck : f.info.checkSetting v _ _ _ = .error e := bind_ok_eq_error_iff.1 hfault
    exact .of_path habove (FieldInfo.place?_of_checkSetting hcheck)

/-- A missing entry of a nested record is reported at the path of its field. -/
theorem place?_of_entryOf {path : String} (hfault : entryOf schema entries path f = .error e) :
    e.problem.place? = some path := by
  unfold entryOf at hfault
  split at hfault
  · cases hfault
  · obtain rfl := Except.error.inj hfault
    rfl

/-- Nested records without transforms fail at their own path, where a field is missing or the
nesting never ends, or below it. -/
theorem locates_of_buildRecord
    (hfree : ∀ id, r.catalog.Enters root id → (r.catalog.schema id).TransformFree)
    (hopens : r.catalog.Opens root above id) (habove : r.catalog.IsPath root above)
    (hfault : r.buildRecord levels id entries (dotted (above.map (·.name))) depth = .error e) :
    r.catalog.Locates root above e := by
  -- The path grows by one field for each record further in, and the schemas with it.
  induction levels generalizing above id entries depth e with
  | zero =>
    obtain rfl := Except.error.inj hfault
    exact .of_path habove rfl
  | succ levels ih =>
    have hschema := hfree id hopens.enters
    simp only [buildRecord, Pipeline.applyToRecord_eq hschema] at hfault
    obtain ⟨before, f, hfails⟩ := coerceFields_eq_error_iff.1 (bind_ok_eq_error_iff.1 hfault)
    -- A field that is missing is told of its record, any other fault of the field.
    obtain hentry | ⟨raw, -, hcoerce⟩ := bind_eq_error_iff.1 hfails.fault
    · exact .of_path habove (place?_of_entryOf hentry)
    · have hne : above.map (·.name) ≠ [] := by
        rw [Ne, List.map_eq_nil_iff]
        rintro rfl
        cases habove
      have hpath : s!"{dotted (above.map (·.name))}.{f.name}" =
          dotted ((above ++ [f]).map (·.name)) := by
        rw [List.map_append, List.map_singleton, dotted_concat hne]
      have hfield := hopens.isPath hfails.mem
      have hbelow : r.BuildsBelow root (r.buildRecord levels) (above ++ [f]) f :=
        fun _ _ _ _ hnested => ih (hopens.field hfails.mem hnested) hfield
      rw [hpath] at hcoerce
      exact (locates_of_coerceField hschema hbelow hfield hcoerce).of_append

end Resolver

namespace Projection

variable {p : Projection} {c : Catalog} {root id : SchemaId} {above : List Field}
  {value : String} {segments : List String} {data : Entries} {e : Error}

/-- A field that a segment is matched with belongs to the schema. -/
theorem mem_of_matchField? {s : Shape} {segment : String} {caseSensitive : Bool} {f : Field}
    (hmatch : Schema.matchField? s segment caseSensitive = some f) : f ∈ s.fields := by
  unfold Schema.matchField? at hmatch
  split at hmatch
  · rename_i hfind
    exact Option.some.inj hmatch ▸ List.mem_of_find?_eq_some hfind
  · exact List.mem_of_find?_eq_some hmatch

/-- A name fails at the first nested field that is too deep. -/
theorem locates_of_setAt (hopens : c.Opens root above id)
    (hfault : p.setAt c value segments id (above.map (·.name)) data = .error e) :
    c.Locates root above e := by
  induction segments generalizing above id data with
  | nil => cases hfault
  | cons segment rest ih =>
    unfold setAt at hfault
    split at hfault
    · cases hfault
    · rename_i f hmatch
      split at hfault
      · cases hfault
      · split at hfault
        · cases hfault
        · rename_i next hnested
          have hf := mem_of_matchField? hmatch
          have hpath : above.map (·.name) ++ [f.name] = (above ++ [f]).map (·.name) := by simp
          simp only [hpath] at hfault
          obtain hdepth | ⟨_, -, hfault⟩ := bind_eq_error_iff.1 hfault
          · exact (Catalog.Locates.of_path (hopens.isPath hf)
              (place?_of_ensureDepth hdepth)).of_append
          · have hinner := bind_ok_eq_error_iff.1 hfault
            exact (ih (hopens.field hf hnested) hinner).of_append

/-- A projection that fails is reported at a path of declared fields. -/
theorem locates_of_apply {env : List (String × String)}
    (hfault : p.apply c root env data = .error e) : c.Locates root [] e := by
  induction env generalizing data with
  | nil => cases hfault
  | cons entry env ih =>
    rw [apply_cons] at hfault
    obtain hentry | ⟨data, -, henv⟩ := bind_eq_error_iff.1 hfault
    · unfold applyEntry at hentry
      split at hentry
      · cases hentry
      · exact locates_of_setAt .root hentry
    · exact ih henv

end Projection

/-- An env file that cannot be fetched is an error about no field. -/
theorem Dotenv.place?_of_fetch {host : Host} {mode : Mode} {path : String} {e : Error}
    (hfault : fetch host mode path = .error e) : e.problem.place? = none := by
  unfold fetch at hfault
  cases mode with
  | strict =>
    split at hfault
    · obtain rfl := Except.error.inj hfault
      rfl
    · obtain rfl := Except.error.inj hfault
      rfl
    · split at hfault
      · cases hfault
      · obtain rfl := Except.error.inj hfault
        rfl
  | lenient =>
    split at hfault
    · cases hfault
    · cases hfault
    · split at hfault <;> cases hfault

/-- An env file that cannot be parsed is an error about no field. -/
theorem Dotenv.place?_of_parseFile {host : Host} {mode : Mode} {path : String} {e : Error}
    (hfault : parseFile host mode path = .error e) : e.problem.place? = none := by
  obtain hfetch | ⟨⟨content, warnings⟩, -, hparse⟩ := bind_eq_error_iff.1 hfault
  · exact place?_of_fetch hfetch
  · cases content with
    | none => cases hparse
    | some content =>
      obtain ⟨fault, -, rfl⟩ := mapError_eq_error_iff.1 hparse
      rfl

namespace Merge

/-- Names with the same upper case are an error about no field. -/
theorem place?_of_upperKeysFrom {taken es : List (String × String)} {normalized : EnvMap}
    {e : Error} (hfault : upperKeysFrom taken normalized es = .error e) :
    e.problem.place? = none := by
  induction es generalizing taken normalized with
  | nil => cases hfault
  | cons entry es ih =>
    simp only [upperKeysFrom] at hfault
    split at hfault
    · split at hfault
      · exact ih hfault
      · obtain rfl := Except.error.inj hfault
        rfl
    · exact ih hfault

/-- The case policy fails with errors about no field. -/
theorem place?_of_applyCase {caseSensitive : Bool} {mode : Dotenv.Mode} {merged : EnvMap}
    {e : Error} (hfault : applyCase caseSensitive mode merged = .error e) :
    e.problem.place? = none := by
  unfold applyCase at hfault
  split at hfault
  · cases hfault
  · split at hfault
    · cases hfault
    · exact place?_of_upperKeysFrom hfault

/-- The environment fails without a place among the fields. -/
theorem place?_of_build {host : Host} {runtime : Option EnvMap} {envFile : Option String}
    {caseSensitive : Bool} {mode : Dotenv.Mode} {e : Error}
    (hfault : build host runtime envFile caseSensitive mode = .error e) :
    e.problem.place? = none := by
  cases hfile : readEnvFile host mode envFile with
  | ok file =>
    rw [build_eq_map hfile] at hfault
    cases hcase : applyCase caseSensitive mode
        (overlay file.env (runtime.getD host.environment)) with
    | ok env =>
      rw [hcase] at hfault
      cases hfault
    | error e' =>
      rw [hcase] at hfault
      obtain rfl := Except.error.inj hfault
      exact place?_of_applyCase hcase
  | error e' =>
    cases envFile with
    | none => cases hfile
    | some path =>
      obtain hparse | ⟨file, hparse, -⟩ := bind_eq_error_iff.1 hfault
      · exact Dotenv.place?_of_parseFile hparse
      · cases hfile.symm.trans hparse

end Merge

namespace Loader

variable {l : Loader} {host : Host} {bound : Option Nat} {f : Field} {raw : Value} {e : Error}

/-- The bound and the environment of a load are there, and nested names are set in it; every root
field has its raw value, or none. -/
inductive Finds (l : Loader) (host : Host) (bound : Option Nat) :
    (Field → Except Error Value) → Prop
  | intro {reading : Dotenv.Reading} {data : Entries} (hbound : l.config.maxDepth = .ok bound)
      (hmerged : l.merged host = .ok reading) (hpayload : l.payload bound reading.env = .ok data) :
      Finds l host bound (l.rawValue data reading.env)

/-- A depth bound that is out of range is an error about no field. -/
theorem place?_of_maxDepth {config : Config} (hfault : config.maxDepth = .error e) :
    e.problem.place? = none := by
  unfold Config.maxDepth at hfault
  split at hfault
  · cases hfault
  · split at hfault
    · cases hfault
    · obtain rfl := Except.error.inj hfault
      rfl

/-- A missing setting is reported by its key and not by a path. -/
theorem place?_of_rawValue {data : Entries} {env : EnvMap}
    (hfault : l.rawValue data env f = .error e) : e.problem.place? = none := by
  unfold rawValue at hfault
  split at hfault
  · cases hfault
  · split at hfault
    · cases hfault
    · split at hfault
      · cases hfault
      · obtain rfl := Except.error.inj hfault
        rfl

/-- Settings that cannot be projected are reported at a path of declared fields. -/
theorem locates_of_payload {env : EnvMap} (hfault : l.payload bound env = .error e) :
    l.catalog.Locates l.root [] e := by
  rw [payload_eq] at hfault
  cases hprojected : l.projected bound env with
  | ok data =>
    rw [hprojected] at hfault
    cases hfault
  | error e' =>
    rw [hprojected] at hfault
    obtain rfl := Except.error.inj hfault
    unfold projected at hprojected
    split at hprojected
    · cases hprojected
    · exact Projection.locates_of_apply hprojected

/-- A root field fails at its own name or below it. -/
theorem locates_of_coerceRoot
    (hfree : ∀ id, l.catalog.Enters l.root id → (l.catalog.schema id).TransformFree)
    (hf : f ∈ l.schema.fields) (hfault : l.coerceRoot bound f raw = .error e) :
    l.catalog.Locates l.root [f] e := by
  have hopens : l.catalog.Opens l.root [] l.root := .root
  have habove : l.catalog.IsPath l.root [f] := hopens.isPath hf
  have hpath : f.name = dotted ([f].map (·.name)) := String.intercalate_singleton.symm
  have hbelow : Resolver.BuildsBelow ⟨l.catalog, bound⟩ l.root
      (Resolver.buildRecord ⟨l.catalog, bound⟩ nestingLimit) [f] f :=
    fun _ _ _ _ hnested => Resolver.locates_of_buildRecord hfree (hopens.field hf hnested) habove
  simp only [coerceRoot] at hfault
  rw [hpath] at hfault
  exact Resolver.locates_of_coerceField (hfree l.root .root) hbelow habove hfault

variable {rawOf : Field → Except Error Value} {before : List Field}

/-- Once the raw values are there, the load is the resolution of the root fields. -/
theorem Finds.load_result (hfinds : l.Finds host bound rawOf) (hfree : l.schema.TransformFree) :
    (l.load host).result =
      (Resolver.coerceFields rawOf (l.coerceRoot bound) l.schema.fields).map
        fun fields => ⟨l.schema.name, fields⟩ := by
  obtain ⟨hbound, hmerged, hpayload⟩ := hfinds
  rw [Loader.load_result, hbound, hmerged]
  simp only [bind, Except.bind, resolve, hpayload, Pipeline.applyToRecord_eq hfree]
  rfl

/-- Where the raw values are found, a load fails with an error exactly if its first field that fails
does. -/
theorem Finds.load_eq_error_iff (hfinds : l.Finds host bound rawOf)
    (hfree : l.schema.TransformFree) :
    (l.load host).result = .error e ↔
      ∃ before f, Resolver.FailsAt rawOf (l.coerceRoot bound) l.schema.fields before f e := by
  rw [hfinds.load_result hfree, ← Resolver.coerceFields_eq_error_iff]
  cases Resolver.coerceFields rawOf (l.coerceRoot bound) l.schema.fields <;> simp [Except.map]

/-- A root field without a raw value has no place; one that fails with it has its own. -/
theorem Finds.locates (hfinds : l.Finds host bound rawOf)
    (hfree : ∀ id, l.catalog.Enters l.root id → (l.catalog.schema id).TransformFree)
    (hfails : Resolver.FailsAt rawOf (l.coerceRoot bound) l.schema.fields before f e) :
    l.catalog.Locates l.root [f] e := by
  obtain ⟨hbound, hmerged, hpayload⟩ := hfinds
  obtain hraw | ⟨raw, -, hcoerce⟩ := bind_eq_error_iff.1 hfails.fault
  · exact .of_none (place?_of_rawValue hraw)
  · exact locates_of_coerceRoot hfree hfails.mem hcoerce

/-- Without transforms, whatever a load fails with is reported at a path of declared fields. -/
theorem locates_of_load
    (hfree : ∀ id, l.catalog.Enters l.root id → (l.catalog.schema id).TransformFree)
    (hload : (l.load host).result = .error e) : l.catalog.Locates l.root [] e := by
  have hresult := hload
  rw [load_result] at hresult
  obtain hbound | ⟨bound, hbound, hresult⟩ := bind_eq_error_iff.1 hresult
  · exact .of_none (place?_of_maxDepth hbound)
  obtain hmerged | ⟨reading, hmerged, hresult⟩ := bind_eq_error_iff.1 hresult
  · exact .of_none (Merge.place?_of_build hmerged)
  obtain hpayload | ⟨data, hpayload, -⟩ := bind_eq_error_iff.1 hresult
  · exact locates_of_payload hpayload
  · have hfinds : l.Finds host bound (l.rawValue data reading.env) := ⟨hbound, hmerged, hpayload⟩
    obtain ⟨before, f, hfails⟩ := (hfinds.load_eq_error_iff (hfree l.root .root)).1 hload
    exact (hfinds.locates hfree hfails).of_append

/-- Errors name a real place, at the first field that fails. Where no schema on the way down has
transforms, the path that an error of a load names is that of a declared field. Once there are raw
values for the root fields, a load fails with an error if and only if the first root field that
fails does so with it; a path that the error names starts with this field, and the error stays the
same in any load with the same configuration that finds the same for the field and for those before
it. -/
theorem load_error_place
    (hfree : ∀ id, l.catalog.Enters l.root id → (l.catalog.schema id).TransformFree) :
    (∀ e, (l.load host).result = .error e → l.catalog.Locates l.root [] e) ∧
    ∀ bound rawOf e, l.Finds host bound rawOf →
      ((l.load host).result = .error e ↔
        ∃ before f, Resolver.FailsAt rawOf (l.coerceRoot bound) l.schema.fields before f e) ∧
      ∀ before f, Resolver.FailsAt rawOf (l.coerceRoot bound) l.schema.fields before f e →
        l.catalog.Locates l.root [f] e ∧
        ∀ (given : Option EnvMap) (os : List (String × Value)) (host' : Host)
          (rawOf' : Field → Except Error Value),
          let other : Loader := { l with env := given, overrides := os }
          other.Finds host' bound rawOf' → (∀ g ∈ before ++ [f], rawOf' g = rawOf g) →
            (other.load host').result = .error e := by
  have hroot := hfree l.root .root
  refine ⟨fun e => locates_of_load hfree, fun bound rawOf e hfinds =>
    ⟨hfinds.load_eq_error_iff hroot, fun before f hfails => ⟨hfinds.locates hfree hfails, ?_⟩⟩⟩
  intro given os host' rawOf' other hother hsame
  exact (hother.load_eq_error_iff hroot).2 ⟨before, f, hfails.congr hsame⟩

/-- A text. -/
def nameField : Field :=
  { name := "name", type := .str }

/-- A database. -/
def nestedField : Field :=
  { name := "db", type := .nested 0 }

/-- An application with a database, whose port is a number. -/
def ports : Catalog :=
  ⟨#[{ name := "Database"
       fields := [{ name := "host", type := .str, info := { default := some (.str "localhost") } },
         { name := "port", type := .int }] },
    { name := "App", fields := [nameField, nestedField, { name := "workers", type := .int }] }]⟩

/-- A database whose port is no number. -/
def portText : String :=
  "\x7b\"port\":\"abc\"\x7d"

/-- A name, a database, and a number of workers. -/
def portEntries (workers : String) : List (String × String) :=
  [("name", "x"), ("db", portText), ("workers", workers)]

/-- A loader of the application from these entries. -/
def portLoader (workers : String) : Loader where
  catalog := ports
  root := 1
  config := { caseSensitive := true }
  env := some (.ofList (portEntries workers))

theorem portLoader_finds (workers : String) :
    (portLoader workers).Finds {} none
      ((portLoader workers).rawValue [] (.ofList (portEntries workers))) := by
  have hmerged : (portLoader workers).merged {} = .ok ⟨EnvMap.ofList (portEntries workers), []⟩ :=
    merged_ofList {} rfl rfl (fun _ _ => rfl) (by simp [portEntries])
  exact ⟨rfl, hmerged, rfl⟩

theorem portLoader_rawValue (workers : String) :
    (portLoader workers).rawValue [] (.ofList (portEntries workers)) nameField = .ok (.str "x") ∧
      (portLoader workers).rawValue [] (.ofList (portEntries workers)) nestedField =
        .ok (.str portText) := by
  have hkeys : ((portEntries workers).map Prod.fst).Nodup := by simp [portEntries]
  have hlist : (EnvMap.ofList (portEntries workers)).toList = portEntries workers :=
    EnvMap.toList_insertAll hkeys
  have hget : (EnvMap.ofList (portEntries workers)).get? = ((portEntries workers).lookup ·) := by
    funext name
    rw [EnvMap.get?_eq_lookup, hlist]
  delta Loader.rawValue Loader.lookupEnv
  simp only [hget]
  exact ⟨rfl, rfl⟩

/-- The fault lies in the second field, so what is given for the third does not matter. -/
theorem load_error_place_port :
    let e : Error := { problem := .parse "db.port" "int" "abc"
                       causes := [.text "invalid digit found in string"] }
    (∀ id, ports.Enters 1 id → (ports.schema id).TransformFree) ∧
      ((portLoader "many").load {}).result = .error e ∧
      (∃ fs, ports.IsPath 1 ([nestedField] ++ fs) ∧
        "db.port" = dotted (([nestedField] ++ fs).map (·.name))) ∧
      ((portLoader "4").load {}).result = .error e := by
  intro e
  have hplain : ports.Plain 1 true :=
    Catalog.Plain.of_closed [0, 1] (by decide) (by decide) (by decide) (by decide)
  have hfree : ∀ id, ports.Enters 1 id → (ports.schema id).TransformFree :=
    fun id hid => hplain.transformFree id hid.reaches
  obtain ⟨hname, hnested⟩ := portLoader_rawValue "many"
  have hfails : Resolver.FailsAt ((portLoader "many").rawValue [] (.ofList (portEntries "many")))
      ((portLoader "many").coerceRoot none) (portLoader "many").schema.fields [nameField]
      nestedField e := by
    refine ⟨⟨_, rfl⟩, List.forall_mem_singleton.2 ⟨.str "x", ?_⟩, ?_⟩
    · rw [hname]
      cbv
    · rw [hnested]
      cbv
  have hsame : ∀ g ∈ [nameField] ++ [nestedField],
      (portLoader "4").rawValue [] (.ofList (portEntries "4")) g =
        (portLoader "many").rawValue [] (.ofList (portEntries "many")) g := by
    obtain ⟨hname', hnested'⟩ := portLoader_rawValue "4"
    exact List.forall_mem_cons.2 ⟨hname'.trans hname.symm,
      List.forall_mem_singleton.2 (hnested'.trans hnested.symm)⟩
  obtain ⟨hiff, hplace⟩ := (load_error_place (l := portLoader "many") hfree).2 none _ e
    (portLoader_finds "many")
  obtain ⟨hlocates, hother⟩ := hplace _ _ hfails
  exact ⟨hfree, hiff.2 ⟨_, _, hfails⟩, hlocates _ rfl,
    hother (some (.ofList (portEntries "4"))) [] {} _ (portLoader_finds "4") hsame⟩

end Loader

end EnvSettings
