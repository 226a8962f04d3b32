import EnvSettings.Proofs.Depth
import EnvSettings.Proofs.Routes

namespace EnvSettings

open Projection (HoldsMaps ensureWalk)

/-- The refusal of nested fields one below the other: the path to the first that is too deep, its
depth, and the bound. -/
def tooDeep (limit : Nat) (names : List String) : Error :=
  { problem := .nestedDepth (dotted (names.take (limit + 1))) (limit + 1) limit }

theorem dotted_concat {names : List String} (hnames : names ≠ []) (name : String) :
    dotted (names ++ [name]) = s!"{dotted names}.{name}" := by
  rw [dotted, String.intercalate_append_of_ne_nil hnames (List.cons_ne_nil _ _)]
  rfl

theorem ensureDepth_of_le {limit depth : Nat} (hdepth : depth ≤ limit) (path : String) :
    ensureDepth (some limit) depth path = .ok () :=
  Projection.ensureDepth_eq_ok_iff.2 fun _ hlimit => Option.mem_some_iff.1 hlimit ▸ hdepth

/-- The first depth beyond the bound is an error, whatever comes further down. -/
theorem ensureDepth_beyond {limit : Nat} {names : List String} (hdepth : names.length = limit + 1)
    (more : List String) :
    ensureDepth (some limit) names.length (dotted names) =
      .error (tooDeep limit (names ++ more)) := by
  have htake : (names ++ more).take (limit + 1) = names := by
    rw [← hdepth, List.take_left]
  rw [ensureDepth, if_pos (by omega), tooDeep, htake, hdepth]

namespace Catalog

/-- Nested fields lead from a schema through others, each the first field of the schema it is in. -/
inductive Heads (c : Catalog) : SchemaId → List Field → Prop
  | nil {id : SchemaId} : Heads c id []
  | cons {id next : SchemaId} {f : Field} {fs : List Field}
      (hfirst : (c.schema id).fields.head? = some f) (hnested : f.type.nestedSchema? = some next)
      (hrest : Heads c next fs) : Heads c id (f :: fs)

end Catalog

namespace Projection

variable {p : Projection} {c : Catalog} {root : SchemaId} {env : List (String × String)}
  {data : Entries} {limit : Nat} {path names : List String} {fault : Error}

/-- A walk beyond the bound is an error at the first name beyond it. -/
theorem ensureWalk_beyond (hpath : path.length ≤ limit)
    (hdeep : limit < path.length + names.length) :
    ensureWalk (some limit) path names = .error (tooDeep limit (path ++ names)) := by
  induction names generalizing path with
  | nil =>
    rw [List.length_nil] at hdeep
    omega
  | cons name names ih =>
    have hlength : (path ++ [name]).length = path.length + 1 := by simp
    have happend : path ++ name :: names = path ++ [name] ++ names := by simp
    rw [List.length_cons] at hdeep
    rw [ensureWalk, happend]
    by_cases hlast : path.length = limit
    · rw [ensureDepth_beyond (by omega) names]
      rfl
    · rw [ensureDepth_of_le (by omega)]
      exact ih (by omega) (by omega)

/-- If all names that go too deep are refused with the same error, the environment is. -/
theorem apply_eq_error (hwalks : ∀ e ∈ env,
      ensureWalk p.bound [] (p.routeOf c root e.1).entered = .ok () ∨
        ensureWalk p.bound [] (p.routeOf c root e.1).entered = .error fault)
    {e : String × String} (he : e ∈ env)
    (hfault : ensureWalk p.bound [] (p.routeOf c root e.1).entered = .error fault) :
    p.apply c root env data = .error fault := by
  induction env generalizing data with
  | nil => cases he
  | cons first env ih =>
    obtain ⟨hfirst, hwalks⟩ := List.forall_mem_cons.1 hwalks
    rw [apply_cons, applyEntry_eq]
    obtain hfirst | hfirst := hfirst
    · rw [hfirst]
      refine ih hwalks ((List.mem_cons.1 he).resolve_left ?_)
      rintro rfl
      rw [hfirst] at hfault
      cases hfault
    · rw [hfirst]
      rfl

end Projection

namespace Resolver

variable {r : Resolver} {levels depth limit : Nat} {id : SchemaId} {fs : List Field}
  {entries : Entries} {above : List String} {build : Builder} {schema : Schema} {f : Field}
  {raw : Value} {path : String} {fault : Error}

/-- A first field that fails makes the fields fail. -/
theorem coerceFields_of_head {rawOf : Field → Except Error Value}
    {coerce : Field → Value → Except Error Value}
    (hraw : rawOf f = .ok raw) (hfault : coerce f raw = .error fault) (fs : List Field) :
    coerceFields rawOf coerce (f :: fs) = .error fault := by
  have hfails : rawOf f >>= coerce f = .error fault :=
    bind_eq_error_iff.2 (.inr ⟨raw, hraw, hfault⟩)
  exact coerceFields_eq_error_iff.2
    ⟨[], f, List.prefix_append [f] fs, List.forall_mem_nil _, hfails⟩

theorem coerceField_of_raw (hfault : r.coerceRaw levels build schema f raw path depth =
      .error fault) :
    r.coerceField levels build schema f raw path depth = .error fault := by
  rw [coerceField, hfault]
  rfl

/-- A nested record that fails makes its raw value fail. -/
theorem coerceRaw_of_nested (hnested : f.type.nestedSchema? = some id)
    (hfault : r.nestedRecord build id entries path depth = .error fault) :
    r.coerceRaw levels build schema f (.map entries) path depth = .error fault := by
  simp only [coerceRaw, hnested, hfault]

/-- A nested record is not built if its first field, given as a map, is refused. -/
theorem buildRecord_of_head {next : SchemaId} {inner : Entries}
    (hfirst : (r.catalog.schema id).fields.head? = some f)
    (hnested : f.type.nestedSchema? = some next)
    (hlookup : entries.lookup f.name = some (.map inner)) (habove : above ≠ [])
    (hfault : r.nestedRecord (r.buildRecord levels) next inner (dotted (above ++ [f.name])) depth =
      .error fault) :
    r.buildRecord (levels + 1) id entries (dotted above) depth = .error fault := by
  obtain ⟨fs, hfields⟩ := List.head?_eq_some_iff.1 hfirst
  have hraw : entryOf (r.catalog.schema id) entries (dotted above) f = .ok (.map inner) :=
    entryOf_eq_ok_iff.2 (by rw [hlookup]; rfl)
  rw [dotted_concat habove] at hfault
  have hrecord : coerceFields (entryOf (r.catalog.schema id) entries (dotted above))
      (fun f raw => r.coerceField levels (r.buildRecord levels) (r.catalog.schema id) f raw
        s!"{dotted above}.{f.name}" depth) (f :: fs) = .error fault :=
    coerceFields_of_head hraw (coerceField_of_raw (coerceRaw_of_nested hnested hfault)) fs
  simp only [buildRecord, hfields]
  rw [hrecord]
  rfl

/-- The maps of nested fields are entered down to the first that is too deep. -/
theorem nestedRecord_beyond (hbound : r.bound = some limit) (hchain : r.catalog.Heads id fs)
    (hmaps : HoldsMaps (fs.map (·.name)) entries) (habove : above.length = depth + 1)
    (hdepth : depth ≤ limit) (hdeep : limit < depth + 1 + fs.length)
    (hlevels : limit < depth + levels) :
    r.nestedRecord (r.buildRecord levels) id entries (dotted above) depth =
      .error (tooDeep limit (above ++ fs.map (·.name))) := by
  induction fs generalizing levels depth id entries above with
  | nil =>
    rw [List.length_nil] at hdeep
    rw [nestedRecord, hbound, ← habove, ensureDepth_beyond (by omega) []]
    rfl
  | cons f fs ih =>
    rw [nestedRecord, hbound, ← habove]
    by_cases hlast : depth = limit
    · rw [ensureDepth_beyond (by omega)]
      rfl
    · obtain ⟨levels, rfl⟩ : ∃ less, levels = less + 1 := ⟨levels - 1, by omega⟩
      obtain @⟨_⟩ | @⟨_, next, _, _, hfirst, hnested, hchain⟩ := hchain
      obtain ⟨inner, hlookup, hmaps⟩ := hmaps
      rw [List.length_cons] at hdeep
      have hne : above ≠ [] := by
        rintro rfl
        cases habove
      have hlength : (above ++ [f.name]).length = depth + 1 + 1 := by simp [habove]
      have hinner : r.nestedRecord (r.buildRecord levels) next inner (dotted (above ++ [f.name]))
          (depth + 1) = .error (tooDeep limit (above ++ [f.name] ++ fs.map (·.name))) :=
        ih hchain hmaps hlength (by omega) (by omega) (by omega)
      have hbuild := buildRecord_of_head hfirst hnested hlookup hne hinner
      rw [ensureDepth_of_le (by omega), habove]
      simp only [bind, Except.bind, hbuild, List.append_assoc, List.singleton_append, List.map_cons]

end Resolver

namespace Loader

variable {l : Loader} {host : Host} {f : Field} {env : EnvMap} {bound : Option Nat}
  {fault : Error}

/-- A name that goes too deep is the fault of the whole environment, if the others are not. -/
theorem projected_eq_error (hwalks : ∀ e ∈ env.toList,
      ensureWalk bound [] (l.routeOf e.1).entered = .ok () ∨
        ensureWalk bound [] (l.routeOf e.1).entered = .error fault)
    {e : String × String} (he : e ∈ env.toList)
    (hfault : ensureWalk bound [] (l.routeOf e.1).entered = .error fault) :
    l.projected bound env = .error fault := by
  unfold projected
  unfold routeOf at hwalks hfault
  cases hdelimiter : l.config.delimiter? with
  | none =>
    rw [hdelimiter] at hfault
    cases hfault
  | some delimiter =>
    simp only [hdelimiter] at hwalks hfault
    have hroute (name : String) :
        (⟨l.config.lead, delimiter, l.config.caseSensitive, none⟩ : Projection).routeOf
            l.catalog l.root name =
          (⟨l.config.lead, delimiter, l.config.caseSensitive, bound⟩ : Projection).routeOf
            l.catalog l.root name :=
      Projection.routeOf_bound ⟨l.config.lead, delimiter, l.config.caseSensitive, bound⟩ none name
    simp only [hroute] at hwalks hfault
    exact Projection.apply_eq_error hwalks he hfault

/-- A load fails with what the first field of the schema fails with. -/
theorem resolve_of_head (hfirst : l.schema.fields.head? = some f) (hwalks : l.Walks bound env)
    {raw : Value} (hraw : l.rawValue (l.settings l.overrides env) env f = .ok raw)
    (hfault : l.coerceRoot bound f raw = .error fault) : l.resolve bound env = .error fault := by
  have hpayload : l.payload bound env = .ok (l.settings l.overrides env) :=
    payload_eq_ok_iff.2 ⟨hwalks, rfl⟩
  obtain ⟨fs, hfields⟩ := List.head?_eq_some_iff.1 hfirst
  rw [resolve, hpayload, hfields]
  simp only [bind, Except.bind]
  have hfields : Resolver.coerceFields (l.rawValue (l.settings l.overrides env) env)
      (l.coerceRoot bound) (f :: fs) = .error fault :=
    Resolver.coerceFields_of_head hraw hfault fs
  unfold coerceRoot at hfields
  rw [hfields]

variable {fs : List Field} {limit : Nat} {tree : Entries}

/-- A map for the first field that goes too deep is refused. -/
theorem coerceRaw_beyond {id : SchemaId} (hnested : f.type.nestedSchema? = some id)
    (hchain : l.catalog.Heads id fs) (hmaps : HoldsMaps (fs.map (·.name)) tree)
    (hdeep : limit < (f :: fs).length) (hlimit : limit < nestingLimit) :
    (⟨l.catalog, some limit⟩ : Resolver).coerceRaw nestingLimit
        (Resolver.buildRecord ⟨l.catalog, some limit⟩ nestingLimit) l.schema f (.map tree)
        f.name 0 =
      .error (tooDeep limit ((f :: fs).map (·.name))) := by
  refine Resolver.coerceRaw_of_nested hnested ?_
  have hpath : dotted [f.name] = f.name := String.intercalate_singleton
  rw [List.length_cons] at hdeep
  rw [← hpath]
  exact Resolver.nestedRecord_beyond rfl hchain hmaps rfl (Nat.zero_le limit) (by omega)
    (by omega)

/-- One more entry of the runtime, alone with its spelling, is one more of the merged
environment. -/
theorem merged_adds {reading : Dotenv.Reading} {given : EnvMap} {key value : String}
    (hmerged : l.merged host = .ok reading)
    (hadds : (l.env.getD host.environment).Adds [(key, value)] given) (halone : l.Alone host key) :
    ∃ reading', ({ l with env := some given } : Loader).merged host = .ok reading' ∧
      reading.env.Adds [(l.spell key, value)] reading'.env :=
  Merge.build_adds hadds (List.nodup_singleton _) hmerged (List.forall_mem_singleton.2 halone)

/-- A name of the environment that leads beyond the bound is an error. -/
theorem ensureWalk_routeOf_beyond {name : String} {names : List String}
    (hentered : (l.routeOf name).entered = names) (hdeep : limit < names.length) :
    ensureWalk (some limit) [] (l.routeOf name).entered = .error (tooDeep limit names) := by
  rw [hentered]
  exact Projection.ensureWalk_beyond (Nat.zero_le limit) (by simpa using hdeep)

/-- A name that enters too many nested fields fails the load, if no other name does. -/
theorem load_key_beyond {reading : Dotenv.Reading} {keyed : EnvMap} {key value : String}
    {names : List String} (hbound : l.config.maxDepth = .ok (some limit))
    (hmerged : l.merged host = .ok reading) (hwalks : l.Walks (some limit) reading.env)
    (hkeyed : (l.env.getD host.environment).Adds [(key, value)] keyed)
    (hentered : (l.routeOf (l.spell key)).entered = names) (hdeep : limit < names.length) :
    (({ l with env := some keyed } : Loader).load host).result =
      .error (tooDeep limit names) := by
  have hfault := ensureWalk_routeOf_beyond hentered hdeep
  have hfresh : l.spell key ∉ reading.env.keys := by
    intro hmem
    obtain ⟨e, he, hkey⟩ := List.mem_map.1 hmem
    have hwalk := hwalks e he
    rw [hkey, hfault] at hwalk
    cases hwalk
  obtain ⟨reading', hmerged', hadds⟩ :=
    merged_adds hmerged hkeyed (Merge.Alone.of_not_mem hmerged hfresh)
  have hprojected : l.projected (some limit) reading'.env = .error (tooDeep limit names) := by
    refine projected_eq_error (fun e he => ?_) (hadds.mem _ List.mem_cons_self) hfault
    obtain he | he := hadds.mem_rest_or_mem he
    · exact .inl (hwalks e he)
    · rw [List.mem_singleton.1 he]
      exact .inr hfault
  have hresolve : l.resolve (some limit) reading'.env = .error (tooDeep limit names) := by
    rw [resolve, payload_eq, hprojected]
    rfl
  rw [load_result, hmerged', hbound]
  exact hresolve

/-- A JSON text for the first field fails the load if the objects in it go too deep. -/
theorem load_text_beyond {id : SchemaId} {reading : Dotenv.Reading} {decoded : EnvMap}
    {name text : String} {j : Json} (hbound : l.config.maxDepth = .ok (some limit))
    (hfirst : l.schema.fields.head? = some f) (hnested : f.type.nestedSchema? = some id)
    (hchain : l.catalog.Heads id fs) (hdeep : limit < (f :: fs).length)
    (hlimit : limit < nestingLimit)
    (hbefore : l.schema.transforms.transforms .before f.name = [])
    (hmerged : l.merged host = .ok reading) (hwalks : l.Walks (some limit) reading.env)
    (hunset : l.Unset host f) (hname : l.Names host f name)
    (hentered : (l.routeOf (l.spell name)).entered.head? ≠ some f.name)
    (hwalk : ensureWalk (some limit) [] (l.routeOf (l.spell name)).entered = .ok ())
    (hdecoded : (l.env.getD host.environment).Adds [(name, text)] decoded)
    (hparse : Json.parse text = .ok j) (hjson : Value.ofJson j = .map tree)
    (hmaps : HoldsMaps (fs.map (·.name)) tree) :
    (({ l with env := some decoded } : Loader).load host).result =
      .error (tooDeep limit ((f :: fs).map (·.name))) := by
  obtain ⟨reading', hmerged', hadds⟩ := merged_adds hmerged hdecoded hname.alone
  have hwalks' : l.Walks (some limit) reading'.env := by
    intro e he
    obtain he | he := hadds.mem_rest_or_mem he
    · exact hwalks e he
    · exact List.mem_singleton.1 he ▸ hwalk
  have hraw : l.rawValue (l.settings l.overrides reading'.env) reading'.env f = .ok (.str text) :=
    rawValue_text hunset.override (hunset.entered reading hmerged) hname.candidate
      (hname.first reading hmerged) hentered hadds
  have hfault : l.coerceRoot (some limit) f (.str text) =
      .error (tooDeep limit ((f :: fs).map (·.name))) := by
    refine Resolver.coerceField_of_raw ?_
    rw [Resolver.coerceRaw_json hnested hbefore hparse hjson]
    exact coerceRaw_beyond hnested hchain hmaps hdeep hlimit
  rw [load_result, hmerged', hbound]
  exact resolve_of_head hfirst hwalks' hraw hfault

/-- An override of the first field fails the load if the maps in it go too deep. -/
theorem load_override_beyond {id : SchemaId} {reading : Dotenv.Reading}
    (hbound : l.config.maxDepth = .ok (some limit))
    (hfirst : l.schema.fields.head? = some f) (hnested : f.type.nestedSchema? = some id)
    (hchain : l.catalog.Heads id fs) (hdeep : limit < (f :: fs).length)
    (hlimit : limit < nestingLimit) (hmerged : l.merged host = .ok reading)
    (hwalks : l.Walks (some limit) reading.env) (hmaps : HoldsMaps (fs.map (·.name)) tree) :
    (({ l with overrides := l.overrides ++ [(f.name, .map tree)] } : Loader).load host).result =
      .error (tooDeep limit ((f :: fs).map (·.name))) := by
  let l' : Loader := { l with overrides := l.overrides ++ [(f.name, .map tree)] }
  have hmem : f ∈ l.schema.fields := List.mem_of_mem_head? (Option.mem_def.2 hfirst)
  have hlookup : (l.settings l'.overrides reading.env).lookup f.name = some (.map tree) := by
    rw [lookup_settings_append hmem, if_pos rfl]
  have hraw : l'.rawValue (l'.settings l'.overrides reading.env) reading.env f =
      .ok (.map tree) := by
    have hsettings : l'.settings l'.overrides reading.env =
        l.settings l'.overrides reading.env := rfl
    rw [rawValue, hsettings, hlookup]
  have hfault : l'.coerceRoot (some limit) f (.map tree) =
      .error (tooDeep limit ((f :: fs).map (·.name))) :=
    Resolver.coerceField_of_raw (coerceRaw_beyond hnested hchain hmaps hdeep hlimit)
  have hmerged' : l'.merged host = .ok reading := hmerged
  have hbound' : l'.config.maxDepth = .ok (some limit) := hbound
  rw [load_result, hmerged', hbound']
  exact resolve_of_head (l := l') hfirst hwalks hraw hfault

/-- First fields that nest one below the other deeper than the bound are refused with one error on
all routes: for a name that enters them all, for a JSON text with an object for each, and for an
override with a map for each. The error has the path to the first field that is too deep, its depth
and the bound. Nothing else may set the first field or go too deep, the name of the JSON text
included. -/
theorem load_routes_beyond {reading : Dotenv.Reading} {keyed decoded : EnvMap}
    {key value name text : String} {j : Json} (hbound : l.config.maxDepth = .ok (some limit))
    (hchain : l.catalog.Heads l.root (f :: fs)) (hdeep : limit < (f :: fs).length)
    (hlimit : limit < nestingLimit)
    (hbefore : l.schema.transforms.transforms .before f.name = [])
    (hmerged : l.merged host = .ok reading) (hwalks : l.Walks (some limit) reading.env)
    (hunset : l.Unset host f)
    (hkeyed : (l.env.getD host.environment).Adds [(key, value)] keyed)
    (hkey : (l.routeOf (l.spell key)).entered = (f :: fs).map (·.name))
    (hdecoded : (l.env.getD host.environment).Adds [(name, text)] decoded)
    (hname : l.Names host f name)
    (hentered : (l.routeOf (l.spell name)).entered.head? ≠ some f.name)
    (hwalk : ensureWalk (some limit) [] (l.routeOf (l.spell name)).entered = .ok ())
    (hparse : Json.parse text = .ok j) (hjson : Value.ofJson j = .map tree)
    (hmaps : HoldsMaps (fs.map (·.name)) tree) :
    ∀ l' ∈ [{ l with env := some keyed }, { l with env := some decoded },
        { l with overrides := l.overrides ++ [(f.name, .map tree)] }],
      (l'.load host).result = .error
        { problem := .nestedDepth (dotted (((f :: fs).map (·.name)).take (limit + 1)))
            (limit + 1) limit } := by
  obtain @⟨_⟩ | ⟨hfirst, hnested, hchain⟩ := hchain
  have hlength : limit < ((f :: fs).map (·.name)).length := by rwa [List.length_map]
  rintro l' (_ | ⟨_, _ | ⟨_, _ | ⟨_, ⟨⟩⟩⟩⟩)
  · exact load_key_beyond hbound hmerged hwalks hkeyed hkey hlength
  · exact load_text_beyond hbound hfirst hnested hchain hdeep hlimit hbefore hmerged hwalks hunset
      hname hentered hwalk hdecoded hparse hjson hmaps
  · exact load_override_beyond hbound hfirst hnested hchain hdeep hlimit hmerged hwalks hmaps

/-- A load of an application whose database may have no replica. -/
def shallowLoader : Loader where
  catalog := replicas
  root := 2
  config := { caseSensitive := true, nestedDelimiter := some "__", nestingBound := some 1 }
  env := some (EnvMap.ofList [])

/-- The replica is refused at its own depth. -/
theorem load_routes_beyond_replica :
    let replicaText := "\x7b\"replica\":\x7b\"host\":\"x\"\x7d\x7d"
    shallowLoader.config.maxDepth = .ok (some 1) ∧
    ∀ l' ∈ [{ shallowLoader with env := some (.ofList [("db__replica__host", "x")]) },
        { shallowLoader with env := some (.ofList [("db", replicaText)]) },
        { shallowLoader with
          overrides := [("db", .map [("replica", .map [("host", .str "x")])])] }],
      (l'.load {}).result = .error { problem := .nestedDepth "db.replica" 2 1 } := by
  intro replicaText
  have hbound : shallowLoader.config.maxDepth = .ok (some 1) := rfl
  have hmerged : shallowLoader.merged {} = .ok ⟨EnvMap.ofList [], []⟩ :=
    merged_ofList {} rfl rfl (by simp) (by simp)
  have hempty : ∀ reading, shallowLoader.merged {} = .ok reading → reading.env.keys = [] :=
    fun reading hreading => Except.ok.inj (hmerged.symm.trans hreading) ▸ rfl
  have hunset : shallowLoader.Unset {} { name := "db", type := .nested 1 } :=
    ⟨List.forall_mem_nil _, fun reading hreading => by simp [hempty reading hreading]⟩
  have hname : shallowLoader.Names {} { name := "db", type := .nested 1 } "db" :=
    ⟨by decide, fun reading hreading => by simp [hempty reading hreading],
      Merge.Alone.of_not_mem hmerged List.not_mem_nil⟩
  have hchain : shallowLoader.catalog.Heads 2 [{ name := "db", type := .nested 1 },
      { name := "replica", type := .optional (.nested 0), info := { default := some .null } }] :=
    .cons rfl rfl (.cons rfl rfl .nil)
  have hadds (name text : String) :
      (EnvMap.ofList []).Adds [(name, text)] (.ofList [(name, text)]) :=
    .ofList (by simp) (by simp) (by simp) (by simp)
  have hkey : (shallowLoader.routeOf "db__replica__host").entered = ["db", "replica"] := by cbv
  have hroute : shallowLoader.routeOf (shallowLoader.spell "db") = {} := by cbv
  have hparse : Json.parse replicaText =
      .ok (.object [("replica", .object [("host", .string "x")])]) := by
    cbv
  exact ⟨hbound, load_routes_beyond hbound hchain (by decide) (by decide) rfl hmerged
    (List.forall_mem_nil _) hunset (hadds _ _) hkey (hadds _ _) hname
    (by simp [hroute]) (by rw [hroute]; rfl) hparse rfl ⟨_, rfl, trivial⟩⟩

end Loader

end EnvSettings
