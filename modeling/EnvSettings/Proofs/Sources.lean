import Mathlib
import EnvSettings.Proofs.Resolution

namespace EnvSettings

open Projection (partsUnder)

namespace Resolver

variable {rawOf rawOf' : Field → Except Error Value} {coerce : Field → Value → Except Error Value}

/-- Fields with the same raw values are resolved alike. -/
theorem coerceFields_congr {fs : List Field} (hfields : ∀ f ∈ fs, rawOf f = rawOf' f) :
    coerceFields rawOf coerce fs = coerceFields rawOf' coerce fs := by
  induction fs with
  | nil => rfl
  | cons f fs ih =>
    obtain ⟨hhead, htail⟩ := List.forall_mem_cons.1 hfields
    rw [coerceFields, coerceFields, hhead, ih htail]

/-- The first field without a raw value ends the resolution. -/
theorem coerceFields_of_error {before : List Field} {f : Field} {e : Error}
    (hbefore : ∀ g ∈ before, ∃ v, rawOf g >>= coerce g = .ok v) (hf : rawOf f = .error e)
    (after : List Field) :
    coerceFields rawOf coerce (before ++ f :: after) = .error e := by
  have hleading : before ++ [f] <+: before ++ f :: after := ⟨after, by simp⟩
  have hfault : rawOf f >>= coerce f = .error e := bind_eq_error_iff.2 (.inl hf)
  exact coerceFields_eq_error_iff.2 ⟨before, f, hleading, hbefore, hfault⟩

end Resolver

namespace Loader

variable {l : Loader} {host : Host} {bound : Option Nat} {f : Field}

/-- The last override of a field. -/
def override? (l : Loader) (f : Field) : Option Value :=
  (l.overrides.filter (·.1 = f.name)).getLast?.map Prod.snd

/-- A name is that of a declared field. -/
def declares (l : Loader) (name : String) : Bool :=
  (Schema.field? l.schema.toShape name).isSome

/-- What there is for a field, given what nested environment names set and a merged environment. -/
def source? (l : Loader) (projected : Entries) (env : EnvMap) (f : Field) : Option Value :=
  let text := ((l.candidates f).findSome? env.get?).map Value.str
  (l.override? f).or ((projected.lookup f.name).or (text.or f.info.default))

/-- What there is for a field; without anything the setting is missing, under the first of the
names that were tried. -/
def sourced (l : Loader) (projected : Entries) (env : EnvMap) (f : Field) : Except Error Value :=
  match l.source? projected env f with
  | some v => .ok v
  | none =>
    let key := envKey l.config.lead f.primaryName l.config.caseSensitive
    .error { problem := .missingSetting f.name key }

/-- A name of the merged environment is one of a field's own, or leads into the field. -/
def concerns (l : Loader) (f : Field) (name : String) : Bool :=
  (l.candidates f).contains name || (l.routeOf name).entered.head? == some f.name

/-- The first candidate is the name that messages give. -/
theorem head?_candidates (l : Loader) (f : Field) :
    (l.candidates f).head? = some (envKey l.config.lead f.primaryName l.config.caseSensitive) := by
  rw [candidates, Field.envNames, Field.primaryName]
  cases halias : f.info.envAlias with
  | none => rfl
  | some other =>
    by_cases hname : other = f.name
    · simp [hname]
    · simp [hname]

theorem sourced_eq_ok_iff {projected : Entries} {env : EnvMap} {v : Value} :
    l.sourced projected env f = .ok v ↔ l.source? projected env f = some v := by
  rw [sourced]
  cases l.source? projected env f <;> simp

/-- A field without a source is reported by its first candidate. -/
theorem exists_missingSetting {projected : Entries} {env : EnvMap}
    (hnone : l.source? projected env f = none) :
    ∃ key, (l.candidates f).head? = some key ∧
      l.sourced projected env f = .error { problem := .missingSetting f.name key } :=
  ⟨_, head?_candidates l f, by rw [sourced, hnone]⟩

theorem lookup_overridden (hf : f ∈ l.schema.fields) (projected : Entries) :
    (l.overridden projected).lookup f.name =
      (l.override? f).or (projected.lookup f.name) := by
  have hdeclared : (l.overrides.filter fun o => (Schema.field? l.schema.toShape o.1).isSome).filter
      (·.1 = f.name) = l.overrides.filter (·.1 = f.name) := by
    rw [List.filter_filter]
    refine List.filter_congr fun o _ => ?_
    by_cases hname : o.1 = f.name
    · simp [hname, isSome_field? hf]
    · simp [hname]
  rw [overridden, Entries.lookup_foldl_putSorted, hdeclared, override?]

/-- The raw value of a field is what there is for it. -/
theorem rawValue_eq_sourced (hf : f ∈ l.schema.fields) (projected : Entries) (env : EnvMap) :
    l.rawValue (l.overridden projected) env f = l.sourced projected env f := by
  rw [rawValue, sourced, source?, lookup_overridden hf, lookupEnv_eq, ← Option.or_assoc]
  cases (l.override? f).or (projected.lookup f.name) with
  | some v => rfl
  | none =>
    cases (l.candidates f).findSome? env.get? with
    | some text => rfl
    | none => cases f.info.default <;> rfl

/-- A field finds the same in environments that have the same under the names that concern it. -/
theorem source?_congr {env env' : EnvMap} {projected projected' : Entries}
    (hprojected : l.projected bound env = .ok projected)
    (hprojected' : l.projected bound env' = .ok projected')
    (hconcerns : env'.toList.filter (fun e => l.concerns f e.1) =
      env.toList.filter (fun e => l.concerns f e.1)) :
    l.source? projected' env' f = l.source? projected env f := by
  have hget : ∀ name ∈ l.candidates f, env'.get? name = env.get? name := by
    intro name hname
    have hkeep : l.concerns f name := by simp [concerns, hname]
    rw [EnvMap.get?_eq_lookup, EnvMap.get?_eq_lookup, ← Entries.lookup_filter hkeep env'.toList,
      hconcerns, Entries.lookup_filter hkeep]
  have hparts : partsUnder f.name (l.edits env') = partsUnder f.name (l.edits env) := by
    have hroute : ∀ other, l.concerns f other = false →
        (l.routeOf other).entered.head? ≠ some f.name := by
      intro other hother
      simpa using (Bool.or_eq_false_iff.1 hother).2
    rw [partsUnder_edits hroute, partsUnder_edits hroute, hconcerns]
  have hlookup : projected'.lookup f.name = projected.lookup f.name := by
    rw [← (projected_eq_ok_iff.1 hprojected).2, ← (projected_eq_ok_iff.1 hprojected').2,
      Projection.lookup_applyEdits edits_ne_stored, Projection.lookup_applyEdits edits_ne_stored,
      hparts]
  rw [source?, source?, hlookup, findSome?_congr hget]

/-- Only overrides of declared fields count. -/
theorem load_overrides_congr {os : List (String × Value)}
    (hos : os.filter (fun o => l.declares o.1) = l.overrides.filter fun o => l.declares o.1) :
    ({ l with overrides := os } : Loader).load host = l.load host := by
  have hresolve : ∀ bound env,
      ({ l with overrides := os } : Loader).resolve bound env = l.resolve bound env := by
    intro bound env
    have hoverridden : ({ l with overrides := os } : Loader).overridden = l.overridden := by
      funext data
      exact congrArg (List.foldl (fun data o => Entries.putSorted o.1 o.2 data) data) hos
    rw [resolve, resolve, payload_eq, payload_eq, hoverridden]
    rfl
  simp only [load, hresolve]

/-- A load that comes to its fields resolves each of them from what there is for it. The first field
for which there is nothing makes the load fail, overrides of other than declared fields make no
difference, and neither do names of the environment that do not concern a field make any to the
field. -/
theorem load_sources {reading : Dotenv.Reading} {projected : Entries}
    (hbound : l.config.maxDepth = .ok bound) (hmerged : l.merged host = .ok reading)
    (hprojected : l.projected bound reading.env = .ok projected) :
    ((l.load host).result =
      Resolver.coerceFields (l.sourced projected reading.env) (l.coerceRoot bound) l.schema.fields
        >>= fun fields => Pipeline.applyToRecord l.catalog l.root ⟨l.schema.name, fields⟩ "") ∧
    (∀ before f after, l.schema.fields = before ++ f :: after →
      (∀ g ∈ before, ∃ v, l.sourced projected reading.env g >>= l.coerceRoot bound g = .ok v) →
      l.source? projected reading.env f = none →
      ∃ key, (l.candidates f).head? = some key ∧
        (l.load host).result = .error { problem := .missingSetting f.name key }) ∧
    (∀ os : List (String × Value),
      os.filter (fun o => l.declares o.1) = l.overrides.filter (fun o => l.declares o.1) →
      ({ l with overrides := os } : Loader).load host = l.load host) ∧
    (∀ f env projected', l.projected bound env = .ok projected' →
      env.toList.filter (fun e => l.concerns f e.1) =
        reading.env.toList.filter (fun e => l.concerns f e.1) →
      l.source? projected' env f = l.source? projected reading.env f) := by
  have hload : (l.load host).result =
      Resolver.coerceFields (l.sourced projected reading.env) (l.coerceRoot bound) l.schema.fields
        >>= fun fields => Pipeline.applyToRecord l.catalog l.root ⟨l.schema.name, fields⟩ "" := by
    rw [load_result, hbound, hmerged]
    change l.resolve bound reading.env = _
    rw [resolve, payload_eq, hprojected, ← Resolver.coerceFields_congr fun f hf =>
      rawValue_eq_sourced hf projected reading.env]
    rfl
  refine ⟨hload, fun before f after hfields hbefore hnone => ?_,
    fun os => load_overrides_congr, fun f env projected' => source?_congr hprojected⟩
  obtain ⟨key, hkey, hmissing⟩ := exists_missingSetting hnone
  refine ⟨key, hkey, ?_⟩
  rw [hload, hfields, Resolver.coerceFields_of_error hbefore hmissing after]
  rfl

/-- The fields of a server that some source has a value for; the port goes by another name. -/
def serverFields : List Field :=
  [{ name := "mode", type := .str }, { name := "db", type := .nested 0 },
    { name := "port", type := .int, info := { envAlias := some "http_port" } },
    { name := "level", type := .str, info := { default := some (.str "info") } }]

/-- A token with an alias. -/
def tokenField : Field where
  name := "token"
  type := .str
  info := { envAlias := some "api_token" }

/-- A server with its settings. -/
def servers : Catalog :=
  ⟨#[{ name := "Database", fields := [{ name := "host", type := .str }] },
    { name := "Server", fields := serverFields ++ [tokenField] }]⟩

/-- The environment of the server. -/
def serverEntries : List (String × String) :=
  [("mode", "slow"), ("db__host", "local"), ("db", "other"), ("port", "80"),
    ("http_port", "8080"), ("access_token", "secret")]

/-- A loader of the server from these entries. -/
def serverLoader : Loader where
  catalog := servers
  root := 1
  config := { caseSensitive := true, nestedDelimiter := some "__" }
  env := some (EnvMap.ofList serverEntries)
  overrides := [("mode", .str "fast"), ("access_token", .str "secret"), ("mode", .str "safe")]

/-- Each source gives one field its value, and the token is missing. -/
theorem load_sources_server :
    ∃ reading projected, serverLoader.merged {} = .ok reading ∧
      serverLoader.projected none reading.env = .ok projected ∧
      serverFields.map (serverLoader.source? projected reading.env) =
        [some (.str "safe"), some (.map [("host", .str "local")]), some (.str "8080"),
          some (.str "info")] ∧
      (serverLoader.load {}).result =
        .error { problem := .missingSetting "token" "api_token" } := by
  obtain ⟨env, hlist, hget, hmerged, -⟩ := load_ofList (l := serverLoader) {} rfl rfl rfl
    (by simp [serverEntries])
  have hprojected : serverLoader.projected none env =
      .ok [("db", .map [("host", .str "local")])] := by
    delta projected
    simp only [hlist]
    clear hlist hget
    cbv
  have hbefore : ∀ g ∈ serverFields, ∃ v,
      serverLoader.sourced [("db", .map [("host", .str "local")])] env g >>=
        serverLoader.coerceRoot none g = .ok v := by
    delta sourced source?
    simp only [hget, serverFields, List.forall_mem_cons]
    clear hlist hget
    refine ⟨⟨.str "safe", ?_⟩, ⟨.record "Database" [("host", .str "local")], ?_⟩, ⟨.int 8080, ?_⟩,
      ⟨.str "info", ?_⟩, List.forall_mem_nil _⟩
    all_goals cbv
  have htoken : serverLoader.source? [("db", .map [("host", .str "local")])] env tokenField =
      none := by
    delta source?
    simp only [hget]
    clear hlist hget
    cbv
  obtain ⟨-, hmissing, -⟩ := load_sources rfl hmerged hprojected
  obtain ⟨key, hkey, hload⟩ := hmissing serverFields tokenField [] rfl hbefore htoken
  have hcandidates : (serverLoader.candidates tokenField).head? = some "api_token" := by cbv
  obtain rfl := Option.some.inj (hkey.symm.trans hcandidates)
  refine ⟨_, _, hmerged, hprojected, ?_, hload⟩
  delta source?
  simp only [hget]
  clear hlist hget
  cbv

end Loader

end EnvSettings
