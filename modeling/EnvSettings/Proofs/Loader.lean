import EnvSettings.Loader
import EnvSettings.Proofs.Merge
import EnvSettings.Proofs.Projection.Leaves
import EnvSettings.Proofs.Resolve

namespace EnvSettings

open Projection (Route applyEdits partsUnder partUnder? ensureWalk)

/-- Functions that agree on a list find the same in it. -/
theorem findSome?_congr {α β : Type} {as : List α} {f g : α → Option β}
    (hfg : ∀ a ∈ as, f a = g a) : as.findSome? f = as.findSome? g := by
  rw [← List.head?_filterMap, ← List.head?_filterMap, List.filterMap_congr hfg]

namespace Loader

variable {l : Loader} {f g : Field}

/-- The name as the merged environment spells it. -/
def spell (l : Loader) (name : String) : String :=
  Merge.spell l.config.caseSensitive name

/-- The entries as the merged environment spells them. -/
def spellEntries (l : Loader) (es : List (String × String)) : List (String × String) :=
  es.map (Merge.spellEntry l.config.caseSensitive)

/-- Where a name of the merged environment leads. -/
def routeOf (l : Loader) (name : String) : Route :=
  match l.config.delimiter? with
  | none => {}
  | some delimiter =>
    (⟨l.config.lead, delimiter, l.config.caseSensitive, none⟩ : Projection).routeOf
      l.catalog l.root name

/-- The names under which the merged environment may give a field. -/
def candidates (l : Loader) (f : Field) : List String :=
  f.envNames.map fun name => envKey l.config.lead name l.config.caseSensitive

/-- A field is looked up under its candidates, one after the other. -/
theorem lookupEnv_eq (env : EnvMap) (f : Field) :
    l.lookupEnv env f = (l.candidates f).findSome? env.get? := by
  rw [candidates, List.findSome?_map]
  rfl

/-- The edits that a merged environment leads to. -/
def edits (l : Loader) (env : EnvMap) : List (Route × String) :=
  env.toList.map fun e => (l.routeOf e.1, e.2)

/-- No name of the merged environment goes too deep. -/
def Walks (l : Loader) (bound : Option Nat) (env : EnvMap) : Prop :=
  ∀ e ∈ env.toList, ensureWalk bound [] (l.routeOf e.1).entered = .ok ()

/-- What overrides of declared fields and a merged environment set. -/
def settings (l : Loader) (overrides : List (String × Value)) (env : EnvMap) : Entries :=
  (overrides.filter fun o => (Schema.field? l.schema.toShape o.1).isSome).foldl
    (fun data o => Entries.putSorted o.1 o.2 data) (applyEdits (l.edits env) [])

/-- What nested environment names set, before any override. -/
def projected (l : Loader) (bound : Option Nat) (env : EnvMap) : Except Error Entries :=
  match l.config.delimiter? with
  | none => .ok []
  | some delimiter =>
    (⟨l.config.lead, delimiter, l.config.caseSensitive, bound⟩ : Projection).apply
      l.catalog l.root env.toList []

/-- The environment is projected if all its names can be walked. -/
theorem projected_eq_ok_iff {bound : Option Nat} {env : EnvMap} {data : Entries} :
    l.projected bound env = .ok data ↔ l.Walks bound env ∧ applyEdits (l.edits env) [] = data := by
  unfold projected Walks edits routeOf
  cases l.config.delimiter? with
  | none =>
    have hnothing : applyEdits (env.toList.map fun e => ({}, e.2)) [] = [] := by
      rw [applyEdits, List.foldl_map]
      exact List.foldl_fixed _
    simp [ensureWalk, hnothing]
  | some delimiter =>
    let p : Projection := ⟨l.config.lead, delimiter, l.config.caseSensitive, bound⟩
    have hroute : ∀ name, p.routeOf l.catalog l.root name =
        ({ p with bound := none } : Projection).routeOf l.catalog l.root name :=
      fun name => (Projection.routeOf_bound p none name).symm
    have happly : p.apply l.catalog l.root env.toList [] = .ok data ↔
        (∀ e ∈ env.toList,
          ensureWalk p.bound [] (p.routeOf l.catalog l.root e.1).entered = .ok ()) ∧
        applyEdits (p.edits l.catalog l.root env.toList) [] = data :=
      Projection.apply_eq_ok_iff
    simpa only [Projection.edits, hroute] using happly

/-- Settings under the overrides of declared fields. -/
def overridden (l : Loader) (data : Entries) : Entries :=
  (l.overrides.filter fun o => (Schema.field? l.schema.toShape o.1).isSome).foldl
    (fun data o => Entries.putSorted o.1 o.2 data) data

/-- The settings are the projected environment below the overrides. -/
theorem payload_eq (l : Loader) (bound : Option Nat) (env : EnvMap) :
    l.payload bound env = (l.projected bound env).map l.overridden := by
  unfold payload projected
  cases l.config.delimiter? with
  | none => rfl
  | some delimiter =>
    simp only []
    generalize Projection.apply _ l.catalog l.root env.toList [] = result
    cases result <;> rfl

/-- Settings are given if all names of the environment can be walked. -/
theorem payload_eq_ok_iff {bound : Option Nat} {env : EnvMap} {data : Entries} :
    l.payload bound env = .ok data ↔ l.Walks bound env ∧ l.settings l.overrides env = data := by
  rw [payload_eq]
  constructor
  · intro hpayload
    cases hprojected : l.projected bound env with
    | error e => simp [hprojected, Except.map] at hpayload
    | ok d =>
      obtain ⟨hwalks, hd⟩ := projected_eq_ok_iff.1 hprojected
      rw [hprojected] at hpayload
      exact ⟨hwalks, by rw [settings, hd]; exact Except.ok.inj hpayload⟩
  · rintro ⟨hwalks, rfl⟩
    rw [projected_eq_ok_iff.2 ⟨hwalks, rfl⟩]
    rfl

theorem routeOf_target_eq_none {name : String} (hentered : (l.routeOf name).entered = []) :
    (l.routeOf name).target = none := by
  unfold routeOf at hentered ⊢
  cases hdelimiter : l.config.delimiter? with
  | none => rfl
  | some delimiter =>
    simp only [hdelimiter] at hentered
    exact Projection.routeOf_target_eq_none hentered

/-- No name stores a text right at a field of the root schema. -/
theorem edits_ne_stored {env : EnvMap} {name : String} :
    ∀ e ∈ l.edits env, e.1 ≠ ⟨[], some name⟩ := by
  intro e hmem heq
  obtain ⟨entry, -, rfl⟩ := List.mem_map.1 hmem
  have hroute : l.routeOf entry.1 = ⟨[], some name⟩ := heq
  have htarget := routeOf_target_eq_none (congrArg Route.entered hroute)
  rw [hroute] at htarget
  cases htarget

variable {rest given : EnvMap} {added : List (String × String)}

/-- The edits below a field come from the names that lead into it. -/
theorem partsUnder_edits {name : String} {keep : String → Bool}
    (hkeep : ∀ other, keep other = false → (l.routeOf other).entered.head? ≠ some name)
    (env : EnvMap) :
    partsUnder name (l.edits env) =
      (env.toList.filter fun e => keep e.1).filterMap fun e =>
        partUnder? name (l.routeOf e.1, e.2) := by
  rw [partsUnder, edits, List.filterMap_map, List.filterMap_filter]
  refine List.filterMap_congr fun e _ => ?_
  cases hname : keep e.1 with
  | true => rfl
  | false => exact Projection.partUnder?_eq_none (hkeep e.1 hname)

/-- Added names that do not lead into a field leave the edits below it. -/
theorem partsUnder_edits_of_adds (hadds : rest.Adds added given) {name : String}
    (hadded : ∀ e ∈ added, (l.routeOf e.1).entered.head? ≠ some name) :
    partsUnder name (l.edits given) = partsUnder name (l.edits rest) := by
  have hkeep : ∀ other, decide (other ∉ added.map Prod.fst) = false →
      (l.routeOf other).entered.head? ≠ some name := by
    intro other hother
    obtain ⟨e, hmem, rfl⟩ := List.mem_map.1 (not_not.1 (of_decide_eq_false hother))
    exact hadded e hmem
  rw [partsUnder_edits hkeep, partsUnder_edits hkeep, hadds.rest]

/-- The settings of a field come from the parts of the environment under its name. -/
theorem lookup_settings_congr {os : List (String × Value)} {env env' : EnvMap} {name : String}
    (hparts : partsUnder name (l.edits env) = partsUnder name (l.edits env')) :
    (l.settings os env).lookup name = (l.settings os env').lookup name := by
  rw [settings, settings, Entries.lookup_foldl_putSorted, Entries.lookup_foldl_putSorted,
    Projection.lookup_applyEdits edits_ne_stored, Projection.lookup_applyEdits edits_ne_stored,
    hparts]

theorem isSome_field? (hf : f ∈ l.schema.fields) :
    (Schema.field? l.schema.toShape f.name).isSome := by
  rw [Schema.field?, List.find?_isSome]
  exact ⟨f, hf, beq_self_eq_true _⟩

/-- One more override stands over all else. -/
theorem lookup_settings_append {os : List (String × Value)} {env : EnvMap}
    (hf : f ∈ l.schema.fields) (v : Value) (name : String) :
    (l.settings (os ++ [(f.name, v)]) env).lookup name =
      if name = f.name then some v else (l.settings os env).lookup name := by
  have hlast : [(f.name, v)].filter (fun o => (Schema.field? l.schema.toShape o.1).isSome) =
      [(f.name, v)] := by
    simp [isSome_field? hf]
  rw [settings, List.filter_append, hlast, List.foldl_append, List.foldl_cons, List.foldl_nil,
    Entries.lookup_putSorted]
  rfl

/-- Without an override a field has what the environment puts under its name. -/
theorem lookup_settings_of_unset {os : List (String × Value)} {env : EnvMap} {name : String}
    (hos : ∀ o ∈ os, o.1 ≠ name) :
    (l.settings os env).lookup name =
      if partsUnder name (l.edits env) = [] then none
      else some (.map (applyEdits (partsUnder name (l.edits env)) [])) := by
  have hnone : (os.filter fun o => (Schema.field? l.schema.toShape o.1).isSome).filter
      (·.1 = name) = [] := by
    rw [List.filter_eq_nil_iff]
    exact fun o hmem => by simpa using hos o (List.mem_of_mem_filter hmem)
  rw [settings, Entries.lookup_foldl_putSorted, hnone,
    Projection.lookup_applyEdits edits_ne_stored]
  rfl

/-- The raw value of a field comes from the settings under its name and from its candidates. -/
theorem rawValue_eq {data data' : Entries} {env env' : EnvMap}
    (hdata : data.lookup f.name = data'.lookup f.name)
    (henv : l.lookupEnv env f = l.lookupEnv env' f) :
    l.rawValue data env f = l.rawValue data' env' f := by
  rw [rawValue, rawValue, hdata, henv]

/-- Entries that are no candidates of a field do not change its lookup. -/
theorem lookupEnv_of_adds (hadds : rest.Adds added given)
    (hadded : ∀ e ∈ added, e.1 ∉ l.candidates f) :
    l.lookupEnv given f = l.lookupEnv rest f := by
  rw [lookupEnv_eq, lookupEnv_eq]
  refine findSome?_congr fun name hmem => ?_
  refine hadds.get?_of_not_mem fun hname => ?_
  obtain ⟨e, hmem', rfl⟩ := List.mem_map.1 hname
  exact hadded e hmem' hmem

/-- What resolves a raw value of a root field. -/
def coerceRoot (l : Loader) (bound : Option Nat) (f : Field) (raw : Value) : Except Error Value :=
  let r : Resolver := ⟨l.catalog, bound⟩
  r.coerceField nestingLimit (r.buildRecord nestingLimit) l.schema f raw f.name 0

/-- Two loaders that differ in their overrides agree on two environments if each root field agrees
and the same of them is refused for its depth. -/
theorem resolve_agree {os : List (String × Value)} {bound : Option Nat} {env env' : EnvMap}
    (hwalks : l.Walks bound env ↔ l.Walks bound env')
    (hfields : ∀ f ∈ l.schema.fields,
      Agree (l.rawValue (l.settings l.overrides env) env f >>= l.coerceRoot bound f)
        (l.rawValue (l.settings os env') env' f >>= l.coerceRoot bound f)) :
    Agree (l.resolve bound env) (({ l with overrides := os } : Loader).resolve bound env') := by
  rw [resolve, resolve]
  by_cases hw : l.Walks bound env
  · have hpayload : l.payload bound env = .ok (l.settings l.overrides env) :=
      payload_eq_ok_iff.2 ⟨hw, rfl⟩
    have hpayload' : ({ l with overrides := os } : Loader).payload bound env' =
        .ok (l.settings os env') :=
      payload_eq_ok_iff.2 ⟨hwalks.1 hw, rfl⟩
    rw [hpayload, hpayload']
    exact (Resolver.coerceFields_agree hfields).bind fun _ _ _ => .refl _
  · cases hpayload : l.payload bound env with
    | ok data => exact absurd (payload_eq_ok_iff.1 hpayload).1 hw
    | error e =>
      cases hpayload' : ({ l with overrides := os } : Loader).payload bound env' with
      | ok data => exact absurd (hwalks.2 (payload_eq_ok_iff.1 hpayload').1) hw
      | error e' => exact .of_errors

/-- The merged environment of a load. -/
def merged (l : Loader) (host : Host) : Except Error Dotenv.Reading :=
  Merge.build host l.env l.config.envFile l.config.caseSensitive
    (if l.config.strictEnvFile then .strict else .lenient)

/-- No other name below the case policy is spelled like this one. -/
def Alone (l : Loader) (host : Host) (name : String) : Prop :=
  Merge.Alone host l.env l.config.envFile l.config.caseSensitive
    (if l.config.strictEnvFile then .strict else .lenient) name

/-- A depth bound that is out of range ends the load. -/
theorem load_of_maxDepth {host : Host} {e : Error} (hbound : l.config.maxDepth = .error e) :
    l.load host = ⟨.error e, []⟩ := by
  rw [load, hbound]

/-- An environment that cannot be merged ends the load. -/
theorem load_of_merged_error {host : Host} {bound : Option Nat} {e : Error}
    (hbound : l.config.maxDepth = .ok bound) (hmerged : l.merged host = .error e) :
    l.load host = ⟨.error e, []⟩ := by
  unfold merged at hmerged
  simp only [load, hbound, hmerged]

/-- A load resolves the merged environment, and warns of what was wrong in the env file. -/
theorem load_of_merged {host : Host} {bound : Option Nat} {reading : Dotenv.Reading}
    (hbound : l.config.maxDepth = .ok bound) (hmerged : l.merged host = .ok reading) :
    l.load host = ⟨l.resolve bound reading.env, reading.warnings⟩ := by
  unfold merged at hmerged
  simp only [load, hbound, hmerged]

/-- The result of a load, step by step. -/
theorem load_result (l : Loader) (host : Host) :
    (l.load host).result = l.config.maxDepth >>= fun bound =>
      l.merged host >>= fun reading => l.resolve bound reading.env := by
  cases hbound : l.config.maxDepth with
  | error e => rw [load_of_maxDepth hbound]; rfl
  | ok bound =>
    cases hmerged : l.merged host with
    | error e => rw [load_of_merged_error hbound hmerged]; rfl
    | ok reading => rw [load_of_merged hbound hmerged]; rfl

/-- A load with more runtime entries agrees with one with other overrides, if they agree on the
merged environments. -/
theorem load_agree {host : Host} {os : List (String × Value)}
    (hadds : (l.env.getD host.environment).Adds added given)
    (hnodup : (added.map fun e => l.spell e.1).Nodup)
    (halone : ∀ reading, l.merged host = .ok reading → ∀ e ∈ added, l.Alone host e.1)
    (hresolve : ∀ bound reading env, l.config.maxDepth = .ok bound →
      l.merged host = .ok reading → reading.env.Adds (l.spellEntries added) env →
      Agree (l.resolve bound env)
        (({ l with overrides := os } : Loader).resolve bound reading.env)) :
    Agree (({ l with env := some given } : Loader).load host).result
      (({ l with overrides := os } : Loader).load host).result := by
  rw [load_result, load_result]
  refine (Agree.refl _).bind fun bound hbound _ => ?_
  cases hmerged : l.merged host with
  | error e =>
    have hrest : ({ l with overrides := os } : Loader).merged host = .error e := hmerged
    rw [hrest]
    cases hgiven : ({ l with env := some given } : Loader).merged host with
    | error e' => exact .of_errors
    | ok reading' =>
      obtain ⟨reading, hreading⟩ := Merge.exists_build_of_adds hadds hgiven
      exact absurd (hmerged.symm.trans hreading) (by simp)
  | ok reading =>
    have hrest : ({ l with overrides := os } : Loader).merged host = .ok reading := hmerged
    obtain ⟨reading', hgiven, hadds'⟩ := Merge.build_adds hadds
      (by rw [List.map_map]; exact hnodup) hmerged (halone reading hmerged)
    have hgiven' : ({ l with env := some given } : Loader).merged host = .ok reading' := hgiven
    rw [hrest, hgiven']
    exact hresolve bound reading reading'.env hbound hmerged hadds'

/-- Without an env file, runtime entries in their own spelling are the merged environment. -/
theorem merged_ofList (host : Host) {es : List (String × String)} (henv : l.env = some (.ofList es))
    (hfile : l.config.envFile = none) (hspell : ∀ e ∈ es, l.spell e.1 = e.1)
    (hkeys : (es.map Prod.fst).Nodup) : l.merged host = .ok ⟨EnvMap.ofList es, []⟩ := by
  have hlist : (EnvMap.ofList es).toList = es := EnvMap.toList_insertAll hkeys
  have hoverlay : Merge.overlay EnvMap.empty (l.env.getD host.environment) = EnvMap.ofList es := by
    rw [henv]
    exact EnvMap.ofList_toList _
  have hentries : es.map (Merge.spellEntry l.config.caseSensitive) = es := by
    conv_rhs => rw [← List.map_id es]
    exact List.map_congr_left fun e hmem => Prod.ext (hspell e hmem) rfl
  refine Merge.build_eq_ok_iff.2 ⟨⟨EnvMap.empty, []⟩, by rw [hfile]; rfl, ?_, rfl⟩
  rw [hoverlay]
  refine Merge.applyCase_eq_ok_iff.2 ⟨fun _ => ?_, by rw [Merge.spellAll, hlist, hentries]⟩
  rw [EnvMap.keys, hlist, ← Merge.map_fst_map_spellEntry, hentries]
  exact hkeys

/-- Without an env file, a load that keeps the case of names resolves the runtime entries. -/
theorem load_ofList (host : Host) {es : List (String × String)} (henv : l.env = some (.ofList es))
    (hfile : l.config.envFile = none) (hcase : l.config.caseSensitive = true)
    (hkeys : (es.map Prod.fst).Nodup) :
    ∃ env : EnvMap, env.toList = es ∧ env.get? = (es.lookup ·) ∧ l.merged host = .ok ⟨env, []⟩ ∧
      (l.load host).result = l.config.maxDepth >>= fun bound => l.resolve bound env := by
  have hlist : (EnvMap.ofList es).toList = es := EnvMap.toList_insertAll hkeys
  have hmerged : l.merged host = .ok ⟨EnvMap.ofList es, []⟩ := by
    refine merged_ofList host henv hfile (fun e _ => ?_) hkeys
    rw [spell, hcase]
    rfl
  refine ⟨EnvMap.ofList es, hlist, ?_, hmerged, ?_⟩
  · funext name
    rw [EnvMap.get?_eq_lookup, hlist]
  · rw [load_result, hmerged]
    rfl

/-- A load from runtime entries alone, in their own spelling, is the resolution of them. -/
theorem load_eq_of_resolve {es : List (String × String)} {bound : Option Nat}
    (henv : l.env = some (.ofList es)) (hfile : l.config.envFile = none)
    (hcase : l.config.caseSensitive = true) (hkeys : (es.map Prod.fst).Nodup)
    (hbound : l.config.maxDepth = .ok bound) {result : Except Error Record}
    (hresolve : ∀ env : EnvMap, env.toList = es → env.get? = (es.lookup ·) →
      l.resolve bound env = result) : (l.load host).result = result := by
  obtain ⟨env, hlist, hget, -, hload⟩ := load_ofList host henv hfile hcase hkeys
  rw [hload, hbound]
  exact hresolve env hlist hget

end Loader

end EnvSettings
