import Mathlib
import EnvSettings.Proofs.Loader

namespace EnvSettings.Loader

open Projection (Route applyEdits partsUnder textAt IsTree ensureWalk Fits)

variable {l : Loader} {host : Host} {f g : Field} {tree : Entries}

/-- Nothing sets a field: no override, and no name of the merged environment that leads into it. -/
structure Unset (l : Loader) (host : Host) (f : Field) : Prop where
  override : ∀ o ∈ l.overrides, o.1 ≠ f.name
  entered : ∀ reading, l.merged host = .ok reading → ∀ name ∈ reading.env.keys,
    (l.routeOf name).entered.head? ≠ some f.name

/-- Runtime entries give the leaves of a tree: each leads to the leaf with its text, and there is
one for every leaf. -/
structure Leaves (l : Loader) (f : Field) (tree : Entries) (leaves : List (String × String)) :
    Prop where
  leads : ∀ e ∈ leaves, ∃ dirs last,
    l.routeOf (l.spell e.1) = ⟨f.name :: dirs, some last⟩ ∧ textAt dirs last tree = some e.2
  covers : ∀ dirs last text, textAt dirs last tree = some text → ∃ e ∈ leaves,
    l.routeOf (l.spell e.1) = ⟨f.name :: dirs, some last⟩
  nodup : (leaves.map fun e => l.spell e.1).Nodup

/-- A text under a name is what the environment has for a field: the name is one of those of the
field, the merged environment has none that goes first, and no other name is spelled like it. -/
structure Names (l : Loader) (host : Host) (f : Field) (name : String) : Prop where
  candidate : l.spell name ∈ l.candidates f
  first : ∀ reading, l.merged host = .ok reading →
    ∀ other ∈ (l.candidates f).takeWhile (· ≠ l.spell name), other ∉ reading.env.keys
  alone : l.Alone host name

/-- Entries of the merged environment concern no root field but one. -/
structure For (l : Loader) (f : Field) (added : List (String × String)) : Prop where
  entered : ∀ e ∈ added, ∀ g ∈ l.schema.fields, g.name ≠ f.name →
    (l.routeOf e.1).entered.head? ≠ some g.name
  candidate : ∀ e ∈ added, ∀ g ∈ l.schema.fields, g.name ≠ f.name → e.1 ∉ l.candidates g

variable {rest given : EnvMap} {added : List (String × String)} {bound : Option Nat}

/-- Entries for one field, none of them too deep, do what an override does that resolves like what
the field finds then. -/
theorem resolve_agree_override (hnames : (l.schema.fields.map (·.name)).Nodup)
    (hf : f ∈ l.schema.fields) (hadds : rest.Adds added given) (hfor : l.For f added)
    (hwalks : ∀ e ∈ added, ensureWalk bound [] (l.routeOf e.1).entered = .ok ()) {v : Value}
    (hfield : Agree (l.rawValue (l.settings l.overrides given) given f >>= l.coerceRoot bound f)
      (l.coerceRoot bound f v)) :
    Agree (l.resolve bound given)
      (({ l with overrides := l.overrides ++ [(f.name, v)] } : Loader).resolve bound rest) := by
  refine resolve_agree ?_ fun g hg => ?_
  · constructor
    · intro hgiven e hmem
      by_cases hname : e.1 ∈ added.map Prod.fst
      · obtain ⟨e', hmem', heq⟩ := List.mem_map.1 hname
        exact heq ▸ hwalks e' hmem'
      · exact hgiven e ((hadds.mem_iff_mem_rest hname).2 hmem)
    · intro hrest e hmem
      obtain hmem | hmem := hadds.mem_rest_or_mem hmem
      · exact hrest e hmem
      · exact hwalks e hmem
  · by_cases hname : g.name = f.name
    · obtain rfl : g = f := List.inj_on_of_nodup_map hnames hg hf hname
      have hlookup : (l.settings (l.overrides ++ [(g.name, v)]) rest).lookup g.name = some v := by
        rw [lookup_settings_append hg, if_pos rfl]
      have hraw : l.rawValue (l.settings (l.overrides ++ [(g.name, v)]) rest) rest g = .ok v := by
        simp only [rawValue, hlookup]
      rw [hraw]
      exact hfield
    · have hraw : l.rawValue (l.settings l.overrides given) given g =
          l.rawValue (l.settings (l.overrides ++ [(f.name, v)]) rest) rest g := by
        refine rawValue_eq ?_ (lookupEnv_of_adds hadds fun e hmem =>
          hfor.candidate e hmem g hg hname)
        rw [lookup_settings_append hf, if_neg hname]
        exact lookup_settings_congr (partsUnder_edits_of_adds hadds fun e hmem =>
          hfor.entered e hmem g hg hname)
      rw [hraw]
      exact .refl _

/-- Entries for the leaves of a tree store it below the field. -/
theorem stores_partsUnder (hrest : ∀ name ∈ rest.keys, (l.routeOf name).entered.head? ≠ some f.name)
    {leaves : List (String × String)} (hleaves : l.Leaves f tree leaves)
    (hadds : rest.Adds (l.spellEntries leaves) given) :
    Projection.Stores (partsUnder f.name (l.edits given)) tree := by
  constructor
  · intro e hmem
    obtain ⟨entry, hgiven, heq⟩ := List.mem_map.1 (Projection.mem_partsUnder.1 hmem)
    obtain ⟨hroute, htext⟩ := Prod.mk.inj heq
    obtain hentry | hentry := hadds.mem_rest_or_mem hgiven
    · refine absurd ?_ (hrest entry.1 (List.mem_map_of_mem hentry))
      rw [hroute]
      rfl
    · obtain ⟨leaf, hmem, rfl⟩ := List.mem_map.1 hentry
      obtain ⟨dirs, last, hleads, hat⟩ := hleaves.leads leaf hmem
      obtain ⟨⟨entered, target⟩, text⟩ := e
      have hunder := hroute.symm.trans hleads
      obtain ⟨rfl, rfl⟩ : entered = dirs ∧ target = some last := by
        simpa [Route.under] using hunder
      exact ⟨last, rfl, htext ▸ hat⟩
  · intro dirs last text hat
    obtain ⟨leaf, hmem, hleads⟩ := hleaves.covers dirs last text hat
    obtain ⟨dirs', last', hleads', hat'⟩ := hleaves.leads leaf hmem
    obtain ⟨rfl, rfl⟩ : dirs = dirs' ∧ last = last' := by
      simpa using hleads.symm.trans hleads'
    rw [hat, Option.some.injEq] at hat'
    refine Projection.mem_partsUnder.2 (List.mem_map.2 ⟨_, hadds.mem _
      (List.mem_map_of_mem hmem), ?_⟩)
    exact Prod.ext hleads hat'.symm

/-- The leaves of a tree, and nothing else below the field, give the tree. -/
theorem rawValue_leaves (hunset : ∀ o ∈ l.overrides, o.1 ≠ f.name)
    (hrest : ∀ name ∈ rest.keys, (l.routeOf name).entered.head? ≠ some f.name)
    (htree : IsTree tree) {leaves : List (String × String)} (hleaves : l.Leaves f tree leaves)
    (hadds : rest.Adds (l.spellEntries leaves) given) :
    l.rawValue (l.settings l.overrides given) given f = .ok (.map tree) := by
  have hstores := stores_partsUnder hrest hleaves hadds
  have hlookup : (l.settings l.overrides given).lookup f.name = some (.map tree) := by
    obtain ⟨dirs, last, text, hat⟩ := htree.exists_textAt
    rw [lookup_settings_of_unset hunset,
      if_neg (List.ne_nil_of_mem (hstores.covers dirs last text hat)),
      htree.applyEdits_eq hstores]
  simp only [rawValue, hlookup]

/-- The first name with a text is the one that is found. -/
theorem findSome?_of_first {value : String → Option String} {names : List String}
    {name text : String} (hmem : name ∈ names) (hname : value name = some text)
    (hfirst : ∀ other ∈ names.takeWhile (· ≠ name), value other = none) :
    names.findSome? value = some text := by
  induction names with
  | nil => cases hmem
  | cons head names ih =>
    by_cases hhead : head = name
    · rw [List.findSome?_cons, hhead, hname]
    · rw [List.takeWhile_cons_of_pos (by simpa using hhead), List.forall_mem_cons] at hfirst
      rw [List.findSome?_cons, hfirst.1]
      exact ih ((List.mem_cons.1 hmem).resolve_left (Ne.symm hhead)) hfirst.2

/-- A text under the first name of the field that is given, and nothing that sets it, gives the
text. -/
theorem rawValue_text (hunset : ∀ o ∈ l.overrides, o.1 ≠ f.name)
    (hrest : ∀ name ∈ rest.keys, (l.routeOf name).entered.head? ≠ some f.name)
    {name text : String} (hname : name ∈ l.candidates f)
    (hfirst : ∀ other ∈ (l.candidates f).takeWhile (· ≠ name), other ∉ rest.keys)
    (hentered : (l.routeOf name).entered.head? ≠ some f.name)
    (hadds : rest.Adds [(name, text)] given) :
    l.rawValue (l.settings l.overrides given) given f = .ok (.str text) := by
  have hparts : partsUnder f.name (l.edits given) = [] := by
    rw [List.eq_nil_iff_forall_not_mem]
    intro e hmem
    obtain ⟨entry, hgiven, heq⟩ := List.mem_map.1 (Projection.mem_partsUnder.1 hmem)
    have hhead : (l.routeOf entry.1).entered.head? = some f.name := by
      rw [(Prod.mk.inj heq).1]
      rfl
    obtain hentry | hentry := hadds.mem_rest_or_mem hgiven
    · exact hrest entry.1 (List.mem_map_of_mem hentry) hhead
    · obtain rfl := List.mem_singleton.1 hentry
      exact hentered hhead
  have hlookup : (l.settings l.overrides given).lookup f.name = none := by
    rw [lookup_settings_of_unset hunset, if_pos hparts]
  have henv : l.lookupEnv given f = some text := by
    rw [lookupEnv_eq]
    exact findSome?_of_first hname (hadds.get?_of_mem List.mem_cons_self) fun other hother => by
      have hne : other ≠ name := by simpa using List.all_eq_true.1 List.all_takeWhile other hother
      rw [hadds.get?_of_not_mem (by simpa using hne)]
      exact EnvMap.get?_eq_none_iff.2 (hfirst other hother)
  simp only [rawValue, hlookup, henv]

/-- Names for the leaves of a tree load what the tree as an override does. -/
theorem load_leaves_agree {leaves : List (String × String)} {keyed : EnvMap}
    (hnames : (l.schema.fields.map (·.name)).Nodup) (hf : f ∈ l.schema.fields)
    (hunset : l.Unset host f) (htree : IsTree tree)
    (hdepth : ∀ limit, l.config.maxDepth = .ok (some limit) →
      ∀ dirs last text, textAt dirs last tree = some text → dirs.length < limit)
    (hleaves : l.Leaves f tree leaves)
    (hkeyed : (l.env.getD host.environment).Adds leaves keyed)
    (hother : ∀ e ∈ leaves, ∀ g ∈ l.schema.fields, g.name ≠ f.name →
      l.spell e.1 ∉ l.candidates g) :
    Agree (({ l with env := some keyed } : Loader).load host).result
      (({ l with overrides := l.overrides ++ [(f.name, .map tree)] } : Loader).load
        host).result := by
  refine load_agree hkeyed hleaves.nodup ?_ fun bound reading env hbound hreading hadds => ?_
  · intro reading hreading e hmem
    obtain ⟨dirs, last, hleads, -⟩ := hleaves.leads e hmem
    refine Merge.Alone.of_not_mem hreading fun hkeys => ?_
    refine hunset.entered reading hreading (l.spell e.1) hkeys ?_
    rw [hleads]
    rfl
  have hspelled : ∀ e ∈ l.spellEntries leaves, ∃ leaf ∈ leaves, e.1 = l.spell leaf.1 := by
    intro e hmem
    obtain ⟨leaf, hleaf, rfl⟩ := List.mem_map.1 hmem
    exact ⟨leaf, hleaf, rfl⟩
  refine resolve_agree_override hnames hf hadds ⟨?_, ?_⟩ ?_ ?_
  · intro e hmem g hg hname hhead
    obtain ⟨leaf, hleaf, heq⟩ := hspelled e hmem
    obtain ⟨dirs, last, hleads, -⟩ := hleaves.leads leaf hleaf
    rw [heq, hleads] at hhead
    exact hname (Option.some.inj hhead).symm
  · intro e hmem g hg hname
    obtain ⟨leaf, hleaf, heq⟩ := hspelled e hmem
    exact heq ▸ hother leaf hleaf g hg hname
  · intro e hmem
    obtain ⟨leaf, hleaf, heq⟩ := hspelled e hmem
    obtain ⟨dirs, last, hleads, hat⟩ := hleaves.leads leaf hleaf
    rw [Projection.ensureWalk_eq_ok_iff, heq, hleads]
    right
    intro limit hlimit
    obtain rfl := Option.mem_def.1 hlimit
    have hheight := hdepth limit hbound dirs last _ hat
    simp only [List.length_nil, List.length_cons]
    omega
  · rw [rawValue_leaves hunset.override (hunset.entered reading hreading) htree hleaves hadds]
    exact .refl _

/-- A JSON text loads what its object as an override does. -/
theorem load_text_agree {id : SchemaId} {decoded : EnvMap} {key text : String} {j : Json}
    (hnames : (l.schema.fields.map (·.name)).Nodup) (hf : f ∈ l.schema.fields)
    (hnested : f.type.nestedSchema? = some id)
    (hbefore : l.schema.transforms.transforms .before f.name = []) (hunset : l.Unset host f)
    (hparse : Json.parse text = .ok j) (hjson : Value.ofJson j = .map tree)
    (hkey : l.Names host f key)
    (hdecoded : (l.env.getD host.environment).Adds [(key, text)] decoded)
    (hother : ∀ g ∈ l.schema.fields, g.name ≠ f.name → l.spell key ∉ l.candidates g)
    (hentered : (l.routeOf (l.spell key)).entered = []) :
    Agree (({ l with env := some decoded } : Loader).load host).result
      (({ l with overrides := l.overrides ++ [(f.name, .map tree)] } : Loader).load
        host).result := by
  refine load_agree hdecoded (by simp) ?_ fun bound reading env hbound hreading hadds => ?_
  · intro reading hreading e hmem
    obtain rfl := List.mem_singleton.1 hmem
    exact hkey.alone
  have hspelled : ∀ e ∈ l.spellEntries [(key, text)], e.1 = l.spell key := by
    intro e hmem
    obtain rfl := List.mem_singleton.1 hmem
    rfl
  refine resolve_agree_override hnames hf hadds ⟨?_, ?_⟩ ?_ ?_
  · intro e hmem g hg hname hhead
    rw [hspelled e hmem, hentered] at hhead
    cases hhead
  · intro e hmem g hg hname
    exact hspelled e hmem ▸ hother g hg hname
  · intro e hmem
    exact Projection.ensureWalk_eq_ok_iff.2 (.inl (by rw [hspelled e hmem, hentered]))
  · rw [rawValue_text hunset.override (hunset.entered reading hreading) hkey.candidate
      (hkey.first reading hreading) (by rw [hentered]; exact nofun) hadds]
    exact Resolver.coerceField_agree
      (Resolver.coerceRaw_json hnested hbefore hparse hjson f.name 0)

/-- A tree of texts for a nested field is loaded alike from names for its leaves, from a JSON text
and from an override: all three loads fail, or they give the same record. Nothing else may set the
field, and the name of the JSON text must not lead into a nested field itself. -/
theorem load_routes_agree {id : SchemaId} {leaves : List (String × String)}
    {keyed decoded : EnvMap} {key text : String} {j : Json}
    (hnames : (l.schema.fields.map (·.name)).Nodup) (hf : f ∈ l.schema.fields)
    (hnested : f.type.nestedSchema? = some id)
    (hbefore : l.schema.transforms.transforms .before f.name = [])
    (hunset : l.Unset host f) (htree : IsTree tree)
    (hdepth : ∀ limit, l.config.maxDepth = .ok (some limit) →
      ∀ dirs last text, textAt dirs last tree = some text → dirs.length < limit)
    (hleaves : l.Leaves f tree leaves)
    (hkeyed : (l.env.getD host.environment).Adds leaves keyed)
    (hleavesOther : ∀ e ∈ leaves, ∀ g ∈ l.schema.fields, g.name ≠ f.name →
      l.spell e.1 ∉ l.candidates g)
    (hparse : Json.parse text = .ok j) (hjson : Value.ofJson j = .map tree)
    (hkey : l.Names host f key)
    (hdecoded : (l.env.getD host.environment).Adds [(key, text)] decoded)
    (hkeyOther : ∀ g ∈ l.schema.fields, g.name ≠ f.name → l.spell key ∉ l.candidates g)
    (hkeyEntered : (l.routeOf (l.spell key)).entered = []) :
    Agree (({ l with env := some keyed } : Loader).load host).result
        (({ l with overrides := l.overrides ++ [(f.name, .map tree)] } : Loader).load host).result ∧
      Agree (({ l with env := some decoded } : Loader).load host).result
        (({ l with overrides := l.overrides ++ [(f.name, .map tree)] } : Loader).load
          host).result :=
  ⟨load_leaves_agree hnames hf hunset htree hdepth hleaves hkeyed hleavesOther,
    load_text_agree hnames hf hnested hbefore hunset hparse hjson hkey hdecoded hkeyOther
      hkeyEntered⟩

/-- A cache by its mode; without one it is off. -/
def cacheField : Field where
  name := "cache"
  type := .nested 2
  info := { default := some (.map [("mode", .str "off")]) }

/-- Limits, which may be given under a name that leads into the cache. -/
def limitsField : Field where
  name := "limits"
  type := .nested 1
  info := { default := some (.map []), envAlias := some "cache__mode" }

/-- A text. -/
def ownerField : Field where
  name := "owner"
  type := .str
  info := { default := some (.str "") }

/-- An application with a cache and limits. -/
def quotas : Catalog :=
  ⟨#[{ name := "Burst"
       fields := [{ name := "max", type := .str, info := { default := some (.str "1") } }] },
    { name := "Limits"
      fields := [{ name := "rate", type := .str, info := { default := some (.str "1") } },
        { name := "burst", type := .nested 0, info := { default := some (.map []) } }] },
    { name := "Cache", fields := [{ name := "mode", type := .str }] },
    { name := "App", fields := [ownerField, cacheField, limitsField] }]⟩

/-- A load from runtime entries and overrides, at most two nested fields deep. -/
def quotaLoader (env : List (String × String)) (overrides : List (String × Value)) : Loader where
  catalog := quotas
  root := 3
  config := { nestedDelimiter := some "__", caseSensitive := true, nestingBound := some 2 }
  env := some (EnvMap.ofList env)
  overrides := overrides

/-- The record of an application whose limits have no more than a rate and a burst. -/
def quotaRecord (owner mode rate burst : String) : Record where
  schema := "App"
  fields := [("owner", .str owner), ("cache", .record "Cache" [("mode", .str mode)]),
    ("limits", .record "Limits"
      [("rate", .str rate), ("burst", .record "Burst" [("max", .str burst)])])]

theorem quotaLoader_routeOf_rate (env : List (String × String))
    (overrides : List (String × Value)) :
    (quotaLoader env overrides).routeOf "limits__rate" = ⟨["limits"], some "rate"⟩ := by
  cbv

theorem quotaLoader_routeOf_max (env : List (String × String))
    (overrides : List (String × Value)) :
    (quotaLoader env overrides).routeOf "limits__burst__max" =
      ⟨["limits", "burst"], some "max"⟩ := by
  cbv

/-- The names that the fields are looked up under. -/
theorem quotaLoader_candidates (env : List (String × String))
    (overrides : List (String × Value)) :
    (quotaLoader env overrides).candidates limitsField = ["cache__mode", "limits"] ∧
      (quotaLoader env overrides).candidates cacheField = ["cache"] ∧
      (quotaLoader env overrides).candidates ownerField = ["owner"] := by
  cbv

/-- A loader without an env file resolves its entries as they are. -/
theorem quotaLoader_merged {env : List (String × String)} (hkeys : (env.map Prod.fst).Nodup)
    (overrides : List (String × Value)) :
    ∃ m : EnvMap, m.toList = env ∧ (quotaLoader env overrides).merged {} = .ok ⟨m, []⟩ ∧
      ((quotaLoader env overrides).load {}).result =
        (quotaLoader env overrides).resolve (some 2) m := by
  obtain ⟨m, hlist, -, hmerged, hload⟩ := load_ofList (l := quotaLoader env overrides) {}
    rfl rfl rfl hkeys
  exact ⟨m, hlist, hmerged, hload⟩

/-- A load is known from what its entries resolve to. -/
theorem quotaLoader_load {env : List (String × String)} (hkeys : (env.map Prod.fst).Nodup)
    {overrides : List (String × Value)} {record : Record}
    (hresolve : ∀ m : EnvMap, m.toList = env → m.get? = (env.lookup ·) →
      (quotaLoader env overrides).resolve (some 2) m = .ok record) :
    ((quotaLoader env overrides).load {}).result = .ok record :=
  load_eq_of_resolve rfl rfl rfl hkeys rfl hresolve

/-- A rate, and below a burst its greatest size. -/
def limitsTree : Entries :=
  [("burst", .map [("max", .str "3")]), ("rate", .str "9")]

theorem isTree_limitsTree : IsTree limitsTree := by
  have hburst : IsTree [("max", .str "3")] :=
    .of_entries (by simp) (List.pairwise_singleton _ _) (by simp)
  have hasc : Entries.Ascending limitsTree := List.pairwise_pair.2 (by decide)
  exact .of_entries (by simp [limitsTree]) hasc (by simp [limitsTree, hburst])

theorem textAt_limitsTree {names : List String} {last text : String}
    (htext : textAt names last limitsTree = some text) :
    (names = [] ∧ last = "rate" ∧ text = "9") ∨
      (names = ["burst"] ∧ last = "max" ∧ text = "3") := by
  obtain _ | ⟨first, names⟩ := names
  · left
    have hmem := (Entries.lookup_eq_some_iff_mem (by decide)).1
      (Projection.textAt_nil_eq_some_iff.1 htext)
    simpa [limitsTree] using hmem
  · right
    obtain ⟨inner, hlookup, htext⟩ := Projection.textAt_cons_eq_some_iff.1 htext
    have hmem := (Entries.lookup_eq_some_iff_mem (by decide)).1 hlookup
    obtain ⟨rfl, rfl⟩ : first = "burst" ∧ inner = [("max", .str "3")] := by
      simpa [limitsTree] using hmem
    obtain _ | ⟨second, names⟩ := names
    · have hmem := (Entries.lookup_eq_some_iff_mem (by decide)).1
        (Projection.textAt_nil_eq_some_iff.1 htext)
      simpa using hmem
    · obtain ⟨inner, hlookup, -⟩ := Projection.textAt_cons_eq_some_iff.1 htext
      have hmem := (Entries.lookup_eq_some_iff_mem (by decide)).1 hlookup
      simp at hmem

theorem quotaLoader_keys {env : List (String × String)} (hkeys : (env.map Prod.fst).Nodup)
    {overrides : List (String × Value)} {reading : Dotenv.Reading}
    (hreading : (quotaLoader env overrides).merged {} = .ok reading) :
    reading.env.keys = env.map Prod.fst := by
  obtain ⟨m, hlist, hmerged, -⟩ := quotaLoader_merged hkeys overrides
  obtain rfl := Except.ok.inj (hmerged.symm.trans hreading)
  rw [EnvMap.keys, hlist]

/-- Without a name under it the field is not set. -/
theorem quotaLoader_unset :
    (quotaLoader [("owner", "ops")] []).Unset {} limitsField := by
  have howner : ((quotaLoader [("owner", "ops")] []).routeOf "owner").entered = [] := by cbv
  refine ⟨List.forall_mem_nil _, fun reading hreading name hname => ?_⟩
  rw [quotaLoader_keys (by simp) hreading] at hname
  obtain rfl : name = "owner" := by simpa using hname
  rw [howner, List.head?_nil]
  exact (Option.some_ne_none _).symm

/-- The name of the field is the one that counts. -/
theorem quotaLoader_names :
    (quotaLoader [("owner", "ops")] []).Names {} limitsField "limits" := by
  obtain ⟨hlimits, -⟩ := quotaLoader_candidates [("owner", "ops")] []
  refine ⟨?_, fun reading hreading name hmem => ?_, fun _ _ _ _ hspell => hspell⟩
  · rw [hlimits]
    exact List.mem_cons_of_mem _ List.mem_cons_self
  · rw [hlimits] at hmem
    obtain rfl : name = "cache__mode" := by simpa [spell, Merge.spell, quotaLoader] using hmem
    rw [quotaLoader_keys (by simp) hreading]
    decide

/-- No other field is looked up under such a name. -/
theorem quotaLoader_not_candidate (env : List (String × String))
    (overrides : List (String × Value)) {name : String} (hname : name ∉ ["owner", "cache"]) :
    ∀ g ∈ (quotaLoader env overrides).schema.fields, g.name ≠ limitsField.name →
      (quotaLoader env overrides).spell name ∉ (quotaLoader env overrides).candidates g := by
  obtain ⟨-, hcache, howner⟩ := quotaLoader_candidates env overrides
  intro g hg hother hmem
  obtain rfl | rfl | rfl : g = ownerField ∨ g = cacheField ∨ g = limitsField := by
    simpa [quotaLoader, schema, Catalog.schema, quotas] using hg
  · rw [howner, List.mem_singleton] at hmem
    exact hname (List.mem_cons.2 (.inl hmem))
  · rw [hcache] at hmem
    exact hname (List.mem_cons_of_mem _ hmem)
  · exact hother rfl

/-- The two names lead to the leaves of the tree. -/
theorem quotaLoader_leaves (env : List (String × String)) (overrides : List (String × Value)) :
    (quotaLoader env overrides).Leaves limitsField limitsTree
      [("limits__rate", "9"), ("limits__burst__max", "3")] := by
  have hrate := quotaLoader_routeOf_rate env overrides
  have hmax := quotaLoader_routeOf_max env overrides
  refine ⟨fun e hmem => ?_, fun dirs last text htext => ?_, ?_⟩
  · obtain rfl | rfl : e = ("limits__rate", "9") ∨ e = ("limits__burst__max", "3") := by
      simpa using hmem
    · exact ⟨[], "rate", hrate, rfl⟩
    · exact ⟨["burst"], "max", hmax, rfl⟩
  · obtain ⟨rfl, rfl, rfl⟩ | ⟨rfl, rfl, rfl⟩ := textAt_limitsTree htext
    · exact ⟨("limits__rate", "9"), List.mem_cons_self, hrate⟩
    · exact ⟨("limits__burst__max", "3"), List.mem_cons_of_mem _ List.mem_cons_self, hmax⟩
  · simp [spell, Merge.spell, quotaLoader]

/-- Limits are loaded alike from names for their leaves, which stand around another name, from a
JSON text and from an override. -/
theorem load_routes_agree_limits :
    let limitsText := "\x7b\"burst\":\x7b\"max\":\"3\"\x7d,\"rate\":\"9\"\x7d"
    let overridden := quotaLoader [("owner", "ops")] [("limits", .map limitsTree)]
    Agree ((quotaLoader [("limits__rate", "9"), ("owner", "ops"), ("limits__burst__max", "3")]
        []).load {}).result (overridden.load {}).result ∧
      Agree ((quotaLoader [("owner", "ops"), ("limits", limitsText)] []).load {}).result
        (overridden.load {}).result ∧
      (overridden.load {}).result = .ok (quotaRecord "ops" "off" "9" "3") := by
  intro limitsText overridden
  let l := quotaLoader [("owner", "ops")] []
  have hfield : limitsField ∈ l.schema.fields := .tail _ (.tail _ (.head _))
  have hdepth : ∀ limit, l.config.maxDepth = .ok (some limit) → ∀ dirs last text,
      textAt dirs last limitsTree = some text → dirs.length < limit := by
    intro limit hlimit dirs last text htext
    obtain rfl : 2 = limit := Option.some.inj (Except.ok.inj hlimit)
    obtain ⟨rfl, -⟩ | ⟨rfl, -⟩ := textAt_limitsTree htext <;> simp
  have hkeyed : (EnvMap.ofList [("owner", "ops")]).Adds
      [("limits__rate", "9"), ("limits__burst__max", "3")]
      (.ofList [("limits__rate", "9"), ("owner", "ops"), ("limits__burst__max", "3")]) :=
    .ofList (by simp) (by simp) (by simp) (by simp)
  have hdecoded : (EnvMap.ofList [("owner", "ops")]).Adds [("limits", limitsText)]
      (.ofList [("owner", "ops"), ("limits", limitsText)]) :=
    .ofList (by simp) (by simp) (by simp) (by simp)
  have hapart : ∀ e ∈ [("limits__rate", "9"), ("limits__burst__max", "3")],
      e.1 ∉ ["owner", "cache"] := by
    simp
  have hparse : Json.parse limitsText =
      .ok (.object [("burst", .object [("max", .string "3")]), ("rate", .string "9")]) := by
    cbv
  have hagree := load_routes_agree (by decide) hfield rfl rfl quotaLoader_unset
    isTree_limitsTree hdepth (quotaLoader_leaves _ _) hkeyed
    (fun e hmem => quotaLoader_not_candidate _ _ (hapart e hmem)) hparse rfl quotaLoader_names
    hdecoded (quotaLoader_not_candidate _ _ (by simp)) (by cbv)
  refine ⟨hagree.1, hagree.2, quotaLoader_load (by simp) fun m hlist hget => ?_⟩
  delta Loader.resolve Loader.payload Loader.rawValue Loader.lookupEnv
  simp only [hlist, hget]
  clear hlist hget hagree
  cbv

/-- Loads that succeed with different records do not agree. -/
theorem not_agree_of_ne {l l' : Loader} {record record' : Record}
    (hload : (l.load {}).result = .ok record) (hload' : (l'.load {}).result = .ok record')
    (hne : record ≠ record') : ¬ Agree (l.load {}).result (l'.load {}).result := by
  rw [hload, hload']
  exact fun hagree => hne (Option.some.inj hagree)

/-- The routes part where the JSON text comes under a name that leads into another nested field,
and where another name sets a part of the field. Under `cache__mode` the limits become the mode of
the cache as well; next to `limits__rate` the text under `limits` is not read. -/
theorem load_routes_disagree :
    let rateText := "\x7b\"rate\":\"5\"\x7d"
    let burstText := "\x7b\"burst\":\x7b\"max\":\"3\"\x7d\x7d"
    let l := quotaLoader [] []
    l.routeOf "limits__rate" = ⟨["limits"], some "rate"⟩ ∧
    l.routeOf "limits__burst__max" = ⟨["limits", "burst"], some "max"⟩ ∧
    l.candidates limitsField = ["cache__mode", "limits"] ∧
    l.candidates cacheField = ["cache"] ∧
    (Json.parse rateText).map Value.ofJson = .ok (.map [("rate", .str "5")]) ∧
    ¬ Agree ((quotaLoader [("cache__mode", rateText)] []).load {}).result
      ((quotaLoader [] [("limits", .map [("rate", .str "5")])]).load {}).result ∧
    ¬ Agree ((quotaLoader [("limits__rate", "9"), ("limits", burstText)] []).load {}).result
      ((quotaLoader [("limits__rate", "9")]
        [("limits", .map [("burst", .map [("max", .str "3")])])]).load {}).result := by
  intro rateText burstText l
  obtain ⟨hmode, hoff, hrate, hburst⟩ :
      ((quotaLoader [("cache__mode", rateText)] []).load {}).result =
        .ok (quotaRecord "" rateText "5" "1") ∧
      ((quotaLoader [] [("limits", .map [("rate", .str "5")])]).load {}).result =
        .ok (quotaRecord "" "off" "5" "1") ∧
      ((quotaLoader [("limits__rate", "9"), ("limits", burstText)] []).load {}).result =
        .ok (quotaRecord "" "off" "9" "1") ∧
      ((quotaLoader [("limits__rate", "9")]
        [("limits", .map [("burst", .map [("max", .str "3")])])]).load {}).result =
        .ok (quotaRecord "" "off" "1" "3") := by
    refine ⟨?_, ?_, ?_, ?_⟩
    all_goals
      refine quotaLoader_load (by simp) fun m hlist hget => ?_
      delta Loader.resolve Loader.payload Loader.rawValue Loader.lookupEnv
      simp only [hlist, hget]
      clear hlist hget
      cbv
  obtain ⟨hlimits, hcache, -⟩ := quotaLoader_candidates [] []
  refine ⟨quotaLoader_routeOf_rate [] [], quotaLoader_routeOf_max [] [], hlimits, hcache, by cbv,
    ?_, ?_⟩
  · exact not_agree_of_ne hmode hoff (by simp [quotaRecord, rateText])
  · exact not_agree_of_ne hrate hburst (by simp [quotaRecord])

end EnvSettings.Loader
