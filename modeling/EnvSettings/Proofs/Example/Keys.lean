import EnvSettings.Proofs.Example.Names
import EnvSettings.Proofs.Example.Paths
import EnvSettings.Proofs.Loader
import EnvSettings.Proofs.RecordFree

namespace EnvSettings

open Merge (spell)
open Example (entryAt Within)

namespace Catalog

/-- A schema that is the root, or that a nested field of such a schema leads to. -/
inductive Enters (c : Catalog) (root : SchemaId) : SchemaId → Prop
  | root : Enters c root root
  | field {id next : SchemaId} {f : Field} (hid : Enters c root id)
      (hf : f ∈ (c.schema id).fields) (hnested : f.type.nestedSchema? = some next) :
      Enters c root next

theorem Enters.reaches {c : Catalog} {root id : SchemaId} (hid : c.Enters root id) :
    c.Reaches root id := by
  induction hid with
  | root => exact .root
  | field _ hf hnested ih => exact ih.field hf (FieldType.mem_schemas_of_nestedSchema? hnested)

/-- The names of every schema that the root leads to can be told apart. -/
def TellsApart (c : Catalog) (root : SchemaId) (caseSensitive : Bool) (delimiter : String) : Prop :=
  ∀ id, c.Enters root id → (c.schema id).TellsApart caseSensitive delimiter

theorem Descends.head_mem {c : Catalog} {id : SchemaId} {f : Field} {path : List Field}
    (hpath : c.Descends id (f :: path)) : f ∈ (c.schema id).fields := by
  cases hpath <;> assumption

/-- The fields of a path belong to schemas that are entered. -/
theorem Descends.exists_enters {c : Catalog} {root id : SchemaId} {path : List Field}
    (hid : c.Enters root id) (hpath : c.Descends id path) :
    ∀ f ∈ path, ∃ id, c.Enters root id ∧ f ∈ (c.schema id).fields := by
  induction hpath with
  | leaf hf hleaf => exact List.forall_mem_singleton.2 ⟨_, hid, hf⟩
  | nested hf hnested hpath ih =>
    exact List.forall_mem_cons.2 ⟨⟨_, hid, hf⟩, ih (hid.field hf hnested)⟩

end Catalog

namespace Projection

/-- Maps one below the other along a path of fields, with a text at the end. -/
def branch : List Field → String → Entries
  | [], _ => []
  | [f], text => [(f.name, .str text)]
  | f :: path, text => [(f.name, .map (branch path text))]

/-- The route along a path of fields. -/
def routeTo : List Field → Route
  | [] => {}
  | [f] => { target := some f.name }
  | f :: path => (routeTo path).under f.name

/-- A text at the end of a path is the only one in a branch. -/
theorem edit_routeTo (path : List Field) (text : String) :
    (routeTo path).edit text [] = branch path text := by
  induction path with
  | nil => rfl
  | cons f path ih =>
    cases path with
    | nil => rfl
    | cons next path => exact congrArg (fun data => [(f.name, Value.map data)]) ih

/-- All fields of a path but the last one are entered. -/
theorem length_entered_routeTo (path : List Field) :
    (routeTo path).entered.length = path.dropLast.length := by
  induction path with
  | nil => rfl
  | cons f path ih =>
    cases path with
    | nil => rfl
    | cons next path => exact congrArg Nat.succ ih

/-- The segments for a path of fields. -/
def segmentsOf (caseSensitive : Bool) (path : List Field) : List String :=
  path.map fun f => spell caseSensitive f.primaryName

variable {c : Catalog} {root id : SchemaId} {path : List Field} {p : Projection}

/-- The segments for a path lead along the path. -/
theorem route_segmentsOf (hnames : c.TellsApart root p.caseSensitive p.delimiter)
    (hid : c.Enters root id) (hpath : c.Descends id path) :
    p.route c (segmentsOf p.caseSensitive path) id = routeTo path := by
  induction hpath with
  | leaf hf hleaf =>
    rw [segmentsOf, List.map_cons, route,
      (hnames _ hid).matchField?_spell hf (Field.primaryName_mem_envNames _)]
    rfl
  | @nested id next f path hf hnested hpath ih =>
    obtain ⟨first, rest, rfl⟩ := List.exists_cons_of_ne_nil hpath.ne_nil
    rw [segmentsOf, List.map_cons, route,
      (hnames _ hid).matchField?_spell hf (Field.primaryName_mem_envNames _)]
    simp only [hnested]
    exact congrArg (Route.under f.name) (ih (hid.field hf hnested))

/-- The key for a path is made of its segments behind the lead text. -/
theorem envKey_segmentsOf {lead delimiter : String} {caseSensitive : Bool}
    (hspelled : spell caseSensitive delimiter = delimiter) (path : List Field) :
    envKey lead (delimiter.intercalate (path.map Field.primaryName)) caseSensitive =
      spell caseSensitive lead ++ delimiter.intercalate (segmentsOf caseSensitive path) := by
  rw [envKey_eq, Merge.spell_append, Merge.spell_intercalate hspelled, List.map_map]
  rfl

/-- The segments of a path do not run into the delimiter. -/
theorem segmentsOf_clear {caseSensitive : Bool} {delimiter : String}
    (hspelled : spell caseSensitive delimiter = delimiter)
    (hnames : c.TellsApart root caseSensitive delimiter) (hpath : c.Descends root path) :
    ∀ part ∈ segmentsOf caseSensitive path,
      part ≠ "" ∧ Text.Clear delimiter.toList part.toList := by
  intro part hpart
  obtain ⟨f, hmem, rfl⟩ := List.mem_map.1 hpart
  obtain ⟨id, hid, hf⟩ := hpath.exists_enters .root f hmem
  have hname := f.primaryName_mem_envNames
  obtain ⟨hne, hascii⟩ := (hnames id hid).named f hf _ hname
  exact ⟨mt (Merge.spell_eq_empty_iff hascii).1 hne, (hnames id hid).clear hspelled hf hname⟩

/-- The key of a path of two fields or more leads along it. -/
theorem routeOf_key (hdelimiter : p.delimiter ≠ "")
    (hspelled : spell p.caseSensitive p.delimiter = p.delimiter)
    (hnames : c.TellsApart root p.caseSensitive p.delimiter) (hpath : c.Descends root path) :
    p.routeOf c root
        (envKey p.lead (p.delimiter.intercalate (path.map Field.primaryName)) p.caseSensitive) =
      if path.length < 2 then {} else routeTo path := by
  have hne : segmentsOf p.caseSensitive path ≠ [] := by simpa [segmentsOf] using hpath.ne_nil
  have hlength : (segmentsOf p.caseSensitive path).length = path.length := List.length_map _
  rw [envKey_segmentsOf hspelled, routeOf,
    segments?_spelled hdelimiter hne (segmentsOf_clear hspelled hnames hpath), hlength]
  by_cases hshort : path.length < 2
  · rw [if_pos hshort, if_pos hshort]
  · rw [if_neg hshort, if_neg hshort]
    exact route_segmentsOf hnames .root hpath

/-- The key for a path that is not too deep sets the text at its end and nothing else. -/
theorem apply_key (hdelimiter : p.delimiter ≠ "")
    (hspelled : spell p.caseSensitive p.delimiter = p.delimiter)
    (hnames : c.TellsApart root p.caseSensitive p.delimiter) (hpath : c.Descends root path)
    (hwithin : Within p.bound 0 path) (text : String) :
    p.apply c root
        [(envKey p.lead (p.delimiter.intercalate (path.map Field.primaryName)) p.caseSensitive,
          text)] [] =
      .ok (if path.length < 2 then [] else branch path text) := by
  have hroute := routeOf_key hdelimiter hspelled hnames hpath
  refine apply_eq_ok_iff.2 ⟨List.forall_mem_singleton.2 ?_, ?_⟩
  · rw [hroute]
    by_cases hshort : path.length < 2
    · rw [if_pos hshort]
      rfl
    · rw [if_neg hshort, ensureWalk_eq_ok_iff, ← List.length_eq_zero_iff, List.length_nil,
        length_entered_routeTo, List.length_eq_zero_iff]
      exact hwithin
  · simp only [edits, List.map_cons, List.map_nil, applyEdits, List.foldl_cons, List.foldl_nil,
      hroute]
    by_cases hshort : path.length < 2
    · rw [if_pos hshort, if_pos hshort]
      rfl
    · rw [if_neg hshort, if_neg hshort, edit_routeTo]

end Projection

/-- Where one element has a result, it is found if the element is there. -/
theorem findSome?_single {α β : Type} [DecidableEq α] (a : α) (b : β) (as : List α) :
    (as.findSome? fun x => if x = a then some b else none) = if a ∈ as then some b else none := by
  induction as with
  | nil => rfl
  | cons x as ih =>
    by_cases hx : x = a
    · simp [hx]
    · simp [hx, Ne.symm hx, ih]

namespace EnvMap

theorem toList_single (name text : String) : (ofList [(name, text)]).toList = [(name, text)] :=
  toList_insertAll (List.nodup_singleton name)

theorem get?_single (name text other : String) :
    (ofList [(name, text)]).get? other = if other = name then some text else none := by
  rw [get?_eq_lookup, toList_single]
  by_cases hother : other = name
  · simp [hother]
  · simp [hother, List.lookup_cons, beq_eq_false_iff_ne.2 hother]

end EnvMap

namespace Loader

variable {l : Loader} {delimiter : String} {f g : Field} {path : List Field}

/-- A field takes the only entry if it is one of its candidates. -/
theorem lookupEnv_single (name text : String) (g : Field) :
    l.lookupEnv (.ofList [(name, text)]) g =
      if name ∈ l.candidates g then some text else none := by
  rw [lookupEnv_eq, ← findSome?_single]
  exact findSome?_congr fun other _ => EnvMap.get?_single name text other

/-- The key of a root field is found under the names of this field alone. -/
theorem mem_candidates_iff (hnames : l.schema.TellsApart l.config.caseSensitive delimiter)
    (hf : f ∈ l.schema.fields) (hg : g ∈ l.schema.fields) :
    envKey l.config.lead f.primaryName l.config.caseSensitive ∈ l.candidates g ↔
      g.name = f.name := by
  constructor
  · intro hmem
    obtain ⟨name, hname, hkey⟩ := List.mem_map.1 hmem
    rw [envKey_eq, envKey_eq, Merge.spell_append, Merge.spell_append,
      String.append_right_inj] at hkey
    rw [hnames.eq_of_spell_eq hg hf hname f.primaryName_mem_envNames hkey]
  · intro hsame
    have hself : g = f :=
      hnames.eq_of_lower_eq hg hf g.name_mem_envNames f.name_mem_envNames (congrArg _ hsame)
    rw [hself]
    exact List.mem_map_of_mem f.primaryName_mem_envNames

/-- A key of several segments is found under no name of a root field. -/
theorem not_mem_candidates (hdelimiter : delimiter ≠ "")
    (hspelled : Merge.spell l.config.caseSensitive delimiter = delimiter)
    (hnames : l.catalog.TellsApart l.root l.config.caseSensitive delimiter)
    (hpath : l.catalog.Descends l.root path) (hlength : 2 ≤ path.length)
    (hg : g ∈ l.schema.fields) :
    envKey l.config.lead (delimiter.intercalate (path.map Field.primaryName))
      l.config.caseSensitive ∉ l.candidates g := by
  intro hmem
  obtain ⟨name, hname, hkey⟩ := List.mem_map.1 hmem
  rw [Projection.envKey_segmentsOf hspelled, envKey_eq, Merge.spell_append,
    String.append_right_inj] at hkey
  -- One side splits into one part, the other side into several.
  have hone := Text.splitOn_of_clear ((hnames l.root .root).clear hspelled hg hname)
  have hclear := Projection.segmentsOf_clear hspelled hnames hpath
  rw [hkey, String.toList_intercalate, Text.splitOn_intercalate (by simpa using hdelimiter)
    (by simpa [Projection.segmentsOf] using hpath.ne_nil)
    (by simpa using fun part hpart => (hclear part hpart).2)] at hone
  have hparts := congrArg List.length hone
  simp only [Projection.segmentsOf, List.length_map, List.length_singleton] at hparts
  omega

/-- In an environment the loader takes a text as the raw value of the field at a path, and as that
of no other field. A root field is looked up, while nested names set nothing; a deeper field is the
only leaf that nested names set, while no root field is found. -/
structure TakesOnly (l : Loader) (bound : Option Nat) (env : EnvMap) (path : List Field)
    (text : String) : Prop where
  root : ∀ f, path = [f] → l.payload bound env = .ok [] ∧
    ∀ g ∈ l.schema.fields, l.lookupEnv env g = if g.name = f.name then some text else none
  nested : 2 ≤ path.length → l.payload bound env = .ok (Projection.branch path text) ∧
    ∀ g ∈ l.schema.fields, l.lookupEnv env g = none

/-- The key of a leaf gives its text to the leaf. -/
theorem takesOnly_key {bound : Option Nat} (hdelimiter : l.config.delimiter? = some delimiter)
    (hspelled : Merge.spell l.config.caseSensitive delimiter = delimiter)
    (hnames : l.catalog.TellsApart l.root l.config.caseSensitive delimiter)
    (hpath : l.catalog.Descends l.root path) (hwithin : Within bound 0 path)
    (hoverrides : l.overrides = []) (text : String) :
    l.TakesOnly bound (.ofList [((entryAt l.config delimiter [] path).key, text)]) path text := by
  have hne : delimiter ≠ "" := by
    simpa using (Option.filter_eq_some_iff.1 hdelimiter).2
  have happly := Projection.apply_key
    (p := ⟨l.config.lead, delimiter, l.config.caseSensitive, bound⟩) hne hspelled hnames hpath
    hwithin text
  have hpayload : l.payload bound (.ofList [((entryAt l.config delimiter [] path).key, text)]) =
      .ok (if path.length < 2 then [] else Projection.branch path text) := by
    rw [payload, hdelimiter, hoverrides, EnvMap.toList_single]
    simp only [entryAt, List.nil_append, happly]
    rfl
  refine ⟨?_, fun hlength => ⟨?_, fun g hg => ?_⟩⟩
  · rintro f rfl
    refine ⟨hpayload, fun g hg => ?_⟩
    rw [lookupEnv_single]
    exact if_congr (mem_candidates_iff (hnames l.root .root) hpath.head_mem hg) rfl rfl
  · rw [hpayload, if_neg (Nat.not_lt.2 hlength)]
  · rw [lookupEnv_single]
    exact if_neg (not_mem_candidates hne hspelled hnames hpath hlength hg)

end Loader

namespace Example

variable {c : Catalog} {root : SchemaId} {config : Config} {delimiter : String}

/-- The keys of an example reach their fields. An example lists one key for each leaf below the
root schema. In an environment with such a key alone, a loader takes its text as the raw value of
this leaf and of no other field, provided that the names of each schema can be told apart, and that
the delimiter is its own upper case unless case matters. Without an env file, runtime entries with
the key alone are such an environment. -/
theorem renderWith_reaches {text : String} (hdelimiter : config.delimiter? = some delimiter)
    (hupper : config.caseSensitive = false → Text.upper delimiter = delimiter)
    (hnames : c.TellsApart root config.caseSensitive delimiter)
    (hrender : renderWith c root config = .ok text) :
    ∃ bound paths, config.maxDepth = .ok bound ∧ c.Unfolds (c.schema root).fields paths ∧
      entries c root config = .ok (paths.map (entryAt config delimiter [])) ∧
      ∀ path ∈ paths, ∀ value : String,
        let env := EnvMap.ofList [((entryAt config delimiter [] path).key, value)]
        let l : Loader := { catalog := c, root, config, env := some env }
        l.TakesOnly bound env path value ∧
          (config.envFile = none → ∀ host, l.merged host = .ok ⟨env, []⟩) := by
  obtain ⟨es, hes⟩ := exists_entries_of_renderWith hrender
  obtain ⟨bound, hbound, paths, hunfolds, rfl, hwithin⟩ := lists_entries hdelimiter hes
  refine ⟨bound, paths, hbound, hunfolds, hes, fun path hmem value => ?_⟩
  have hpath := hunfolds.descends (List.Subset.refl _) path hmem
  have hspelled : spell config.caseSensitive delimiter = delimiter := by
    cases hcase : config.caseSensitive with
    | true => rfl
    | false => exact hupper hcase
  constructor
  · exact Loader.takesOnly_key hdelimiter hspelled hnames hpath (hwithin path hmem) rfl value
  · intro hfile host
    refine Loader.merged_ofList host rfl hfile ?_ (List.nodup_singleton _)
    exact List.forall_mem_singleton.2 (spell_envKey _ _ _)

/-- A host that the environment knows by another name. -/
def hostField : Field :=
  { name := "host", type := .str, info := { envAlias := some "HOSTNAME" } }

/-- A database that the environment knows by another name. -/
def databaseField : Field :=
  { name := "db", type := .nested 0, info := { envAlias := some "DATABASE" } }

/-- A service with a database. -/
def serviceCatalog : Catalog :=
  ⟨#[{ name := "Database", fields := [hostField, { name := "pool_size", type := .int }] },
    { name := "Service", fields := [{ name := "debug", type := .bool }, databaseField] }]⟩

/-- The names are looked up below a prefix, with a delimiter. -/
def serviceConfig : Config :=
  { lead := "app_", nestedDelimiter := some "__" }

theorem serviceCatalog_tellsApart : serviceCatalog.TellsApart 1 false "__" := by
  intro id hid
  have hmem : id ∈ [0, 1] := hid.reaches.mem_of_closed (by decide) (by decide)
  simp only [List.mem_cons, List.not_mem_nil, or_false] at hmem
  obtain rfl | rfl := hmem <;>
    exact .of_clear (by decide) (by decide +kernel) (by decide +kernel) (by decide +kernel)
      (by decide +kernel)

/-- The key for the host is made of the other names, and its text stands under the fields' own
names. -/
theorem renderWith_reaches_service :
    serviceConfig.delimiter? = some "__" ∧
    (serviceConfig.caseSensitive = false → Text.upper "__" = "__") ∧
    serviceCatalog.TellsApart 1 serviceConfig.caseSensitive "__" ∧
    renderWith serviceCatalog 1 serviceConfig =
      .ok "APP_DEBUG=\n\nAPP_DATABASE__HOSTNAME=\n\nAPP_DATABASE__POOL_SIZE=\n" ∧
    ∀ value : String,
      let env := EnvMap.ofList [("APP_DATABASE__HOSTNAME", value)]
      let l : Loader :=
        { catalog := serviceCatalog, root := 1, config := serviceConfig, env := some env }
      l.payload none env = .ok [("db", .map [("host", .str value)])] := by
  have hupper : serviceConfig.caseSensitive = false → Text.upper "__" = "__" :=
    fun _ => by decide +kernel
  have hrender : renderWith serviceCatalog 1 serviceConfig =
      .ok "APP_DEBUG=\n\nAPP_DATABASE__HOSTNAME=\n\nAPP_DATABASE__POOL_SIZE=\n" := by
    cbv
  refine ⟨rfl, hupper, serviceCatalog_tellsApart, hrender, fun value => ?_⟩
  obtain ⟨bound, paths, hbound, hunfolds, -, hreaches⟩ :=
    renderWith_reaches rfl hupper serviceCatalog_tellsApart hrender
  obtain rfl : none = bound := Except.ok.inj hbound
  have hpaths := hunfolds.unique (.leaf rfl (.nested rfl (.leaf rfl (.leaf rfl .nil)) .nil))
  have hkey : (entryAt serviceConfig "__" [] [databaseField, hostField]).key =
      "APP_DATABASE__HOSTNAME" := by
    decide +kernel
  have hhost := (hreaches [databaseField, hostField] (by simp [hpaths]) value).1
  rw [hkey] at hhost
  exact (hhost.nested (Nat.le_refl 2)).1

end Example

end EnvSettings
