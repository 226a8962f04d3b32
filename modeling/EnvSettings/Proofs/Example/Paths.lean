import EnvSettings.Example
import EnvSettings.Proofs.Projection.Walk
import EnvSettings.Proofs.Resolution

namespace EnvSettings

open Projection (Fits ensureDepth_eq_ok_iff)

namespace Catalog

/-- The leaves below fields in the order of their declaration, each as the path of fields that leads
to it. The leaves of a nested schema stand in the place of its field. -/
inductive Unfolds (c : Catalog) : List Field → List (List Field) → Prop
  | nil : Unfolds c [] []
  | leaf {f : Field} {fs : List Field} {paths : List (List Field)}
      (hleaf : f.type.nestedSchema? = none) (hrest : Unfolds c fs paths) :
      Unfolds c (f :: fs) ([f] :: paths)
  | nested {f : Field} {id : SchemaId} {fs : List Field} {below paths : List (List Field)}
      (hnested : f.type.nestedSchema? = some id) (hbelow : Unfolds c (c.schema id).fields below)
      (hrest : Unfolds c fs paths) : Unfolds c (f :: fs) (below.map (f :: ·) ++ paths)

/-- The fields lead, one below the other, from a schema down to a leaf. -/
inductive Descends (c : Catalog) : SchemaId → List Field → Prop
  | leaf {id : SchemaId} {f : Field} (hf : f ∈ (c.schema id).fields)
      (hleaf : f.type.nestedSchema? = none) : Descends c id [f]
  | nested {id next : SchemaId} {f : Field} {path : List Field} (hf : f ∈ (c.schema id).fields)
      (hnested : f.type.nestedSchema? = some next) (hpath : Descends c next path) :
      Descends c id (f :: path)

variable {c : Catalog} {root id : SchemaId} {fs path : List Field} {paths : List (List Field)}

theorem Descends.ne_nil (hpath : c.Descends id path) : path ≠ [] := by
  cases hpath <;> exact List.cons_ne_nil _ _

/-- Fields unfold in one way. -/
theorem Unfolds.unique {paths' : List (List Field)} (hunfolds : c.Unfolds fs paths)
    (hunfolds' : c.Unfolds fs paths') : paths = paths' := by
  induction hunfolds generalizing paths' with
  | nil =>
    cases hunfolds'
    rfl
  | leaf hleaf hrest ih =>
    cases hunfolds' with
    | leaf _ hrest' => rw [ih hrest']
    | nested hnested _ _ => exact absurd (hleaf.symm.trans hnested) (by simp)
  | nested hnested hbelow hrest ihbelow ihrest =>
    cases hunfolds' with
    | leaf hleaf _ => exact absurd (hleaf.symm.trans hnested) (by simp)
    | nested hnested' hbelow' hrest' =>
      obtain rfl := Option.some.inj (hnested.symm.trans hnested')
      rw [ihbelow hbelow', ihrest hrest']

theorem Unfolds.descends (hunfolds : c.Unfolds fs paths) (hfs : fs ⊆ (c.schema id).fields) :
    ∀ path ∈ paths, c.Descends id path := by
  induction hunfolds generalizing id with
  | nil => simp
  | leaf hleaf hrest ih =>
    obtain ⟨hf, hfs⟩ := List.cons_subset.1 hfs
    exact List.forall_mem_cons.2 ⟨.leaf hf hleaf, ih hfs⟩
  | nested hnested hbelow hrest ihbelow ihrest =>
    obtain ⟨hf, hfs⟩ := List.cons_subset.1 hfs
    intro path hmem
    obtain hmem | hmem := List.mem_append.1 hmem
    · obtain ⟨path, hpath, rfl⟩ := List.mem_map.1 hmem
      exact .nested hf hnested (ihbelow (List.Subset.refl _) path hpath)
    · exact ihrest hfs path hmem

end Catalog

namespace Example

variable {c : Catalog} {config : Config} {delimiter : String} {bound : Option Nat}
  {parents lineage : List String} {fs : List Field} {es : List Entry}

/-- The entry of the leaf at a path of fields, below the given parents. -/
def entryAt (config : Config) (delimiter : String) (parents : List String) (path : List Field) :
    Entry where
  key := envKey config.lead (delimiter.intercalate (parents ++ path.map Field.primaryName))
    config.caseSensitive
  description := path.getLast?.bind (·.info.description)

/-- The entry of a leaf is that of a path with one field. -/
theorem leaf_eq (hdelimiter : config.delimiter? = some delimiter) (f : Field) :
    leaf config parents f = entryAt config delimiter parents [f] := by
  rw [leaf, hdelimiter]
  rfl

/-- The entry of a path below a field stands below the name of the field. -/
theorem entryAt_cons (f : Field) {path : List Field} (hpath : path ≠ []) :
    entryAt config delimiter parents (f :: path) =
      entryAt config delimiter (parents ++ [f.primaryName]) path := by
  simp [entryAt, List.getLast?_cons, List.getLast?_eq_some_getLast hpath]

/-- The path enters no more nested fields than the bound allows below the given number of them. -/
def Within (bound : Option Nat) (above : Nat) (path : List Field) : Prop :=
  path.dropLast = [] ∨ Fits bound (above + path.dropLast.length)

/-- A path behind a field is within the bound if it is so one level deeper. -/
theorem Within.cons {above : Nat} {path : List Field} (hfits : Fits bound (above + 1))
    (hwithin : Within bound (above + 1) path) (hpath : path ≠ []) (f : Field) :
    Within bound above (f :: path) := by
  rw [Within, List.dropLast_cons_of_ne_nil hpath, List.length_cons]
  obtain hleaf | hdeeper := hwithin
  · rw [hleaf]
    exact .inr hfits
  · exact .inr (by rwa [Nat.add_comm path.dropLast.length, ← Nat.add_assoc])

/-- The entries are those of all leaves below the fields, none of which is too deep. -/
def Lists (c : Catalog) (config : Config) (delimiter : String) (bound : Option Nat)
    (parents : List String) (fs : List Field) (es : List Entry) : Prop :=
  ∃ paths, c.Unfolds fs paths ∧ es = paths.map (entryAt config delimiter parents) ∧
    ∀ path ∈ paths, Within bound parents.length path

theorem Lists.leaf {f : Field} (hleaf : f.type.nestedSchema? = none)
    (hrest : Lists c config delimiter bound parents fs es) :
    Lists c config delimiter bound parents (f :: fs)
      (entryAt config delimiter parents [f] :: es) := by
  obtain ⟨paths, hunfolds, rfl, hwithin⟩ := hrest
  exact ⟨_, .leaf hleaf hunfolds, rfl, List.forall_mem_cons.2 ⟨.inl rfl, hwithin⟩⟩

theorem Lists.nested {f : Field} {id : SchemaId} {below : List Entry}
    (hnested : f.type.nestedSchema? = some id) (hfits : Fits bound (parents.length + 1))
    (hbelow : Lists c config delimiter bound (parents ++ [f.primaryName]) (c.schema id).fields
      below)
    (hrest : Lists c config delimiter bound parents fs es) :
    Lists c config delimiter bound parents (f :: fs) (below ++ es) := by
  obtain ⟨inner, hinner, rfl, hdeep⟩ := hbelow
  obtain ⟨paths, hunfolds, rfl, hwithin⟩ := hrest
  have hne : ∀ path ∈ inner, path ≠ [] := fun path hmem =>
    (hinner.descends (List.Subset.refl _) path hmem).ne_nil
  refine ⟨_, .nested hnested hinner hunfolds, ?_, fun path hmem => ?_⟩
  · rw [List.map_append, List.map_map]
    congr 1
    exact List.map_congr_left fun path hmem => (entryAt_cons f (hne path hmem)).symm
  · obtain hmem | hmem := List.mem_append.1 hmem
    · obtain ⟨path, hpath, rfl⟩ := List.mem_map.1 hmem
      have hdeep := hdeep path hpath
      rw [List.length_append] at hdeep
      exact hdeep.cons hfits (hne path hpath) f
    · exact hwithin path hmem

/-- The entries of fields are those of their paths, if it is so for nested schemas. -/
theorem lists_ofFields (hdelimiter : config.delimiter? = some delimiter)
    {deeper : SchemaId → List String → List String → Except Error (List Entry)}
    (hdeeper : ∀ id parents lineage es, deeper id parents lineage = .ok es →
      Lists c config delimiter bound parents (c.schema id).fields es)
    (hes : ofFields c config bound deeper parents lineage fs = .ok es) :
    Lists c config delimiter bound parents fs es := by
  induction fs generalizing es with
  | nil =>
    obtain rfl := Except.ok.inj hes
    exact ⟨[], .nil, rfl, by simp⟩
  | cons f fs ih =>
    rw [ofFields] at hes
    cases hnested : f.type.nestedSchema? with
    | none =>
      simp only [hnested] at hes
      obtain ⟨first, hfirst, hes⟩ := bind_eq_ok_iff.1 hes
      obtain ⟨rest, hrest, hes⟩ := bind_eq_ok_iff.1 hes
      obtain rfl := Except.ok.inj hfirst
      obtain rfl := Except.ok.inj hes
      rw [leaf_eq hdelimiter]
      exact .leaf hnested (ih hrest)
    | some id =>
      simp only [hnested, hdelimiter] at hes
      obtain ⟨_, hdepth, hes⟩ := bind_eq_ok_iff.1 hes
      have hfits := ensureDepth_eq_ok_iff.1 hdepth
      rw [List.length_append] at hfits
      split at hes
      · cases hes
      · obtain ⟨first, hfirst, hes⟩ := bind_eq_ok_iff.1 hes
        obtain ⟨rest, hrest, hes⟩ := bind_eq_ok_iff.1 hes
        obtain rfl := Except.ok.inj hes
        exact .nested hnested hfits (hdeeper _ _ _ _ hfirst) (ih hrest)

/-- The entries of a schema are those of its paths. -/
theorem lists_ofSchema (hdelimiter : config.delimiter? = some delimiter) {room : Nat}
    {id : SchemaId} (hes : ofSchema c config bound room id parents lineage = .ok es) :
    Lists c config delimiter bound parents (c.schema id).fields es := by
  induction room generalizing id parents lineage es with
  | zero => cases hes
  | succ room ih => exact lists_ofFields hdelimiter (fun _ _ _ _ => ih) hes

/-- An example lists the leaves below the root schema, none of which is too deep. -/
theorem lists_entries {root : SchemaId} (hdelimiter : config.delimiter? = some delimiter)
    (hes : entries c root config = .ok es) :
    ∃ bound, config.maxDepth = .ok bound ∧
      Lists c config delimiter bound [] (c.schema root).fields es := by
  obtain ⟨bound, hbound, hes⟩ := bind_eq_ok_iff.1 hes
  exact ⟨bound, hbound, lists_ofSchema hdelimiter hes⟩

theorem exists_entries_of_renderWith {root : SchemaId} {text : String}
    (hrender : renderWith c root config = .ok text) : ∃ es, entries c root config = .ok es := by
  obtain ⟨es, hes, -⟩ := bind_eq_ok_iff.1 hrender
  exact ⟨es, hes⟩

end Example

end EnvSettings
