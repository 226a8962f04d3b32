import Mathlib.Data.List.Nodup
import EnvSettings.Example
import EnvSettings.Proofs.Projection.Walk
import EnvSettings.Proofs.Room

namespace EnvSettings

open Projection (Fits ensureDepth_eq_ok_iff)

namespace Catalog

/-- Nested fields lead from the given fields through schemas, one below the other. -/
inductive Leads (c : Catalog) : List Field → List SchemaId → Prop
  | nil {fs : List Field} : Leads c fs []
  | cons {fs : List Field} {f : Field} {id : SchemaId} {ids : List SchemaId} (hf : f ∈ fs)
      (hnested : f.type.nestedSchema? = some id) (hids : Leads c (c.schema id).fields ids) :
      Leads c fs (id :: ids)

variable {c : Catalog} {f : Field} {fs : List Field} {ids : List SchemaId}

theorem Leads.mono {gs : List Field} (hids : c.Leads fs ids) (hsub : fs ⊆ gs) :
    c.Leads gs ids := by
  cases hids with
  | nil => exact .nil
  | cons hf hnested hids => exact .cons (hsub hf) hnested hids

/-- A chain begins at the first field or at a later one. -/
theorem leads_cons_iff :
    c.Leads (f :: fs) ids ↔
      (∃ id rest, f.type.nestedSchema? = some id ∧ ids = id :: rest ∧
        c.Leads (c.schema id).fields rest) ∨ c.Leads fs ids := by
  constructor
  · rintro (_ | ⟨hf, hnested, hids⟩)
    · exact .inr .nil
    · obtain rfl | hf := List.mem_cons.1 hf
      · exact .inl ⟨_, _, hnested, rfl, hids⟩
      · exact .inr (.cons hf hnested hids)
  · rintro (⟨id, rest, hnested, rfl, hids⟩ | hids)
    · exact .cons List.mem_cons_self hnested hids
    · exact hids.mono (List.subset_cons_self f fs)

end Catalog

namespace Example

variable {c : Catalog} {config : Config} {delimiter : String} {bound : Option Nat}
  {lineage parents : List String} {above room : Nat} {fs : List Field} {ids : List SchemaId}
  {e : Error}

/-- A chain of schemas may be followed below the schemas of a lineage: no name comes back, and the
bound allows as many nested fields. -/
structure Allowed (c : Catalog) (bound : Option Nat) (lineage : List String) (above : Nat)
    (ids : List SchemaId) : Prop where
  distinct : (lineage ++ ids.map c.schemaName).Nodup
  fits : Fits bound (above + ids.length)

/-- The error with which a chain is not followed any further. -/
inductive Refused (c : Catalog) (bound : Option Nat) (lineage : List String) (above : Nat)
    (ids : List SchemaId) : Error → Prop
  | repeated (hnames : ¬ (lineage ++ ids.map c.schemaName).Nodup) :
      Refused c bound lineage above ids
        (.config (.recursiveExample (lineage ++ ids.map c.schemaName)))
  | deep {limit : Nat} {path : String} (hbound : bound = some limit)
      (hdeep : limit < above + ids.length) :
      Refused c bound lineage above ids
        { problem := .nestedDepth path (above + ids.length) limit }

theorem Refused.not_allowed (hrefused : Refused c bound lineage above ids e) :
    ¬ Allowed c bound lineage above ids := by
  intro hallowed
  cases hrefused with
  | repeated hnames => exact hnames hallowed.distinct
  | deep hbound hdeep => exact absurd (hallowed.fits _ hbound) (Nat.not_le_of_lt hdeep)

/-- What may be followed from a schema may be followed from the field that leads to it. -/
theorem allowed_cons_iff {id : SchemaId} :
    Allowed c bound lineage above (id :: ids) ↔
      Allowed c bound (lineage ++ [c.schemaName id]) (above + 1) ids := by
  have hnames : lineage ++ (id :: ids).map c.schemaName =
      lineage ++ [c.schemaName id] ++ ids.map c.schemaName := by
    simp
  have hlength : above + (id :: ids).length = above + 1 + ids.length := by
    rw [List.length_cons]
    omega
  constructor
  · rintro ⟨hdistinct, hfits⟩
    exact ⟨hnames ▸ hdistinct, hlength ▸ hfits⟩
  · rintro ⟨hdistinct, hfits⟩
    exact ⟨hnames ▸ hdistinct, hlength ▸ hfits⟩

/-- A chain is refused if it is refused behind its first schema. -/
theorem Refused.cons {id : SchemaId}
    (hrefused : Refused c bound (lineage ++ [c.schemaName id]) (above + 1) ids e) :
    Refused c bound lineage above (id :: ids) e := by
  have hnames : lineage ++ [c.schemaName id] ++ ids.map c.schemaName =
      lineage ++ (id :: ids).map c.schemaName := by
    simp
  have hlength : above + 1 + ids.length = above + (id :: ids).length := by
    rw [List.length_cons]
    omega
  cases hrefused with
  | repeated hrepeated =>
    rw [hnames] at hrepeated ⊢
    exact .repeated hrepeated
  | deep hbound hdeep =>
    rw [hlength] at hdeep ⊢
    exact .deep hbound hdeep

/-- A listing succeeds only if all chains may be followed, and fails only at one that may not. -/
structure Follows (c : Catalog) (bound : Option Nat) (lineage : List String) (above : Nat)
    (fs : List Field) (result : Except Error (List Entry)) : Prop where
  allowed : ∀ es, result = .ok es → ∀ ids, c.Leads fs ids → Allowed c bound lineage above ids
  refused : ∀ e, result = .error e → ∃ ids, c.Leads fs ids ∧ Refused c bound lineage above ids e

/-- Entries are given where all chains are allowed. -/
theorem Follows.of_ok {es : List Entry}
    (hallowed : ∀ ids, c.Leads fs ids → Allowed c bound lineage above ids) :
    Follows c bound lineage above fs (.ok es) :=
  ⟨fun _ _ => hallowed, nofun⟩

/-- An error is given where a chain is refused for it. -/
theorem Follows.of_error (hids : c.Leads fs ids) (hrefused : Refused c bound lineage above ids e) :
    Follows c bound lineage above fs (.error e) :=
  ⟨nofun, fun _ he => Except.error.inj he ▸ ⟨ids, hids, hrefused⟩⟩

theorem refused_of_ensureDepth {path : String} {id : SchemaId}
    (hdepth : ensureDepth bound (above + 1) path = .error e) :
    Refused c bound lineage above [id] e := by
  cases bound with
  | none => cases hdepth
  | some limit =>
    rw [ensureDepth] at hdepth
    split at hdepth
    · rename_i hdeep
      exact Except.error.inj hdepth ▸ .deep rfl hdeep
    · cases hdepth

/-- Once the first of the fields is listed, the rest of them decides. -/
theorem Follows.cons {f : Field} {result : Except Error (List Entry)}
    (hrest : Follows c bound lineage above fs result)
    (hfirst : ∀ id ids, f.type.nestedSchema? = some id → c.Leads (c.schema id).fields ids →
      Allowed c bound lineage above (id :: ids)) (first : List Entry) :
    Follows c bound lineage above (f :: fs)
      (result >>= fun rest => .ok (first ++ rest)) := by
  cases result with
  | error e =>
    obtain ⟨ids, hids, hrefused⟩ := hrest.refused e rfl
    exact .of_error (Catalog.leads_cons_iff.2 (.inr hids)) hrefused
  | ok rest =>
    refine .of_ok fun ids hids => ?_
    obtain ⟨id, below, hnested, rfl, hbelow⟩ | hids := Catalog.leads_cons_iff.1 hids
    · exact hfirst id below hnested hbelow
    · exact hrest.allowed rest rfl ids hids

/-- A listing may be followed field by field, where `deeper` may be below a name that is new. -/
theorem follows_ofFields (hdelimiter : config.delimiter? = some delimiter)
    (hnodup : lineage.Nodup) (hfits : Fits bound parents.length)
    {deeper : SchemaId → List String → List String → Except Error (List Entry)}
    (hdeeper : ∀ id path, c.schemaName id ∉ lineage → Fits bound path.length →
      Follows c bound (lineage ++ [c.schemaName id]) path.length (c.schema id).fields
        (deeper id path (lineage ++ [c.schemaName id]))) :
    Follows c bound lineage parents.length fs
      (ofFields c config bound deeper parents lineage fs) := by
  induction fs with
  | nil =>
    refine .of_ok fun ids hids => ?_
    cases hids with
    | nil => exact ⟨by simpa using hnodup, hfits⟩
    | cons hf => cases hf
  | cons f fs ih =>
    rw [ofFields]
    cases hnested : f.type.nestedSchema? with
    | none => exact ih.cons (by simp [hnested]) _
    | some id =>
      simp only [hdelimiter]
      have hlength : (parents ++ [f.primaryName]).length = parents.length + 1 := by simp
      have hid : c.Leads (f :: fs) [id] := .cons List.mem_cons_self hnested .nil
      cases hdepth : ensureDepth bound (parents ++ [f.primaryName]).length
          (dotted (parents ++ [f.primaryName])) with
      | error e => exact .of_error hid (refused_of_ensureDepth (hlength ▸ hdepth))
      | ok _ =>
        by_cases hname : c.schemaName id ∈ lineage
        · simp only [bind, Except.bind, List.contains_iff_mem, hname, if_true]
          have hrepeated : ¬ (lineage ++ [id].map c.schemaName).Nodup := fun hdistinct =>
            List.disjoint_of_nodup_append hdistinct hname (by simp)
          exact .of_error hid (.repeated hrepeated)
        · have hbelow := hdeeper id _ hname (ensureDepth_eq_ok_iff.1 hdepth)
          rw [hlength] at hbelow
          simp only [bind, Except.bind, List.contains_iff_mem, hname, if_false]
          cases hlisted : deeper id (parents ++ [f.primaryName])
              (lineage ++ [c.schemaName id]) with
          | error e =>
            obtain ⟨ids, hids, hrefused⟩ := hbelow.refused e hlisted
            exact .of_error (.cons List.mem_cons_self hnested hids) hrefused.cons
          | ok first =>
            refine ih.cons (fun id' ids hnested' hids => ?_) first
            obtain rfl := Option.some.inj (hnested.symm.trans hnested')
            exact allowed_cons_iff.2 (hbelow.allowed first hlisted ids hids)

/-- All names that schemas of a catalog can be met under. -/
def schemaNames (c : Catalog) : List String :=
  "" :: c.schemas.toList.map (·.name)

/-- The name of every schema is one of the names of the catalog. -/
theorem schemaName_mem (c : Catalog) (id : SchemaId) : c.schemaName id ∈ schemaNames c := by
  rw [Catalog.schemaName, Catalog.schema, Array.getD_eq_getD_getElem?]
  cases hid : c.schemas[id]? with
  | none => exact List.mem_cons_self
  | some s =>
    refine List.mem_cons_of_mem _ (List.mem_map.2 ⟨s, ?_, rfl⟩)
    exact Array.mem_toList_iff.2 (Array.mem_of_getElem? hid)

/-- There is room for a chain with each name once. -/
theorem hasRoom_root (root : SchemaId) {extra : Nat} (hextra : c.schemas.size + 2 ≤ extra) :
    HasRoom (schemaNames c) extra [c.schemaName root] := by
  have hlength : (schemaNames c).length < extra + 1 := by
    rw [schemaNames, List.length_cons, List.length_map, Array.length_toList]
    omega
  exact (HasRoom.nil hlength).push List.not_mem_nil (schemaName_mem c root)

/-- The entries of a schema are given if all chains from it are allowed, and otherwise an error for
one that is not. -/
theorem follows_ofSchema (hdelimiter : config.delimiter? = some delimiter)
    (hroom : HasRoom (schemaNames c) room lineage) (hfits : Fits bound parents.length)
    (id : SchemaId) :
    Follows c bound lineage parents.length (c.schema id).fields
      (ofSchema c config bound room id parents lineage) := by
  induction room generalizing id parents lineage with
  | zero =>
    obtain ⟨less, hless⟩ := hroom.exists_succ
    cases hless
  | succ room ih =>
    exact follows_ofFields hdelimiter hroom.distinct hfits fun id path hname hpath =>
      ih (hroom.push hname (schemaName_mem c id)) hpath id

/-- Only the schemas that are not above already are gone into. -/
theorem ofFields_congr
    {deeper deeper' : SchemaId → List String → List String → Except Error (List Entry)}
    (hdeeper : ∀ id path, c.schemaName id ∉ lineage →
      deeper id path (lineage ++ [c.schemaName id]) =
        deeper' id path (lineage ++ [c.schemaName id])) :
    ofFields c config bound deeper parents lineage fs =
      ofFields c config bound deeper' parents lineage fs := by
  induction fs with
  | nil => rfl
  | cons f fs ih =>
    rw [ofFields, ofFields, ih]
    cases f.type.nestedSchema? with
    | none => rfl
    | some id =>
      cases config.delimiter? with
      | none => rfl
      | some delimiter =>
        by_cases hname : c.schemaName id ∈ lineage
        · simp only [List.contains_iff_mem, hname, if_true]
        · simp only [hdeeper id _ hname]

/-- More room than there are schemas makes no difference: the listing never runs out of it. -/
theorem ofSchema_room {room' : Nat} (hroom : HasRoom (schemaNames c) room lineage)
    (hroom' : HasRoom (schemaNames c) room' lineage) (id : SchemaId) :
    ofSchema c config bound room id parents lineage =
      ofSchema c config bound room' id parents lineage := by
  induction room generalizing room' id parents lineage with
  | zero =>
    obtain ⟨less, hless⟩ := hroom.exists_succ
    cases hless
  | succ room ih =>
    obtain ⟨room', rfl⟩ := hroom'.exists_succ
    exact ofFields_congr fun id path hname =>
      ih (hroom.push hname (schemaName_mem c id)) (hroom'.push hname (schemaName_mem c id)) id

theorem ofFields_of_no_delimiter (hdelimiter : config.delimiter? = none)
    (deeper : SchemaId → List String → List String → Except Error (List Entry)) :
    ofFields c config bound deeper parents lineage fs = .ok (fs.map (leaf config parents)) := by
  induction fs with
  | nil => rfl
  | cons f fs ih =>
    rw [ofFields, ih, hdelimiter]
    cases f.type.nestedSchema? <;> rfl

/-- The entries of a schema are gathered from its fields down, with room for every name. -/
theorem entries_eq {root : SchemaId} (hbound : config.maxDepth = .ok bound) :
    entries c root config =
      ofSchema c config bound (c.schemas.size + 2) root [] [c.schemaName root] := by
  rw [entries, hbound]
  rfl

/-- Without a delimiter there is an entry for each root field. -/
theorem entries_of_no_delimiter {root : SchemaId} (hbound : config.maxDepth = .ok bound)
    (hdelimiter : config.delimiter? = none) :
    entries c root config = .ok ((c.schema root).fields.map (leaf config [])) := by
  rw [entries_eq hbound]
  exact ofFields_of_no_delimiter hdelimiter _

/-- The entries of the root are given if all chains from it are allowed. -/
theorem follows_entries {root : SchemaId} (hbound : config.maxDepth = .ok bound)
    (hdelimiter : config.delimiter? = some delimiter) :
    Follows c bound [c.schemaName root] 0 (c.schema root).fields (entries c root config) := by
  rw [entries_eq hbound]
  have hfits : Fits bound ([] : List String).length := fun limit _ => Nat.zero_le limit
  exact follows_ofSchema hdelimiter (hasRoom_root root (Nat.le_refl _)) hfits root

/-- An example can be listed if nothing is nested in names, and otherwise exactly if every chain of
nested fields may be followed. -/
theorem exists_entries_iff {root : SchemaId} (hbound : config.maxDepth = .ok bound) :
    (∃ es, entries c root config = .ok es) ↔ config.delimiter? = none ∨
      ∀ ids, c.Leads (c.schema root).fields ids →
        Allowed c bound [c.schemaName root] 0 ids := by
  cases hdelimiter : config.delimiter? with
  | none => exact iff_of_true ⟨_, entries_of_no_delimiter hbound hdelimiter⟩ (.inl rfl)
  | some delimiter =>
    have hfollows : Follows c bound [c.schemaName root] 0 (c.schema root).fields
        (entries c root config) :=
      follows_entries hbound hdelimiter
    rw [or_iff_right (Option.some_ne_none _)]
    constructor
    · rintro ⟨es, hes⟩
      exact hfollows.allowed es hes
    · intro hall
      cases hes : entries c root config with
      | ok es => exact ⟨es, rfl⟩
      | error e =>
        obtain ⟨ids, hids, hrefused⟩ := hfollows.refused e hes
        exact absurd (hall ids hids) hrefused.not_allowed

end Example

end EnvSettings
