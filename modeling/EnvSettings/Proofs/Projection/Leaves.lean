import EnvSettings.Proofs.Projection.Walk

namespace EnvSettings.Projection

variable {p : Projection} {c : Catalog} {root : SchemaId}

/-- Edits one after the other. -/
def applyEdits (edits : List (Route × String)) (data : Entries) : Entries :=
  edits.foldl (fun data e => e.1.edit e.2 data) data

/-- The edits that names lead to. -/
def edits (p : Projection) (c : Catalog) (root : SchemaId) (env : List (String × String)) :
    List (Route × String) :=
  env.map fun e => (p.routeOf c root e.1, e.2)

/-- The part of an edit below a field, if it enters the field. -/
def partUnder? (name : String) (e : Route × String) : Option (Route × String) :=
  match e.1.entered with
  | [] => none
  | first :: names => if first = name then some (⟨names, e.1.target⟩, e.2) else none

/-- What edits do below a field that they enter. -/
def partsUnder (name : String) (edits : List (Route × String)) : List (Route × String) :=
  edits.filterMap (partUnder? name)

/-- The part of an edit under a name is what follows the name. -/
theorem partUnder?_eq_some_iff {name : String} {e e' : Route × String} :
    partUnder? name e = some e' ↔ e = (e'.1.under name, e'.2) := by
  obtain ⟨⟨entered, target⟩, text⟩ := e
  obtain ⟨⟨entered', target'⟩, text'⟩ := e'
  cases entered with
  | nil => simp [partUnder?, Route.under]
  | cons first names =>
    by_cases hfirst : first = name
    · simp [partUnder?, Route.under, hfirst]
    · simp [partUnder?, Route.under, hfirst]

theorem partUnder?_eq_none {name : String} {e : Route × String}
    (hentered : e.1.entered.head? ≠ some name) : partUnder? name e = none := by
  obtain ⟨⟨entered, target⟩, text⟩ := e
  cases entered with
  | nil => rfl
  | cons first names =>
    have hfirst : first ≠ name := fun h => hentered (congrArg some h)
    simp [partUnder?, hfirst]

/-- The parts under a name are those of the edits there. -/
theorem mem_partsUnder {name : String} {edits : List (Route × String)} {e : Route × String} :
    e ∈ partsUnder name edits ↔ (e.1.under name, e.2) ∈ edits := by
  rw [partsUnder, List.mem_filterMap]
  constructor
  · rintro ⟨e', hmem, he'⟩
    exact partUnder?_eq_some_iff.1 he' ▸ hmem
  · exact fun hmem => ⟨_, hmem, partUnder?_eq_some_iff.2 rfl⟩

/-- Projection is edits, unless a name goes too deep. -/
theorem apply_eq_ok_iff {env : List (String × String)} {data d : Entries} :
    p.apply c root env data = .ok d ↔
      (∀ e ∈ env, ensureWalk p.bound [] (p.routeOf c root e.1).entered = .ok ()) ∧
        applyEdits (p.edits c root env) data = d := by
  induction env generalizing data with
  | nil => simp [apply, edits, applyEdits, pure, Except.pure]
  | cons e env ih =>
    rw [apply_cons, applyEntry_eq, List.forall_mem_cons]
    cases hwalk : ensureWalk p.bound [] (p.routeOf c root e.1).entered with
    | error error => simp [bind, Except.bind, Except.map]
    | ok _ =>
      rw [and_iff_right rfl]
      exact ih

/-- An edit that stores no text right under a name acts there as its part below the name. -/
theorem lookup_edit {name : String} {e : Route × String} (hstore : e.1 ≠ ⟨[], some name⟩)
    (data : Entries) :
    (e.1.edit e.2 data).lookup name =
      match partUnder? name e with
      | none => data.lookup name
      | some e' => some (.map (e'.1.edit e'.2 (innerMap name data))) := by
  obtain ⟨⟨entered, target⟩, text⟩ := e
  cases entered with
  | nil =>
    cases target with
    | none => rfl
    | some other =>
      have hother : name ≠ other := by rintro rfl; exact hstore rfl
      simp [partUnder?, Route.edit, editAt, store, Entries.lookup_putSorted, hother]
  | cons first names =>
    by_cases hfirst : first = name
    · simp [partUnder?, Route.edit, editAt, Entries.lookup_putSorted, hfirst]
    · simp [partUnder?, Route.edit, editAt, Entries.lookup_putSorted, hfirst, Ne.symm hfirst]

/-- Edits that store no text right under a name act there as their parts below the name. -/
theorem lookup_applyEdits {name : String} {edits : List (Route × String)}
    (hstore : ∀ e ∈ edits, e.1 ≠ ⟨[], some name⟩) (data : Entries) :
    (applyEdits edits data).lookup name =
      if partsUnder name edits = [] then data.lookup name
      else some (.map (applyEdits (partsUnder name edits) (innerMap name data))) := by
  induction edits generalizing data with
  | nil => rfl
  | cons e edits ih =>
    obtain ⟨hhead, htail⟩ := List.forall_mem_cons.1 hstore
    have hedit := lookup_edit hhead data
    have hrest := ih htail (e.1.edit e.2 data)
    cases he : partUnder? name e with
    | none =>
      simp only [he] at hedit
      have hparts : partsUnder name (e :: edits) = partsUnder name edits :=
        List.filterMap_cons_none he
      rw [hparts, ← innerMap_congr hedit, ← hedit]
      exact hrest
    | some e' =>
      simp only [he] at hedit
      have hparts : partsUnder name (e :: edits) = e' :: partsUnder name edits :=
        List.filterMap_cons_some he
      rw [hparts, if_neg (List.cons_ne_nil _ _)]
      rw [hedit, innerMap_of_lookup hedit] at hrest
      refine hrest.trans ?_
      split
      · rename_i hnil
        rw [hnil]
        rfl
      · rfl

/-- Where all texts stored right under a name are equal, and nothing enters the name, that text
stands there in the end. -/
theorem lookup_applyEdits_stored {name text : String} {edits : List (Route × String)}
    (hparts : partsUnder name edits = [])
    (htext : ∀ e ∈ edits, e.1 = ⟨[], some name⟩ → e.2 = text) {data : Entries}
    (hstored : data.lookup name = some (.str text) ∨ ∃ e ∈ edits, e.1 = ⟨[], some name⟩) :
    (applyEdits edits data).lookup name = some (.str text) := by
  induction edits generalizing data with
  | nil => simpa [applyEdits] using hstored
  | cons e edits ih =>
    have hnone : partUnder? name e = none := by
      cases he : partUnder? name e with
      | none => rfl
      | some e' => simp [partsUnder, List.filterMap_cons_some he] at hparts
    have hrest : partsUnder name edits = [] := by
      rwa [partsUnder, List.filterMap_cons_none hnone] at hparts
    obtain ⟨hhead, htail⟩ := List.forall_mem_cons.1 htext
    have hnext : (e.1.edit e.2 data).lookup name = some (.str text) ∨
        ∃ e ∈ edits, e.1 = ⟨[], some name⟩ := by
      by_cases he : e.1 = ⟨[], some name⟩
      · left
        rw [he, ← hhead he]
        simp [Route.edit, editAt, store, Entries.lookup_putSorted]
      · rw [lookup_edit he, hnone]
        simpa [he] using hstored
    exact ih hrest htail hnext

/-- The text that stands under a name, below maps that stand one below the other. -/
def textAt : List String → String → Entries → Option String
  | [], name, data =>
    match data.lookup name with
    | some (.str text) => some text
    | _ => none
  | first :: names, name, data => textAt names name (innerMap first data)

theorem textAt_nil_eq_some_iff {name text : String} {data : Entries} :
    textAt [] name data = some text ↔ data.lookup name = some (.str text) := by
  unfold textAt
  split
  · rename_i hlookup
    rw [hlookup, Option.some.injEq, Option.some.injEq, Value.str.injEq]
  · rename_i hlookup
    exact iff_of_false (by simp) (hlookup text)

theorem textAt_empty (names : List String) (name : String) : textAt names name [] = none := by
  induction names with
  | nil => rfl
  | cons first names ih => exact ih

/-- A leaf further in is one of the map under its first name. -/
theorem textAt_cons_eq_some_iff {first name text : String} {names : List String}
    {data : Entries} :
    textAt (first :: names) name data = some text ↔
      ∃ inner, data.lookup first = some (.map inner) ∧ textAt names name inner = some text := by
  rw [textAt, innerMap]
  split
  · rename_i inner hlookup
    simp [hlookup]
  · rename_i hlookup
    rw [textAt_empty]
    refine iff_of_false (by simp) ?_
    rintro ⟨inner, h, -⟩
    exact hlookup inner h

/-- Nonempty maps in maps, with texts at the leaves. -/
inductive IsTree : Entries → Prop
  | intro {data : Entries} (hne : data ≠ []) (hasc : Entries.Ascending data)
      (hkind : ∀ name v, data.lookup name = some v →
        (∃ text, v = .str text) ∨ ∃ inner, v = .map inner)
      (hinner : ∀ name inner, data.lookup name = some (.map inner) → IsTree inner) : IsTree data

/-- A map with ascending names whose entries are texts and trees is a tree. -/
theorem IsTree.of_entries {data : Entries} (hne : data ≠ []) (hasc : Entries.Ascending data)
    (hentries : ∀ e ∈ data, (∃ text, e.2 = .str text) ∨ ∃ inner, e.2 = .map inner ∧ IsTree inner) :
    IsTree data := by
  refine .intro hne hasc (fun name v hlookup => ?_) fun name inner hlookup => ?_
  · have hmem := (Entries.lookup_eq_some_iff_mem hasc.nodup).1 hlookup
    obtain htext | ⟨inner, hv, -⟩ := hentries _ hmem
    · exact .inl htext
    · exact .inr ⟨inner, hv⟩
  · have hmem := (Entries.lookup_eq_some_iff_mem hasc.nodup).1 hlookup
    obtain ⟨text, hv⟩ | ⟨inner', hv, htree⟩ := hentries _ hmem
    · cases hv
    · rw [Value.map.injEq] at hv
      exact hv ▸ htree

/-- A tree has a leaf. -/
theorem IsTree.exists_textAt {data : Entries} (htree : IsTree data) :
    ∃ names name text, textAt names name data = some text := by
  induction htree with
  | @intro data hne hasc hkind hinner ih =>
    obtain ⟨⟨name, v⟩, hmem⟩ := List.exists_mem_of_ne_nil data hne
    have hlookup := (Entries.lookup_eq_some_iff_mem hasc.nodup).2 hmem
    obtain ⟨text, rfl⟩ | ⟨inner, rfl⟩ := hkind name v hlookup
    · exact ⟨[], name, text, textAt_nil_eq_some_iff.2 hlookup⟩
    · obtain ⟨names, last, text, htext⟩ := ih name inner hlookup
      exact ⟨name :: names, last, text, textAt_cons_eq_some_iff.2 ⟨inner, hlookup, htext⟩⟩

/-- Edits keep the names of a tidy map ascending. -/
theorem applyEdits_ascending {edits : List (Route × String)} {data : Entries}
    (htidy : Tidy data) : Entries.Ascending (applyEdits edits data) := by
  induction edits generalizing data with
  | nil => exact htidy.ascending
  | cons e edits ih => exact ih (htidy.edit e.1 e.2)

/-- Edits store every leaf of a tree, and nothing else. -/
structure Stores (edits : List (Route × String)) (tree : Entries) : Prop where
  leaf : ∀ e ∈ edits, ∃ name, e.1.target = some name ∧ textAt e.1.entered name tree = some e.2
  covers : ∀ names name text, textAt names name tree = some text →
    (⟨names, some name⟩, text) ∈ edits

namespace Stores

variable {edits : List (Route × String)} {tree inner : Entries} {name : String}

/-- The parts under a name are leaves of the map there. -/
theorem leaf_under (hstores : Stores edits tree) {e : Route × String}
    (hmem : e ∈ partsUnder name edits) :
    ∃ last, e.1.target = some last ∧ ∃ inner, tree.lookup name = some (.map inner) ∧
      textAt e.1.entered last inner = some e.2 := by
  obtain ⟨last, htarget, htext⟩ := hstores.leaf _ (mem_partsUnder.1 hmem)
  exact ⟨last, htarget, textAt_cons_eq_some_iff.1 htext⟩

/-- A text that an edit stores in the map itself is found in it. -/
theorem lookup_of_stored (hstores : Stores edits tree) {e : Route × String} (hmem : e ∈ edits)
    (he : e.1 = ⟨[], some name⟩) : tree.lookup name = some (.str e.2) := by
  obtain ⟨last, htarget, htext⟩ := hstores.leaf e hmem
  rw [he, Option.some.injEq] at htarget
  rw [he, ← htarget] at htext
  exact textAt_nil_eq_some_iff.1 htext

/-- Below a name that has no map there is nothing to store. -/
theorem partsUnder_eq_nil (hstores : Stores edits tree)
    (hlookup : ∀ inner, tree.lookup name ≠ some (.map inner)) : partsUnder name edits = [] := by
  rw [List.eq_nil_iff_forall_not_mem]
  intro e hmem
  obtain ⟨-, -, inner, hinner, -⟩ := hstores.leaf_under hmem
  exact hlookup inner hinner

/-- The parts below a name store the map that the tree has there. -/
theorem under (hstores : Stores edits tree) (hlookup : tree.lookup name = some (.map inner)) :
    Stores (partsUnder name edits) inner := by
  constructor
  · intro e hmem
    obtain ⟨last, htarget, inner', hlookup', htext⟩ := hstores.leaf_under hmem
    obtain rfl : inner = inner' := by simpa [hlookup] using hlookup'
    exact ⟨last, htarget, htext⟩
  · intro names last text htext
    exact mem_partsUnder.2 (hstores.covers (name :: names) last text
      (textAt_cons_eq_some_iff.2 ⟨inner, hlookup, htext⟩))

end Stores

/-- Edits that store every leaf of a tree, and nothing else, build the tree. -/
theorem IsTree.applyEdits_eq {tree : Entries} (htree : IsTree tree)
    {edits : List (Route × String)} (hstores : Stores edits tree) :
    applyEdits edits [] = tree := by
  induction htree generalizing edits with
  | @intro tree hne hasc hkind hinner ih =>
    refine (applyEdits_ascending .nil).ext hasc fun name => ?_
    -- What the tree has under the name decides which edits there are.
    cases hlookup : tree.lookup name with
    | none =>
      rw [lookup_applyEdits, if_pos (hstores.partsUnder_eq_nil (by simp [hlookup]))]
      · rfl
      · intro e hmem he
        simpa [hlookup] using hstores.lookup_of_stored hmem he
    | some v =>
      obtain ⟨text, rfl⟩ | ⟨inner, rfl⟩ := hkind name v hlookup
      · refine lookup_applyEdits_stored (hstores.partsUnder_eq_nil (by simp [hlookup])) ?_ (.inr ?_)
        · intro e hmem he
          simpa [hlookup, eq_comm] using hstores.lookup_of_stored hmem he
        · exact ⟨_, hstores.covers [] name text (textAt_nil_eq_some_iff.2 hlookup), rfl⟩
      · have hunder := hstores.under hlookup
        have hbuilt : applyEdits (partsUnder name edits) [] = inner :=
          ih name inner hlookup hunder
        have hempty : innerMap name [] = [] := rfl
        obtain ⟨names, last, text, htext⟩ := (hinner name inner hlookup).exists_textAt
        rw [lookup_applyEdits, if_neg (List.ne_nil_of_mem (hunder.covers names last text htext)),
          hempty, hbuilt]
        intro e hmem he
        simpa [hlookup] using hstores.lookup_of_stored hmem he

end EnvSettings.Projection
