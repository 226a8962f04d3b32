import EnvSettings.Projection
import EnvSettings.Proofs.Entries

namespace EnvSettings.Projection

/-- Where a name leads: the nested fields that it enters one below the other, and the field in the
last of them that it ends at, if there is one. -/
structure Route where
  entered : List String := []
  target : Option String := none
  deriving DecidableEq

/-- Stores a text under a name, if there is one. -/
def store (target : Option String) (text : String) (data : Entries) : Entries :=
  match target with
  | none => data
  | some name => Entries.putSorted name (.str text) data

/-- Opens maps one below the other and changes the last one. -/
def editAt (change : Entries → Entries) : List String → Entries → Entries
  | [], data => change data
  | name :: names, data =>
    Entries.putSorted name (.map (editAt change names (innerMap name data))) data

namespace Route

/-- The route that first enters one more field. -/
def under (name : String) (r : Route) : Route :=
  ⟨name :: r.entered, r.target⟩

/-- What a text at the end of a route changes. -/
def edit (r : Route) (text : String) (data : Entries) : Entries :=
  editAt (store r.target text) r.entered data

/-- An edit under a name is made in the map there. -/
theorem edit_under (name : String) (r : Route) (text : String) (data : Entries) :
    (r.under name).edit text data =
      Entries.putSorted name (.map (r.edit text (innerMap name data))) data :=
  rfl

end Route

/-- Maps stand below one another along a path of names. -/
def HoldsMaps : List String → Entries → Prop
  | [], _ => True
  | name :: names, data => ∃ inner, data.lookup name = some (.map inner) ∧ HoldsMaps names inner

/-- The names of a map ascend, and so do those of the maps in it. -/
inductive Tidy : Entries → Prop
  | intro {data : Entries} (hasc : Entries.Ascending data)
      (hinner : ∀ name inner, data.lookup name = some (.map inner) → Tidy inner) : Tidy data

theorem innerMap_of_lookup {name : String} {data inner : Entries}
    (hlookup : data.lookup name = some (.map inner)) : innerMap name data = inner := by
  rw [innerMap, hlookup]

/-- The map under a name depends on what is found there. -/
theorem innerMap_congr {name : String} {data data' : Entries}
    (hlookup : data.lookup name = data'.lookup name) :
    innerMap name data = innerMap name data' := by
  rw [innerMap, innerMap, hlookup]

namespace Tidy

theorem nil : Tidy [] :=
  ⟨List.Pairwise.nil, by simp⟩

theorem ascending {data : Entries} (htidy : Tidy data) : Entries.Ascending data := by
  obtain ⟨hasc, -⟩ := htidy
  exact hasc

theorem inner {data : Entries} (htidy : Tidy data) {name : String} {inner : Entries}
    (hlookup : data.lookup name = some (.map inner)) : Tidy inner := by
  obtain ⟨-, hinner⟩ := htidy
  exact hinner name inner hlookup

theorem innerMap {data : Entries} (htidy : Tidy data) (name : String) :
    Tidy (innerMap name data) := by
  unfold Projection.innerMap
  split
  · rename_i hlookup
    exact htidy.inner hlookup
  · exact nil

theorem putSorted {data : Entries} (htidy : Tidy data) (name : String) {v : Value}
    (hv : ∀ inner, v = .map inner → Tidy inner) : Tidy (Entries.putSorted name v data) := by
  refine ⟨htidy.ascending.putSorted name v, fun other inner hlookup => ?_⟩
  rw [Entries.lookup_putSorted] at hlookup
  split at hlookup
  · exact hv inner (Option.some.inj hlookup)
  · exact htidy.inner hlookup

theorem store {data : Entries} (htidy : Tidy data) (target : Option String) (text : String) :
    Tidy (store target text data) := by
  cases target with
  | none => exact htidy
  | some name => exact htidy.putSorted name (by simp)

/-- A change in an inner map keeps a map tidy if it keeps that one so. -/
theorem editAt {change : Entries → Entries} (hchange : ∀ data, Tidy data → Tidy (change data))
    (names : List String) {data : Entries} (htidy : Tidy data) :
    Tidy (editAt change names data) := by
  induction names generalizing data with
  | nil => exact hchange data htidy
  | cons name names ih =>
    refine htidy.putSorted name fun inner hinner => ?_
    rw [Value.map.injEq] at hinner
    exact hinner ▸ ih (htidy.innerMap name)

theorem edit {data : Entries} (htidy : Tidy data) (r : Route) (text : String) :
    Tidy (r.edit text data) :=
  editAt (fun _ h => h.store r.target text) r.entered htidy

end Tidy

/-- A route that ends at no field changes nothing exactly where its maps are open already. -/
theorem Route.edit_eq_self_iff {r : Route} (htarget : r.target = none) {data : Entries}
    (htidy : Tidy data) (text : String) : r.edit text data = data ↔ HoldsMaps r.entered data := by
  obtain ⟨names, target⟩ := r
  obtain rfl : target = none := htarget
  induction names generalizing data with
  | nil => exact ⟨fun _ => trivial, fun _ => rfl⟩
  | cons name names ih =>
    change (Route.under name ⟨names, none⟩).edit text data = data ↔ _
    rw [edit_under]
    constructor
    · intro heq
      have hlookup := congrArg (List.lookup name) heq
      rw [Entries.lookup_putSorted, if_pos rfl] at hlookup
      refine ⟨_, hlookup.symm, (ih (htidy.inner hlookup.symm)).1 ?_⟩
      have hinner := innerMap_of_lookup hlookup.symm
      rw [← hinner]
      exact hinner.symm
    · rintro ⟨inner, hlookup, hholds⟩
      rw [innerMap_of_lookup hlookup, (ih (htidy.inner hlookup)).2 hholds]
      exact htidy.ascending.putSorted_eq_self hlookup

end EnvSettings.Projection
