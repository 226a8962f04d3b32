import EnvSettings.Proofs.Projection.Leaves
import EnvSettings.Proofs.Projection.Unmatched

namespace EnvSettings.Projection

variable {p : Projection} {c : Catalog} {root : SchemaId}

/-- A route leaves no text at a place: it ends at a field on the way to the place, or enters the
field at the place itself. -/
def Route.Overrules (r : Route) (names : List String) (last : String) : Prop :=
  (∃ target, r.target = some target ∧ r.entered ++ [target] <+: names) ∨
    names ++ [last] <+: r.entered

theorem innerMap_putSorted_map (name other : String) (inner data : Entries) :
    innerMap name (Entries.putSorted other (.map inner) data) =
      if name = other then inner else innerMap name data := by
  by_cases hname : name = other <;> simp [innerMap, Entries.lookup_putSorted, hname]

theorem innerMap_putSorted_str (name other text : String) (data : Entries) :
    innerMap name (Entries.putSorted other (.str text) data) =
      if name = other then [] else innerMap name data := by
  by_cases hname : name = other <;> simp [innerMap, Entries.lookup_putSorted, hname]

/-- A text stands at the end of the route that it was set along. -/
theorem textAt_edit_self (names : List String) (last text : String) (data : Entries) :
    textAt names last (Route.edit ⟨names, some last⟩ text data) = some text := by
  induction names generalizing data with
  | nil =>
    rw [textAt_nil_eq_some_iff]
    exact (Entries.lookup_putSorted last last _ data).trans (if_pos rfl)
  | cons first names ih =>
    change textAt (first :: names) last ((Route.under first ⟨names, some last⟩).edit text data) = _
    rw [Route.edit_under, textAt, innerMap_putSorted_map, if_pos rfl]
    exact ih _

/-- An edit along another route leaves the text at a place exactly if it does not overrule it. -/
theorem textAt_edit_eq_some_iff {r : Route} {names : List String} {last text : String}
    (hother : r ≠ ⟨names, some last⟩) (stored : String) (data : Entries) :
    textAt names last (r.edit stored data) = some text ↔
      ¬ r.Overrules names last ∧ textAt names last data = some text := by
  obtain ⟨entered, target⟩ := r
  induction names generalizing entered data with
  | nil =>
    rw [textAt_nil_eq_some_iff, textAt_nil_eq_some_iff]
    cases entered with
    | nil =>
      cases target with
      | none => simp [Route.Overrules, Route.edit, editAt, store]
      | some target =>
        have hlast : last ≠ target := by rintro rfl; exact hother rfl
        simp [Route.Overrules, Route.edit, editAt, store, Entries.lookup_putSorted, hlast]
    | cons first entered =>
      change (((Route.under first ⟨entered, target⟩).edit stored data).lookup last = _) ↔ _
      rw [Route.edit_under, Entries.lookup_putSorted]
      by_cases hlast : last = first <;> simp [Route.Overrules, hlast]
  | cons name names ih =>
    rw [textAt, textAt]
    cases entered with
    | nil =>
      cases target with
      | none => simp [Route.Overrules, Route.edit, editAt, store]
      | some target =>
        have hedit : Route.edit ⟨[], some target⟩ stored data =
            Entries.putSorted target (.str stored) data := rfl
        rw [hedit, innerMap_putSorted_str]
        by_cases hname : name = target
        · simp [Route.Overrules, hname, textAt_empty]
        · simp [Route.Overrules, hname, Ne.symm hname]
    | cons first entered =>
      change textAt names last (innerMap name
        ((Route.under first ⟨entered, target⟩).edit stored data)) = _ ↔ _
      rw [Route.edit_under, innerMap_putSorted_map]
      by_cases hname : name = first
      · subst hname
        have hrest : (⟨entered, target⟩ : Route) ≠ ⟨names, some last⟩ := by
          rintro ⟨rfl, rfl⟩
          exact hother rfl
        rw [if_pos rfl, ih _ _ hrest]
        simp [Route.Overrules]
      · simp [Route.Overrules, hname, Ne.symm hname]

/-- Edits along other routes leave the text at a place exactly if none of them overrules it. -/
theorem textAt_applyEdits_eq_some_iff {edits : List (Route × String)} {names : List String}
    {last text : String} (hother : ∀ e ∈ edits, e.1 ≠ ⟨names, some last⟩) (data : Entries) :
    textAt names last (applyEdits edits data) = some text ↔
      (∀ e ∈ edits, ¬ e.1.Overrules names last) ∧ textAt names last data = some text := by
  induction edits generalizing data with
  | nil => simp [applyEdits]
  | cons e edits ih =>
    obtain ⟨hhead, htail⟩ := List.forall_mem_cons.1 hother
    change textAt names last (applyEdits edits (e.1.edit e.2 data)) = _ ↔ _
    rw [ih htail, textAt_edit_eq_some_iff hhead, List.forall_mem_cons]
    tauto

/-- A projection keeps the text of a name in its place exactly if no later name overrules it, where
the name is the last one that leads there. -/
theorem textAt_apply_eq_some_iff {name value last : String} {names : List String}
    {before after : List (String × String)} {start data : Entries}
    (hleads : p.routeOf c root name = ⟨names, some last⟩)
    (hother : ∀ e ∈ after, p.routeOf c root e.1 ≠ ⟨names, some last⟩)
    (happly : p.apply c root (before ++ (name, value) :: after) start = .ok data) :
    textAt names last data = some value ↔
      ∀ e ∈ after, ¬ (p.routeOf c root e.1).Overrules names last := by
  obtain ⟨-, rfl⟩ := apply_eq_ok_iff.1 happly
  have hsplit : applyEdits (p.edits c root (before ++ (name, value) :: after)) start =
      applyEdits (p.edits c root after)
        (Route.edit ⟨names, some last⟩ value (applyEdits (p.edits c root before) start)) := by
    rw [← hleads, edits, List.map_append, List.map_cons, applyEdits, List.foldl_append]
    rfl
  have hedits : ∀ e ∈ p.edits c root after, e.1 ≠ ⟨names, some last⟩ := by
    intro e hmem
    obtain ⟨entry, hentry, rfl⟩ := List.mem_map.1 hmem
    exact hother entry hentry
  rw [hsplit, textAt_applyEdits_eq_some_iff hedits, textAt_edit_self, and_iff_left rfl, edits,
    List.forall_mem_map]

/-- A database with credentials, which have a user. -/
def credentialCatalog : Catalog :=
  ⟨#[{ name := "Credentials", fields := [{ name := "user", type := .str }] },
    { name := "Database"
      fields := [{ name := "host", type := .str }, { name := "credentials", type := .nested 0 }] },
    { name := "App", fields := [{ name := "db", type := .nested 1 }] }]⟩

theorem routeOf_credentials :
    doubleUnderscore.routeOf credentialCatalog 2 "DB__CREDENTIALS__USER" =
        ⟨["db", "credentials"], some "user"⟩ ∧
      doubleUnderscore.routeOf credentialCatalog 2 "DB__CREDENTIALS" =
        ⟨["db"], some "credentials"⟩ ∧
      doubleUnderscore.routeOf credentialCatalog 2 "DB__HOST" = ⟨["db"], some "host"⟩ ∧
      doubleUnderscore.routeOf credentialCatalog 2 "DB__CREDENTIALS__TOKEN" =
        ⟨["db", "credentials"], none⟩ := by
  cbv

/-- The user stands where it was set, after a text for all of the credentials. -/
theorem textAt_apply_user :
    doubleUnderscore.apply credentialCatalog 2
        ([("DB__CREDENTIALS", "root")] ++ ("DB__CREDENTIALS__USER", "admin") ::
          [("DB__HOST", "local")]) [] =
      .ok [("db", .map [("credentials", .map [("user", .str "admin")]), ("host", .str "local")])] ∧
    textAt ["db", "credentials"] "user"
      [("db", .map [("credentials", .map [("user", .str "admin")]), ("host", .str "local")])] =
        some "admin" := by
  obtain ⟨huser, -, hhost, -⟩ := routeOf_credentials
  have happly : doubleUnderscore.apply credentialCatalog 2
      ([("DB__CREDENTIALS", "root")] ++ ("DB__CREDENTIALS__USER", "admin") ::
        [("DB__HOST", "local")]) [] =
      .ok [("db", .map [("credentials", .map [("user", .str "admin")]),
        ("host", .str "local")])] := by
    cbv
  refine ⟨happly, (textAt_apply_eq_some_iff huser ?_ happly).2 ?_⟩
  · simp [hhost]
  · simp [hhost, Route.Overrules]

/-- A text does not stand where its name has set it, although no other name leads there or further:
a text for all of the credentials that comes later takes the user away, and a name below the
credentials that does not resolve takes the text for all of them away. -/
theorem textAt_apply_lost :
    doubleUnderscore.routeOf credentialCatalog 2 "DB__CREDENTIALS__USER" =
      ⟨["db", "credentials"], some "user"⟩ ∧
    doubleUnderscore.routeOf credentialCatalog 2 "DB__CREDENTIALS" =
      ⟨["db"], some "credentials"⟩ ∧
    (doubleUnderscore.routeOf credentialCatalog 2 "DB__CREDENTIALS__TOKEN").target = none ∧
    (doubleUnderscore.apply credentialCatalog 2
        [("DB__CREDENTIALS__USER", "admin"), ("DB__CREDENTIALS", "root")] []).map
      (textAt ["db", "credentials"] "user") = .ok none ∧
    (doubleUnderscore.apply credentialCatalog 2
        [("DB__CREDENTIALS", "root"), ("DB__CREDENTIALS__TOKEN", "x")] []).map
      (textAt ["db"] "credentials") = .ok none := by
  obtain ⟨huser, hcredentials, -, htoken⟩ := routeOf_credentials
  refine ⟨huser, hcredentials, by rw [htoken], ?_, ?_⟩
  · cbv
  · cbv

end EnvSettings.Projection
