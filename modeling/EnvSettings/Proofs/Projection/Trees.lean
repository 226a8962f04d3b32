import EnvSettings.Proofs.EnvMap
import EnvSettings.Proofs.Projection.Leaves
import EnvSettings.Proofs.Projection.Overruled

namespace EnvSettings.Projection

variable {p : Projection} {c : Catalog} {root : SchemaId}

/-- Segments resolve from a schema: each of them matches a field of the schema reached so far, and
all but the last one match nested fields. -/
inductive Resolves (p : Projection) (c : Catalog) :
    List String → SchemaId → List String → String → Prop
  | last {segment : String} {id : SchemaId} {f : Field}
      (hmatch : Schema.matchField? (c.schema id).toShape segment p.caseSensitive = some f) :
      Resolves p c [segment] id [] f.name
  | deeper {segment last : String} {rest names : List String} {id next : SchemaId} {f : Field}
      (hmatch : Schema.matchField? (c.schema id).toShape segment p.caseSensitive = some f)
      (hnested : f.type.nestedSchema? = some next) (hbelow : Resolves p c rest next names last) :
      Resolves p c (segment :: rest) id (f.name :: names) last

/-- An environment name leads to a field below nested fields. -/
def LeadsTo (p : Projection) (c : Catalog) (root : SchemaId) (name : String)
    (names : List String) (last : String) : Prop :=
  ∃ segments, p.segments? name = some segments ∧ p.Resolves c segments root names last

/-- The names of an environment that have segments resolve, and none of them leads to the place of
another one or to a place on the way there. -/
structure Resolving (p : Projection) (c : Catalog) (root : SchemaId) (env : EnvMap) : Prop where
  complete : ∀ name ∈ env.keys, (p.segments? name).isSome →
    ∃ names last, p.LeadsTo c root name names last
  apart : ∀ name ∈ env.keys, ∀ name' ∈ env.keys, name ≠ name' → ∀ names last names' last',
    p.LeadsTo c root name names last → p.LeadsTo c root name' names' last' →
      ¬ names ++ [last] <+: names' ++ [last']

/-- Segments resolve to a leaf if their route ends there. -/
theorem resolves_iff {segments names : List String} {id : SchemaId} {last : String} :
    p.Resolves c segments id names last ↔ p.route c segments id = ⟨names, some last⟩ := by
  constructor
  · intro hresolves
    induction hresolves with
    | last hmatch => simp [route, hmatch]
    | @deeper segment last rest names id next f hmatch hnested hbelow ih =>
      have hrest : rest ≠ [] := by rintro rfl; cases hbelow
      simp [route, hmatch, hrest, hnested, ih, Route.under]
  · intro hroute
    induction segments generalizing id names with
    | nil => cases hroute
    | cons segment rest ih =>
      rw [route] at hroute
      split at hroute
      · cases hroute
      · rename_i f hmatch
        split at hroute
        · rename_i hrest
          obtain rfl : rest = [] := by simpa using hrest
          cases hroute
          exact .last hmatch
        · split at hroute
          · cases hroute
          · rename_i next hnested
            rw [Route.under, Route.mk.injEq] at hroute
            obtain ⟨rfl, htarget⟩ := hroute
            exact .deeper hmatch hnested (ih (by rw [← htarget]))

/-- A name leads to a leaf if its route ends there. -/
theorem leadsTo_iff {name last : String} {names : List String} :
    p.LeadsTo c root name names last ↔ p.routeOf c root name = ⟨names, some last⟩ := by
  rw [LeadsTo, routeOf]
  cases hsegments : p.segments? name with
  | none => simp
  | some segments => simp [resolves_iff]

namespace Route

/-- The names on a route, with the one at its end. -/
def path (r : Route) : List String :=
  r.entered ++ r.target.toList

/-- Neither route passes the end of the other one, or ends there too. -/
def Apart (r r' : Route) : Prop :=
  ¬ r.path <+: r'.path ∧ ¬ r'.path <+: r.path

theorem Apart.symm {r r' : Route} (hapart : r.Apart r') : r'.Apart r :=
  And.symm hapart

theorem Apart.ne {r r' : Route} (hapart : r.Apart r') : r ≠ r' :=
  fun heq => hapart.1 (heq ▸ List.prefix_refl r.path)

/-- A route that is apart from a leaf does not overrule it. -/
theorem Apart.not_overrules {r : Route} {names : List String} {last : String}
    (hapart : r.Apart ⟨names, some last⟩) : ¬ r.Overrules names last := by
  rintro (⟨target, htarget, hway⟩ | hpast)
  · refine hapart.1 (List.IsPrefix.trans ?_ (List.prefix_append names [last]))
    rwa [path, htarget]
  · exact hapart.2 (List.IsPrefix.trans hpast (List.prefix_append r.entered r.target.toList))

end Route

/-- Every edit stores a text, and the routes of the edits are apart from one another. -/
structure PrefixFree (edits : List (Route × String)) : Prop where
  target : ∀ e ∈ edits, ∃ last, e.1.target = some last
  apart : edits.Pairwise fun e e' => e.1.Apart e'.1

theorem applyEdits_concat (edits : List (Route × String)) (e : Route × String) (data : Entries) :
    applyEdits (edits ++ [e]) data = e.1.edit e.2 (applyEdits edits data) := by
  rw [applyEdits, List.foldl_append]
  rfl

/-- Of edits apart from one another, all texts stand in the end, and no other ones. -/
theorem PrefixFree.textAt_applyEdits {edits : List (Route × String)} (hfree : PrefixFree edits)
    {names : List String} {last text : String} :
    textAt names last (applyEdits edits []) = some text ↔ (⟨names, some last⟩, text) ∈ edits := by
  -- From the right: the last edit either stores the text at the place, and then no earlier one
  -- does, or it leaves what the earlier ones have stored there.
  induction edits using List.reverseRecOn with
  | nil => simp [applyEdits, textAt_empty]
  | append_singleton edits e ih =>
    obtain ⟨hedits, -, hapart⟩ := List.pairwise_append.1 hfree.apart
    have hbefore := ih ⟨fun e hmem => hfree.target e (List.mem_append_left _ hmem), hedits⟩
    rw [applyEdits_concat, List.mem_append, List.mem_singleton]
    by_cases hroute : e.1 = ⟨names, some last⟩
    · have hearlier : (⟨names, some last⟩, text) ∉ edits := fun hmem =>
        (hapart _ hmem e (List.mem_singleton_self e)).ne hroute.symm
      rw [hroute, textAt_edit_self, or_iff_right hearlier, Prod.ext_iff]
      simp [hroute, eq_comm]
    · have hlater : (⟨names, some last⟩, text) ≠ e := by
        rintro rfl
        exact hroute rfl
      rw [textAt_edit_eq_some_iff hroute, hbefore, or_iff_left hlater, and_iff_right_iff_imp]
      exact fun hmem => (hapart _ hmem e (List.mem_singleton_self e)).symm.not_overrules

/-- A tree, or nothing yet. -/
def Growing (data : Entries) : Prop :=
  data = [] ∨ IsTree data

theorem Growing.ascending {data : Entries} (hdata : Growing data) : Entries.Ascending data := by
  obtain rfl | ⟨-, hasc, -⟩ := hdata
  · exact List.Pairwise.nil
  · exact hasc

/-- The maps within one that only grows do so, too. -/
theorem Growing.innerMap {data : Entries} (hdata : Growing data) (name : String) :
    Growing (innerMap name data) := by
  unfold Projection.innerMap
  split
  · rename_i inner hlookup
    obtain rfl | ⟨-, -, -, hinner⟩ := hdata
    · cases hlookup
    · exact .inr (hinner name inner hlookup)
  · exact .inl rfl

/-- One more text or tree makes a tree of a tree. -/
theorem Growing.putSorted {data : Entries} (hdata : Growing data) (name : String) {v : Value}
    (hv : (∃ text, v = .str text) ∨ ∃ inner, v = .map inner ∧ IsTree inner) :
    IsTree (Entries.putSorted name v data) := by
  have hkeep : ∀ other, data.lookup other ≠ none → IsTree data := by
    rintro other hlookup
    exact hdata.resolve_left (by rintro rfl; exact hlookup rfl)
  refine .intro ?_ (hdata.ascending.putSorted name v) (fun other w hlookup => ?_)
    fun other inner hlookup => ?_
  · intro hnil
    have hlookup := Entries.lookup_putSorted name name v data
    simp [hnil] at hlookup
  · rw [Entries.lookup_putSorted] at hlookup
    split at hlookup
    · cases hlookup
      exact hv.imp_right fun ⟨inner, hw, _⟩ => ⟨inner, hw⟩
    · obtain ⟨-, -, hkind, -⟩ := hkeep other (by simp [hlookup])
      exact hkind other w hlookup
  · rw [Entries.lookup_putSorted] at hlookup
    split at hlookup
    · cases hlookup
      obtain ⟨text, hv⟩ | ⟨inner', hv, htree⟩ := hv
      · cases hv
      · cases hv
        exact htree
    · obtain ⟨-, -, -, hinner⟩ := hkeep other (by simp [hlookup])
      exact hinner other inner hlookup

/-- An edit that stores a text makes a tree. -/
theorem Growing.edit {data : Entries} (hdata : Growing data) (names : List String)
    (last text : String) : IsTree (Route.edit ⟨names, some last⟩ text data) := by
  induction names generalizing data with
  | nil => exact hdata.putSorted last (.inl ⟨text, rfl⟩)
  | cons first names ih =>
    exact hdata.putSorted first (.inr ⟨_, rfl, ih (hdata.innerMap first)⟩)

theorem Growing.applyEdits {edits : List (Route × String)}
    (htarget : ∀ e ∈ edits, ∃ last, e.1.target = some last) {data : Entries}
    (hdata : Growing data) : Growing (applyEdits edits data) := by
  induction edits generalizing data with
  | nil => exact hdata
  | cons e edits ih =>
    obtain ⟨⟨last, hlast⟩, hrest⟩ := List.forall_mem_cons.1 htarget
    refine ih hrest (.inr ?_)
    have htree := hdata.edit e.1.entered last e.2
    rwa [← hlast] at htree

/-- After edits that are apart from each other the leaves are their texts. -/
theorem PrefixFree.stores {edits : List (Route × String)} (hfree : PrefixFree edits) :
    Stores edits (applyEdits edits []) := by
  refine ⟨fun e hmem => ?_, fun names name text => hfree.textAt_applyEdits.1⟩
  obtain ⟨last, hlast⟩ := hfree.target e hmem
  refine ⟨last, hlast, hfree.textAt_applyEdits.2 ?_⟩
  rwa [← hlast]

/-- Edits apart from one another build the same tree in whatever order they come. -/
theorem PrefixFree.applyEdits_perm {edits edits' : List (Route × String)}
    (hfree : PrefixFree edits) (hperm : edits'.Perm edits) :
    applyEdits edits' [] = applyEdits edits [] := by
  -- A tree is what any edits build that store its leaves, and that does not depend on their order.
  obtain hnil | htree := Growing.applyEdits hfree.target (.inl rfl)
  · have hnone : edits = [] := by
      rw [List.eq_nil_iff_forall_not_mem]
      intro e hmem
      obtain ⟨last, -, htext⟩ := hfree.stores.leaf e hmem
      rw [hnil, textAt_empty] at htext
      cases htext
    rw [hnone] at hperm ⊢
    rw [hperm.eq_nil]
  · exact htree.applyEdits_eq ⟨fun e hmem => hfree.stores.leaf e (hperm.mem_iff.1 hmem),
      fun names name text htext => hperm.mem_iff.2 (hfree.stores.covers names name text htext)⟩

/-- The edits of the names that lead to a field. -/
def writes (p : Projection) (c : Catalog) (root : SchemaId) (env : EnvMap) :
    List (Route × String) :=
  (p.edits c root env.toList).filter fun e => e.1.target.isSome

/-- The edits of an environment are its names that lead to leaves, with their texts. -/
theorem mem_writes_iff {env : EnvMap} {names : List String} {last text : String} :
    (⟨names, some last⟩, text) ∈ p.writes c root env ↔
      ∃ name, (name, text) ∈ env.toList ∧ p.LeadsTo c root name names last := by
  simp [writes, edits, leadsTo_iff, and_comm]

/-- Edits that enter nothing without storing a text change nothing. -/
theorem applyEdits_filter {edits : List (Route × String)}
    (hidle : ∀ e ∈ edits, e.1.target = none → e.1.entered = []) (data : Entries) :
    applyEdits (edits.filter fun e => e.1.target.isSome) data = applyEdits edits data := by
  induction edits generalizing data with
  | nil => rfl
  | cons e edits ih =>
    obtain ⟨hhead, hrest⟩ := List.forall_mem_cons.1 hidle
    rw [List.filter_cons]
    split
    · exact ih hrest _
    · rename_i htarget
      have hnone : e.1.target = none := by simpa using htarget
      have hedit : e.1.edit e.2 data = data := by
        rw [Route.edit, hnone, hhead hnone]
        rfl
      change _ = applyEdits edits (e.1.edit e.2 data)
      rw [hedit]
      exact ih hrest data

namespace Resolving

variable {env env' : EnvMap}

/-- The order of the entries does not matter to whether they resolve. -/
theorem perm (henv : Resolving p c root env) (hperm : env'.toList.Perm env.toList) :
    Resolving p c root env' := by
  have hkeys : ∀ name, name ∈ env'.keys → name ∈ env.keys :=
    fun name => ((hperm.map Prod.fst).mem_iff (a := name)).1
  exact ⟨fun name hmem => henv.complete name (hkeys name hmem),
    fun name hmem name' hmem' => henv.apart name (hkeys name hmem) name' (hkeys name' hmem')⟩

/-- The edits of names that resolve are apart from each other. -/
theorem prefixFree (henv : Resolving p c root env) : PrefixFree (p.writes c root env) := by
  constructor
  · intro e hmem
    exact Option.isSome_iff_exists.1 (List.mem_filter.1 hmem).2
  · have hdistinct : env.toList.Pairwise fun e e' => e.1 ≠ e'.1 :=
      List.pairwise_map.1 env.nodup_keys
    rw [writes, List.pairwise_filter, edits, List.pairwise_map]
    refine hdistinct.imp_of_mem fun {e e'} hmem hmem' hne htarget htarget' => ?_
    have hkey : e.1 ∈ env.keys := List.mem_map_of_mem hmem
    have hkey' : e'.1 ∈ env.keys := List.mem_map_of_mem hmem'
    obtain ⟨last, hlast⟩ := Option.isSome_iff_exists.1 htarget
    obtain ⟨last', hlast'⟩ := Option.isSome_iff_exists.1 htarget'
    have hleads : p.LeadsTo c root e.1 (p.routeOf c root e.1).entered last :=
      leadsTo_iff.2 (by rw [← hlast])
    have hleads' : p.LeadsTo c root e'.1 (p.routeOf c root e'.1).entered last' :=
      leadsTo_iff.2 (by rw [← hlast'])
    rw [Route.Apart, Route.path, Route.path, hlast, hlast']
    exact ⟨henv.apart e.1 hkey e'.1 hkey' hne _ _ _ _ hleads hleads',
      henv.apart e'.1 hkey' e.1 hkey hne.symm _ _ _ _ hleads' hleads⟩

/-- A projection without a bound on nesting is the edits of the names that lead to a field. -/
theorem apply_eq (henv : Resolving p c root env) (hbound : p.bound = none) :
    p.apply c root env.toList [] = .ok (applyEdits (p.writes c root env) []) := by
  rw [apply_eq_ok_iff]
  constructor
  · intro e _
    rw [ensureWalk_eq_ok_iff, hbound]
    exact .inr (by simp [Fits])
  · refine (applyEdits_filter ?_ []).symm
    intro e hmem htarget
    obtain ⟨entry, hentry, rfl⟩ := List.mem_map.1 hmem
    have hnone : p.segments? entry.1 = none := by
      by_contra hsome
      obtain ⟨names, last, hleads⟩ := henv.complete entry.1 (List.mem_map_of_mem hentry)
        (Option.isSome_iff_ne_none.2 hsome)
      rw [leadsTo_iff.1 hleads] at htarget
      cases htarget
    simp [routeOf, hnone]

end Resolving

/-- Where the names of an environment resolve to places apart from one another, projection builds
the tree of their texts: each text stands at the place of its name, nothing else stands there, no
map is empty, and the order of the names does not matter. -/
theorem apply_resolving {env : EnvMap} (hbound : p.bound = none)
    (henv : Resolving p c root env) :
    ∃ data, p.apply c root env.toList [] = .ok data ∧ (data = [] ∨ IsTree data) ∧
      (∀ names last text, textAt names last data = some text ↔
        ∃ name, (name, text) ∈ env.toList ∧ p.LeadsTo c root name names last) ∧
      ∀ env' : EnvMap, env'.toList.Perm env.toList →
        p.apply c root env'.toList [] = .ok data := by
  refine ⟨applyEdits (p.writes c root env) [], henv.apply_eq hbound,
    Growing.applyEdits henv.prefixFree.target (.inl rfl), fun names last text => ?_,
    fun env' hperm => ?_⟩
  · rw [henv.prefixFree.textAt_applyEdits, mem_writes_iff]
  · have hwrites : (p.writes c root env').Perm (p.writes c root env) :=
      (hperm.map _).filter _
    rw [(henv.perm hperm).apply_eq hbound, henv.prefixFree.applyEdits_perm hwrites]

/-- Two names below one field, with one between them that is no name of a setting, in two orders. -/
theorem apply_resolving_credentials :
    let env := EnvMap.ofList
      [("DB__CREDENTIALS__USER", "admin"), ("PATH", "/bin"), ("DB__HOST", "local")]
    let env' := EnvMap.ofList
      [("DB__HOST", "local"), ("PATH", "/bin"), ("DB__CREDENTIALS__USER", "admin")]
    doubleUnderscore.bound = none ∧ Resolving doubleUnderscore credentialCatalog 2 env ∧
      env'.toList.Perm env.toList ∧
      ∃ data, doubleUnderscore.apply credentialCatalog 2 env.toList [] = .ok data ∧
        doubleUnderscore.apply credentialCatalog 2 env'.toList [] = .ok data ∧
        textAt ["db", "credentials"] "user" data = some "admin" ∧
        textAt ["db"] "host" data = some "local" := by
  intro env env'
  have hlist : env.toList =
      [("DB__CREDENTIALS__USER", "admin"), ("PATH", "/bin"), ("DB__HOST", "local")] := by
    simp [env, EnvMap.ofList, EnvMap.insertAll, EnvMap.insertEntry]
  have hlist' : env'.toList =
      [("DB__HOST", "local"), ("PATH", "/bin"), ("DB__CREDENTIALS__USER", "admin")] := by
    simp [env', EnvMap.ofList, EnvMap.insertAll, EnvMap.insertEntry]
  have hperm : env'.toList.Perm env.toList := by
    rw [hlist, hlist']
    exact (List.reverse_perm _).symm
  obtain ⟨huser, -, hhost, -⟩ := routeOf_credentials
  have hpath : doubleUnderscore.segments? "PATH" = none := by cbv
  have hroute : doubleUnderscore.routeOf credentialCatalog 2 "PATH" = {} := by
    simp [routeOf, hpath]
  have henv : Resolving doubleUnderscore credentialCatalog 2 env := by
    constructor
    · simp [EnvMap.keys, hlist, leadsTo_iff, huser, hpath, hhost]
    · simp [EnvMap.keys, hlist, leadsTo_iff, huser, hroute, hhost]
  obtain ⟨data, happly, -, hleaves, horder⟩ := apply_resolving rfl henv
  refine ⟨rfl, henv, hperm, data, happly, horder env' hperm, ?_, ?_⟩
  · exact (hleaves _ _ _).2 ⟨"DB__CREDENTIALS__USER", by simp [hlist], leadsTo_iff.2 huser⟩
  · exact (hleaves _ _ _).2 ⟨"DB__HOST", by simp [hlist], leadsTo_iff.2 hhost⟩

end EnvSettings.Projection
