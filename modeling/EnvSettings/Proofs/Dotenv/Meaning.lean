import Mathlib.Data.List.Chain
import Mathlib.Data.List.Perm.Subperm
import Mathlib.Logic.Relation
import EnvSettings.Proofs.Dotenv.Pieces

namespace EnvSettings.Dotenv

/-- The text of a sequence of pieces, where `value` says what each reference stands for. -/
def substitute (value : String → Option String) : List Piece → Option (List Char)
  | [] => some []
  | .char c :: ps => (substitute value ps).map (c :: ·)
  | .reference name :: ps => do
    let text ← value name
    let rest ← substitute value ps
    some (text.toList ++ rest)

/-- Texts that are known for more names make the same text. -/
theorem substitute_mono {value value' : String → Option String} {ps : List Piece}
    {text : List Char} (hvalue : ∀ name v, .reference name ∈ ps → value name = some v →
      value' name = some v) (h : substitute value ps = some text) :
    substitute value' ps = some text := by
  induction ps generalizing text with
  | nil => exact h
  | cons p ps ih =>
    have htail : ∀ rest, substitute value ps = some rest → substitute value' ps = some rest :=
      fun rest => ih fun name v hmem => hvalue name v (List.mem_cons_of_mem p hmem)
    cases p with
    | char c =>
      simp only [substitute, Option.map_eq_some_iff] at h ⊢
      obtain ⟨rest, hrest, rfl⟩ := h
      exact ⟨rest, htail rest hrest, rfl⟩
    | reference name =>
      simp only [substitute, Option.bind_eq_bind, Option.bind_eq_some_iff] at h ⊢
      obtain ⟨v, hv, rest, hrest, htext⟩ := h
      exact ⟨v, hvalue name v List.mem_cons_self hv, rest, htail rest hrest, htext⟩

/-- A text is made if one is known for every reference. -/
theorem substitute_isSome {value : String → Option String} {ps : List Piece} :
    (substitute value ps).isSome ↔ ∀ name, .reference name ∈ ps → (value name).isSome := by
  induction ps with
  | nil => simp [substitute]
  | cons p ps ih =>
    cases p with
    | char c => simp [substitute, ih]
    | reference name =>
      cases hv : value name with
      | none => simp [substitute, hv]
      | some v => cases hrest : substitute value ps <;> simp_all [substitute]

theorem substitute_map_char (value : String → Option String) (s : List Char) :
    substitute value (s.map .char) = some s := by
  induction s with
  | nil => rfl
  | cons c s ih => simp [substitute, ih]

namespace Scope

variable {scope : Scope}

/-- The value that the reference to a name stands for, given the values of the declared names. -/
def referent (scope : Scope) (value : String → Option String) (name : String) : Option String :=
  match scope.declaration? name with
  | some _ => value name
  | none => scope.outside name

/-- The value of a declared name by plain recursion through its references, down to a depth. -/
def meaning (scope : Scope) : Nat → String → Option String
  | 0, _ => none
  | depth + 1, key =>
    match scope.declaration? key with
    | some d =>
      (substitute (scope.referent (scope.meaning depth)) (pieces d.raw.toList)).map String.ofList
    | none => none

/-- The text of `key` mentions `name`, which the file declares as well. -/
def RefersTo (scope : Scope) (key name : String) : Prop :=
  ∃ d, scope.declaration? key = some d ∧ Mentions d.raw.toList name.toList ∧
    ∃ e, scope.declaration? name = some e

/-- No name refers back to itself, directly or through other names. -/
def Acyclic (scope : Scope) : Prop :=
  ∀ key, ¬ Relation.TransGen scope.RefersTo key key

/-- Every name that the file mentions without declaring it is known outside. -/
def Closed (scope : Scope) : Prop :=
  ∀ key d name, scope.declaration? key = some d → Mentions d.raw.toList name.toList →
    scope.declaration? name = none → ∃ text, scope.outside name = some text

/-- A declaration that is found under a name is one with that key. -/
theorem key_of_declaration? {name : String} {d : Declaration}
    (hd : scope.declaration? name = some d) : d ∈ scope.declarations ∧ d.key = name := by
  unfold declaration? at hd
  exact ⟨List.mem_of_find?_eq_some hd, by simpa using List.find?_some hd⟩

/-- With distinct keys every declaration is found under its key. -/
theorem find?_key_eq_some {ds : List Declaration} (hkeys : (ds.map (·.key)).Nodup)
    {d : Declaration} (hmem : d ∈ ds) : ds.find? (·.key == d.key) = some d := by
  induction ds with
  | nil => cases hmem
  | cons e es ih =>
    rw [List.map_cons, List.nodup_cons] at hkeys
    rw [List.find?_cons]
    rcases List.mem_cons.1 hmem with rfl | hmem
    · simp
    · have hne : e.key ≠ d.key := fun h => hkeys.1 (h ▸ List.mem_map_of_mem hmem)
      simpa [beq_eq_false_iff_ne.2 hne] using ih hkeys.2 hmem

/-- With distinct names every declaration is the one of its name. -/
theorem declaration?_eq_some_iff (hkeys : (scope.declarations.map (·.key)).Nodup) {name : String}
    {d : Declaration} :
    scope.declaration? name = some d ↔ d ∈ scope.declarations ∧ d.key = name := by
  refine ⟨key_of_declaration?, ?_⟩
  rintro ⟨hmem, rfl⟩
  exact find?_key_eq_some hkeys hmem

/-- A reference keeps its text when more declarations have one. -/
theorem referent_mono {value value' : String → Option String} {name v : String}
    (hvalue : scope.declaration? name ≠ none → value name = some v → value' name = some v)
    (h : scope.referent value name = some v) : scope.referent value' name = some v := by
  unfold referent at h ⊢
  cases hname : scope.declaration? name with
  | none => simpa [hname] using h
  | some e =>
    simp only [hname] at h ⊢
    exact hvalue (by simp [hname]) h

/-- A declared key means the text that its references make with the meanings below. -/
theorem meaning_succ_eq_some_iff {depth : Nat} {key v : String} {d : Declaration}
    (hd : scope.declaration? key = some d) :
    scope.meaning (depth + 1) key = some v ↔
      ∃ text, substitute (scope.referent (scope.meaning depth)) (pieces d.raw.toList) = some text ∧
        String.ofList text = v := by
  simp only [meaning, hd, Option.map_eq_some_iff]

/-- The meaning of a name comes from meanings at a smaller depth. -/
theorem exists_substitute_of_meaning {depth : Nat} {key v : String} {d : Declaration}
    (hd : scope.declaration? key = some d) (h : scope.meaning depth key = some v) :
    ∃ smaller text, substitute (scope.referent (scope.meaning smaller)) (pieces d.raw.toList) =
      some text ∧ String.ofList text = v := by
  cases depth with
  | zero => cases h
  | succ depth => exact ⟨depth, (meaning_succ_eq_some_iff hd).1 h⟩

theorem meaning_succ {depth : Nat} {key v : String} (h : scope.meaning depth key = some v) :
    scope.meaning (depth + 1) key = some v := by
  induction depth generalizing key v with
  | zero => cases h
  | succ depth ih =>
    cases hkey : scope.declaration? key with
    | none => simp [meaning, hkey] at h
    | some d =>
      rw [meaning_succ_eq_some_iff hkey] at h ⊢
      obtain ⟨text, htext, rfl⟩ := h
      refine ⟨text, substitute_mono ?_ htext, rfl⟩
      intro name v _ hv
      exact referent_mono (fun _ => ih) hv

/-- A value that some depth reaches stays the same at every greater depth. -/
theorem meaning_mono {depth deeper : Nat} (hle : depth ≤ deeper) {key v : String}
    (h : scope.meaning depth key = some v) : scope.meaning deeper key = some v := by
  induction hle with
  | refl => exact h
  | step _ ih => exact meaning_succ ih

/-- A key has one meaning, at whatever depth. -/
theorem meaning_unique {depth depth' : Nat} {key v v' : String}
    (h : scope.meaning depth key = some v) (h' : scope.meaning depth' key = some v') : v = v' := by
  have hmax := meaning_mono (Nat.le_max_left depth depth') h
  rw [meaning_mono (Nat.le_max_right depth depth') h'] at hmax
  exact (Option.some.inj hmax).symm

/-- A name that has a meaning gives one to the names that it refers to, at a smaller depth. -/
theorem RefersTo.meaning_isSome {depth : Nat} {key name : String} (href : scope.RefersTo key name)
    (h : (scope.meaning (depth + 1) key).isSome) : (scope.meaning depth name).isSome := by
  obtain ⟨d, hd, hmention, e, he⟩ := href
  simp only [meaning, hd, Option.isSome_map] at h
  have hname := substitute_isSome.1 h name (mem_pieces_iff.2 hmention)
  simpa [referent, he] using hname

/-- What a key needs has its meaning at a smaller depth. -/
theorem transGen_meaning_isSome {depth : Nat} {key name : String}
    (hpath : Relation.TransGen scope.RefersTo key name) (h : (scope.meaning depth key).isSome) :
    ∃ smaller < depth, (scope.meaning smaller name).isSome := by
  induction hpath with
  | single href =>
    cases depth with
    | zero => simp [meaning] at h
    | succ depth => exact ⟨depth, by omega, href.meaning_isSome h⟩
  | tail _ href ih =>
    obtain ⟨smaller, hsmaller, hsome⟩ := ih
    cases smaller with
    | zero => simp [meaning] at hsome
    | succ smaller => exact ⟨smaller, by omega, href.meaning_isSome hsome⟩

/-- A name on a cycle has no meaning at any depth: going round the cycle would give it one at ever
smaller depths. -/
theorem not_transGen_of_meaning {depth : Nat} {key : String}
    (h : (scope.meaning depth key).isSome) : ¬ Relation.TransGen scope.RefersTo key key := by
  intro hcycle
  induction depth using Nat.strongRecOn with
  | ind depth ih =>
    obtain ⟨smaller, hsmaller, hsome⟩ := transGen_meaning_isSome hcycle h
    exact ih smaller hsmaller hsome

/-- Declared names without repetition are no more than the declarations. -/
theorem length_le_of_nodup {names : List String} (hnodup : names.Nodup)
    (hdeclared : ∀ name ∈ names, ∃ d, scope.declaration? name = some d) :
    names.length ≤ scope.declarations.length := by
  have hsubset : names ⊆ scope.declarations.map (·.key) := by
    intro name hmem
    obtain ⟨d, hd⟩ := hdeclared name hmem
    obtain ⟨hdecl, rfl⟩ := key_of_declaration? hd
    exact List.mem_map_of_mem hdecl
  simpa using (List.subperm_of_subset hnodup hsubset).length_le

/-- On a walk every name leads to all later ones. -/
theorem transGen_of_walk {walk : List String} (hwalk : walk.IsChain scope.RefersTo) :
    walk.Pairwise (Relation.TransGen scope.RefersTo) :=
  (hwalk.imp fun _ _ => Relation.TransGen.single).pairwise

/-- In an acyclic file a walk passes each name once, so it is no longer than the file. -/
theorem Acyclic.length_le {walk : List String} (hacyclic : scope.Acyclic)
    (hwalk : walk.IsChain scope.RefersTo)
    (hdeclared : ∀ key ∈ walk, ∃ d, scope.declaration? key = some d) :
    walk.length ≤ scope.declarations.length := by
  refine length_le_of_nodup ((transGen_of_walk hwalk).imp ?_) hdeclared
  rintro key _ hpath rfl
  exact hacyclic key hpath

/-- Every step of a walk leaves from a declared name and leads to one. -/
theorem RefersTo.declared {key name : String} (href : scope.RefersTo key name) :
    (∃ d, scope.declaration? key = some d) ∧ ∃ e, scope.declaration? name = some e := by
  obtain ⟨d, hd, _, he⟩ := href
  exact ⟨⟨d, hd⟩, he⟩

/-- A reference from its last name makes a walk longer. -/
theorem RefersTo.isChain_concat {walk : List String} {key name : String}
    (href : scope.RefersTo key name) (hwalk : (walk ++ [key]).IsChain scope.RefersTo) :
    (walk ++ [key] ++ [name]).IsChain scope.RefersTo := by
  rw [List.append_assoc, List.singleton_append, List.isChain_append_cons_cons]
  exact ⟨hwalk, href, .singleton name⟩

/-- Along a walk through an acyclic file the depth that is left never runs out. -/
theorem Acyclic.meaning_of_walk (hacyclic : scope.Acyclic) {depth room : Nat} {walk : List String}
    {key v : String} (hwalk : (walk ++ [key]).IsChain scope.RefersTo)
    (hdeclared : ∀ name ∈ walk, ∃ d, scope.declaration? name = some d)
    (hroom : room + walk.length = scope.declarations.length)
    (h : scope.meaning depth key = some v) : scope.meaning room key = some v := by
  induction depth generalizing walk room key v with
  | zero => cases h
  | succ depth ih =>
    cases hkey : scope.declaration? key with
    | none => simp [meaning, hkey] at h
    | some d =>
      have hdeclared' : ∀ name ∈ walk ++ [key], ∃ d, scope.declaration? name = some d :=
        List.forall_mem_append.2 ⟨hdeclared, List.forall_mem_singleton.2 ⟨d, hkey⟩⟩
      have hlength := hacyclic.length_le hwalk hdeclared'
      simp only [List.length_append, List.length_singleton] at hlength
      obtain ⟨left, rfl⟩ : ∃ left, room = left + 1 := ⟨room - 1, by omega⟩
      rw [meaning_succ_eq_some_iff hkey] at h ⊢
      obtain ⟨text, htext, rfl⟩ := h
      refine ⟨text, substitute_mono ?_ htext, rfl⟩
      intro name v hmem hv
      refine referent_mono (fun hname hvalue => ?_) hv
      have href : scope.RefersTo key name :=
        ⟨d, hkey, mem_pieces_iff.1 hmem, Option.ne_none_iff_exists'.1 hname⟩
      refine ih (href.isChain_concat hwalk) hdeclared' ?_ hvalue
      simp only [List.length_append, List.length_singleton]
      omega

/-- In an acyclic file no name needs more depth than there are declarations. -/
theorem Acyclic.meaning_length (hacyclic : scope.Acyclic) {depth : Nat} {key v : String}
    (h : scope.meaning depth key = some v) :
    scope.meaning scope.declarations.length key = some v := by
  have hwalk : ([] ++ [key]).IsChain scope.RefersTo := .singleton key
  exact hacyclic.meaning_of_walk hwalk (by simp) (by simp) h

/-- Declarations with distinct names may be listed in any order. -/
theorem declaration?_of_perm {ds : List Declaration} (hperm : ds.Perm scope.declarations)
    (hkeys : (scope.declarations.map (·.key)).Nodup) :
    ({ scope with declarations := ds } : Scope).declaration? = scope.declaration? := by
  have hkeys' : (ds.map (·.key)).Nodup := (hperm.map _).nodup_iff.2 hkeys
  funext name
  apply Option.ext
  intro d
  rw [declaration?_eq_some_iff hkeys', declaration?_eq_some_iff hkeys]
  exact and_congr_left fun _ => hperm.mem_iff

/-- Meanings depend on what is found under each name and outside. -/
theorem meaning_congr {scope' : Scope} (hdecl : scope'.declaration? = scope.declaration?)
    (houtside : scope'.outside = scope.outside) (depth : Nat) :
    scope'.meaning depth = scope.meaning depth := by
  induction depth with
  | zero => rfl
  | succ depth ih =>
    funext key
    have hreferent : scope'.referent (scope'.meaning depth) =
        scope.referent (scope.meaning depth) := by
      funext name
      simp only [referent, hdecl, houtside, ih]
    simp only [meaning, hdecl, hreferent]

/-- Whether references run in a circle depends on what is found under each name. -/
theorem acyclic_congr {scope' : Scope} (hdecl : scope'.declaration? = scope.declaration?) :
    scope'.Acyclic ↔ scope.Acyclic := by
  have href : scope'.RefersTo = scope.RefersTo := by
    funext key name
    simp only [RefersTo, hdecl]
  simp only [Acyclic, href]

/-- Whether all references are known depends on what is found under each name and outside. -/
theorem closed_congr {scope' : Scope} (hdecl : scope'.declaration? = scope.declaration?)
    (houtside : scope'.outside = scope.outside) : scope'.Closed ↔ scope.Closed := by
  simp only [Closed, hdecl, houtside]

end Scope

end EnvSettings.Dotenv
