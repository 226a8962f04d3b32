import EnvSettings.Proofs.Merge
import EnvSettings.Proofs.Projection.Walk
import EnvSettings.Proofs.Text.Case
import EnvSettings.Proofs.Text.Separator
import EnvSettings.Proofs.Text.Split

namespace EnvSettings

open Merge (spell)

variable {caseSensitive : Bool} {delimiter name other : String}

namespace Merge

theorem spell_append (s t : String) :
    spell caseSensitive (s ++ t) = spell caseSensitive s ++ spell caseSensitive t := by
  cases caseSensitive with
  | true => rfl
  | false => exact Text.upper_append s t

/-- A spelling stays as it is. -/
theorem spell_spell (s : String) :
    spell caseSensitive (spell caseSensitive s) = spell caseSensitive s := by
  cases caseSensitive with
  | true => rfl
  | false => exact Text.upper_upper s

theorem spell_empty : spell caseSensitive "" = "" := by
  cases caseSensitive <;> rfl

/-- A delimiter that is its own spelling still separates the spelled names. -/
theorem spell_intercalate (hdelimiter : spell caseSensitive delimiter = delimiter)
    (names : List String) :
    spell caseSensitive (delimiter.intercalate names) =
      delimiter.intercalate (names.map (spell caseSensitive)) := by
  induction names with
  | nil => exact spell_empty
  | cons name names ih =>
    cases names with
    | nil => rfl
    | cons next names =>
      rw [String.intercalate_cons_cons, spell_append, spell_append, hdelimiter, ih,
        List.map_cons, List.map_cons, List.map_cons, String.intercalate_cons_cons]

/-- A name and its spelling have the same lower case. -/
theorem lower_spell (hname : Text.Ascii name) :
    Text.lower (spell caseSensitive name) = Text.lower name := by
  cases caseSensitive with
  | true => rfl
  | false => exact Text.lower_upper hname

theorem spell_eq_empty_iff (hname : Text.Ascii name) :
    spell caseSensitive name = "" ↔ name = "" := by
  cases caseSensitive with
  | true => exact Iff.rfl
  | false => exact Text.upper_eq_empty_iff hname

end Merge

/-- The environment name of a setting is a spelling. -/
theorem envKey_eq (lead name : String) (caseSensitive : Bool) :
    envKey lead name caseSensitive = spell caseSensitive (lead ++ name) := by
  cases caseSensitive <;> rfl

/-- The environment name of a setting stays as it is. -/
theorem spell_envKey (lead name : String) (caseSensitive : Bool) :
    spell caseSensitive (envKey lead name caseSensitive) = envKey lead name caseSensitive := by
  rw [envKey_eq, Merge.spell_spell]

namespace Field

variable {f : Field}

/-- A field answers to its name and to its alias. -/
theorem mem_envNames : name ∈ f.envNames ↔ name = f.name ∨ f.info.envAlias = some name := by
  rw [envNames]
  cases f.info.envAlias with
  | none => simp
  | some other =>
    by_cases hother : other = f.name
    · simp [hother, eq_comm]
    · simp [hother, or_comm, eq_comm]

/-- A field answers to its name. -/
theorem name_mem_envNames (f : Field) : f.name ∈ f.envNames :=
  mem_envNames.2 (.inl rfl)

/-- A field answers to the name that messages give. -/
theorem primaryName_mem_envNames (f : Field) : f.primaryName ∈ f.envNames := by
  rw [mem_envNames, primaryName]
  cases f.info.envAlias with
  | none => exact .inl rfl
  | some other => exact .inr rfl

/-- The fields have no name in common in any letter case. -/
def Unlike (f g : Field) : Prop :=
  ∀ name ∈ f.envNames, ∀ other ∈ g.envNames, Text.lower name ≠ Text.lower other

instance (f g : Field) : Decidable (f.Unlike g) :=
  inferInstanceAs (Decidable (∀ name ∈ f.envNames, ∀ other ∈ g.envNames,
    Text.lower name ≠ Text.lower other))

instance : Std.Symm Unlike :=
  ⟨fun _ _ hunlike name hname other hother => (hunlike other hother name hname).symm⟩

end Field

namespace Schema

variable {s : Schema} {f g : Field}

/-- The names of a schema can be told apart. All of them are ASCII and none is empty, different
fields have none in common in any letter case, and names that are joined by the delimiter split
back in their spelling. -/
structure TellsApart (caseSensitive : Bool) (delimiter : String) (s : Schema) : Prop where
  named : ∀ f ∈ s.fields, ∀ name ∈ f.envNames, name ≠ "" ∧ Text.Ascii name
  distinct : s.fields.Pairwise Field.Unlike
  splits : ∀ names, names ≠ [] → (∀ name ∈ names, ∃ f ∈ s.fields, name ∈ f.envNames) →
    Text.splitOn delimiter.toList (spell caseSensitive (delimiter.intercalate names)).toList =
      names.map fun name => (spell caseSensitive name).toList

theorem spells_spell (hname : Text.Ascii name) :
    spells caseSensitive (spell caseSensitive name) name = true := by
  rw [spells, Merge.lower_spell hname]
  cases caseSensitive <;> simp [spell]

namespace TellsApart

variable (hs : s.TellsApart caseSensitive delimiter)
include hs

/-- The names of fields that are told apart are ASCII. -/
theorem ascii (hf : f ∈ s.fields) (hname : name ∈ f.envNames) : Text.Ascii name :=
  (hs.named f hf name hname).2

/-- Fields with names of the same lower case are the same. -/
theorem eq_of_lower_eq (hf : f ∈ s.fields) (hg : g ∈ s.fields) (hname : name ∈ f.envNames)
    (hother : other ∈ g.envNames) (hlower : Text.lower name = Text.lower other) : f = g := by
  by_contra hne
  exact hs.distinct.forall hf hg hne name hname other hother hlower

/-- Two names with one spelling are names of one field. -/
theorem eq_of_spell_eq (hf : f ∈ s.fields) (hg : g ∈ s.fields) (hname : name ∈ f.envNames)
    (hother : other ∈ g.envNames) (hspell : spell caseSensitive name = spell caseSensitive other) :
    f = g := by
  refine hs.eq_of_lower_eq hf hg hname hother ?_
  rw [← Merge.lower_spell (hs.ascii hf hname), hspell, Merge.lower_spell (hs.ascii hg hother)]

/-- A field that a spelling matches is the one that it spells. -/
theorem eq_of_spells (hf : f ∈ s.fields) (hg : g ∈ s.fields) (hname : name ∈ f.envNames)
    (hother : other ∈ g.envNames)
    (hspells : spells caseSensitive (spell caseSensitive name) other = true) : g = f := by
  refine hs.eq_of_lower_eq hg hf hother hname ?_
  rw [spells, Merge.lower_spell (hs.ascii hf hname)] at hspells
  cases caseSensitive with
  | true => exact congrArg Text.lower (eq_of_beq hspells)
  | false => exact eq_of_beq hspells

/-- The spelling of a name means the field that has the name. -/
theorem matchField?_spell (hf : f ∈ s.fields) (hname : name ∈ f.envNames) :
    matchField? s.toShape (spell caseSensitive name) caseSensitive = some f := by
  have hself := @spells_spell caseSensitive _ (hs.ascii hf hname)
  rw [matchField?]
  by_cases hfirst : spells caseSensitive (spell caseSensitive name) f.name = true
  · have hfind := find?_eq_some_of_unique
      (p := fun g : Field => spells caseSensitive (spell caseSensitive name) g.name) hf hfirst
      fun g hg => hs.eq_of_spells hf hg hname g.name_mem_envNames
    rw [hfind]
  · have hnone : s.fields.find?
        (fun g => spells caseSensitive (spell caseSensitive name) g.name) = none := by
      refine List.find?_eq_none.2 fun g hg hspells => hfirst ?_
      rwa [← hs.eq_of_spells hf hg hname g.name_mem_envNames hspells]
    -- No field has this name, so it is the alias of its field.
    have halias : f.info.envAlias = some name := by
      refine (Field.mem_envNames.1 hname).resolve_left fun h => hfirst ?_
      rw [← h]
      exact hself
    rw [hnone]
    refine find?_eq_some_of_unique hf (by simp [halias, hself]) fun g hg hany => ?_
    obtain ⟨other, hother, hspells⟩ := (Option.any_eq_true _ _).1 hany
    exact hs.eq_of_spells hf hg hname (Field.mem_envNames.2 (.inr hother)) hspells

/-- The delimiter begins in no name and runs into none. -/
theorem clear (hspelled : spell caseSensitive delimiter = delimiter) (hf : f ∈ s.fields)
    (hname : name ∈ f.envNames) :
    Text.Clear delimiter.toList (spell caseSensitive name).toList := by
  have hsplit := hs.splits [name, name] (List.cons_ne_nil _ _) (by simpa using ⟨f, hf, hname⟩)
  rw [Merge.spell_intercalate hspelled, List.map_cons, List.map_cons, String.intercalate_cons_cons,
    List.map_nil, String.intercalate_singleton, String.toList_append, String.toList_append,
    List.append_assoc] at hsplit
  exact Text.clear_of_splitOn hsplit

end TellsApart

/-- Names that the delimiter neither begins in nor runs into split back. -/
theorem TellsApart.of_clear (hdelimiter : delimiter ≠ "")
    (hspelled : spell caseSensitive delimiter = delimiter)
    (hnamed : ∀ f ∈ s.fields, ∀ name ∈ f.envNames, name ≠ "" ∧ Text.Ascii name)
    (hdistinct : s.fields.Pairwise Field.Unlike)
    (hclear : ∀ f ∈ s.fields, ∀ name ∈ f.envNames,
      Text.Clear delimiter.toList (spell caseSensitive name).toList) :
    s.TellsApart caseSensitive delimiter := by
  refine ⟨hnamed, hdistinct, fun names hne hnames => ?_⟩
  rw [Merge.spell_intercalate hspelled, String.toList_intercalate, List.map_map]
  refine Text.splitOn_intercalate (by simpa using hdelimiter) (by simpa using hne) ?_
  intro part hpart
  obtain ⟨name, hmem, rfl⟩ := List.mem_map.1 hpart
  obtain ⟨f, hf, hname⟩ := hnames name hmem
  exact hclear f hf name hname

end Schema

namespace Projection

variable {p : Projection}

/-- The lead text of a projection is spelled as names are. -/
theorem spelledLead_eq (p : Projection) :
    p.spelledLead = (spell p.caseSensitive p.lead).toList := by
  unfold spelledLead spell
  cases p.caseSensitive
  · simp [Text.upper]
  · rfl

/-- Clear segments, joined behind the lead text, are read back; a single one is none. -/
theorem segments?_spelled (hdelimiter : p.delimiter ≠ "")
    {parts : List String} (hparts : parts ≠ [])
    (hclear : ∀ part ∈ parts, part ≠ "" ∧ Text.Clear p.delimiter.toList part.toList) :
    p.segments? (spell p.caseSensitive p.lead ++ p.delimiter.intercalate parts) =
      if parts.length < 2 then none else some parts := by
  have hsep : p.delimiter.toList ≠ [] := by simpa using hdelimiter
  have hrest : Text.dropLead? p.spelledLead
      (spell p.caseSensitive p.lead ++ p.delimiter.intercalate parts).toList =
        some (p.delimiter.toList.intercalate (parts.map String.toList)) := by
    rw [Text.dropLead?_eq_some_iff, String.toList_append, spelledLead_eq,
      String.toList_intercalate]
  have hclear' : ∀ part ∈ parts.map String.toList, Text.Clear p.delimiter.toList part := by
    simpa using fun part hpart => (hclear part hpart).2
  rw [segments?, hrest]
  dsimp only
  cases parts with
  | nil => exact absurd rfl hparts
  | cons part rest =>
    cases rest with
    | nil =>
      rw [List.map_cons, List.map_nil, List.intercalate_singleton,
        Text.occursIn_of_clear hsep (hclear part (List.mem_singleton_self _)).2]
      rfl
    | cons next rest =>
      have hoccurs : Text.occursIn p.delimiter.toList
          (p.delimiter.toList.intercalate ((part :: next :: rest).map String.toList)) = true :=
        Text.occursIn_intercalate _ _ _ _
      have hfilter : ((part :: next :: rest).map String.toList).filter (!·.isEmpty) =
          (part :: next :: rest).map String.toList := by
        rw [List.filter_eq_self]
        simpa using fun part hpart => (hclear part hpart).1
      rw [hoccurs, Text.splitOn_intercalate hsep (by simp) hclear', hfilter]
      simp

end Projection

end EnvSettings
