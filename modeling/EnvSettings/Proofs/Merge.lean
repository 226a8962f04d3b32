import EnvSettings.Merge
import EnvSettings.Proofs.EnvMap

namespace EnvSettings.Merge

variable {caseSensitive : Bool} {mode : Dotenv.Mode}

/-- The name as the merged environment spells it. -/
def spell (caseSensitive : Bool) (name : String) : String :=
  if caseSensitive then name else Text.upper name

/-- The entry as the merged environment spells it. -/
def spellEntry (caseSensitive : Bool) (e : String × String) : String × String :=
  (spell caseSensitive e.1, e.2)

/-- All entries as the merged environment spells them. -/
def spellAll (caseSensitive : Bool) (m : EnvMap) : EnvMap :=
  EnvMap.ofList (m.toList.map (spellEntry caseSensitive))

theorem map_fst_map_spellEntry (es : List (String × String)) :
    (es.map (spellEntry caseSensitive)).map Prod.fst =
      (es.map Prod.fst).map (spell caseSensitive) := by
  rw [List.map_map, List.map_map]
  rfl

/-- The spellings of a merged environment are those of its names. -/
theorem mem_keys_spellAll {m : EnvMap} {spelling : String} :
    spelling ∈ (spellAll caseSensitive m).keys ↔
      ∃ name ∈ m.keys, spell caseSensitive name = spelling := by
  rw [spellAll, EnvMap.ofList, EnvMap.mem_keys_insertAll, map_fst_map_spellEntry, List.mem_map]
  exact or_iff_right List.not_mem_nil

/-- The strict policy accepts names exactly when no two of them have the same form. -/
theorem upperKeysFrom_eq_ok_iff {taken : List (String × String)} {normalized m : EnvMap}
    {es : List (String × String)} (hkeys : (taken.map Prod.snd ++ es.map Prod.fst).Nodup) :
    upperKeysFrom taken normalized es = .ok m ↔
      (es.map fun e => Text.upper e.1).Nodup ∧
        (∀ e ∈ es, Text.upper e.1 ∉ taken.map Prod.fst) ∧
        normalized.insertAll (es.map fun e => (Text.upper e.1, e.2)) = m := by
  induction es generalizing taken normalized with
  | nil => simp [upperKeysFrom, EnvMap.insertAll]
  | cons e es ih =>
    obtain ⟨key, text⟩ := e
    rw [upperKeysFrom]
    cases hlookup : taken.lookup (Text.upper key) with
    | some first =>
      have hmem : (Text.upper key, first) ∈ taken := by
        obtain ⟨before, after, rfl, -⟩ := List.lookup_eq_some_iff.1 hlookup
        exact List.mem_append_right before List.mem_cons_self
      have hfirst : first ≠ key := by
        rintro rfl
        exact List.disjoint_of_nodup_append hkeys (List.mem_map_of_mem (f := Prod.snd) hmem)
          List.mem_cons_self
      simp only [hfirst, if_false]
      refine iff_of_false (by simp) ?_
      rintro ⟨-, hfresh, -⟩
      exact hfresh (key, text) List.mem_cons_self (List.mem_map_of_mem (f := Prod.fst) hmem)
    | none =>
      have hfresh : Text.upper key ∉ taken.map Prod.fst := by
        intro hmem
        obtain ⟨e, hmem, he⟩ := List.mem_map.1 hmem
        have := List.lookup_eq_none_iff.1 hlookup e hmem
        simp [he] at this
      have hkeys' : (((Text.upper key, key) :: taken).map Prod.snd ++ es.map Prod.fst).Nodup := by
        simpa using List.nodup_middle.1 hkeys
      simp only [ih hkeys', List.forall_mem_cons]
      simp only [List.map_cons, List.nodup_cons, List.mem_cons, not_or]
      constructor
      · rintro ⟨hnodup, htaken, rfl⟩
        refine ⟨⟨?_, hnodup⟩, ⟨hfresh, fun e hmem => (htaken e hmem).2⟩, rfl⟩
        intro hmem
        obtain ⟨e, hmem, he⟩ := List.mem_map.1 hmem
        exact (htaken e hmem).1 he
      · rintro ⟨⟨hnew, hnodup⟩, ⟨-, htaken⟩, rfl⟩
        refine ⟨hnodup, fun e hmem => ⟨fun he => hnew ?_, htaken e hmem⟩, rfl⟩
        exact List.mem_map.2 ⟨e, hmem, he⟩

/-- The merged environment holds all entries as it spells them; the strict policy refuses names
that share a spelling. -/
theorem applyCase_eq_ok_iff {merged m : EnvMap} :
    applyCase caseSensitive mode merged = .ok m ↔
      (mode = .strict → (merged.keys.map (spell caseSensitive)).Nodup) ∧
        spellAll caseSensitive merged = m := by
  cases caseSensitive with
  | true =>
    have hspell : merged.keys.map (spell true) = merged.keys := List.map_id _
    have hentries : merged.toList.map (spellEntry true) = merged.toList := List.map_id _
    rw [hspell, spellAll, hentries, EnvMap.ofList_toList, and_iff_right fun _ => merged.nodup_keys]
    exact ⟨Except.ok.inj, congrArg Except.ok⟩
  | false =>
    have hspell : merged.keys.map (spell false) = merged.toList.map fun e => Text.upper e.1 := by
      rw [EnvMap.keys, List.map_map]
      rfl
    have hentries : merged.toList.map (spellEntry false) =
        merged.toList.map fun e => (Text.upper e.1, e.2) := rfl
    rw [hspell, spellAll, hentries]
    cases mode with
    | lenient => simp [applyCase, upperKeys]
    | strict =>
      change upperKeysFrom [] EnvMap.empty merged.toList = .ok m ↔ _
      rw [upperKeysFrom_eq_ok_iff (by simpa [EnvMap.keys] using merged.nodup_keys)]
      simp [EnvMap.ofList]

variable {rest given file : EnvMap} {added : List (String × String)}

/-- What the runtime adds is added to the file below it. -/
theorem overlay_adds (hadds : rest.Adds added given) :
    (overlay file rest).Adds added (overlay file given) := by
  constructor
  · intro e hmem
    rw [← EnvMap.get?_eq_some_iff]
    refine EnvMap.get?_insertAll (fun e' hmem' heq => ?_) (.inr ?_)
    · have hget := EnvMap.get?_eq_some_iff.2 hmem'
      rw [heq, hadds.get?_of_mem hmem, Option.some.injEq] at hget
      exact hget.symm
    · exact List.mem_map_of_mem (hadds.mem e hmem)
  · have hfilter := EnvMap.filter_insertAll (fun name => name ∉ added.map Prod.fst) file
    rw [overlay, overlay, hfilter, hfilter, hadds.rest]

/-- Only the added names have their spellings. -/
theorem mem_added_of_spell (hadds : rest.Adds added given)
    (halone : ∀ e ∈ added, ∀ name ∈ rest.keys,
      spell caseSensitive name = spell caseSensitive e.1 → name = e.1)
    {name : String} (hmem : name ∈ given.keys)
    (hspell : spell caseSensitive name ∈ (added.map Prod.fst).map (spell caseSensitive)) :
    name ∈ added.map Prod.fst := by
  by_contra hname
  obtain ⟨name', hadded, heq⟩ := List.mem_map.1 hspell
  obtain ⟨e, hmem', rfl⟩ := List.mem_map.1 hadded
  have hsame : name = e.1 := halone e hmem' name (hadds.mem_keys_rest hname hmem) heq.symm
  exact hname (hsame ▸ hadded)

/-- Entries that share their spellings with no others are added to the spelled entries. -/
theorem spell_adds (hadds : rest.Adds added given)
    (hnodup : ((added.map Prod.fst).map (spell caseSensitive)).Nodup)
    (halone : ∀ e ∈ added, ∀ name ∈ rest.keys,
      spell caseSensitive name = spell caseSensitive e.1 → name = e.1) :
    (spellAll caseSensitive rest).Adds (added.map (spellEntry caseSensitive))
      (spellAll caseSensitive given) := by
  constructor
  · intro e' hmem'
    obtain ⟨e, hmem, rfl⟩ := List.mem_map.1 hmem'
    have hadded : e.1 ∈ added.map Prod.fst := List.mem_map_of_mem hmem
    rw [← EnvMap.get?_eq_some_iff]
    refine EnvMap.get?_insertAll (fun g' hg' hspell => ?_) (.inr ?_)
    · obtain ⟨g, hg, rfl⟩ := List.mem_map.1 hg'
      have heq : spell caseSensitive g.1 = spell caseSensitive e.1 := hspell
      have hname : g.1 ∈ added.map Prod.fst :=
        mem_added_of_spell hadds halone (List.mem_map_of_mem hg)
          (heq ▸ List.mem_map_of_mem hadded)
      have hsame : g.1 = e.1 := List.inj_on_of_nodup_map hnodup hname hadded heq
      have hget := EnvMap.get?_eq_some_iff.2 hg
      rw [hsame, hadds.get?_of_mem hmem, Option.some.injEq] at hget
      exact hget.symm
    · exact List.mem_map_of_mem (List.mem_map_of_mem (hadds.mem e hmem))
  · -- A spelled entry is kept if and only if the entry is.
    have hkeep : ∀ m : EnvMap, (∀ name ∈ m.keys, name ∈ given.keys) →
        (m.toList.map (spellEntry caseSensitive)).filter (fun e => e.1 ∉
          (added.map Prod.fst).map (spell caseSensitive)) =
        (m.toList.filter fun e => e.1 ∉ added.map Prod.fst).map (spellEntry caseSensitive) := by
      intro m hkeys
      rw [List.filter_map]
      refine congrArg (List.map _) (List.filter_congr fun e hmem => ?_)
      rw [Function.comp_apply, decide_eq_decide, not_iff_not]
      exact ⟨mem_added_of_spell hadds halone (hkeys _ (List.mem_map_of_mem hmem)),
        fun hname => List.mem_map_of_mem hname⟩
    have hfilter := EnvMap.filter_insertAll
      (fun name => name ∉ (added.map Prod.fst).map (spell caseSensitive)) EnvMap.empty
    rw [map_fst_map_spellEntry, spellAll, spellAll, EnvMap.ofList, EnvMap.ofList, hfilter, hfilter,
      hkeep given fun _ => id, hkeep rest fun _ => hadds.mem_keys_given, hadds.rest]

/-- Entries that share their spellings with no others bring no two names to one spelling. -/
theorem nodup_spell_of_adds (hadds : rest.Adds added given)
    (hnodup : ((added.map Prod.fst).map (spell caseSensitive)).Nodup)
    (halone : ∀ e ∈ added, ∀ name ∈ rest.keys,
      spell caseSensitive name = spell caseSensitive e.1 → name = e.1)
    (hrest : (rest.keys.map (spell caseSensitive)).Nodup) :
    (given.keys.map (spell caseSensitive)).Nodup := by
  refine List.Nodup.map_on (fun name hname name' hname' heq => ?_) given.nodup_keys
  have hmem := mem_added_of_spell hadds halone hname
  have hmem' := mem_added_of_spell hadds halone hname'
  by_cases hadded : name ∈ added.map Prod.fst
  · exact List.inj_on_of_nodup_map hnodup hadded
      (hmem' (heq ▸ List.mem_map_of_mem hadded)) heq
  · have hadded' : name' ∉ added.map Prod.fst :=
      fun h => hadded (hmem (heq ▸ List.mem_map_of_mem h))
    exact List.inj_on_of_nodup_map hrest (hadds.mem_keys_rest hadded hname)
      (hadds.mem_keys_rest hadded' hname') heq

/-- The reading of the env file; without a file there is nothing to read. -/
def readEnvFile (host : Host) (mode : Dotenv.Mode) (envFile : Option String) :
    Except Error Dotenv.Reading :=
  match envFile with
  | some path => Dotenv.parseFile host mode path
  | none => .ok ⟨EnvMap.empty, []⟩

/-- The merged environment is the file below the runtime entries, under the case policy. -/
theorem build_eq_ok_iff {host : Host} {runtime : Option EnvMap} {envFile : Option String}
    {reading : Dotenv.Reading} :
    build host runtime envFile caseSensitive mode = .ok reading ↔
      ∃ file, readEnvFile host mode envFile = .ok file ∧
        applyCase caseSensitive mode (overlay file.env (runtime.getD host.environment)) =
          .ok reading.env ∧
        file.warnings = reading.warnings := by
  have hbuild : build host runtime envFile caseSensitive mode =
      (readEnvFile host mode envFile).bind fun file =>
        (applyCase caseSensitive mode (overlay file.env (runtime.getD host.environment))).bind
          fun env => .ok ⟨env, file.warnings⟩ := by
    cases envFile <;> rfl
  rw [hbuild]
  cases readEnvFile host mode envFile with
  | error e => simp [Except.bind]
  | ok file =>
    obtain ⟨env, warnings⟩ := reading
    cases hcase : applyCase caseSensitive mode
        (overlay file.env (runtime.getD host.environment)) with
    | error e => simp [Except.bind, hcase]
    | ok m => simp [Except.bind, hcase]

/-- No other name below the case policy is spelled like this one. -/
def Alone (host : Host) (runtime : Option EnvMap) (envFile : Option String)
    (caseSensitive : Bool) (mode : Dotenv.Mode) (name : String) : Prop :=
  ∀ file, readEnvFile host mode envFile = .ok file →
    ∀ other ∈ (overlay file.env (runtime.getD host.environment)).keys,
      spell caseSensitive other = spell caseSensitive name → other = name

variable {host : Host} {runtime : Option EnvMap} {envFile : Option String}

/-- A name whose spelling the merged environment does not have is alone. -/
theorem Alone.of_not_mem {reading : Dotenv.Reading}
    (hbuild : build host runtime envFile caseSensitive mode = .ok reading) {name : String}
    (hname : spell caseSensitive name ∉ reading.env.keys) :
    Alone host runtime envFile caseSensitive mode name := by
  intro file hfile other hmem hspell
  obtain ⟨file', hfile', hcase, -⟩ := build_eq_ok_iff.1 hbuild
  obtain rfl := Except.ok.inj (hfile.symm.trans hfile')
  obtain ⟨-, henv⟩ := applyCase_eq_ok_iff.1 hcase
  rw [← henv] at hname
  exact absurd (mem_keys_spellAll.2 ⟨other, hmem, hspell⟩) hname

/-- What a merge refuses it refuses with more runtime entries as well. -/
theorem exists_build_of_adds (hadds : (runtime.getD host.environment).Adds added given)
    {reading : Dotenv.Reading}
    (hbuild : build host (some given) envFile caseSensitive mode = .ok reading) :
    ∃ reading, build host runtime envFile caseSensitive mode = .ok reading := by
  obtain ⟨file, hfile, hcase, -⟩ := build_eq_ok_iff.1 hbuild
  obtain ⟨hnodup, -⟩ := applyCase_eq_ok_iff.1 hcase
  refine ⟨⟨spellAll caseSensitive (overlay file.env (runtime.getD host.environment)),
    file.warnings⟩, build_eq_ok_iff.2 ⟨file, hfile, ?_, rfl⟩⟩
  refine applyCase_eq_ok_iff.2 ⟨fun hmode => ?_, rfl⟩
  have hsub : ∀ name ∈ (overlay file.env (runtime.getD host.environment)).keys,
      name ∈ (overlay file.env given).keys := fun _ => (overlay_adds hadds).mem_keys_given
  refine List.Nodup.map_on (fun name hname name' hname' heq => ?_) (EnvMap.nodup_keys _)
  exact List.inj_on_of_nodup_map (hnodup hmode) (hsub name hname) (hsub name' hname') heq

/-- More runtime entries, each alone with its spelling, are added to the merged environment. -/
theorem build_adds (hadds : (runtime.getD host.environment).Adds added given)
    (hnodup : ((added.map Prod.fst).map (spell caseSensitive)).Nodup) {reading : Dotenv.Reading}
    (hbuild : build host runtime envFile caseSensitive mode = .ok reading)
    (halone : ∀ e ∈ added, Alone host runtime envFile caseSensitive mode e.1) :
    ∃ reading', build host (some given) envFile caseSensitive mode = .ok reading' ∧
      reading.env.Adds (added.map (spellEntry caseSensitive)) reading'.env := by
  obtain ⟨file, hfile, hcase, -⟩ := build_eq_ok_iff.1 hbuild
  obtain ⟨hrest, henv⟩ := applyCase_eq_ok_iff.1 hcase
  have hoverlay : (overlay file.env (runtime.getD host.environment)).Adds added
      (overlay file.env given) := overlay_adds hadds
  have halone' : ∀ e ∈ added, ∀ name ∈ (overlay file.env (runtime.getD host.environment)).keys,
      spell caseSensitive name = spell caseSensitive e.1 → name = e.1 :=
    fun e hmem => halone e hmem file hfile
  refine ⟨⟨spellAll caseSensitive (overlay file.env given), file.warnings⟩,
    build_eq_ok_iff.2 ⟨file, hfile, ?_, rfl⟩, ?_⟩
  · exact applyCase_eq_ok_iff.2
      ⟨fun hmode => nodup_spell_of_adds hoverlay hnodup halone' (hrest hmode), rfl⟩
  · rw [← henv]
    exact spell_adds hoverlay hnodup halone'

end EnvSettings.Merge
