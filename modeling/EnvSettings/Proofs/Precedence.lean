import Mathlib
import EnvSettings.Proofs.Merge

namespace EnvSettings.Merge

variable {caseSensitive : Bool} {mode : Dotenv.Mode} {file runtime : EnvMap}
  {names : List String} {spelling name : String}

/-- The last of some names that has a spelling. -/
def lastSpelled (caseSensitive : Bool) (names : List String) (spelling : String) : Option String :=
  (names.filter (spell caseSensitive · = spelling)).getLast?

theorem lastSpelled_eq_none_iff :
    lastSpelled caseSensitive names spelling = none ↔
      ∀ name ∈ names, spell caseSensitive name ≠ spelling := by
  simp [lastSpelled]

/-- A name that is found is one with the spelling. -/
theorem lastSpelled_eq_some (hlast : lastSpelled caseSensitive names spelling = some name) :
    name ∈ names ∧ spell caseSensitive name = spelling := by
  simpa using List.mem_filter.1 (List.mem_of_getLast? hlast)

/-- The merged environment has under a spelling the text of the last name with it. -/
theorem get?_spellAll (m : EnvMap) (spelling : String) :
    (spellAll caseSensitive m).get? spelling =
      (lastSpelled caseSensitive m.keys spelling).bind m.get? := by
  have hentries : (m.toList.map (spellEntry caseSensitive)).filter (·.1 = spelling) =
      (m.keys.filter (spell caseSensitive · = spelling)).map
        fun name => (spelling, (m.get? name).getD "") := by
    conv_lhs => rw [m.toList_eq_map_keys, List.map_map, List.filter_map]
    refine List.map_congr_left fun name hmem => ?_
    exact Prod.ext (of_decide_eq_true (List.mem_filter.1 hmem).2) rfl
  rw [spellAll, EnvMap.ofList, EnvMap.get?_insertAll_eq_or, hentries, List.getLast?_map,
    lastSpelled]
  cases hlast : (m.keys.filter (spell caseSensitive · = spelling)).getLast? with
  | none =>
    rw [EnvMap.get?_eq_lookup]
    rfl
  | some name =>
    have hmem : name ∈ m.keys := List.mem_of_mem_filter (List.mem_of_getLast? hlast)
    obtain ⟨text, htext⟩ := Option.ne_none_iff_exists'.1 (EnvMap.mem_keys_iff.1 hmem)
    simp [htext]

/-- The runtime names that the file does not have. -/
def newNames (file runtime : EnvMap) : List String :=
  runtime.keys.filter (· ∉ file.keys)

/-- The new names are those that only the runtime entries have. -/
theorem mem_newNames : name ∈ newNames file runtime ↔ name ∈ runtime.keys ∧ name ∉ file.keys := by
  simp [newNames]

/-- Names of the file keep their places below the runtime. -/
theorem keys_overlay (file runtime : EnvMap) :
    (overlay file runtime).keys = file.keys ++ newNames file runtime :=
  EnvMap.keys_insertAll runtime.nodup_keys

theorem get?_overlay (file runtime : EnvMap) (name : String) :
    (overlay file runtime).get? name = (runtime.get? name).or (file.get? name) := by
  cases hget : runtime.get? name with
  | none =>
    have hnone : runtime.toList.filter (·.1 = name) = [] := by
      rw [List.filter_eq_nil_iff]
      intro e hmem heq
      exact EnvMap.get?_eq_none_iff.1 hget (List.mem_map.2 ⟨e, hmem, by simpa using heq⟩)
    rw [overlay, EnvMap.get?_insertAll_eq_or, hnone]
    rfl
  | some text =>
    have hmem : (name, text) ∈ runtime.toList := EnvMap.get?_eq_some_iff.1 hget
    refine EnvMap.get?_insertAll (fun e he hname => ?_) (.inr (List.mem_map_of_mem hmem))
    have hother : runtime.get? e.1 = some e.2 := EnvMap.get?_eq_some_iff.2 he
    rw [hname, hget, Option.some.injEq] at hother
    exact hother.symm

/-- The name that decides is the last one that the runtime adds, else the last one of the file. -/
theorem get?_spellAll_overlay (file runtime : EnvMap) (spelling : String) :
    (spellAll caseSensitive (overlay file runtime)).get? spelling =
      ((lastSpelled caseSensitive (newNames file runtime) spelling).or
        (lastSpelled caseSensitive file.keys spelling)).bind
          fun name => (runtime.get? name).or (file.get? name) := by
  rw [get?_spellAll, keys_overlay, lastSpelled, List.filter_append, List.getLast?_append]
  exact congrArg _ (funext (get?_overlay file runtime))

/-- The file decides what stands under a spelling: its last name with the spelling is not given at
the runtime, and the runtime gives no name with the spelling that the file does not have. -/
structure FileDecides (caseSensitive : Bool) (file runtime : EnvMap) (spelling name : String) :
    Prop where
  last : lastSpelled caseSensitive file.keys spelling = some name
  unset : name ∉ runtime.keys
  known : ∀ other ∈ runtime.keys, spell caseSensitive other = spelling → other ∈ file.keys

theorem lastSpelled_newNames_eq_none_iff :
    lastSpelled caseSensitive (newNames file runtime) spelling = none ↔
      ∀ other ∈ runtime.keys, spell caseSensitive other = spelling → other ∈ file.keys := by
  rw [lastSpelled_eq_none_iff]
  constructor
  · intro hnone other hother hspell
    by_contra hfresh
    exact hnone other (mem_newNames.2 ⟨hother, hfresh⟩) hspell
  · intro hknown other hother hspell
    obtain ⟨hother, hfresh⟩ := mem_newNames.1 hother
    exact hfresh (hknown other hother hspell)

namespace FileDecides

/-- Where the file decides stands the text of its last name with the spelling. -/
theorem get?_eq (hdecides : FileDecides caseSensitive file runtime spelling name) :
    name ∈ file.keys ∧ spell caseSensitive name = spelling ∧
      (spellAll caseSensitive (overlay file runtime)).get? spelling = file.get? name := by
  obtain ⟨hname, hspell⟩ := lastSpelled_eq_some hdecides.last
  refine ⟨hname, hspell, ?_⟩
  rw [get?_spellAll_overlay, lastSpelled_newNames_eq_none_iff.2 hdecides.known, hdecides.last,
    Option.none_or, Option.bind_some, EnvMap.get?_eq_none_iff.2 hdecides.unset, Option.none_or]

/-- Where the file decides, a runtime name with the spelling makes two names of one spelling. -/
theorem not_spelled (hdecides : FileDecides caseSensitive file runtime spelling name)
    (hnodup : ((overlay file runtime).keys.map (spell caseSensitive)).Nodup) :
    ∀ other ∈ runtime.keys, spell caseSensitive other ≠ spelling := by
  intro other hother hspell
  obtain ⟨hname, hspell'⟩ := lastSpelled_eq_some hdecides.last
  have hsame : other = name :=
    List.inj_on_of_nodup_map hnodup (EnvMap.mem_keys_insertAll.2 (.inr hother))
      (EnvMap.mem_keys_insertAll.2 (.inl hname)) (hspell.trans hspell'.symm)
  exact hdecides.unset (hsame ▸ hother)

end FileDecides

/-- Where the file does not decide stands the text of a runtime name with the spelling. -/
theorem exists_given_of_not_fileDecides
    (hmem : spelling ∈ (spellAll caseSensitive (overlay file runtime)).keys)
    (hfree : ∀ name, ¬ FileDecides caseSensitive file runtime spelling name) :
    ∃ name ∈ runtime.keys, spell caseSensitive name = spelling ∧
      (spellAll caseSensitive (overlay file runtime)).get? spelling = runtime.get? name := by
  rw [EnvMap.mem_keys_iff, get?_spellAll_overlay] at hmem
  rw [get?_spellAll_overlay]
  have hgives : ∀ name ∈ runtime.keys,
      (runtime.get? name).or (file.get? name) = runtime.get? name := by
    intro name hname
    obtain ⟨text, htext⟩ := Option.ne_none_iff_exists'.1 (EnvMap.mem_keys_iff.1 hname)
    rw [htext, Option.some_or]
  cases hnew : lastSpelled caseSensitive (newNames file runtime) spelling with
  | some name =>
    obtain ⟨hname, hspell⟩ := lastSpelled_eq_some hnew
    obtain ⟨hgiven, -⟩ := mem_newNames.1 hname
    exact ⟨name, hgiven, hspell, hgives name hgiven⟩
  | none =>
    cases hlast : lastSpelled caseSensitive file.keys spelling with
    | none => simp [hnew, hlast] at hmem
    | some name =>
      have hgiven : name ∈ runtime.keys := by
        by_contra hunset
        exact hfree name ⟨hlast, hunset, lastSpelled_newNames_eq_none_iff.1 hnew⟩
      exact ⟨name, hgiven, (lastSpelled_eq_some hlast).2, hgives name hgiven⟩

/-- The file decides where the runtime gives no name with the spelling. -/
theorem exists_fileDecides
    (hmem : spelling ∈ (spellAll caseSensitive (overlay file runtime)).keys)
    (hnone : ∀ name ∈ runtime.keys, spell caseSensitive name ≠ spelling) :
    ∃ name, FileDecides caseSensitive file runtime spelling name := by
  by_contra hfree
  obtain ⟨name, hname, hspell, -⟩ :=
    exists_given_of_not_fileDecides hmem (not_exists.1 hfree)
  exact hnone name hname hspell

variable {host : Host} {entries : Option EnvMap} {envFile : Option String}

/-- Under a spelling of the merged environment stands the text of a runtime name with it, except
where the file decides. That is where the runtime gives no name with the spelling, and no other
place if case matters or the reading is strict. -/
theorem build_precedence {reading : Dotenv.Reading}
    (hbuild : build host entries envFile caseSensitive mode = .ok reading) :
    ∃ file, readEnvFile host mode envFile = .ok file ∧ ∀ spelling ∈ reading.env.keys,
      let given := entries.getD host.environment
      ((∀ name, ¬ FileDecides caseSensitive file.env given spelling name) →
        ∃ name ∈ given.keys, spell caseSensitive name = spelling ∧
          reading.env.get? spelling = given.get? name) ∧
      (∀ name, FileDecides caseSensitive file.env given spelling name →
        name ∈ file.env.keys ∧ spell caseSensitive name = spelling ∧
          reading.env.get? spelling = file.env.get? name) ∧
      ((∀ name ∈ given.keys, spell caseSensitive name ≠ spelling) →
        ∃ name, FileDecides caseSensitive file.env given spelling name) ∧
      (caseSensitive = true ∨ mode = .strict →
        (∃ name ∈ given.keys, spell caseSensitive name = spelling) →
          ∀ name, ¬ FileDecides caseSensitive file.env given spelling name) := by
  obtain ⟨file, hfile, hcase, -⟩ := build_eq_ok_iff.1 hbuild
  obtain ⟨hstrict, henv⟩ := applyCase_eq_ok_iff.1 hcase
  refine ⟨file, hfile, fun spelling hmem => ?_⟩
  intro given
  rw [← henv] at hmem ⊢
  refine ⟨exists_given_of_not_fileDecides hmem, fun name hdecides => hdecides.get?_eq,
    exists_fileDecides hmem, ?_⟩
  rintro hpolicy ⟨other, hother, hspell⟩ name hdecides
  refine hdecides.not_spelled ?_ other hother hspell
  obtain rfl | rfl := hpolicy
  · exact (List.map_id _).symm ▸ EnvMap.nodup_keys _
  · exact hstrict rfl

/-- A file with two names that differ in their case, and a third name. -/
def twinsHost : Host where
  files := ⟨[([".env"], .file "HOST=file\nhost=stale\nPORT=1\n".toUTF8)]⟩

/-- A file with two spellings of one name. -/
def twinsFile : EnvMap :=
  .ofList [("HOST", "file"), ("host", "stale"), ("PORT", "1")]

/-- Runtime entries for one of the two names, and for the third one in another case. -/
def twinsGiven : EnvMap :=
  .ofList [("HOST", "runtime"), ("port", "2")]

theorem readEnvFile_twins :
    readEnvFile twinsHost .lenient (some ".env") = .ok ⟨twinsFile, []⟩ := by
  cbv

/-- The merged environment, with its names brought to upper case. -/
theorem build_twins :
    build twinsHost (some twinsGiven) (some ".env") false .lenient =
      .ok ⟨spellAll false (overlay twinsFile twinsGiven), []⟩ :=
  build_eq_ok_iff.2 ⟨_, readEnvFile_twins,
    applyCase_eq_ok_iff.2 ⟨fun hstrict => (nomatch hstrict), rfl⟩, rfl⟩

/-- The names of the file and those of the runtime entries. -/
theorem keys_twins :
    twinsFile.keys = ["HOST", "host", "PORT"] ∧ twinsGiven.keys = ["HOST", "port"] := by
  simp [twinsFile, twinsGiven, EnvMap.keys, EnvMap.ofList, EnvMap.insertAll, EnvMap.insertEntry]

theorem get?_twins :
    twinsFile.get? "host" = some "stale" ∧ twinsGiven.get? "HOST" = some "runtime" ∧
      twinsGiven.get? "port" = some "2" := by
  simp [EnvMap.get?_eq_lookup, twinsFile, twinsGiven, EnvMap.ofList, EnvMap.insertAll,
    EnvMap.insertEntry, List.lookup_cons]

theorem spell_twins :
    spell false "HOST" = "HOST" ∧ spell false "host" = "HOST" ∧ spell false "PORT" = "PORT" ∧
      spell false "port" = "PORT" :=
  ⟨by cbv, by cbv, by cbv, by cbv⟩

/-- Both spellings are in the merged environment. -/
theorem mem_keys_twins :
    "HOST" ∈ (spellAll false (overlay twinsFile twinsGiven)).keys ∧
      "PORT" ∈ (spellAll false (overlay twinsFile twinsGiven)).keys := by
  obtain ⟨hHOST, hhost, hPORT, hport⟩ := spell_twins
  have hnames : (overlay twinsFile twinsGiven).keys = ["HOST", "host", "PORT", "port"] := by
    rw [keys_overlay, newNames, keys_twins.1, keys_twins.2]
    decide
  rw [mem_keys_spellAll, mem_keys_spellAll, hnames]
  exact ⟨⟨"HOST", by simp, hHOST⟩, ⟨"PORT", by simp, hPORT⟩⟩

/-- The file decides under `HOST`: its name `host` comes after `HOST`, which the runtime gives. -/
theorem fileDecides_twins : FileDecides false twinsFile twinsGiven "HOST" "host" := by
  obtain ⟨hHOST, hhost, hPORT, hport⟩ := spell_twins
  refine ⟨?_, ?_, ?_⟩
  · simp [lastSpelled, keys_twins, hHOST, hhost, hPORT]
  · simp [keys_twins]
  · simp [keys_twins, hport]

/-- Under `PORT` stands the text that the runtime gives for `port`, and under `HOST` what the file
has for `host`. -/
theorem build_precedence_twins :
    ∃ reading, build twinsHost (some twinsGiven) (some ".env") false .lenient = .ok reading ∧
      reading.env.get? "PORT" = some "2" ∧ reading.env.get? "HOST" = some "stale" := by
  obtain ⟨hHOST, hhost, hPORT, hport⟩ := spell_twins
  obtain ⟨hstale, -, htwo⟩ := get?_twins
  obtain ⟨file, hread, hdecide⟩ := build_precedence build_twins
  obtain rfl : ⟨twinsFile, []⟩ = file := Except.ok.inj (readEnvFile_twins.symm.trans hread)
  obtain ⟨hmemHOST, hmemPORT⟩ := mem_keys_twins
  obtain ⟨-, hfile, -⟩ := hdecide "HOST" hmemHOST
  obtain ⟨hfree, -⟩ := hdecide "PORT" hmemPORT
  refine ⟨_, build_twins, ?_, (hfile "host" fileDecides_twins).2.2.trans hstale⟩
  obtain ⟨name, hname, hspell, hget⟩ := hfree fun name hdecides => by
    have hknown := hdecides.known "port" (by simp [keys_twins]) hport
    simp [keys_twins] at hknown
  obtain rfl | rfl : name = "HOST" ∨ name = "port" := by simpa [keys_twins] using hname
  · simp [hHOST] at hspell
  · exact hget.trans htwo

/-- A value of the file stands under a spelling that the runtime gives: `host` of the file goes
before `HOST` of the runtime. -/
theorem build_overruled :
    ∃ reading, build twinsHost (some twinsGiven) (some ".env") false .lenient = .ok reading ∧
      "HOST" ∈ twinsGiven.keys ∧ spell false "HOST" = "HOST" ∧
      ¬ ∃ name ∈ twinsGiven.keys, spell false name = "HOST" ∧
        reading.env.get? "HOST" = twinsGiven.get? name := by
  obtain ⟨hHOST, -, -, hport⟩ := spell_twins
  obtain ⟨hstale, hruntime, -⟩ := get?_twins
  refine ⟨_, build_twins, by simp [keys_twins], hHOST, ?_⟩
  rintro ⟨name, hname, hspell, hget⟩
  obtain rfl : name = "HOST" := by
    have hname : name = "HOST" ∨ name = "port" := by simpa [keys_twins] using hname
    refine hname.resolve_right ?_
    rintro rfl
    simp [hport] at hspell
  rw [fileDecides_twins.get?_eq.2.2, hstale, hruntime] at hget
  simp at hget

end EnvSettings.Merge
