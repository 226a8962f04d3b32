import EnvSettings.Proofs.Loader
import EnvSettings.Proofs.Text.Case
import EnvSettings.Proofs.Text.Separator
import EnvSettings.Proofs.Text.Split

namespace EnvSettings

namespace Text

variable {s t : String} {part text : List Char}

/-- The texts are the same but for the case of ASCII letters. -/
def Recased (s t : String) : Prop :=
  s.toList.map Char.toUpper = t.toList.map Char.toUpper

instance (s t : String) : Decidable (Recased s t) :=
  inferInstanceAs (Decidable (s.toList.map Char.toUpper = t.toList.map Char.toUpper))

/-- An ASCII letter and its upper case have the same full upper case. -/
theorem upperChar_toUpper (c : Char) : upperChar c.toUpper = upperChar c := by
  by_cases hlower : c.isLower
  · have hascii : c.toNat < 0x80 := by
      have hval : c.toNat = c.val.toNat := rfl
      simp only [Char.isLower, Bool.and_eq_true, decide_eq_true_eq,
        UInt32.le_iff_toNat_le] at hlower
      have := hlower.2
      simp at this
      omega
    rw [upperChar_of_ascii hascii, upperChar_of_ascii (toNat_toUpper_lt hascii),
      Char.toUpper_toUpper_eq_toUpper]
  · rw [Char.toUpper_eq_of_not_isLower hlower]

/-- Texts that differ in letter case only have the same upper case. -/
theorem Recased.upper_eq (hcase : Recased s t) : upper s = upper t := by
  have hmap (s : List Char) : upperCase (s.map Char.toUpper) = upperCase s := by
    rw [upperCase, List.flatMap_map]
    exact List.flatMap_congr fun c _ => upperChar_toUpper c
  rw [upper, ← hmap, hcase, hmap, upper]

/-- Only the empty text is another spelling of the empty text. -/
theorem Recased.eq_empty_iff (hcase : Recased s t) : s = "" ↔ t = "" := by
  have hlength := congrArg List.length hcase
  rw [List.length_map, List.length_map] at hlength
  rw [← String.toList_eq_nil_iff, ← String.toList_eq_nil_iff, ← List.length_eq_zero_iff, hlength,
    List.length_eq_zero_iff]

/-- Only a text that is its own upper case occurs in an upper case. -/
theorem upper_eq_self_of_occursIn (hpart : occursIn part text = true)
    (htext : ∀ c ∈ text, upperChar c = [c]) : upperCase part = part := by
  have hsub := (occursIn_iff.1 hpart).subset
  rw [upperCase, List.flatMap_congr fun c hmem => htext c (hsub hmem)]
  exact List.flatMap_singleton' part

end Text

namespace Projection

variable {p p' : Projection} {c : Catalog} {root : SchemaId} {env : List (String × String)}
  {data : Entries}

/-- Setting a value depends on the case policy and the bound alone. -/
theorem setAt_congr (hcase : p.caseSensitive = p'.caseSensitive) (hbound : p.bound = p'.bound)
    (value : String) (segments : List String) (id : SchemaId) (path : List String)
    (data : Entries) :
    p.setAt c value segments id path data = p'.setAt c value segments id path data := by
  induction segments generalizing id path data with
  | nil => rfl
  | cons segment rest ih =>
    rw [setAt, setAt, hcase, hbound]
    simp only [ih]

/-- What names set depends on the segments that are read in them. -/
theorem apply_congr (hcase : p.caseSensitive = p'.caseSensitive) (hbound : p.bound = p'.bound)
    (hsegments : ∀ e ∈ env, p.segments? e.1 = p'.segments? e.1) :
    p.apply c root env data = p'.apply c root env data := by
  induction env generalizing data with
  | nil => rfl
  | cons e env ih =>
    obtain ⟨he, hsegments⟩ := List.forall_mem_cons.1 hsegments
    have hentry : p.applyEntry c root data e = p'.applyEntry c root data e := by
      rw [applyEntry, applyEntry, he]
      cases p'.segments? e.1 with
      | none => rfl
      | some segments => exact setAt_congr hcase hbound e.2 segments root [] data
    rw [apply_cons, apply_cons, hentry]
    cases p'.applyEntry c root data e with
    | error e => rfl
    | ok data => exact ih hsegments

/-- Names without segments set nothing. -/
theorem apply_of_segments?_eq_none (hsegments : ∀ e ∈ env, p.segments? e.1 = none) :
    p.apply c root env data = .ok data := by
  induction env with
  | nil => rfl
  | cons e env ih =>
    obtain ⟨he, hsegments⟩ := List.forall_mem_cons.1 hsegments
    rw [apply_cons, applyEntry, he]
    exact ih hsegments

/-- A delimiter that is not its own upper case separates nothing in an upper case. -/
theorem segments?_eq_none (hdelimiter : Text.upper p.delimiter ≠ p.delimiter) (name : String) :
    p.segments? (Text.upper name) = none := by
  rw [segments?]
  cases hlead : Text.dropLead? p.spelledLead (Text.upper name).toList with
  | none => rfl
  | some rest =>
    have hname := Text.dropLead?_eq_some_iff.1 hlead
    have hrest : ∀ c ∈ rest, Text.upperChar c = [c] := by
      intro c hmem
      have hupper : c ∈ Text.upperCase name.toList := by
        rw [← String.toList_ofList (l := Text.upperCase name.toList)]
        exact hname ▸ List.mem_append_right _ hmem
      obtain ⟨d, -, hd⟩ := List.mem_flatMap.1 hupper
      exact Text.upperChar_of_mem_upperChar hd
    have hnone : Text.occursIn p.delimiter.toList rest = false := by
      rw [← Bool.not_eq_true]
      intro hoccurs
      refine hdelimiter ?_
      rw [Text.upper, Text.upper_eq_self_of_occursIn hoccurs hrest, String.ofList_toList]
    simp [hnone]

end Projection

namespace Loader

variable {l l' : Loader} {host : Host} {env env' : EnvMap} {lead : String}
  {delimiter : Option String}

/-- A load is the merging of the environment and the resolution of what it gives. -/
theorem load_congr (hbound : l.config.maxDepth = l'.config.maxDepth)
    (hmerged : l.merged host = l'.merged host)
    (hresolve : ∀ bound reading, l.merged host = .ok reading →
      l.resolve bound reading.env = l'.resolve bound reading.env) :
    l.load host = l'.load host := by
  cases hl : l.config.maxDepth with
  | error e => rw [load_of_maxDepth hl, load_of_maxDepth (hbound.symm.trans hl)]
  | ok bound =>
    cases hreading : l.merged host with
    | error e =>
      rw [load_of_merged_error hl hreading,
        load_of_merged_error (hbound.symm.trans hl) (hmerged.symm.trans hreading)]
    | ok reading =>
      rw [load_of_merged hl hreading,
        load_of_merged (hbound.symm.trans hl) (hmerged.symm.trans hreading),
        hresolve bound reading hreading]

/-- The loader with a lead text, a delimiter and runtime entries of its own. -/
def respelled (l : Loader) (lead : String) (delimiter : Option String) (env : EnvMap) : Loader :=
  { l with config := { l.config with lead, nestedDelimiter := delimiter }, env := some env }

/-- A lead text in another letter case gives the same environment names. -/
theorem envKey_congr (hlead : Text.Recased lead l.config.lead) (name : String) :
    envKey lead name false = envKey l.config.lead name false := by
  rw [envKey, envKey, if_neg Bool.false_ne_true, if_neg Bool.false_ne_true, Text.upper_append,
    Text.upper_append, hlead.upper_eq]

/-- Where case does not matter, a lead text in other case leads to the same raw values. -/
theorem rawValue_respelled (hcase : l.config.caseSensitive = false)
    (hlead : Text.Recased lead l.config.lead) (data : Entries) (merged : EnvMap) (f : Field) :
    (l.respelled lead delimiter env).rawValue data merged f = l.rawValue data merged f := by
  have hkey (name : String) : envKey lead name l.config.caseSensitive =
      envKey l.config.lead name l.config.caseSensitive := by
    rw [hcase]
    exact envKey_congr hlead name
  have hlookup : (l.respelled lead delimiter env).lookupEnv merged f = l.lookupEnv merged f :=
    findSome?_congr fun name _ => congrArg merged.get? (hkey name)
  rw [rawValue, rawValue, hlookup]
  simp only [respelled, hkey]

/-- Besides the raw values, only what nested names set depends on the spelling. -/
theorem resolve_respelled (hcase : l.config.caseSensitive = false)
    (hlead : Text.Recased lead l.config.lead) {bound : Option Nat} {merged : EnvMap}
    (hprojected : (l.respelled lead delimiter env).projected bound merged =
      l.projected bound merged) :
    (l.respelled lead delimiter env).resolve bound merged = l.resolve bound merged := by
  have hpayload : (l.respelled lead delimiter env).payload bound merged =
      l.payload bound merged := by
    rw [payload_eq, payload_eq, hprojected]
    rfl
  rw [resolve, resolve, hpayload]
  refine congrArg (l.payload bound merged >>= ·) (funext fun data => ?_)
  have hraw : (l.respelled lead delimiter env).rawValue data merged = l.rawValue data merged :=
    funext fun f => rawValue_respelled hcase hlead data merged f
  rw [hraw]
  rfl

/-- Two maps hold the same texts at the same places under names that are the same but for case. -/
def RecasedKeys (env env' : EnvMap) : Prop :=
  List.Forall₂ (fun e e' => Text.Recased e.1 e'.1 ∧ e.2 = e'.2) env.toList env'.toList

/-- Names in another letter case are spelled alike. -/
theorem map_spellEntry_of_recased {es es' : List (String × String)}
    (hentries : List.Forall₂ (fun e e' => Text.Recased e.1 e'.1 ∧ e.2 = e'.2) es es') :
    es.map (Merge.spellEntry false) = es'.map (Merge.spellEntry false) := by
  induction hentries with
  | nil => rfl
  | cons he _ ih =>
    obtain ⟨hname, htext⟩ := he
    rw [List.map_cons, List.map_cons, ih]
    exact congrArg (· :: _) (Prod.ext hname.upper_eq htext)

/-- Without an env file, the runtime entries in upper case are the merged environment. -/
theorem merged_eq_spellAll (hcase : l.config.caseSensitive = false)
    (hfile : l.config.envFile = none) (henv : l.env = some env)
    (hnames : l.config.strictEnvFile = true → (env.keys.map Text.upper).Nodup) (host : Host) :
    l.merged host = .ok ⟨Merge.spellAll false env, []⟩ := by
  have hoverlay : Merge.overlay EnvMap.empty (l.env.getD host.environment) = env := by
    rw [henv]
    exact EnvMap.ofList_toList env
  refine Merge.build_eq_ok_iff.2 ⟨⟨EnvMap.empty, []⟩, by rw [hfile]; rfl, ?_, rfl⟩
  rw [hoverlay, hcase]
  refine Merge.applyCase_eq_ok_iff.2 ⟨fun hmode => hnames ?_, rfl⟩
  simpa using hmode

/-- Names in another letter case are merged to the same environment. -/
theorem merged_respelled (hcase : l.config.caseSensitive = false)
    (hfile : l.config.envFile = none) (henv : l.env = some env)
    (hnames : l.config.strictEnvFile = true → (env.keys.map Text.upper).Nodup)
    (hentries : RecasedKeys env' env) (host : Host) :
    (l.respelled lead delimiter env').merged host = l.merged host := by
  have hspell := map_spellEntry_of_recased hentries
  have hkeys : env'.keys.map Text.upper = env.keys.map Text.upper := by
    have hforms := congrArg (List.map Prod.fst) hspell
    rwa [Merge.map_fst_map_spellEntry, Merge.map_fst_map_spellEntry] at hforms
  have hnames' : l.config.strictEnvFile = true → (env'.keys.map Text.upper).Nodup :=
    fun hstrict => hkeys ▸ hnames hstrict
  have hmerged : (l.respelled lead delimiter env').merged host =
      .ok ⟨Merge.spellAll false env', []⟩ :=
    merged_eq_spellAll (l := l.respelled lead delimiter env') hcase hfile rfl hnames' host
  rw [merged_eq_spellAll hcase hfile henv hnames, hmerged, Merge.spellAll, Merge.spellAll, hspell]

/-- Where the nested names set the same, so does the whole load. -/
theorem load_respelled_of_projected (hcase : l.config.caseSensitive = false)
    (hfile : l.config.envFile = none) (henv : l.env = some env)
    (hnames : l.config.strictEnvFile = true → (env.keys.map Text.upper).Nodup)
    (hlead : Text.Recased lead l.config.lead) (hentries : RecasedKeys env' env) (host : Host)
    (hprojected : ∀ bound, (l.respelled lead delimiter env').projected bound
      (Merge.spellAll false env) = l.projected bound (Merge.spellAll false env)) :
    (l.respelled lead delimiter env').load host = l.load host := by
  have hmerged : (l.respelled lead delimiter env').merged host = l.merged host :=
    merged_respelled hcase hfile henv hnames hentries host
  refine load_congr rfl hmerged fun bound reading hreading => ?_
  rw [hmerged, merged_eq_spellAll hcase hfile henv hnames] at hreading
  obtain rfl := Except.ok.inj hreading
  exact resolve_respelled hcase hlead (hprojected bound)

/-- The delimiter, if there is one, is its own upper case. -/
def UpperDelimiter (l : Loader) : Prop :=
  ∀ delimiter ∈ l.config.delimiter?, Text.upper delimiter = delimiter

/-- Otherwise nested names set nothing in an environment of upper-case names. -/
theorem projected_of_not_upperDelimiter (hupper : ¬ l.UpperDelimiter) (bound : Option Nat)
    (env : EnvMap) : l.projected bound (Merge.spellAll false env) = .ok [] := by
  rw [UpperDelimiter] at hupper
  rw [projected]
  cases hdelimiter : l.config.delimiter? with
  | none => rfl
  | some delimiter =>
    simp only [hdelimiter, Option.mem_def, Option.some.injEq, forall_eq'] at hupper
    refine Projection.apply_of_segments?_eq_none fun e he => ?_
    obtain ⟨name, -, hname⟩ := Merge.mem_keys_spellAll.1 (List.mem_map_of_mem he)
    rw [← hname]
    exact Projection.segments?_eq_none
      (p := ⟨l.config.lead, delimiter, l.config.caseSensitive, bound⟩) hupper name

/-- Two delimiters in upper case that are the same but for case are the same. -/
theorem delimiter?_respelled
    (hdelimiter : Option.Rel Text.Recased delimiter l.config.nestedDelimiter)
    (hupper : (l.respelled lead delimiter env).UpperDelimiter ∧ l.UpperDelimiter) :
    (l.respelled lead delimiter env).config.delimiter? = l.config.delimiter? := by
  obtain ⟨hupper, hupper'⟩ := hupper
  simp only [UpperDelimiter, respelled, Config.delimiter?] at hupper hupper' ⊢
  revert hdelimiter hupper'
  generalize l.config.nestedDelimiter = delimiter'
  rintro (hrecased | _) hupper'
  · rename_i d d'
    by_cases hempty : d = ""
    · simp [hempty, hrecased.eq_empty_iff.1 hempty]
    · have hempty' := mt hrecased.eq_empty_iff.2 hempty
      simp [hempty, hempty'] at hupper hupper' ⊢
      rw [← hupper, ← hupper', hrecased.upper_eq]
  · rfl

/-- A lead text in another letter case projects the same settings. -/
theorem projected_respelled (hcase : l.config.caseSensitive = false)
    (hlead : Text.Recased lead l.config.lead)
    (hdelimiter : (l.respelled lead delimiter env).config.delimiter? = l.config.delimiter?)
    (bound : Option Nat) (merged : EnvMap) :
    (l.respelled lead delimiter env).projected bound merged = l.projected bound merged := by
  rw [projected, projected, hdelimiter]
  cases l.config.delimiter? with
  | none => rfl
  | some delimiter =>
    refine Projection.apply_congr rfl rfl fun e _ => ?_
    have hspelled : Text.upperCase lead.toList = Text.upperCase l.config.lead.toList :=
      String.ofList_inj.1 hlead.upper_eq
    simp [Projection.segments?, Projection.spelledLead, respelled, hcase, hspelled]

/-- An application has a database with a host. -/
def letterCatalog : Catalog :=
  ⟨#[{ name := "Database", fields := [{ name := "host", type := .str }] },
    { name := "App", fields := [{ name := "db", type := .nested 0 }] }]⟩

/-- The environment gives the host, in lower case. -/
def letterEnv : EnvMap :=
  EnvMap.ofList [("db_x_host", "local")]

/-- A loader with a delimiter of letters. -/
def letterLoader (delimiter : String) : Loader where
  catalog := letterCatalog
  root := 1
  config := { nestedDelimiter := some delimiter }
  env := some letterEnv

/-- The database with its host. -/
def letterRecord : Record where
  schema := "App"
  fields := [("db", .record "Database" [("host", .str "local")])]

theorem toList_letterEnv : letterEnv.toList = [("db_x_host", "local")] :=
  EnvMap.toList_insertAll (List.nodup_singleton _)

theorem letterEnv_nodup : (letterEnv.keys.map Text.upper).Nodup := by
  rw [EnvMap.keys, toList_letterEnv]
  exact List.nodup_singleton _

/-- A load is known from what the name in upper case resolves to. -/
theorem letterLoader_load (delimiter : String) {result : Except Error Record}
    (hresolve : ∀ env : EnvMap, env.toList = [("DB_X_HOST", "local")] →
      env.get? = ([("DB_X_HOST", "local")].lookup ·) →
      (letterLoader delimiter).resolve none env = result) :
    ((letterLoader delimiter).load {}).result = result := by
  have hspelled : (Merge.spellAll false letterEnv).toList = [("DB_X_HOST", "local")] := by
    have hupper : Text.upper "db_x_host" = "DB_X_HOST" := by decide +kernel
    rw [Merge.spellAll, toList_letterEnv]
    simp [Merge.spellEntry, Merge.spell, hupper, EnvMap.ofList, EnvMap.insertAll,
      EnvMap.insertEntry]
  rw [load_result, merged_eq_spellAll rfl rfl rfl fun _ => letterEnv_nodup]
  refine hresolve _ hspelled (funext fun name => ?_)
  rw [EnvMap.get?_eq_lookup, hspelled]

/-- In upper case the delimiter separates the segments of the name. -/
theorem letterLoader_load_upper : ((letterLoader "_X_").load {}).result = .ok letterRecord := by
  refine letterLoader_load "_X_" fun env hlist hget => ?_
  delta Loader.resolve Loader.payload Loader.rawValue Loader.lookupEnv
  simp only [hlist, hget]
  clear hlist hget
  cbv

/-- As the name is written, the delimiter does not separate its segments. -/
theorem letterLoader_load_lower : ((letterLoader "_x_").load {}).result =
    .error { problem := .missingSetting "db" "DB" } := by
  refine letterLoader_load "_x_" fun env hlist hget => ?_
  delta Loader.resolve Loader.payload Loader.rawValue Loader.lookupEnv
  simp only [hlist, hget]
  clear hlist hget
  cbv

/-- Where case does not matter and there is no env file, the case of ASCII letters in the names of
the environment and in the lead text makes no difference to a load, if no two names are the same but
for case or the reading is lenient. The case of the delimiter makes none if both delimiters are
their own upper case, or neither is. One that is not its own upper case is as good as none. -/
theorem load_respelled (hcase : l.config.caseSensitive = false)
    (hfile : l.config.envFile = none) (henv : l.env = some env)
    (hnames : l.config.strictEnvFile = true → (env.keys.map Text.upper).Nodup)
    (hlead : Text.Recased lead l.config.lead)
    (hdelimiter : Option.Rel Text.Recased delimiter l.config.nestedDelimiter)
    (hentries : RecasedKeys env' env) (host : Host) :
    (((l.respelled lead delimiter env').UpperDelimiter ↔ l.UpperDelimiter) →
      (l.respelled lead delimiter env').load host = l.load host) ∧
    (¬ (l.respelled lead delimiter env').UpperDelimiter →
      (l.respelled lead delimiter env').load host =
        (l.respelled l.config.lead none env).load host) := by
  constructor
  · intro hupper
    refine load_respelled_of_projected hcase hfile henv hnames hlead hentries host fun bound => ?_
    by_cases hown : l.UpperDelimiter
    · exact projected_respelled hcase hlead
        (delimiter?_respelled hdelimiter ⟨hupper.2 hown, hown⟩) bound _
    · rw [projected_of_not_upperDelimiter hown,
        projected_of_not_upperDelimiter (mt hupper.1 hown)]
  · intro hother
    exact load_respelled_of_projected (l := l.respelled l.config.lead none env) hcase hfile rfl
      hnames hlead hentries host fun bound => projected_of_not_upperDelimiter hother bound env

/-- With the delimiter in upper case, the name of the host may be written in any case. With a letter
of the delimiter in lower case, the name is not even found in the case of the delimiter. -/
theorem load_respelled_host :
    let l := letterLoader "_X_"
    let env := EnvMap.ofList [("DB_x_Host", "local")]
    l.config.caseSensitive = false ∧ l.config.envFile = none ∧ l.env = some letterEnv ∧
      (letterEnv.keys.map Text.upper).Nodup ∧ Text.Recased "" l.config.lead ∧
      RecasedKeys env letterEnv ∧
      ((l.respelled "" (some "_X_") env).load {}).result = .ok letterRecord ∧
      (l.respelled "" (some "_x_") env).load {} = (l.respelled "" none letterEnv).load {} := by
  intro l env
  have hlist : env.toList = [("DB_x_Host", "local")] :=
    EnvMap.toList_insertAll (List.nodup_singleton "DB_x_Host")
  have hentries : RecasedKeys env letterEnv := by
    rw [RecasedKeys, hlist, toList_letterEnv]
    exact .cons ⟨by decide, rfl⟩ .nil
  have hupper : (l.respelled "" (some "_X_") env).UpperDelimiter ↔ l.UpperDelimiter := Iff.rfl
  have hlower : ¬ (l.respelled "" (some "_x_") env).UpperDelimiter := by
    intro hown
    exact absurd (hown "_x_" rfl) (by decide +kernel)
  have hsame := (load_respelled (l := l) rfl rfl rfl (fun _ => letterEnv_nodup) rfl
    (.some (b := "_X_") rfl) hentries {}).1 hupper
  have hnone := (load_respelled (l := l) rfl rfl rfl (fun _ => letterEnv_nodup) rfl
    (.some (b := "_X_") (by decide)) hentries {}).2 hlower
  exact ⟨rfl, rfl, rfl, letterEnv_nodup, rfl, hentries,
    (congrArg Loading.result hsame).trans letterLoader_load_upper, hnone⟩

/-- The case of the delimiter decides whether the host is found. -/
theorem load_delimiter_case :
    let l := letterLoader "_X_"
    l.config.caseSensitive = false ∧ l.config.envFile = none ∧ l.env = some letterEnv ∧
      (letterEnv.keys.map Text.upper).Nodup ∧ RecasedKeys letterEnv letterEnv ∧
      Option.Rel Text.Recased (some "_x_") l.config.nestedDelimiter ∧
      (l.load {}).result = .ok letterRecord ∧
      ((l.respelled "" (some "_x_") letterEnv).load {}).result =
        .error { problem := .missingSetting "db" "DB" } := by
  have hentries : RecasedKeys letterEnv letterEnv := by
    rw [RecasedKeys, toList_letterEnv]
    exact .cons ⟨rfl, rfl⟩ .nil
  exact ⟨rfl, rfl, rfl, letterEnv_nodup, hentries, .some (by decide), letterLoader_load_upper,
    letterLoader_load_lower⟩

end Loader

end EnvSettings
