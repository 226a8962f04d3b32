import EnvSettings.Proofs.Dotenv.Enclosed
import EnvSettings.Proofs.Dotenv.RoundTrip

namespace EnvSettings.Dotenv

namespace Scope

variable {scope : Scope} {d : Declaration}

theorem declaration?_single (hd : scope.declarations = [d]) (name : String) :
    scope.declaration? name = if d.key = name then some d else none := by
  by_cases hname : d.key = name <;> simp [declaration?, hd, hname]

/-- A value that does not mention its own name is expanded with what stands outside. -/
theorem substitute_referent_single (hd : scope.declarations = [d])
    (hself : ¬ Mentions d.raw.toList d.key.toList) (value : String → Option String) :
    substitute (scope.referent value) (pieces d.raw.toList) =
      substitute scope.outside (pieces d.raw.toList) := by
  have hname : ∀ name, .reference name ∈ pieces d.raw.toList →
      scope.referent value name = scope.outside name := by
    intro name hmem
    have hne : d.key ≠ name := fun heq => hself (heq ▸ mem_pieces_iff.1 hmem)
    simp [referent, declaration?_single hd, hne]
  apply Option.ext
  intro text
  exact ⟨substitute_mono fun name v hmem hv => hname name hmem ▸ hv,
    substitute_mono fun name v hmem hv => (hname name hmem).symm ▸ hv⟩

theorem acyclic_single_iff (hd : scope.declarations = [d]) :
    scope.Acyclic ↔ ¬ Mentions d.raw.toList d.key.toList := by
  have hrefers : ∀ {key name}, scope.RefersTo key name →
      key = d.key ∧ Mentions d.raw.toList d.key.toList := by
    rintro key name ⟨e, he, hmention, e', he'⟩
    rw [declaration?_single hd] at he he'
    split at he <;> simp_all
  constructor
  · intro hacyclic hself
    refine hacyclic d.key (.single ⟨d, ?_, hself, d, ?_⟩) <;> simp [declaration?_single hd]
  · intro hself key hcycle
    obtain ⟨name, href, -⟩ := Relation.TransGen.head'_iff.1 hcycle
    exact hself (hrefers href).2

theorem closed_single_iff (hd : scope.declarations = [d])
    (hself : ¬ Mentions d.raw.toList d.key.toList) :
    scope.Closed ↔ (substitute scope.outside (pieces d.raw.toList)).isSome := by
  rw [substitute_isSome]
  constructor
  · intro hclosed name hmem
    have hmention := mem_pieces_iff.1 hmem
    have hne : d.key ≠ name := fun heq => hself (heq ▸ hmention)
    obtain ⟨text, htext⟩ := hclosed d.key d name (by simp [declaration?_single hd]) hmention
      (by simp [declaration?_single hd, hne])
    simp [htext]
  · intro hknown key e name he hmention _
    obtain rfl : d = e := by
      rw [declaration?_single hd] at he
      split at he <;> simp_all
    exact Option.isSome_iff_exists.1 (hknown name (mem_pieces_iff.2 hmention))

/-- The strict expansion of a single declaration replaces the names that its value mentions by what
stands for them outside. -/
theorem of_expand_single (hmode : scope.mode = .strict) (hd : scope.declarations = [d])
    {env : EnvMap} {memo : Memo} (hexpand : scope.expand = .ok (env, memo)) :
    ¬ Mentions d.raw.toList d.key.toList ∧ memo.warnings = [] ∧
      ∃ text, substitute scope.outside (pieces d.raw.toList) = some text ∧
        env = EnvMap.ofList [(d.key, String.ofList text)] := by
  have hkeys : (scope.declarations.map (·.key)).Nodup := by simp [hd]
  have hself := (acyclic_single_iff hd).1 ((expand_isOk_iff hmode hkeys).1 ⟨_, hexpand⟩).1
  have houtcome := expand_outcome hmode hkeys
  rw [hexpand] at houtcome
  obtain ⟨⟨hwarnings, -⟩, hnames, henv⟩ := houtcome
  have hdecl : scope.declaration? d.key = some d := by simp [declaration?_single hd]
  obtain ⟨text, htext, hget⟩ := henv.substitute_get? hnames hdecl
  rw [substitute_referent_single hd hself] at htext
  refine ⟨hself, hwarnings, text, htext, EnvMap.toList_inj.1 ?_⟩
  rw [hd] at hnames
  rw [EnvMap.toList_eq_map_keys, hnames]
  simp [hget, EnvMap.ofList, EnvMap.insertAll, EnvMap.insertEntry]

/-- A single declaration expands if its value does not mention its own name, and all names that it
does mention are known outside. -/
theorem exists_expand_single (hmode : scope.mode = .strict) (hd : scope.declarations = [d])
    (hself : ¬ Mentions d.raw.toList d.key.toList)
    (hknown : (substitute scope.outside (pieces d.raw.toList)).isSome) :
    ∃ env memo, scope.expand = .ok (env, memo) := by
  have hkeys : (scope.declarations.map (·.key)).Nodup := by simp [hd]
  obtain ⟨⟨env, memo⟩, hexpand⟩ := (expand_isOk_iff hmode hkeys).2
    ⟨(acyclic_single_iff hd).2 hself, (closed_single_iff hd hself).2 hknown⟩
  exact ⟨env, memo, hexpand⟩

end Scope

variable {origin : String} {key value : List Char}

/-- A strict reading of a single value in single quotes replaces the names that it mentions, and
fails if one of them is not known or is the name of the value. -/
theorem parseWith_single_eq_ok_iff (hname : isName key = true) (hvalue : '\n' ∉ value)
    {outside : String → Option String} {reading : Reading} :
    parseWith origin .strict outside (String.ofList (key ++ '=' :: Quote.single.enclose value)) =
        .ok reading ↔
      ¬ Mentions value key ∧ ∃ text, substitute outside (pieces value) = some text ∧
        reading = ⟨EnvMap.ofList [(String.ofList key, String.ofList text)], []⟩ := by
  have hreturn : ¬ ['\r', '\n'] <:+: value := fun hocc => hvalue (hocc.subset (by simp))
  have hdeclared : declarations origin .strict
      (Text.lines (dropByteOrderMark (key ++ '=' :: Quote.single.enclose value))) =
        .ok { declarations := [⟨String.ofList key, String.ofList value, 1⟩] } := by
    rw [dropByteOrderMark_isName_append hname, declarations_enclosed origin .strict hname _ hreturn,
      clipFirstLine_of_not_mem hvalue]
  have hsingle : (⟨origin, .strict, [⟨String.ofList key, String.ofList value, 1⟩], outside⟩ :
      Scope).declarations = [⟨String.ofList key, String.ofList value, 1⟩] := rfl
  rw [parseWith_eq_ok_iff, String.toList_ofList, hdeclared]
  constructor
  · rintro ⟨scan, env, memo, hscan, hexpand, rfl⟩
    obtain rfl := Except.ok.inj hscan
    obtain ⟨hself, hwarnings, text, htext, rfl⟩ := Scope.of_expand_single rfl hsingle hexpand
    simp only [String.toList_ofList] at hself htext
    exact ⟨hself, text, htext, by simp [hwarnings]⟩
  · rintro ⟨hself, text, htext, rfl⟩
    obtain ⟨env, memo, hexpand⟩ := Scope.exists_expand_single rfl hsingle
      (by simpa using hself) (by simp [htext])
    obtain ⟨-, hwarnings, text', htext', rfl⟩ := Scope.of_expand_single rfl hsingle hexpand
    obtain rfl : text = text' := by simpa [htext] using htext'
    exact ⟨_, _, memo, rfl, hexpand, by simp [hwarnings]⟩

/-- Single quotes keep a value from every meaning but one: it is read as it stands, whatever the
surroundings, exactly if it mentions no name. A name that it mentions is replaced as in any other
value, and if that is not possible the reading fails. -/
theorem parseWith_singleQuoted (origin : String) (hname : isName key = true)
    (hvalue : '\n' ∉ value) :
    (∀ outside reading,
      parseWith origin .strict outside
          (String.ofList (key ++ '=' :: Quote.single.enclose value)) = .ok reading ↔
        ¬ Mentions value key ∧ ∃ text, substitute outside (pieces value) = some text ∧
          reading = ⟨EnvMap.ofList [(String.ofList key, String.ofList text)], []⟩) ∧
    ((∀ outside, parseWith origin .strict outside
          (String.ofList (key ++ '=' :: Quote.single.enclose value)) =
        .ok ⟨EnvMap.ofList [(String.ofList key, String.ofList value)], []⟩) ↔
      ∀ name, ¬ Mentions value name) := by
  refine ⟨fun outside reading => parseWith_single_eq_ok_iff hname hvalue, ?_, ?_⟩
  · intro hread name hmention
    obtain ⟨-, text, htext, -⟩ :=
      (parseWith_single_eq_ok_iff hname hvalue).1 (hread fun _ => none)
    have hknown := substitute_isSome.1 (Option.isSome_of_eq_some htext) (String.ofList name)
      (mem_pieces_iff.2 (by simpa using hmention))
    cases hknown
  · intro hnone outside
    refine (parseWith_single_eq_ok_iff hname hvalue).2 ⟨hnone key, value, ?_, rfl⟩
    rw [pieces_of_not_mentions hnone, substitute_map_char]

/-- Quotes, backslashes, comment signs, lone dollar signs, and braces without a name come back. -/
theorem parseWith_singleQuoted_signs :
    let value := "it's \\ # $HOME $5 $\x7b9\x7d $\x7bHOME".toList
    isName "NOTE".toList = true ∧ '\n' ∉ value ∧ ∀ outside,
      parseWith ".env" .strict outside
          "NOTE='it\\'s \\\\ # $HOME $5 $\x7b9\x7d $\x7bHOME'" =
        .ok ⟨EnvMap.ofList [("NOTE", "it's \\ # $HOME $5 $\x7b9\x7d $\x7bHOME")], []⟩ := by
  intro value
  have hname : isName "NOTE".toList = true := by decide
  have hvalue : '\n' ∉ value := by decide
  have hpieces : pieces value = value.map .char := by decide
  refine ⟨hname, hvalue, (parseWith_singleQuoted ".env" hname hvalue).2.2 fun name hmention => ?_⟩
  have hmem : .reference (String.ofList name) ∈ pieces value :=
    mem_pieces_iff.2 (by rwa [String.toList_ofList])
  simp [hpieces] at hmem

/-- A name in braces after a dollar sign is looked up between single quotes too. -/
theorem parseWith_singleQuoted_reference :
    let value := "$\x7bB\x7d".toList
    isName "A".toList = true ∧ '\n' ∉ value ∧ '\r' ∉ value ∧
      "A".toList ++ '=' :: Quote.single.enclose value = "A='$\x7bB\x7d'".toList ∧
      parseWith ".env" .strict (fun _ => none) "A='$\x7bB\x7d'" =
        .error ((LineFault.mk 1 "$\x7bB\x7d" (.undefinedReference "B")).toError ".env") ∧
      parseWith ".env" .strict (fun _ => none) "A='$\x7bB\x7d'" ≠
        .ok ⟨EnvMap.ofList [("A", "$\x7bB\x7d")], []⟩ := by
  intro value
  have hread : parseWith ".env" .strict (fun _ => none) "A='$\x7bB\x7d'" =
      .error ((LineFault.mk 1 "$\x7bB\x7d" (.undefinedReference "B")).toError ".env") := by
    cbv
  refine ⟨by decide, by decide, by decide, by decide, hread, fun heq => ?_⟩
  rw [hread] at heq
  cases heq

end EnvSettings.Dotenv
