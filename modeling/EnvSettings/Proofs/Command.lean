import EnvSettings.Command.Run
import EnvSettings.Proofs.Dotenv.Totality
import EnvSettings.Proofs.Except
import EnvSettings.Proofs.Dotenv.RoundTrip
import EnvSettings.Proofs.Shell.Script

namespace EnvSettings

variable {host : Host} {mode : Dotenv.Mode} {file : String} {reading : Dotenv.Reading}

/-- Every format writes a map of variable names. -/
theorem OutputFormat.exists_render (format : OutputFormat) {env : EnvMap}
    (hnames : ∀ name ∈ env.keys, Dotenv.validName name) :
    ∃ text, format.render env = .ok text := by
  have hentries : ∀ e ∈ env.toList, Dotenv.validName e.1 := List.forall_mem_map.1 hnames
  cases format with
  | dotenv =>
    rw [render, Dotenv.print, Dotenv.printEntries_eq hentries]
    exact ⟨_, rfl⟩
  | json => exact ⟨_, rfl⟩
  | human => exact ⟨_, rfl⟩
  | exports shell =>
    obtain ⟨e, hmem, hinvalid, -⟩ | ⟨-, hlines⟩ := Shell.exportLines_cases shell env.toList
    · exact absurd (hentries e hmem) hinvalid
    · rw [render, hlines]
      exact ⟨_, rfl⟩

namespace Dotenv

/-- The names of an env file that is read are variable names. -/
theorem validName_of_parseFile (hread : parseFile host mode file = .ok reading) :
    ∀ name ∈ reading.env.keys, validName name := by
  obtain ⟨⟨content, warnings⟩, -, hread⟩ := bind_eq_ok_iff.1 hread
  cases content with
  | none =>
    obtain rfl := Except.ok.inj hread
    exact List.forall_mem_nil _
  | some content => exact (keys_of_parseWith hread).1

theorem exists_fetch (host : Host) (file : String) : ∃ r, fetch host .lenient file = .ok r := by
  rw [fetch]
  split
  · exact ⟨_, rfl⟩
  · exact ⟨_, rfl⟩
  · split <;> exact ⟨_, rfl⟩

theorem exists_parseWith (origin : String) (outside : String → Option String) (content : String) :
    ∃ reading, parseWith origin .lenient outside content = .ok reading := by
  obtain ⟨scan, hscan⟩ :=
    exists_declarations origin (Text.lines (dropByteOrderMark content.toList))
  have hnodup := (named_of_declarations hscan).nodup
  obtain ⟨env, memo, hexpand, -⟩ :=
    @Scope.exists_expandsAll ⟨origin, .lenient, scan.declarations, outside⟩ rfl scan.declarations
      (fun d hmem => ⟨d, Scope.find?_key_eq_some hnodup hmem⟩) {} EnvMap.empty
  exact ⟨_, parseWith_eq_ok_iff.2 ⟨scan, env, memo, hscan, hexpand, rfl⟩⟩

/-- A lenient reading gets past a file that is missing or not readable, and past every content. -/
theorem exists_parseFile (host : Host) (file : String) :
    ∃ reading, parseFile host .lenient file = .ok reading := by
  obtain ⟨⟨content, warnings⟩, hfetch⟩ := exists_fetch host file
  rw [parseFile, hfetch]
  cases content with
  | none => exact ⟨_, rfl⟩
  | some content => exact exists_parseWith file host.environment.get? content

end Dotenv

theorem CommandFailure.exitCode_ne_zero (failure : CommandFailure) : failure.exitCode ≠ 0 := by
  cases failure with
  | library e =>
    rw [exitCode]
    generalize e.problem = problem
    cases problem <;> exact ne_of_beq_false rfl
  | unknownShell | schemaNotFound | invalidEnvFile => exact ne_of_beq_false rfl

/-- No failure has the exit code of success. -/
theorem Outcome.exitCode_eq_zero_iff {o : Outcome} : o.exitCode = 0 ↔ o.failure = none := by
  rw [exitCode]
  cases o.failure with
  | none => exact iff_of_true rfl rfl
  | some failure => exact iff_of_false failure.exitCode_ne_zero nofun

namespace Command

variable {options : Options} {format : FormatName} {shell : Option String}

theorem exists_resolveFormat (hshell : ∀ name ∈ shell, ∃ s, Shell.ofName name = .ok s)
    (host : Host) (format : FormatName) : ∃ f, resolveFormat host shell format = .ok f := by
  cases format with
  | dotenv => exact ⟨_, rfl⟩
  | json => exact ⟨_, rfl⟩
  | human => exact ⟨_, rfl⟩
  | exports =>
    cases shell with
    | none => exact ⟨_, rfl⟩
    | some name =>
      obtain ⟨s, hs⟩ := hshell name rfl
      rw [resolveFormat, hs]
      exact ⟨_, rfl⟩

/-- What is read is printed, if all its names are variable names. -/
theorem printReading_cases (hshell : ∀ name ∈ shell, ∃ s, Shell.ofName name = .ok s)
    (host : Host) (format : FormatName) {read : Except Error Dotenv.Reading}
    (hnames : ∀ reading, read = .ok reading → ∀ name ∈ reading.env.keys, Dotenv.validName name) :
    let o := printReading host (resolveFormat host shell format) read
    (∃ reading, read = .ok reading ∧ o.failure = none) ∨
      ∃ e, read = .error e ∧ o.failure = some (.library e) := by
  obtain ⟨f, hf⟩ := exists_resolveFormat hshell host format
  rw [hf]
  cases read with
  | error e => exact .inr ⟨e, rfl, rfl⟩
  | ok reading =>
    obtain ⟨text, htext⟩ := f.exists_render (hnames reading rfl)
    refine .inl ⟨reading, rfl, ?_⟩
    change (printEntries host f reading).failure = none
    rw [printEntries, htext]
    rfl

theorem validName_printable : ∀ name ∈ (printable reading).env.keys, Dotenv.validName name := by
  intro name hname
  obtain hname | hname := EnvMap.mem_keys_insertAll.1 hname
  · exact absurd hname List.not_mem_nil
  · obtain ⟨e, he, rfl⟩ := List.mem_map.1 hname
    exact (List.mem_filter.1 he).2

/-- Checking fails with what strict parsing fails with, or with a verdict in its place. -/
theorem failure_runCheck (host : Host) (options : Options) (file : String) :
    (runCheck host options file).failure = none ↔
      ∃ reading, Dotenv.parseFile host .strict file = .ok reading := by
  rw [runCheck]
  split
  · rename_i reading hread
    exact iff_of_true rfl ⟨reading, hread⟩
  · rename_i e hread
    refine iff_of_false ?_ ?_
    · split <;> nofun
    · rw [hread]
      nofun

/-- Parsing fails exactly if the file cannot be read in its mode. -/
theorem failure_runParse (hshell : ∀ name ∈ shell, ∃ s, Shell.ofName name = .ok s)
    (host : Host) (options : Options) (file : String) (format : FormatName) :
    (runParse host options file format shell).failure = none ↔
      ∃ reading, Dotenv.parseFile host options.mode file = .ok reading := by
  have hnames : ∀ reading, Dotenv.parseFile host options.mode file = .ok reading →
      ∀ name ∈ reading.env.keys, Dotenv.validName name :=
    fun _ => Dotenv.validName_of_parseFile
  obtain ⟨reading, hread, hnone⟩ | ⟨e, hread, hsome⟩ :=
    printReading_cases hshell host format hnames
  · exact iff_of_true hnone ⟨reading, hread⟩
  · refine iff_of_false (fun hnone => ?_) ?_
    · cases hsome.symm.trans hnone
    · rw [hread]
      nofun

/-- Merging fails exactly as the building of the merged environment does. -/
theorem failure_runMerge (hshell : ∀ name ∈ shell, ∃ s, Shell.ofName name = .ok s)
    (host : Host) (options : Options) (envFile : Option String) (caseSensitive : Bool)
    (format : FormatName) (failure : CommandFailure) :
    (runMerge host options envFile caseSensitive format shell).failure = some failure ↔
      ∃ e, Merge.build host none envFile caseSensitive options.mode = .error e ∧
        failure = .library e := by
  have hnames : ∀ reading,
      (Merge.build host none envFile caseSensitive options.mode).map printable = .ok reading →
        ∀ name ∈ reading.env.keys, Dotenv.validName name := by
    intro reading hread
    obtain ⟨_, -, rfl⟩ := map_eq_ok_iff.1 hread
    exact validName_printable
  have hcases := printReading_cases hshell host format hnames
  rw [runMerge]
  cases hbuild : Merge.build host none envFile caseSensitive options.mode with
  | error e =>
    rw [hbuild] at hcases
    obtain ⟨_, hread, -⟩ | ⟨_, ⟨⟩, hsome⟩ := hcases
    · cases hread
    · rw [hsome, Option.some.injEq]
      constructor
      · rintro rfl
        exact ⟨e, rfl, rfl⟩
      · rintro ⟨_, ⟨⟩, rfl⟩
        rfl
  | ok reading =>
    rw [hbuild] at hcases
    obtain ⟨_, -, hnone⟩ | ⟨_, hread, -⟩ := hcases
    · rw [hnone]
      exact iff_of_false nofun nofun
    · cases hread

/-- With any format, and a shell that is recognised if one is named: checking a file has the exit
code of success exactly if parsing it strictly has; parsing it leniently always has, also where the
file is missing or not readable; and merging fails only with the error of building the merged
environment. -/
theorem run_envFile_commands (externals : Externals) (host : Host) (options : Options)
    (file : String) (format : FormatName) (shell : Option String)
    (hshell : ∀ name ∈ shell, ∃ s, Shell.ofName name = .ok s) :
    ((Invocation.run ⟨options, .check file⟩ externals host).exitCode = 0 ↔
      (Invocation.run ⟨{ options with nonStrict := false }, .parse file format shell⟩
        externals host).exitCode = 0) ∧
    (Invocation.run ⟨{ options with nonStrict := true }, .parse file format shell⟩
      externals host).exitCode = 0 ∧
    ∀ envFile caseSensitive failure,
      (Invocation.run ⟨options, .merge envFile caseSensitive format shell⟩ externals host).failure =
          some failure ↔
        ∃ e, Merge.build host none envFile caseSensitive options.mode = .error e ∧
          failure = .library e := by
  refine ⟨?_, ?_, fun envFile caseSensitive failure =>
    failure_runMerge hshell host options envFile caseSensitive format failure⟩
  · rw [Outcome.exitCode_eq_zero_iff, Outcome.exitCode_eq_zero_iff]
    exact (failure_runCheck host options file).trans
      (failure_runParse hshell host { options with nonStrict := false } file format).symm
  · rw [Outcome.exitCode_eq_zero_iff]
    exact (failure_runParse hshell host { options with nonStrict := true } file format).2
      (Dotenv.exists_parseFile host file)

/-- A file with a reference to the environment, written for zsh. -/
theorem run_envFile_commands_zsh :
    let externals : Externals := ⟨fun _ => none, CompletionShell.heading⟩
    let host : Host :=
      { files := .plant {} [".env"] (.file "URL=http://${HOST}/".toUTF8)
        environment := .ofList [("HOST", "it's")] }
    (∀ name ∈ some "ZSH", ∃ s, Shell.ofName name = .ok s) ∧
      ((Invocation.run ⟨{}, .check ".env"⟩ externals host).exitCode = 0 ↔
        (Invocation.run ⟨{}, .parse ".env" .exports (some "ZSH")⟩ externals host).exitCode = 0) ∧
      (Invocation.run ⟨{ nonStrict := true }, .parse "gone.env" .exports (some "ZSH")⟩
        externals host).exitCode = 0 := by
  intro externals host
  have hshell : ∀ name ∈ some "ZSH", ∃ s, Shell.ofName name = .ok s := by
    rintro name ⟨⟩
    exact ⟨.zsh, by decide +kernel⟩
  exact ⟨hshell, (run_envFile_commands externals host {} ".env" .exports (some "ZSH") hshell).1,
    (run_envFile_commands externals host {} "gone.env" .exports (some "ZSH") hshell).2.1⟩

end Command

end EnvSettings
