import EnvSettings.Dotenv.Printer
import EnvSettings.Dotenv.Reader
import EnvSettings.Proofs.Dotenv.Expansion
import EnvSettings.Proofs.Dotenv.Protection
import EnvSettings.Proofs.Dotenv.Unquoted

namespace EnvSettings.Dotenv

theorem isPlain_visible {c : Char} (hplain : isPlain c = true) :
    0x21 ≤ c.toNat ∧ c.toNat ≤ 0x7e := by
  rw [isPlain, Bool.or_eq_true] at hplain
  rcases hplain with halnum | hmem
  · have := Text.toNat_of_isAlphanum halnum
    omega
  · rw [List.contains_iff_mem] at hmem
    have hvisible : "_./:@%+,-".toList.all (fun c => 0x21 ≤ c.toNat && c.toNat ≤ 0x7e) = true := by
      decide
    simpa using List.all_eq_true.1 hvisible c hmem

/-- A value of plain characters needs no quotes. -/
theorem bare_of_isPlain {value : List Char} (hplain : value.all isPlain = true) : Bare value := by
  rw [List.all_eq_true] at hplain
  have hspace : ∀ c ∈ value, Text.isSpace c = false := by
    intro c hmem
    obtain ⟨hlow, hhigh⟩ := isPlain_visible (hplain c hmem)
    exact Text.isSpace_eq_false hlow hhigh
  have hsign : ∀ c ∈ value, Quote.ofChar? c = none ∧ c ≠ '#' := by
    intro c hmem
    have hne : ∀ sign, isPlain sign = false → c ≠ sign := by
      rintro _ hsign rfl
      rw [hplain _ hmem] at hsign
      cases hsign
    have hdouble := hne '"' (by decide)
    have hsingle := hne '\'' (by decide)
    exact ⟨by simp [Quote.ofChar?, hdouble, hsingle], hne '#' (by decide)⟩
  refine ⟨fun c hfirst => ?_, fun c hlast => hspace c (List.mem_of_getLast? hlast), ?_⟩
  · have hmem : c ∈ value := List.mem_of_mem_head? hfirst
    exact ⟨hspace c hmem, hsign c hmem⟩
  · exact (List.pairwise_of_forall_mem_list fun c hmem d _ (_ : d = '#') => hspace c hmem).isChain

/-- A character that stands for itself between quotes is no sign of the format. -/
theorem protect_cases (c : Char) :
    (protect c = [c] ∧ c ≠ '\\' ∧ c ≠ '"' ∧ c ≠ '\n' ∧ c ≠ '\r') ∨
      ∃ code, protect c = ['\\', code] ∧ Quote.double.escaped code = c ∧ code ≠ '\n' := by
  unfold protect
  split
  · rename_i h
    exact .inr ⟨'\\', rfl, h.symm, by decide⟩
  split
  · rename_i h
    exact .inr ⟨'"', rfl, h.symm, by decide⟩
  split
  · rename_i h
    exact .inr ⟨'n', rfl, h.symm, by decide⟩
  split
  · rename_i h
    exact .inr ⟨'r', rfl, h.symm, by decide⟩
  split
  · rename_i h
    exact .inr ⟨'t', rfl, h.symm, by decide⟩
  split
  · rename_i h
    exact .inr ⟨'$', rfl, h.symm, by decide⟩
  · rename_i hslash hquote hfeed hreturn _ _
    exact .inl ⟨rfl, hslash, hquote, hfeed, hreturn⟩

theorem protects_protect : Quote.double.Protects protect := by
  intro c
  obtain ⟨hself, hslash, hquote, -⟩ | ⟨code, hcode, hescaped, -⟩ := protect_cases c
  · exact .inl ⟨hself, hslash, hquote⟩
  · exact .inr ⟨code, hcode, hescaped⟩

theorem newline_not_mem_protect (value : List Char) : '\n' ∉ value.flatMap protect := by
  rw [List.mem_flatMap]
  rintro ⟨c, _, hmem⟩
  rcases protect_cases c with ⟨hself, _, _, hfeed, _⟩ | ⟨code, hcode, _, hfeed⟩
  · rw [hself, List.mem_singleton] at hmem
    exact hfeed hmem.symm
  · simp [hcode, hfeed.symm] at hmem

/-- A printed value has no line feed, and its last character is visible. -/
theorem printValue_line (value : List Char) :
    '\n' ∉ printValue value ∧ (∀ c ∈ (printValue value).head?, 0x21 ≤ c.toNat ∧ c.toNat ≤ 0x7e) ∧
      ∀ c ∈ (printValue value).getLast?, 0x21 ≤ c.toNat ∧ c.toNat ≤ 0x7e := by
  unfold printValue
  split
  · rename_i hplain
    rw [List.all_eq_true] at hplain
    refine ⟨fun hmem => absurd (hplain _ hmem) (by decide), fun c hfirst => ?_, fun c hlast => ?_⟩
    · exact isPlain_visible (hplain c (List.mem_of_mem_head? hfirst))
    · exact isPlain_visible (hplain c (List.mem_of_mem_getLast? hlast))
  · refine ⟨?_, ?_, ?_⟩
    · simpa using newline_not_mem_protect value
    · simp
    · rw [List.getLast?_concat]
      simp

/-- The line that declares an entry. -/
def entryLine (e : String × String) : List Char :=
  e.1.toList ++ '=' :: printValue e.2.toList

/-- Entries with valid names are printed line by line. -/
theorem printEntries_eq {entries : List (String × String)}
    (hnames : ∀ e ∈ entries, validName e.1 = true) :
    printEntries entries = .ok ((entries.map entryLine).flatMap (· ++ ['\n'])) := by
  induction entries with
  | nil => rfl
  | cons e entries ih =>
    have hrest := ih fun e' hmem => hnames e' (List.mem_cons_of_mem e hmem)
    have hname := hnames e List.mem_cons_self
    simp [printEntries, checkName, hname, hrest, printEntry, entryLine, bind, Except.bind]

namespace Scan

theorem declareIn_of_fresh {d : Declaration} {ds : List Declaration}
    (hfresh : ∀ e ∈ ds, e.key ≠ d.key) : declareIn d ds = ds ++ [d] := by
  induction ds with
  | nil => rfl
  | cons e es ih =>
    have hrest := ih fun e' hmem => hfresh e' (List.mem_cons_of_mem e hmem)
    simp [declareIn, hfresh e List.mem_cons_self, hrest]

/-- A printed value is read as the value that was printed, whatever the mode. -/
theorem statement_entry {origin : String} {mode : Mode} {scan : Scan} {n : Nat}
    {name value : List Char} (hname : isName name = true) (hfresh : scan.declares name = false) :
    scan.statement origin mode n (name ++ '=' :: printValue value) =
      .ok (scan.declare name value n) := by
  obtain ⟨_, hfirst, hlast⟩ := printValue_line value
  have hline : Statement.ofTrimmed (Text.trim (name ++ '=' :: printValue value)) =
      .assign name (printValue value) := by
    rw [(Names.self name).ofTrimmed hname, Text.trimRight_eq_self, Text.trimLeft_eq_self]
    · exact fun c hc => Text.isSpace_eq_false (hfirst c hc).1 (hfirst c hc).2
    · exact fun c hc => Text.isSpace_eq_false (hlast c hc).1 (hlast c hc).2
  by_cases hplain : value.all isPlain = true
  · have hbare : Bare value := bare_of_isPlain hplain
    rw [printValue, if_pos hplain] at hline ⊢
    rw [statement_of_plain hline (fun _ => hfresh) hbare.head?_bind, hbare.plainValue_eq_self]
  · rw [printValue, if_neg hplain] at hline ⊢
    rw [statement_of_quote hline (fun _ => hfresh) rfl]
    exact closeQuote_of_closes ⟨_, [], protects_protect.cut?_append value [],
      protects_protect.unescape_eq value, fun _ => .inl rfl⟩

end Scan

/-- The declarations of entries on consecutive lines, from a line on. -/
def declaredFrom (n : Nat) (entries : List (String × String)) : List Declaration :=
  (entries.zipIdx n).map fun (e, line) => ⟨e.1, e.2, line⟩

theorem keys_declaredFrom (n : Nat) (entries : List (String × String)) :
    (declaredFrom n entries).map (·.key) = entries.map Prod.fst := by
  induction entries generalizing n with
  | nil => rfl
  | cons e entries ih => simpa [declaredFrom] using ih (n + 1)

theorem mem_declaredFrom {n : Nat} {entries : List (String × String)} {d : Declaration}
    (hmem : d ∈ declaredFrom n entries) : (d.key, d.raw) ∈ entries := by
  obtain ⟨⟨e, line⟩, he, rfl⟩ := List.mem_map.1 hmem
  exact (List.mem_zipIdx he).2.2 ▸ List.getElem_mem _

/-- Reading the lines of entries with fresh names declares the entries, one a line. -/
theorem Scan.lines_entries {origin : String} {mode : Mode} (scan : Scan) (n : Nat)
    {entries : List (String × String)} (hnames : ∀ e ∈ entries, validName e.1 = true)
    (hkeys : (scan.declarations.map (·.key) ++ entries.map Prod.fst).Nodup)
    (hpending : scan.pending = none) :
    scan.lines origin mode n (entries.map entryLine) =
      .ok { scan with declarations := scan.declarations ++ declaredFrom n entries } := by
  induction entries generalizing scan n with
  | nil => simp [Scan.lines, declaredFrom]
  | cons e entries ih =>
    have hfresh : ∀ d ∈ scan.declarations, d.key ≠ e.1 := by
      intro d hmem heq
      exact (List.nodup_append.1 hkeys).2.2 d.key (List.mem_map_of_mem hmem) e.1 (by simp) heq
    have hdeclares : scan.declares e.1.toList = false := by
      simpa [Scan.declares, String.ofList_toList] using hfresh
    have hline : scan.line origin mode n (entryLine e) =
        .ok (scan.declare e.1.toList e.2.toList n) := by
      rw [Scan.line, hpending]
      exact statement_entry (hnames e List.mem_cons_self) hdeclares
    have hdeclare : scan.declare e.1.toList e.2.toList n =
        { scan with declarations := scan.declarations ++ [⟨e.1, e.2, n⟩] } := by
      rw [Scan.declare, String.ofList_toList, String.ofList_toList, declareIn_of_fresh hfresh,
        hpending]
    rw [List.map_cons, Scan.lines, hline, hdeclare]
    have hrest := ih { scan with declarations := scan.declarations ++ [⟨e.1, e.2, n⟩] } (n + 1)
      (fun e' hmem => hnames e' (List.mem_cons_of_mem e hmem)) (by simpa using hkeys) hpending
    simpa [declaredFrom, bind, Except.bind] using hrest

/-- No line of an entry is broken by a character of the entry. -/
theorem entryLine_unbroken {e : String × String} (hname : validName e.1 = true) :
    '\n' ∉ entryLine e ∧ (entryLine e).getLast? ≠ some '\r' := by
  obtain ⟨hfeed, _, hlast⟩ := printValue_line e.2.toList
  constructor
  · have hname' : '\n' ∉ e.1.toList := not_mem_isName hname (by decide)
    simp [entryLine, hname', hfeed]
  · rw [entryLine, List.getLast?_append, List.getLast?_cons]
    cases hvalue : (printValue e.2.toList).getLast? with
    | none => simp
    | some last =>
      intro heq
      have hreturn : last = '\r' := by simpa using heq
      have := hlast last hvalue
      rw [hreturn] at this
      exact absurd this (by decide)

/-- A text that begins with a name does not begin with a byte order mark. -/
theorem dropByteOrderMark_isName_append {name : List Char} (hname : isName name = true)
    (s : List Char) : dropByteOrderMark (name ++ s) = name ++ s := by
  cases name with
  | nil => cases hname
  | cons c name =>
    have hvisible := isNameChar_visible (isNameChar_of_mem_isName hname List.mem_cons_self)
    have hne : ¬ c.toNat = 0xfeff := by omega
    simp [dropByteOrderMark, hne]

/-- Lines of entries do not begin with a byte order mark. -/
theorem dropByteOrderMark_entries {entries : List (String × String)}
    (hnames : ∀ e ∈ entries, validName e.1 = true) :
    dropByteOrderMark ((entries.map entryLine).flatMap (· ++ ['\n'])) =
      (entries.map entryLine).flatMap (· ++ ['\n']) := by
  cases entries with
  | nil => rfl
  | cons e entries =>
    have hname : isName e.1.toList = true := hnames e List.mem_cons_self
    simpa [entryLine] using dropByteOrderMark_isName_append hname _

/-- A map with variable names prints to one line an entry, and reading the lines declares just the
entries, each on its own line. So reading the text strictly expands the entries of the map, and
gives the map back if none of its values mentions a name. -/
theorem parse_print {env : EnvMap} (hnames : ∀ name ∈ env.keys, validName name = true) :
    ∃ text, print env = .ok text ∧ ∀ origin,
      declarations origin .strict (Text.lines text.toList) =
        .ok { declarations := declaredFrom 1 env.toList } ∧
      ∀ outside,
        parseWith origin .strict outside text =
          ((Scope.expand ⟨origin, .strict, declaredFrom 1 env.toList, outside⟩).map
            fun (expanded, memo) => ⟨expanded, memo.warnings⟩).mapError (·.toError origin) ∧
        ((∀ e ∈ env.toList, ∀ name, ¬ Mentions e.2.toList name) →
          parseWith origin .strict outside text = .ok ⟨env, []⟩) := by
  have hentries : ∀ e ∈ env.toList, validName e.1 = true :=
    fun e hmem => hnames e.1 (List.mem_map_of_mem hmem)
  have hlines : Text.lines ((env.toList.map entryLine).flatMap (· ++ ['\n'])) =
      env.toList.map entryLine := by
    apply Text.lines_flatMap
    · intro l hmem
      obtain ⟨e, he, rfl⟩ := List.mem_map.1 hmem
      exact (entryLine_unbroken (hentries e he)).1
    · intro l hmem
      obtain ⟨e, he, rfl⟩ := List.mem_map.1 hmem
      exact (entryLine_unbroken (hentries e he)).2
  refine ⟨String.ofList ((env.toList.map entryLine).flatMap (· ++ ['\n'])), ?_, fun origin => ?_⟩
  · rw [print, printEntries_eq hentries]
    rfl
  rw [String.toList_ofList, hlines]
  have hscan : Scan.lines origin .strict {} 1 (env.toList.map entryLine) =
      .ok { declarations := declaredFrom 1 env.toList } := by
    simpa using Scan.lines_entries {} 1 hentries env.nodup_keys rfl
  have hdeclared : declarations origin .strict (env.toList.map entryLine) =
      .ok { declarations := declaredFrom 1 env.toList } := by
    rw [declarations, hscan]
    rfl
  have hparse : ∀ outside, parseWith origin .strict outside
        (String.ofList ((env.toList.map entryLine).flatMap (· ++ ['\n']))) =
      ((Scope.expand ⟨origin, .strict, declaredFrom 1 env.toList, outside⟩).map
        fun (expanded, memo) => ⟨expanded, memo.warnings⟩).mapError (·.toError origin) := by
    intro outside
    rw [parseWith, String.toList_ofList, dropByteOrderMark_entries hentries, hlines, hdeclared]
    cases hexpand : Scope.expand ⟨origin, .strict, declaredFrom 1 env.toList, outside⟩ with
    | error fault => simp [bind, Except.bind, hexpand, Except.map, Except.mapError]
    | ok result => simp [bind, Except.bind, hexpand, Except.map, Except.mapError]
  refine ⟨hdeclared, fun outside => ⟨hparse outside, fun hnone => ?_⟩⟩
  have hkeys : ((declaredFrom 1 env.toList).map (·.key)).Nodup := by
    rw [keys_declaredFrom]
    exact env.nodup_keys
  have hmode : (⟨origin, .strict, declaredFrom 1 env.toList, outside⟩ : Scope).mode = .strict := rfl
  obtain ⟨env', memo, hexpand, hwarnings, hkeys', hvalues⟩ :=
    Scope.expand_of_not_mentions hmode hkeys fun d hmem => hnone _ (mem_declaredFrom hmem)
  rw [keys_declaredFrom] at hkeys'
  have henv : env' = env := by
    refine EnvMap.ext_keys_get? hkeys' fun name hmem => ?_
    have hdecl : name ∈ (declaredFrom 1 env.toList).map (·.key) := by
      rw [keys_declaredFrom]
      exact hmem
    obtain ⟨d, hd, rfl⟩ := List.mem_map.1 hdecl
    rw [hvalues d hd, EnvMap.get?_eq_some_iff.2 (mem_declaredFrom hd)]
  rw [hparse outside, hexpand, henv]
  simp [Except.map, Except.mapError, hwarnings]

/-- Quotes, backslashes, comment signs, line breaks and lone dollar signs come back. -/
theorem parse_print_signs :
    let env := EnvMap.ofList [("TEXT", "say \"hi\" \\ # now\r\n"), ("_EMPTY", ""), ("PRICE", "$5")]
    (∀ name ∈ env.keys, validName name = true) ∧
      (∀ e ∈ env.toList, ∀ name, ¬ Mentions e.2.toList name) ∧
      ∃ text, print env = .ok text ∧
        parseWith ".env" .strict (fun _ => none) text = .ok ⟨env, []⟩ := by
  intro env
  have hlist : env.toList =
      [("TEXT", "say \"hi\" \\ # now\r\n"), ("_EMPTY", ""), ("PRICE", "$5")] := by
    simp [env, EnvMap.ofList, EnvMap.insertAll, EnvMap.insertEntry]
  have hnames : ∀ name ∈ env.keys, validName name = true := by
    rw [EnvMap.keys, hlist]
    decide
  have hnone : ∀ e ∈ env.toList, ∀ name, ¬ Mentions e.2.toList name := by
    rintro e hmem name ⟨_, hocc⟩
    have hbrace : '{' ∈ e.2.toList := hocc.subset (by simp)
    rw [hlist] at hmem
    clear hocc
    revert e
    decide
  obtain ⟨text, hprint, hread⟩ := parse_print hnames
  exact ⟨hnames, hnone, text, hprint, ((hread ".env").2 fun _ => none).2 hnone⟩

end EnvSettings.Dotenv
