import EnvSettings.Output
import EnvSettings.Proofs.Dotenv.Pieces
import EnvSettings.Proofs.EnvMap

namespace EnvSettings.Shell

/-- The quoting rules of a shell. -/
inductive Dialect where
  | posix
  | fish
  deriving DecidableEq, Repr

/-- The quoting rules that a shell follows, if they are told here. -/
def dialect? : Shell → Option Dialect
  | bash | zsh => some .posix
  | fish => some .fish
  | powerShell => none

/-- Where a reader stands: outside quotes, behind a backslash there, inside single quotes, or behind
a backslash there. -/
inductive Position where
  | plain
  | escaped
  | quoted
  | quotedEscaped
  deriving DecidableEq, Repr

/-- The commands that a reader has passed, and what it has of the next one: its words, and the word
that has begun. -/
structure Reader where
  position : Position := .plain
  word : Option (List Char) := none
  words : List (List Char) := []
  commands : List (List (List Char)) := []

namespace Reader

/-- The characters of the word so far. -/
def begun (r : Reader) : List Char :=
  r.word.getD []

/-- Adds characters to the word; without any, the word has begun all the same. -/
def spell (r : Reader) (s : List Char) : Reader :=
  { r with word := some (r.begun ++ s) }

/-- The reader at another position. -/
def goTo (r : Reader) (position : Position) : Reader :=
  { r with position }

/-- The reader after the word that it has begun, if any. -/
def endWord (r : Reader) : Reader :=
  { r with word := none, words := r.words ++ r.word.toList }

/-- Ends the command; a line without words is none. -/
def endCommand (r : Reader) : Reader :=
  match r.endWord.words with
  | [] => r.endWord
  | words => { commands := r.commands ++ [words] }

/-- The characters that every shell takes literally outside quotes. -/
def isLiteral (c : Char) : Bool :=
  c.isAlphanum || "_./:@%+,-".toList.contains c

/-- Reads one character. Outside quotes only the literal characters stand for themselves, and the
equals sign behind a name. In fish, a backslash inside quotes protects itself and the quote only. -/
def step (d : Dialect) (r : Reader) (c : Char) : Option Reader :=
  match r.position with
  | .plain =>
    if c = '\'' then some ((r.spell []).goTo .quoted)
    else if c = '\\' then if d = .posix then some (r.goTo .escaped) else none
    else if c = ' ' then some r.endWord
    else if c = '\n' then some r.endCommand
    else if isLiteral c ∨ c = '=' ∧ Dotenv.isName r.begun then some (r.spell [c])
    else none
  | .escaped => some ((r.spell [c]).goTo .plain)
  | .quoted =>
    if c = '\'' then some (r.goTo .plain)
    else if c = '\\' ∧ d = .fish then some (r.goTo .quotedEscaped)
    else some (r.spell [c])
  | .quotedEscaped =>
    if c = '\\' ∨ c = '\'' then some ((r.spell [c]).goTo .quoted)
    else some ((r.spell ['\\', c]).goTo .quoted)

/-- The reader after a script, if the rules give all of it a meaning. -/
def run (d : Dialect) (s : List Char) (r : Reader) : Option Reader :=
  s.foldlM (step d) r

end Reader

namespace Dialect

/-- The commands of a script as lists of words. A script that ends inside quotes has none. -/
def commands? (d : Dialect) (script : List Char) : Option (List (List (List Char))) :=
  (Reader.run d script {}).bind fun r =>
    if r.position = .plain then some r.endCommand.commands else none

/-- The variable that a command sets and exports, and its value. -/
def assigned? : Dialect → List (List Char) → Option (String × String)
  | posix, [command, binding] =>
    (Text.cutAt? '=' binding).bind fun (name, value) =>
      if command = "export".toList ∧ Dotenv.isName name then
        some (String.ofList name, String.ofList value)
      else none
  | fish, [command, option, name, value] =>
    if command = "set".toList ∧ option = "-x".toList ∧ Dotenv.isName name then
      some (String.ofList name, String.ofList value)
    else none
  | _, _ => none

/-- The variables that a script sets, where it does nothing else. -/
def assignments? (d : Dialect) (script : List Char) : Option (List (String × String)) :=
  (d.commands? script).bind fun commands => commands.mapM d.assigned?

end Dialect

/-- A plain word is not empty and has only plain characters. -/
theorem isPlainWord_iff {s : List Char} : isPlainWord s ↔ s ≠ [] ∧ ∀ c ∈ s, isPlain c := by
  simp [isPlainWord]

namespace Reader

variable {d : Dialect} {r : Reader} {c : Char} {s : List Char}

/-- A script is read to its end, and then what follows. -/
theorem run_append (d : Dialect) (s s' : List Char) (r : Reader) :
    run d (s ++ s') r = (run d s r).bind (run d s') :=
  List.foldlM_append

theorem run_cons (d : Dialect) (c : Char) (s : List Char) (r : Reader) :
    run d (c :: s) r = (step d r c).bind (run d s) :=
  List.foldlM_cons

/-- Characters are added one run after the other. -/
theorem spell_spell (r : Reader) (s s' : List Char) : (r.spell s).spell s' = r.spell (s ++ s') := by
  simp [spell, begun]

/-- What is written without quotes is literal. -/
theorem isLiteral_of_isPlain (hc : isPlain c) : isLiteral c :=
  hc

/-- A literal character outside of quotes stands for itself. -/
theorem step_literal (hr : r.position = .plain) (hc : isLiteral c) :
    step d r c = some (r.spell [c]) := by
  have hquote : c ≠ '\'' := fun heq => absurd (heq ▸ hc) (by decide)
  have hslash : c ≠ '\\' := fun heq => absurd (heq ▸ hc) (by decide)
  have hspace : c ≠ ' ' := fun heq => absurd (heq ▸ hc) (by decide)
  have hfeed : c ≠ '\n' := fun heq => absurd (heq ▸ hc) (by decide)
  simp [step, hr, hquote, hslash, hspace, hfeed, hc]

theorem run_plain (hr : r.position = .plain) (hs : isPlainWord s) :
    run d s r = some (r.spell s) := by
  induction s generalizing r with
  | nil => cases hs
  | cons c s ih =>
    obtain ⟨hc, hrest⟩ := List.forall_mem_cons.1 (isPlainWord_iff.1 hs).2
    rw [run_cons, step_literal hr (isLiteral_of_isPlain hc), Option.bind_some]
    cases s with
    | nil => rfl
    | cons c' s =>
      have hspell : (r.spell [c]).position = .plain := hr
      rw [ih hspell (isPlainWord_iff.2 ⟨List.cons_ne_nil _ _, hrest⟩), spell_spell]
      rfl

/-- Between quotes a character stands for itself, unless it ends them or begins an escape. -/
theorem step_quoted (hr : r.position = .quoted) (hquote : c ≠ '\'')
    (hslash : c ≠ '\\' ∨ d = .posix) : step d r c = some (r.spell [c]) := by
  have hcode : ¬ (c = '\\' ∧ d = .fish) := by
    rintro ⟨rfl, rfl⟩
    exact hslash.elim (fun h => h rfl) nofun
  simp [step, hr, hquote, hcode]

/-- A quote between single quotes, as the posix shells write it: the reader leaves the quotes and
comes back to them. -/
theorem run_posix_quote (hr : r.position = .quoted) :
    run .posix ['\'', '\\', '\'', '\''] r = some (r.spell ['\'']) := by
  cases r with
  | mk position word words commands =>
    cases hr
    simp [run, step, goTo, spell, begun]

/-- In fish a backslash protects a quote and a backslash between quotes. -/
theorem run_fish_protected (hr : r.position = .quoted) (hc : c = '\\' ∨ c = '\'') :
    run .fish ['\\', c] r = some (r.spell [c]) := by
  cases r with
  | mk position word words commands =>
    cases hr
    simp [run, step, goTo, spell, begun, hc]

/-- Between single quotes stands what is read back character by character; behind the closing one
the reader is outside quotes again. -/
theorem run_quotes {code : Char → List Char}
    (hcode : ∀ c (r : Reader), r.position = .quoted → run d (code c) r = some (r.spell [c]))
    (hr : r.position = .plain) (value : List Char) :
    run d ('\'' :: value.flatMap code ++ ['\'']) r = some (r.spell value) := by
  have hinside : ∀ (value before : List Char),
      run d (value.flatMap code) ((r.spell before).goTo .quoted) =
        some ((r.spell (before ++ value)).goTo .quoted) := by
    intro value
    induction value with
    | nil => exact fun before => by rw [List.append_nil]; rfl
    | cons c value ih =>
      intro before
      have hspell : ((r.spell before).goTo .quoted).spell [c] =
          (r.spell (before ++ [c])).goTo .quoted :=
        congrArg (·.goTo .quoted) (spell_spell r before [c])
      rw [List.flatMap_cons, run_append, hcode c _ rfl, Option.bind_some, hspell, ih,
        List.append_assoc, List.singleton_append]
  have hopen : step d r '\'' = some ((r.spell []).goTo .quoted) := by
    simp [step, hr]
  have hclose : run d ['\''] ((r.spell value).goTo .quoted) = some (r.spell value) := by
    cases r with
    | mk position word words commands =>
      cases hr
      rfl
  rw [List.cons_append, run_cons, hopen, Option.bind_some, run_append, hinside, Option.bind_some]
  exact hclose

end Reader

/-- A word as a dialect writes it. -/
def Dialect.word : Dialect → List Char → List Char
  | posix => posixWord
  | fish => fishWord

/-- A written word is read as its value, and the reader is outside quotes at its end. -/
theorem Reader.run_word {d : Dialect} {r : Reader} (hr : r.position = .plain)
    (value : List Char) : run d (d.word value) r = some (r.spell value) := by
  cases d with
  | posix =>
    rw [Dialect.word, posixWord]
    split
    · rename_i hword
      exact run_plain hr hword
    · refine run_quotes (fun c r hr => ?_) hr value
      split
      · rename_i hquote
        exact hquote ▸ run_posix_quote hr
      · rename_i hquote
        rw [run_cons, step_quoted hr hquote (.inr rfl)]
        rfl
  | fish =>
    rw [Dialect.word, fishWord]
    split
    · rename_i hword
      exact run_plain hr hword
    · refine run_quotes (fun c r hr => ?_) hr value
      split
      · rename_i hc
        exact run_fish_protected hr hc
      · rename_i hc
        rw [not_or] at hc
        rw [run_cons, step_quoted hr hc.2 (.inl hc.1)]
        rfl

/-- A name needs no quotes. -/
theorem isPlainWord_of_isName {name : List Char} (hname : Dotenv.isName name) :
    isPlainWord name := by
  refine isPlainWord_iff.2 ⟨?_, fun c hmem => ?_⟩
  · rintro rfl
    cases hname
  · have hchar := Dotenv.isNameChar_of_mem_isName hname hmem
    rw [Dotenv.isNameChar, Bool.or_eq_true, beq_iff_eq] at hchar
    rw [isPlain, Bool.or_eq_true]
    refine hchar.imp_right ?_
    rintro rfl
    decide

/-- The words of the command that sets a variable. -/
def Dialect.command (name value : List Char) : Dialect → List (List Char)
  | posix => ["export".toList, name ++ '=' :: value]
  | fish => ["set".toList, "-x".toList, name, value]

namespace Reader

variable {d : Dialect} {r : Reader}

/-- Plain characters and a space make a word of their own. -/
theorem run_spaced {s : List Char} (hr : r.position = .plain) (hword : r.word = none)
    (hs : isPlainWord s) (rest : List Char) :
    run d (s ++ ' ' :: rest) r = run d rest { r with words := r.words ++ [s] } := by
  rw [run_append, run_plain hr hs, Option.bind_some, run_cons]
  cases r with
  | mk position word words commands =>
    cases hr
    cases hword
    rfl

/-- The equals sign behind a name belongs to the word. -/
theorem run_binding {name : List Char} (hr : r.position = .plain) (hword : r.word = none)
    (hname : Dotenv.isName name) (rest : List Char) :
    run d (name ++ '=' :: rest) r = run d rest (r.spell (name ++ ['='])) := by
  have hbegun : (r.spell name).begun = name := by simp [spell, begun, hword]
  have hstep : step d (r.spell name) '=' = some (r.spell (name ++ ['='])) := by
    have hposition : (r.spell name).position = .plain := hr
    simp [step, hposition, hbegun, hname, spell_spell]
  rw [run_append, run_plain hr (isPlainWord_of_isName hname), Option.bind_some, run_cons, hstep,
    Option.bind_some]

/-- The command of an assignment in bash and zsh. -/
theorem assignment_posix {shell : Shell} (hdialect : shell.dialect? = some .posix)
    (name value : List Char) : shell.assignment name value =
      "export".toList ++ ' ' :: (name ++ '=' :: Dialect.posix.word value) := by
  have hassignment : shell.assignment name value =
      "export".toList ++ [' '] ++ name ++ '=' :: posixWord value := by
    cases shell with
    | bash | zsh => rfl
    | fish | powerShell => cases hdialect
  rw [hassignment, Dialect.word]
  simp only [List.append_assoc, List.cons_append, List.nil_append]

theorem assignment_fish {shell : Shell} (hdialect : shell.dialect? = some .fish)
    (name value : List Char) : shell.assignment name value =
      "set".toList ++ ' ' :: ("-x".toList ++ ' ' :: (name ++ ' ' :: Dialect.fish.word value)) := by
  have hassignment : shell.assignment name value =
      "set".toList ++ ' ' :: ("-x".toList ++ [' ']) ++ name ++ ' ' :: fishWord value := by
    cases shell with
    | fish => rfl
    | bash | zsh | powerShell => cases hdialect
  rw [hassignment, Dialect.word]
  simp only [List.append_assoc, List.cons_append, List.nil_append]

/-- A written command is read as its words, whatever the value is. -/
theorem run_assignment {shell : Shell} (hdialect : shell.dialect? = some d) {name : List Char}
    (hname : Dotenv.isName name) (value : List Char) (commands : List (List (List Char))) :
    ∃ r, run d (shell.assignment name value) { commands } = some r ∧ r.position = .plain ∧
      r.endCommand = { commands := commands ++ [d.command name value] } := by
  cases d with
  | posix =>
    refine ⟨Reader.spell (Reader.spell { words := ["export".toList], commands } (name ++ ['=']))
      value, ?_, rfl, ?_⟩
    · rw [assignment_posix hdialect, run_spaced rfl rfl (by decide), run_binding rfl rfl hname,
        run_word rfl]
      rfl
    · rw [spell_spell, List.append_assoc]
      rfl
  | fish =>
    refine ⟨Reader.spell { words := ["set".toList, "-x".toList, name], commands } value,
      ?_, rfl, rfl⟩
    rw [assignment_fish hdialect, run_spaced rfl rfl (by decide), run_spaced rfl rfl (by decide),
      run_spaced rfl rfl (isPlainWord_of_isName hname), run_word rfl]
    rfl

/-- The commands of a script that is written, one a line. -/
theorem run_lines {shell : Shell} (hdialect : shell.dialect? = some d)
    {entries : List (String × String)} (hnames : ∀ e ∈ entries, Dotenv.validName e.1)
    (commands : List (List (List Char))) :
    ∃ r, run d (['\n'].intercalate
        (entries.map fun e => shell.assignment e.1.toList e.2.toList)) { commands } = some r ∧
      r.position = .plain ∧
      r.endCommand.commands = commands ++ entries.map fun e => d.command e.1.toList e.2.toList := by
  induction entries generalizing commands with
  | nil => exact ⟨{ commands }, rfl, rfl, (List.append_nil _).symm⟩
  | cons e entries ih =>
    rw [List.forall_mem_cons] at hnames
    obtain ⟨r, hrun, hplain, hend⟩ := run_assignment hdialect hnames.1 e.2.toList commands
    cases entries with
    | nil =>
      refine ⟨r, ?_, hplain, ?_⟩
      · rw [List.map_cons, List.map_nil, List.intercalate_singleton, hrun]
      · rw [hend]
        rfl
    | cons e' entries =>
      obtain ⟨r', hrun', hplain', hend'⟩ :=
        ih hnames.2 (commands ++ [d.command e.1.toList e.2.toList])
      have hfeed : run d ['\n'] r = some r.endCommand := by
        rw [run_cons]
        simp [step, hplain, run]
      refine ⟨r', ?_, hplain', ?_⟩
      · rw [List.map_cons, List.map_cons, List.intercalate_cons_cons, List.append_assoc, run_append,
          hrun, Option.bind_some, run_append, hfeed, Option.bind_some, hend]
        exact hrun'
      · rw [hend', List.append_assoc]
        rfl

end Reader

/-- The command of an assignment assigns the value to the name. -/
theorem Dialect.assigned?_command (d : Dialect) {name : List Char} (hname : Dotenv.isName name)
    (value : List Char) :
    d.assigned? (d.command name value) = some (String.ofList name, String.ofList value) := by
  cases d with
  | posix =>
    have hcut : Text.cutAt? '=' (name ++ '=' :: value) = some (name, value) :=
      Text.cutAt?_append (Dotenv.not_mem_isName hname (by decide)) value
    simp [assigned?, command, hcut, hname]
  | fish => simp [assigned?, command, hname]

/-- Commands of assignments assign the entries in their order. -/
theorem Dialect.mapM_assigned? (d : Dialect) {entries : List (String × String)}
    (hnames : ∀ e ∈ entries, Dotenv.validName e.1) :
    (entries.map fun e => d.command e.1.toList e.2.toList).mapM d.assigned? = some entries := by
  induction entries with
  | nil => rfl
  | cons e entries ih =>
    rw [List.forall_mem_cons] at hnames
    rw [List.map_cons, List.mapM_cons, d.assigned?_command hnames.1, ih hnames.2,
      String.ofList_toList, String.ofList_toList]
    rfl

/-- The lines of a map are refused at a name that is none, and only there. -/
theorem exportLines_cases (shell : Shell) (entries : List (String × String)) :
    (∃ e ∈ entries, ¬ Dotenv.validName e.1 ∧ OutputFormat.exportLines shell entries =
        .error (.config (.invalidVariableName e.1))) ∨
      (∀ e ∈ entries, Dotenv.validName e.1) ∧ OutputFormat.exportLines shell entries =
        .ok (entries.map fun e => String.ofList (shell.assignment e.1.toList e.2.toList)) := by
  induction entries with
  | nil => exact .inr ⟨List.forall_mem_nil _, rfl⟩
  | cons e entries ih =>
    by_cases hname : Dotenv.validName e.1
    · have hcheck : Dotenv.checkName e.1 = .ok () := if_pos hname
      obtain ⟨e', hmem, hinvalid, herror⟩ | ⟨hnames, hlines⟩ := ih
      · refine .inl ⟨e', List.mem_cons_of_mem e hmem, hinvalid, ?_⟩
        rw [OutputFormat.exportLines, hcheck, herror]
        rfl
      · refine .inr ⟨List.forall_mem_cons.2 ⟨hname, hnames⟩, ?_⟩
        rw [OutputFormat.exportLines, hcheck, hlines]
        rfl
    · have hcheck : Dotenv.checkName e.1 = .error (.config (.invalidVariableName e.1)) :=
        if_neg hname
      refine .inl ⟨e, List.mem_cons_self, hname, ?_⟩
      rw [OutputFormat.exportLines, hcheck]
      rfl

/-- A map is refused because a name in it is none, or written as a script that its shell reads as
exactly the assignments of the map, in their order, whatever the values are. -/
theorem render_exports_assignments {shell : Shell} {d : Dialect}
    (hdialect : shell.dialect? = some d) (env : EnvMap) :
    (∃ name ∈ env.keys, ¬ Dotenv.validName name ∧ (OutputFormat.exports shell).render env =
        .error (.config (.invalidVariableName name))) ∨
      (∀ name ∈ env.keys, Dotenv.validName name) ∧ ∃ script : String,
        (OutputFormat.exports shell).render env = .ok script ∧
        d.assignments? script.toList = some env.toList := by
  obtain ⟨e, hmem, hinvalid, herror⟩ | ⟨hnames, hlines⟩ := exportLines_cases shell env.toList
  · refine .inl ⟨e.1, List.mem_map_of_mem hmem, hinvalid, ?_⟩
    rw [OutputFormat.render, herror]
    rfl
  · let lines := env.toList.map fun e => String.ofList (shell.assignment e.1.toList e.2.toList)
    have hrender : (OutputFormat.exports shell).render env = .ok ("\n".intercalate lines) := by
      rw [OutputFormat.render, hlines]
      rfl
    have hscript : ("\n".intercalate lines).toList = ['\n'].intercalate
        (env.toList.map fun e => shell.assignment e.1.toList e.2.toList) := by
      rw [String.toList_intercalate, List.map_map]
      refine congrArg _ (List.map_congr_left fun e _ => ?_)
      exact String.toList_ofList
    obtain ⟨r, hrun, hplain, hend⟩ := Reader.run_lines hdialect hnames []
    have hcommands : d.commands? ("\n".intercalate lines).toList =
        some (env.toList.map fun e => d.command e.1.toList e.2.toList) := by
      rw [hscript, Dialect.commands?, hrun, Option.bind_some, if_pos hplain, hend, List.nil_append]
    refine .inr ⟨List.forall_mem_map.2 hnames, _, hrender, ?_⟩
    rw [Dialect.assignments?, hcommands, Option.bind_some, d.mapM_assigned? hnames]

/-- Quotes, backslashes, line breaks and commands in values stay in their values. A name with a
semicolon is refused. -/
theorem render_exports_assignments_hostile :
    let env := EnvMap.ofList [("MSG", "it's\nexport PATH=/tmp\\"), ("_EMPTY", ""),
      ("CMD", "'; rm -r ~ #"), ("URL", "http://h:1/x")]
    (∀ p ∈ [(bash, Dialect.posix), (zsh, .posix), (fish, .fish)],
      p.1.dialect? = some p.2 ∧ ∃ script : String,
        (OutputFormat.exports p.1).render env = .ok script ∧
        p.2.assignments? script.toList = some env.toList) ∧
      (OutputFormat.exports bash).render (EnvMap.ofList [("A;B", "1")]) =
        .error (.config (.invalidVariableName "A;B")) := by
  intro env
  have hlist : env.toList = [("MSG", "it's\nexport PATH=/tmp\\"), ("_EMPTY", ""),
      ("CMD", "'; rm -r ~ #"), ("URL", "http://h:1/x")] := by
    simp [env, EnvMap.ofList, EnvMap.insertAll, EnvMap.insertEntry]
  have hnames : ∀ name ∈ env.keys, Dotenv.validName name := by
    rw [EnvMap.keys, hlist]
    decide
  have hkeys : (EnvMap.ofList [("A;B", "1")]).keys = ["A;B"] := by
    simp [EnvMap.keys, EnvMap.ofList, EnvMap.insertAll, EnvMap.insertEntry]
  have hdialects : ∀ p ∈ [(bash, Dialect.posix), (zsh, .posix), (fish, .fish)],
      p.1.dialect? = some p.2 := by decide
  refine ⟨fun p hp => ⟨hdialects p hp, ?_⟩, ?_⟩
  · obtain ⟨name, hmem, hinvalid, -⟩ | ⟨-, hscript⟩ :=
      render_exports_assignments (hdialects p hp) env
    · exact absurd (hnames name hmem) hinvalid
    · exact hscript
  · have hbash : bash.dialect? = some .posix := rfl
    obtain ⟨name, hmem, -, herror⟩ | ⟨hvalid, -⟩ :=
      render_exports_assignments hbash (EnvMap.ofList [("A;B", "1")])
    · rw [hkeys, List.mem_singleton] at hmem
      exact hmem ▸ herror
    · exact absurd (hvalid "A;B" (by simp [hkeys])) (by decide)

end EnvSettings.Shell
