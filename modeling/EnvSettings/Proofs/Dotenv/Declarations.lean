import Mathlib.Data.List.Nodup
import EnvSettings.Dotenv.Reader

namespace EnvSettings.Dotenv

/-- Only a variable name is ever assigned. -/
theorem isName_of_ofTrimmed {line key value : List Char}
    (hline : Statement.ofTrimmed line = .assign key value) : isName key = true := by
  rw [Statement.ofTrimmed] at hline
  split at hline
  · cases hline
  · dsimp only at hline
    split at hline
    · cases hline
    · split at hline
      · cases hline
      · split at hline
        · cases hline
        · rename_i hname
          cases hline
          simpa using hname

namespace Scan

variable {origin : String} {mode : Mode} {scan scan' : Scan} {n : Nat} {l : List Char}

/-- The declared names, in the order of their declarations. -/
def keys (scan : Scan) : List String :=
  scan.declarations.map (·.key)

/-- Whether a key is declared is told by its string. -/
theorem declares_iff {key : List Char} :
    scan.declares key = true ↔ String.ofList key ∈ scan.keys := by
  simp [declares, keys]

/-- A name that is declared keeps its place, and a new one takes the last. -/
theorem map_key_declareIn (d : Declaration) (ds : List Declaration) :
    (declareIn d ds).map (·.key) =
      if d.key ∈ ds.map (·.key) then ds.map (·.key) else ds.map (·.key) ++ [d.key] := by
  induction ds with
  | nil => rfl
  | cons e es ih =>
    by_cases hkey : e.key = d.key
    · simp [declareIn, hkey]
    · rw [declareIn, if_neg hkey, List.map_cons, ih, List.map_cons]
      by_cases hmem : d.key ∈ es.map (·.key)
      · rw [if_pos hmem, if_pos (List.mem_cons_of_mem _ hmem)]
      · rw [if_neg hmem, if_neg, List.cons_append]
        rw [List.mem_cons, not_or]
        exact ⟨Ne.symm hkey, hmem⟩

theorem keys_declare (scan : Scan) (key value : List Char) (line : Nat) :
    (scan.declare key value line).keys =
      if String.ofList key ∈ scan.keys then scan.keys else scan.keys ++ [String.ofList key] :=
  map_key_declareIn _ _

theorem mem_keys_declare {key value : List Char} {line : Nat} {name : String} :
    name ∈ (scan.declare key value line).keys ↔ name = String.ofList key ∨ name ∈ scan.keys := by
  rw [keys_declare]
  split
  · rename_i hmem
    exact ⟨.inr, fun h => h.elim (fun heq => heq ▸ hmem) id⟩
  · rw [List.mem_append, List.mem_singleton, or_comm]

/-- A quoted value is closed within a text, and its value is `value`. A strict reading lets only a
comment follow. -/
def Closes (mode : Mode) (quote : Quote) (body value : List Char) : Prop :=
  ∃ inner after, quote.cut? body = some (inner, after) ∧ quote.unescape inner = value ∧
    (mode = .strict → Text.trim after = [] ∨ (Text.trim after).head? = some '#')

/-- How a physical line takes a reading on. A strict reading assigns no name twice. -/
inductive Step (origin : String) (mode : Mode) (n : Nat) (l : List Char) (scan : Scan) : Scan → Prop
  | blank (hpending : scan.pending = none) (hline : Statement.ofTrimmed (Text.trim l) = .blank) :
      Step origin mode n l scan scan
  | skipped {defect : LineDefect} (hpending : scan.pending = none)
      (hline : Statement.ofTrimmed (Text.trim l) = .faulty defect) (hmode : mode = .lenient) :
      Step origin mode n l scan
        { scan with warnings := scan.warnings ++ [.skippedLine origin n defect] }
  | plain {key value : List Char} (hpending : scan.pending = none)
      (hline : Statement.ofTrimmed (Text.trim l) = .assign key value)
      (hfresh : mode = .strict → scan.declares key = false)
      (hquote : value.head?.bind Quote.ofChar? = none) :
      Step origin mode n l scan (scan.declare key (plainValue value) n)
  | quoted {key body value : List Char} {c : Char} {quote : Quote} (hpending : scan.pending = none)
      (hline : Statement.ofTrimmed (Text.trim l) = .assign key (c :: body))
      (hfresh : mode = .strict → scan.declares key = false) (hquote : Quote.ofChar? c = some quote)
      (hcloses : Closes mode quote body value) :
      Step origin mode n l scan (scan.declare key value n)
  | opened {key body : List Char} {c : Char} {quote : Quote} (hpending : scan.pending = none)
      (hline : Statement.ofTrimmed (Text.trim l) = .assign key (c :: body))
      (hfresh : mode = .strict → scan.declares key = false) (hquote : Quote.ofChar? c = some quote)
      (hopen : quote.cut? body = none) :
      Step origin mode n l scan { scan with pending := some ⟨key, n, c :: body, quote, body⟩ }
  | continued {q : OpenQuote} (hpending : scan.pending = some q)
      (hopen : q.quote.cut? (q.body ++ '\n' :: l) = none) :
      Step origin mode n l scan { scan with pending := some { q with body := q.body ++ '\n' :: l } }
  | closed {q : OpenQuote} {value : List Char} (hpending : scan.pending = some q)
      (hcloses : Closes mode q.quote (q.body ++ '\n' :: l) value) :
      Step origin mode n l scan (scan.declare q.key value q.line)

/-- The line where the statement began that the line `n` belongs to. -/
def start (scan : Scan) (n : Nat) : Nat :=
  scan.pending.elim n (·.line)

theorem line_of_pending {q : OpenQuote} (hpending : scan.pending = some q) :
    scan.line origin mode n l = scan.closeQuote mode { q with body := q.body ++ '\n' :: l } := by
  simp only [line, hpending]

/-- Where no quote is open a line is a statement. -/
theorem line_of_not_pending (hpending : scan.pending = none) :
    scan.line origin mode n l = scan.statement origin mode n l := by
  simp only [line, hpending]

theorem closeQuote_of_closes {q : OpenQuote} {value : List Char}
    (hcloses : Closes mode q.quote q.body value) :
    scan.closeQuote mode q = .ok (scan.declare q.key value q.line) := by
  obtain ⟨inner, after, hcut, rfl, hafter⟩ := hcloses
  rw [closeQuote, hcut]
  dsimp only
  rw [if_neg]
  simp only [Bool.and_eq_true, decide_eq_true_eq]
  rintro ⟨⟨hmode, hne⟩, hhead⟩
  rcases hafter hmode with h | h
  · simp [h] at hne
  · simp [h] at hhead

theorem closeQuote_of_open {q : OpenQuote} (hopen : q.quote.cut? q.body = none) :
    scan.closeQuote mode q = .ok { scan with pending := some q } := by
  rw [closeQuote, hopen]

/-- A quoted value stays open, or is closed, or a strict reading refuses the text after it. -/
theorem closeQuote_cases (mode : Mode) (scan : Scan) (q : OpenQuote) :
    q.quote.cut? q.body = none ∨ (∃ value, Closes mode q.quote q.body value) ∨
      ∃ f, scan.closeQuote mode q = .error f ∧ mode = .strict ∧ f.line = q.line := by
  cases hcut : q.quote.cut? q.body with
  | none => exact .inl rfl
  | some parts =>
    obtain ⟨inner, after⟩ := parts
    by_cases hafter : mode = .strict → Text.trim after = [] ∨ (Text.trim after).head? = some '#'
    · exact .inr (.inl ⟨_, inner, after, hcut, rfl, hafter⟩)
    · rw [Classical.not_imp, not_or] at hafter
      obtain ⟨hmode, hne, hhead⟩ := hafter
      refine .inr (.inr
        ⟨⟨q.line, String.ofList (q.quote.char :: q.body), .textAfterQuote⟩, ?_, hmode, rfl⟩)
      simp [closeQuote, hcut, hmode, hne, hhead]

/-- A strict reading refuses a line that assigns a name again. -/
theorem statement_of_taken {key value : List Char}
    (hline : Statement.ofTrimmed (Text.trim l) = .assign key value)
    (htaken : scan.declares key = true) :
    scan.statement origin .strict n l =
      .error ⟨n, String.ofList (Text.trim l), .duplicateKey (String.ofList key)⟩ := by
  simp [statement, hline, htaken]

/-- An assignment without a quote declares the plain value. -/
theorem statement_of_plain {key value : List Char}
    (hline : Statement.ofTrimmed (Text.trim l) = .assign key value)
    (hfresh : mode = .strict → scan.declares key = false)
    (hquote : value.head?.bind Quote.ofChar? = none) :
    scan.statement origin mode n l = .ok (scan.declare key (plainValue value) n) := by
  have hfree : (decide (mode = .strict) && scan.declares key) = false := by simpa using hfresh
  cases value with
  | nil =>
    have hempty : plainValue [] = [] := rfl
    simp [statement, hline, hfree, hempty]
  | cons c body =>
    have hc : Quote.ofChar? c = none := hquote
    simp [statement, hline, hfree, hc]

theorem statement_of_quote {key body : List Char} {c : Char} {quote : Quote}
    (hline : Statement.ofTrimmed (Text.trim l) = .assign key (c :: body))
    (hfresh : mode = .strict → scan.declares key = false) (hquote : Quote.ofChar? c = some quote) :
    scan.statement origin mode n l = scan.closeQuote mode ⟨key, n, c :: body, quote, body⟩ := by
  have hfree : (decide (mode = .strict) && scan.declares key) = false := by simpa using hfresh
  simp [statement, hline, hfree, hquote]

/-- A step is what reading the line does. -/
theorem line_of_step (hstep : Step origin mode n l scan scan') :
    scan.line origin mode n l = .ok scan' := by
  cases hstep with
  | blank hpending hline => simp [line_of_not_pending hpending, statement, hline]
  | skipped hpending hline hmode => simp [line_of_not_pending hpending, statement, hline, hmode]
  | plain hpending hline hfresh hquote =>
    rw [line_of_not_pending hpending, statement_of_plain hline hfresh hquote]
  | quoted hpending hline hfresh hquote hcloses =>
    rw [line_of_not_pending hpending, statement_of_quote hline hfresh hquote]
    exact closeQuote_of_closes hcloses
  | opened hpending hline hfresh hquote hopen =>
    rw [line_of_not_pending hpending, statement_of_quote hline hfresh hquote]
    exact closeQuote_of_open hopen
  | continued hpending hopen => rw [line_of_pending hpending, closeQuote_of_open hopen]
  | closed hpending hcloses => rw [line_of_pending hpending, closeQuote_of_closes hcloses]

/-- A statement is a step, or it fails in strict mode with a fault of its line. -/
theorem statement_cases (origin : String) (mode : Mode) {scan : Scan}
    (hpending : scan.pending = none) (n : Nat) (l : List Char) :
    (∃ scan', Step origin mode n l scan scan') ∨
      ∃ f, scan.statement origin mode n l = .error f ∧ mode = .strict ∧ f.line = n := by
  cases hline : Statement.ofTrimmed (Text.trim l) with
  | blank => exact .inl ⟨_, .blank hpending hline⟩
  | faulty defect =>
    cases mode with
    | strict => exact .inr ⟨⟨n, String.ofList (Text.trim l), defect⟩, by simp [statement, hline]⟩
    | lenient => exact .inl ⟨_, .skipped hpending hline rfl⟩
  | assign key value =>
    by_cases hfresh : mode = .strict → scan.declares key = false
    · cases value with
      | nil => exact .inl ⟨_, .plain hpending hline hfresh rfl⟩
      | cons c body =>
        cases hquote : Quote.ofChar? c with
        | none => exact .inl ⟨_, .plain hpending hline hfresh hquote⟩
        | some quote =>
          obtain hopen | ⟨value, hcloses⟩ | ⟨f, hfault, hmode, hf⟩ :=
            closeQuote_cases mode scan ⟨key, n, c :: body, quote, body⟩
          · exact .inl ⟨_, .opened hpending hline hfresh hquote hopen⟩
          · exact .inl ⟨_, .quoted hpending hline hfresh hquote hcloses⟩
          · refine .inr ⟨f, ?_, hmode, hf⟩
            rw [statement_of_quote hline hfresh hquote, hfault]
    · rw [Classical.not_imp, Bool.not_eq_false] at hfresh
      obtain ⟨rfl, htaken⟩ := hfresh
      exact .inr ⟨_, statement_of_taken hline htaken, rfl, rfl⟩

/-- A line takes the reading on, or a strict reading refuses it and blames the line where its
statement began. -/
theorem line_cases (origin : String) (mode : Mode) (scan : Scan) (n : Nat) (l : List Char) :
    (∃ scan', Step origin mode n l scan scan') ∨
      ∃ f, scan.line origin mode n l = .error f ∧ mode = .strict ∧ f.line = scan.start n := by
  cases hpending : scan.pending with
  | none =>
    rw [line_of_not_pending hpending, start, hpending]
    exact statement_cases origin mode hpending n l
  | some q =>
    rw [line_of_pending hpending, start, hpending]
    obtain hopen | ⟨value, hcloses⟩ | hfault :=
      closeQuote_cases mode scan { q with body := q.body ++ '\n' :: l }
    · exact .inl ⟨_, .continued hpending hopen⟩
    · exact .inl ⟨_, .closed hpending hcloses⟩
    · exact .inr hfault

/-- A line is read without a fault exactly if it is a step. -/
theorem line_eq_ok_iff :
    scan.line origin mode n l = .ok scan' ↔ Step origin mode n l scan scan' := by
  refine ⟨fun hline => ?_, line_of_step⟩
  obtain ⟨next, hstep⟩ | ⟨f, hfault, -⟩ := line_cases origin mode scan n l
  · rw [line_of_step hstep] at hline
    exact Except.ok.inj hline ▸ hstep
  · rw [hfault] at hline
    cases hline

/-- Only strict reading fails, at the line where the statement has begun. -/
theorem fault_of_line {f : LineFault} (hline : scan.line origin mode n l = .error f) :
    mode = .strict ∧ f.line = scan.start n := by
  obtain ⟨next, hstep⟩ | ⟨f', hfault, hmode, hf⟩ := line_cases origin mode scan n l
  · rw [line_of_step hstep] at hline
    cases hline
  · rw [hfault] at hline
    exact ⟨hmode, Except.error.inj hline ▸ hf⟩

theorem lines_cons (origin : String) (mode : Mode) (scan : Scan) (n : Nat) (l : List Char)
    (ls : List (List Char)) :
    scan.lines origin mode n (l :: ls) =
      scan.line origin mode n l >>= fun scan => scan.lines origin mode (n + 1) ls :=
  rfl

/-- Lines are read if there is a step for the first one and the rest is read after it. -/
theorem lines_cons_eq_ok_iff {l : List Char} {ls : List (List Char)} {last : Scan} :
    scan.lines origin mode n (l :: ls) = .ok last ↔
      ∃ next, Step origin mode n l scan next ∧ next.lines origin mode (n + 1) ls = .ok last := by
  rw [lines_cons]
  constructor
  · intro hlines
    cases hline : scan.line origin mode n l with
    | error f => simp [hline, bind, Except.bind] at hlines
    | ok next =>
      rw [hline] at hlines
      exact ⟨next, line_eq_ok_iff.1 hline, hlines⟩
  · rintro ⟨next, hstep, hlines⟩
    rw [line_of_step hstep]
    exact hlines

/-- Reading goes on with later lines where it stopped. -/
theorem lines_append (origin : String) (mode : Mode) (scan : Scan) (n : Nat)
    (ls ms : List (List Char)) :
    scan.lines origin mode n (ls ++ ms) =
      scan.lines origin mode n ls >>= fun scan => scan.lines origin mode (n + ls.length) ms := by
  induction ls generalizing scan n with
  | nil => rfl
  | cons l ls ih =>
    rw [List.cons_append, lines_cons, lines_cons]
    cases scan.line origin mode n l with
    | error f => rfl
    | ok scan' =>
      have hrest := ih scan' (n + 1)
      rw [Nat.add_right_comm] at hrest
      exact hrest

/-- What every line keeps, all lines keep. -/
theorem lines_induct {motive : Scan → Prop}
    (hstep : ∀ {n l scan scan'}, Step origin mode n l scan scan' → motive scan → motive scan')
    {ls : List (List Char)} (hscan : motive scan)
    (hlines : scan.lines origin mode n ls = .ok scan') : motive scan' := by
  induction ls generalizing scan n with
  | nil =>
    cases hlines
    exact hscan
  | cons l ls ih =>
    obtain ⟨next, hnext, hlines⟩ := lines_cons_eq_ok_iff.1 hlines
    exact ih (hstep hnext hscan) hlines

/-- The names of a reading are variable names without repetition. -/
structure Named (scan : Scan) : Prop where
  keys : ∀ name ∈ scan.keys, validName name = true
  nodup : scan.keys.Nodup
  pending : ∀ q ∈ scan.pending, isName q.key = true

theorem named_empty : Named {} :=
  ⟨by simp [keys], by simp [keys], by simp⟩

theorem Named.declare (hscan : Named scan) {key : List Char} (hname : isName key = true)
    (value : List Char) (line : Nat) : Named (scan.declare key value line) := by
  refine ⟨fun name hmem => ?_, ?_, by simp [Scan.declare]⟩
  · rw [mem_keys_declare] at hmem
    rcases hmem with rfl | hmem
    · simpa [validName] using hname
    · exact hscan.keys name hmem
  · rw [keys_declare]
    split
    · exact hscan.nodup
    · rename_i hfresh
      rw [← List.concat_eq_append]
      exact hscan.nodup.concat hfresh

/-- A step keeps all keys names. -/
theorem Step.named (hstep : Step origin mode n l scan scan') (hscan : Named scan) :
    Named scan' := by
  cases hstep with
  | blank => exact hscan
  | skipped => exact ⟨hscan.keys, hscan.nodup, hscan.pending⟩
  | plain _ hline => exact hscan.declare (isName_of_ofTrimmed hline) _ _
  | quoted _ hline => exact hscan.declare (isName_of_ofTrimmed hline) _ _
  | opened _ hline =>
    exact ⟨hscan.keys, hscan.nodup, by simpa using isName_of_ofTrimmed hline⟩
  | continued hpending =>
    exact ⟨hscan.keys, hscan.nodup, by simpa using hscan.pending _ hpending⟩
  | closed hpending => exact hscan.declare (hscan.pending _ hpending) _ _

/-- Where no quote is open there is nothing left to do at the end. -/
theorem finish_of_not_pending (hpending : scan.pending = none) :
    scan.finish origin mode = .ok scan := by
  simp only [finish, hpending]

/-- A strict reading does not end within a quoted value. -/
theorem finish_strict {q : OpenQuote} (hpending : scan.pending = some q) :
    scan.finish origin .strict =
      .error ⟨q.line, String.ofList q.opening, .unterminatedQuote⟩ := by
  simp only [finish, hpending]

/-- A lenient reading keeps what there is of a value that is never closed. -/
theorem finish_lenient {q : OpenQuote} (hpending : scan.pending = some q) :
    scan.finish origin .lenient =
      .ok { scan.declare q.key (q.quote.unescape q.body) q.line with
        warnings := scan.warnings ++ [.unterminatedQuote origin q.line] } := by
  simp only [finish, hpending, declare]

/-- Strict reading ends well exactly if no quote is open. -/
theorem finish_strict_eq_ok_iff :
    scan.finish origin .strict = .ok scan' ↔ scan.pending = none ∧ scan' = scan := by
  cases hpending : scan.pending with
  | none => simp [finish_of_not_pending hpending, eq_comm]
  | some q => simp [finish_strict hpending]

end Scan

variable {origin : String} {mode : Mode} {ls : List (List Char)} {scan : Scan}

/-- Declarations are what the lines leave, once an open quote is dealt with. -/
theorem declarations_eq_ok_iff :
    declarations origin mode ls = .ok scan ↔ ∃ last,
      Scan.lines origin mode {} 1 ls = .ok last ∧ last.finish origin mode = .ok scan := by
  rw [declarations]
  cases Scan.lines origin mode {} 1 ls <;> simp [bind, Except.bind]

/-- The names of a reading that succeeds are variable names without repetition. -/
theorem named_of_declarations (hls : declarations origin mode ls = .ok scan) : scan.Named := by
  obtain ⟨last, hlines, hfinish⟩ := declarations_eq_ok_iff.1 hls
  have hlast : last.Named := Scan.lines_induct Scan.Step.named Scan.named_empty hlines
  cases hpending : last.pending with
  | none =>
    rw [Scan.finish_of_not_pending hpending] at hfinish
    exact Except.ok.inj hfinish ▸ hlast
  | some q =>
    cases mode with
    | strict =>
      rw [Scan.finish_strict hpending] at hfinish
      cases hfinish
    | lenient =>
      rw [Scan.finish_lenient hpending] at hfinish
      cases hfinish
      have hdeclare := hlast.declare (hlast.pending q hpending) (q.quote.unescape q.body) q.line
      exact ⟨hdeclare.keys, hdeclare.nodup, hdeclare.pending⟩

/-- A text is read when its lines are and the references in their values are. -/
theorem parseWith_eq_ok_iff {content : String} {outside : String → Option String}
    {reading : Reading} :
    parseWith origin mode outside content = .ok reading ↔ ∃ scan env memo,
      declarations origin mode (Text.lines (dropByteOrderMark content.toList)) = .ok scan ∧
      Scope.expand ⟨origin, mode, scan.declarations, outside⟩ = .ok (env, memo) ∧
      reading = ⟨env, scan.warnings ++ memo.warnings⟩ := by
  rw [parseWith]
  cases declarations origin mode (Text.lines (dropByteOrderMark content.toList)) with
  | error f => simp [bind, Except.bind, Except.mapError]
  | ok scan =>
    cases hexpand : Scope.expand ⟨origin, mode, scan.declarations, outside⟩ with
    | error f => simp [bind, Except.bind, Except.mapError, hexpand]
    | ok result =>
      obtain ⟨env, memo⟩ := result
      simp [bind, Except.bind, Except.mapError, hexpand, eq_comm]

end EnvSettings.Dotenv
