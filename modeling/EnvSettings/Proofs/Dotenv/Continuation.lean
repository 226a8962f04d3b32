import Mathlib
import EnvSettings.Proofs.Dotenv.Declarations

namespace EnvSettings.Dotenv

/-- The same declaration, `k` lines further down. -/
def Declaration.shift (k : Nat) (d : Declaration) : Declaration :=
  { d with line := d.line + k }

/-- The quote as if it stood lines further down. -/
def OpenQuote.shift (k : Nat) (q : OpenQuote) : OpenQuote :=
  { q with line := q.line + k }

/-- The fault as if it stood lines further down. -/
def LineFault.shift (k : Nat) (f : LineFault) : LineFault :=
  { f with line := f.line + k }

namespace Scan

variable {origin : String} {first scan scan' : Scan} {k n : Nat} {l : List Char}

/-- The first reading and then what another one, which begins `k` lines further down, has read. -/
def followedBy (first : Scan) (k : Nat) (scan : Scan) : Scan :=
  { first with
    declarations := first.declarations ++ scan.declarations.map (·.shift k)
    pending := scan.pending.map (·.shift k) }

/-- What becomes of the outcome of a reading when it takes place below the first one. -/
def relocate (first : Scan) (k : Nat) : Except LineFault Scan → Except LineFault Scan
  | .ok scan => .ok (first.followedBy k scan)
  | .error f => .error (f.shift k)

/-- The names that are declared, or will be once the value that is open is closed. -/
def claimed (scan : Scan) : List String :=
  scan.keys ++ (scan.pending.map fun q => String.ofList q.key).toList

/-- A reading has none of the names of the first one. -/
def Apart (first scan : Scan) : Prop :=
  ∀ name ∈ scan.claimed, name ∉ first.keys

/-- The line assigns one of the names of the first reading. -/
def Retakes (first scan : Scan) (l : List Char) : Prop :=
  scan.pending = none ∧ ∃ key value,
    Statement.ofTrimmed (Text.trim l) = .assign key value ∧ first.declares key = true

/-- A name is claimed if it is declared or its quote is still open. -/
theorem mem_claimed {name : String} :
    name ∈ scan.claimed ↔
      name ∈ scan.keys ∨ ∃ q ∈ scan.pending, name = String.ofList q.key := by
  cases hpending : scan.pending <;> simp [claimed, hpending]

/-- Where no quote is open the claimed names are the declared ones. -/
theorem claimed_of_not_pending (hpending : scan.pending = none) : scan.claimed = scan.keys := by
  simp [claimed, hpending]

theorem mem_claimed_declare {key value : List Char} {line : Nat} {name : String} :
    name ∈ (scan.declare key value line).claimed ↔ name = String.ofList key ∨ name ∈ scan.keys := by
  have hpending : (scan.declare key value line).pending = none := rfl
  rw [claimed_of_not_pending hpending, mem_keys_declare]

/-- The names of two scans are those of the first one and then those of the second one. -/
theorem keys_followedBy : (first.followedBy k scan).keys = first.keys ++ scan.keys := by
  simp [keys, followedBy, Declaration.shift]

/-- A scan that is followed by nothing stays as it is. -/
theorem followedBy_empty (hpending : first.pending = none) : first.followedBy k {} = first := by
  obtain ⟨ds, pending, ws⟩ := first
  obtain rfl : pending = none := hpending
  simp [followedBy]

theorem declareIn_append {d : Declaration} {ds : List Declaration}
    (hfresh : d.key ∉ ds.map (·.key)) (es : List Declaration) :
    declareIn d (ds ++ es) = ds ++ declareIn d es := by
  induction ds with
  | nil => rfl
  | cons e ds ih =>
    rw [List.map_cons, List.mem_cons, not_or] at hfresh
    rw [List.cons_append, declareIn, if_neg (Ne.symm hfresh.1), ih hfresh.2, List.cons_append]

/-- Declaring a name does not depend on where its line stands. -/
theorem map_shift_declareIn (k : Nat) (d : Declaration) (ds : List Declaration) :
    (declareIn d ds).map (·.shift k) = declareIn (d.shift k) (ds.map (·.shift k)) := by
  induction ds with
  | nil => rfl
  | cons e ds ih =>
    by_cases hkey : e.key = d.key
    · simp [declareIn, Declaration.shift, hkey]
    · have hkey' : (e.shift k).key ≠ (d.shift k).key := hkey
      rw [declareIn, if_neg hkey, List.map_cons, List.map_cons, declareIn, if_neg hkey', ih]

/-- What is declared after a first scan is declared in the second one. -/
theorem declare_followedBy {key : List Char} (hfresh : String.ofList key ∉ first.keys)
    (value : List Char) (line : Nat) :
    (first.followedBy k scan).declare key value (line + k) =
      first.followedBy k (scan.declare key value line) := by
  simp only [declare, followedBy, Option.map_none, map_shift_declareIn]
  rw [declareIn_append hfresh]
  rfl

/-- After a first scan a name is taken if it is taken in the second one, unless the first one has
it. -/
theorem declares_followedBy {key : List Char} (hfresh : first.declares key = false) :
    (first.followedBy k scan).declares key = scan.declares key := by
  rw [Bool.eq_iff_iff, declares_iff, declares_iff, keys_followedBy, List.mem_append,
    or_iff_right]
  rw [← declares_iff, hfresh]
  exact Bool.false_ne_true

/-- A quote that is closed after a first scan is closed in the second one. -/
theorem closeQuote_followedBy {q : OpenQuote} (hfresh : String.ofList q.key ∉ first.keys) :
    (first.followedBy k scan).closeQuote .strict (q.shift k) =
      first.relocate k (scan.closeQuote .strict q) := by
  have hquote : (q.shift k).quote.cut? (q.shift k).body = q.quote.cut? q.body := rfl
  rw [closeQuote, closeQuote, hquote]
  cases q.quote.cut? q.body with
  | none => rfl
  | some parts =>
    dsimp only
    split
    · rfl
    · rw [relocate, ← declare_followedBy hfresh]
      rfl

/-- A statement that is read after a first scan is read in the second one. -/
theorem statement_followedBy
    (hfresh : ∀ key value, Statement.ofTrimmed (Text.trim l) = .assign key value →
      first.declares key = false) :
    (first.followedBy k scan).statement origin .strict (n + k) l =
      first.relocate k (scan.statement origin .strict n l) := by
  cases hline : Statement.ofTrimmed (Text.trim l) with
  | blank => simp [statement, hline, relocate]
  | faulty defect => simp [statement, hline, relocate, LineFault.shift]
  | assign key value =>
    have hfirst := hfresh key value hline
    have hkey : String.ofList key ∉ first.keys := by
      rw [← declares_iff, hfirst]
      exact Bool.false_ne_true
    have hdeclares := @declares_followedBy first scan k _ hfirst
    cases htaken : scan.declares key with
    | true =>
      rw [statement_of_taken hline htaken, statement_of_taken hline (hdeclares.trans htaken)]
      rfl
    | false =>
      have hfree : Mode.strict = .strict → scan.declares key = false := fun _ => htaken
      have hfree' : Mode.strict = .strict → (first.followedBy k scan).declares key = false :=
        fun _ => hdeclares.trans htaken
      cases hquote : value.head?.bind Quote.ofChar? with
      | none =>
        rw [statement_of_plain hline hfree hquote, statement_of_plain hline hfree' hquote,
          declare_followedBy hkey]
        rfl
      | some quote =>
        obtain ⟨c, hhead, hquote⟩ := Option.bind_eq_some_iff.1 hquote
        obtain ⟨body, rfl⟩ := List.head?_eq_some_iff.1 hhead
        rw [statement_of_quote hline hfree hquote, statement_of_quote hline hfree' hquote]
        exact closeQuote_followedBy (q := ⟨key, n, c :: body, quote, body⟩) hkey

/-- A line that takes no name of the first reading again is read as it would be without it. -/
theorem line_followedBy (hapart : first.Apart scan) (hfree : ¬ first.Retakes scan l) :
    (first.followedBy k scan).line origin .strict (n + k) l =
      first.relocate k (scan.line origin .strict n l) := by
  cases hpending : scan.pending with
  | none =>
    have hpending' : (first.followedBy k scan).pending = none := by simp [followedBy, hpending]
    rw [line_of_not_pending hpending, line_of_not_pending hpending']
    refine statement_followedBy fun key value hline => ?_
    rw [← Bool.not_eq_true]
    exact fun htaken => hfree ⟨hpending, key, value, hline, htaken⟩
  | some q =>
    have hpending' : (first.followedBy k scan).pending = some (q.shift k) := by
      simp [followedBy, hpending]
    have hkey := hapart _ (mem_claimed.2 (.inr ⟨q, hpending, rfl⟩))
    rw [line_of_pending hpending, line_of_pending hpending']
    exact closeQuote_followedBy (q := { q with body := q.body ++ '\n' :: l }) hkey

/-- A line that takes a name of the first reading again is refused below it. -/
theorem line_of_retakes {key value : List Char} (hpending : scan.pending = none)
    (hline : Statement.ofTrimmed (Text.trim l) = .assign key value)
    (htaken : first.declares key = true) :
    (first.followedBy k scan).line origin .strict n l =
      .error ⟨n, String.ofList (Text.trim l), .duplicateKey (String.ofList key)⟩ := by
  have hpending' : (first.followedBy k scan).pending = none := by simp [followedBy, hpending]
  rw [line_of_not_pending hpending', statement_of_taken hline]
  rw [declares_iff] at htaken ⊢
  rw [keys_followedBy]
  exact List.mem_append_left _ htaken

/-- A line claims the name that it assigns, and no other. -/
theorem Step.mem_claimed_iff {mode : Mode} (hstep : Step origin mode n l scan scan')
    {name : String} :
    name ∈ scan'.claimed ↔ name ∈ scan.claimed ∨ scan.pending = none ∧ ∃ key value,
      Statement.ofTrimmed (Text.trim l) = .assign key value ∧ name = String.ofList key := by
  cases hstep with
  | blank hpending hline => simp [hline]
  | skipped hpending hline hmode => simp [hline, mem_claimed, keys]
  | plain hpending hline =>
    simp [mem_claimed_declare, hline, hpending, claimed_of_not_pending, or_comm]
  | quoted hpending hline =>
    simp [mem_claimed_declare, hline, hpending, claimed_of_not_pending, or_comm]
  | opened hpending hline => simp [mem_claimed, hline, hpending, keys]
  | continued hpending hopen => simp [mem_claimed, hpending, keys]
  | closed hpending hcloses =>
    rw [mem_claimed_declare, mem_claimed]
    simp [hpending, or_comm]

/-- Names that are claimed stay so. -/
theorem mem_claimed_of_lines {mode : Mode} {ls : List (List Char)} {name : String}
    (hname : name ∈ scan.claimed) (hlines : scan.lines origin mode n ls = .ok scan') :
    name ∈ scan'.claimed :=
  lines_induct (fun hstep hmem => hstep.mem_claimed_iff.2 (.inl hmem)) hname hlines

/-- A reading stays apart from the first one as long as it takes none of its names again. -/
theorem Apart.step {mode : Mode} (hapart : first.Apart scan) (hfree : ¬ first.Retakes scan l)
    (hstep : Step origin mode n l scan scan') : first.Apart scan' := by
  intro name hmem
  rcases hstep.mem_claimed_iff.1 hmem with hmem | ⟨hpending, key, value, hline, rfl⟩
  · exact hapart name hmem
  · exact fun htaken => hfree ⟨hpending, key, value, hline, declares_iff.2 htaken⟩

/-- Lines below a first reading are read as they would be without it, up to one that takes one of
its names again. -/
theorem lines_followedBy (origin : String) (k : Nat) (hapart : first.Apart scan) (n : Nat)
    (ls : List (List Char)) :
    (first.followedBy k scan).lines origin .strict (n + k) ls =
        first.relocate k (scan.lines origin .strict n ls) ∧
      (∀ scan', scan.lines origin .strict n ls = .ok scan' → first.Apart scan') ∨
    ∃ f key, (first.followedBy k scan).lines origin .strict (n + k) ls = .error f ∧
      n + k ≤ f.line ∧ f.defect = .duplicateKey key ∧ key ∈ first.keys ∧
      ∀ scan', scan.lines origin .strict n ls = .ok scan' → key ∈ scan'.claimed := by
  induction ls generalizing scan n with
  | nil => exact .inl ⟨rfl, fun scan' hlines => Except.ok.inj hlines ▸ hapart⟩
  | cons l ls ih =>
    by_cases hretakes : first.Retakes scan l
    · obtain ⟨hpending, key, value, hline, htaken⟩ := hretakes
      rw [lines_cons, line_of_retakes hpending hline htaken]
      refine .inr ⟨_, String.ofList key, rfl, Nat.le_refl _, rfl, declares_iff.1 htaken, ?_⟩
      intro scan' hlines
      obtain ⟨next, hstep, hlines⟩ := lines_cons_eq_ok_iff.1 hlines
      have hclaimed := hstep.mem_claimed_iff.2 (.inr ⟨hpending, key, value, hline, rfl⟩)
      exact mem_claimed_of_lines hclaimed hlines
    · rw [lines_cons, lines_cons, line_followedBy hapart hretakes]
      cases hnext : scan.line origin .strict n l with
      | error f => exact .inl ⟨rfl, nofun⟩
      | ok next =>
        have hapart' := hapart.step hretakes (line_eq_ok_iff.1 hnext)
        have hrest := ih hapart' (n + 1)
        rw [Nat.add_right_comm] at hrest
        refine hrest.imp_right ?_
        rintro ⟨f, key, hfault, hle, hrest⟩
        exact ⟨f, key, hfault, by omega, hrest⟩

/-- A second scan ends as it would alone, with the first one before it. -/
theorem finish_followedBy (origin : String) :
    (first.followedBy k scan).finish origin .strict =
      first.relocate k (scan.finish origin .strict) := by
  cases hpending : scan.pending with
  | none =>
    have hpending' : (first.followedBy k scan).pending = none := by simp [followedBy, hpending]
    rw [finish_of_not_pending hpending, finish_of_not_pending hpending']
    rfl
  | some q =>
    have hpending' : (first.followedBy k scan).pending = some (q.shift k) := by
      simp [followedBy, hpending]
    rw [finish_strict hpending, finish_strict hpending']
    rfl

/-- A value that is open was opened by the line or before it. -/
theorem Step.start_eq {mode : Mode} (hstep : Step origin mode n l scan scan')
    (hopen : scan'.pending.isSome) : scan'.start (n + 1) = scan.start n := by
  cases hstep with
  | blank hpending => simp [hpending] at hopen
  | skipped hpending => simp [hpending] at hopen
  | plain => cases hopen
  | quoted => cases hopen
  | opened hpending => simp [start, hpending]
  | continued hpending => simp [start, hpending]
  | closed => cases hopen

/-- A reading fails at a statement all of whose lines are among those read, and what stands above
it can be read on its own. -/
theorem exists_take_of_fault {f : LineFault} {ls : List (List Char)}
    (hfault : scan.lines origin .strict n ls >>= (·.finish origin .strict) = .error f) :
    scan.pending.isSome ∧ f.line = scan.start n ∨
      ∃ m < ls.length, f.line = n + m ∧ ∃ scan',
        scan.lines origin .strict n (ls.take m) = .ok scan' ∧ scan'.pending = none := by
  induction ls generalizing scan n with
  | nil =>
    cases hpending : scan.pending with
    | none => simp [lines, bind, Except.bind, finish_of_not_pending hpending] at hfault
    | some q =>
      simp only [lines, bind, Except.bind, finish_strict hpending, Except.error.injEq] at hfault
      exact .inl ⟨rfl, by simp [← hfault, start, hpending]⟩
  | cons l ls ih =>
    -- A fault at the start of the statement at hand is one of the line itself if no value was open.
    have hhere (hline : f.line = scan.start n) : scan.pending.isSome ∧ f.line = scan.start n ∨
        ∃ m < (l :: ls).length, f.line = n + m ∧ ∃ scan',
          scan.lines origin .strict n ((l :: ls).take m) = .ok scan' ∧ scan'.pending = none := by
      cases hpending : scan.pending with
      | none =>
        rw [start, hpending] at hline
        exact .inr ⟨0, by simp, hline, scan, rfl, hpending⟩
      | some q => exact .inl ⟨rfl, hline⟩
    rw [lines_cons] at hfault
    cases hnext : scan.line origin .strict n l with
    | error f' =>
      rw [hnext] at hfault
      obtain rfl : f' = f := by simpa [bind, Except.bind] using hfault
      exact hhere (fault_of_line hnext).2
    | ok next =>
      rw [hnext] at hfault
      rcases ih hfault with ⟨hopen, hline⟩ | ⟨m, hm, hline, scan', hlines, hpending'⟩
      · rw [(line_eq_ok_iff.1 hnext).start_eq hopen] at hline
        exact hhere hline
      · refine .inr ⟨m + 1, by simpa using hm, by omega, scan', ?_, hpending'⟩
        rw [List.take_succ_cons, lines_cons, hnext]
        exact hlines

end Scan

variable {origin : String} {ls ms : List (List Char)} {first : Scan}

/-- Strict reading succeeds if all lines are read and no quote is left open. -/
theorem declarations_strict_eq_ok_iff :
    declarations origin .strict ls = .ok first ↔
      Scan.lines origin .strict {} 1 ls = .ok first ∧ first.pending = none := by
  rw [declarations_eq_ok_iff]
  constructor
  · rintro ⟨last, hlines, hfinish⟩
    obtain ⟨hpending, rfl⟩ := Scan.finish_strict_eq_ok_iff.1 hfinish
    exact ⟨hlines, hpending⟩
  · rintro ⟨hlines, hpending⟩
    exact ⟨first, hlines, Scan.finish_of_not_pending hpending⟩

/-- Lines that follow others are read from where these have ended. -/
theorem declarations_append_eq (hfirst : declarations origin .strict ls = .ok first)
    (ms : List (List Char)) :
    declarations origin .strict (ls ++ ms) =
      first.lines origin .strict (ls.length + 1) ms >>= (·.finish origin .strict) := by
  have hlines := (declarations_strict_eq_ok_iff.1 hfirst).1
  rw [declarations, Scan.lines_append, hlines, Nat.add_comm]
  rfl

/-- Lines below a first reading are read as they would be alone, unless they take one of its names
again. -/
theorem declarations_below (hfirst : declarations origin .strict ls = .ok first)
    (ms : List (List Char)) :
    declarations origin .strict (ls ++ ms) =
        first.relocate ls.length (declarations origin .strict ms) ∧
      (∀ second, declarations origin .strict ms = .ok second → first.keys.Disjoint second.keys) ∨
    ∃ f, declarations origin .strict (ls ++ ms) = .error f ∧ ls.length < f.line ∧
      ∃ key ∈ first.keys, f.defect = .duplicateKey key ∧
        ∀ second, declarations origin .strict ms = .ok second → key ∈ second.keys := by
  have hpending := (declarations_strict_eq_ok_iff.1 hfirst).2
  have hapart : first.Apart {} := by simp [Scan.Apart, Scan.claimed, Scan.keys]
  rw [declarations_append_eq hfirst, ← Scan.followedBy_empty (k := ls.length) hpending,
    Nat.add_comm]
  rcases Scan.lines_followedBy origin ls.length hapart 1 ms with
    ⟨hlines, hdisjoint⟩ | ⟨f, key, hfault, hle, hdefect, hkey, hclaimed⟩
  · left
    rw [Scan.followedBy_empty hpending] at hlines ⊢
    constructor
    · rw [hlines, declarations]
      cases Scan.lines origin .strict {} 1 ms with
      | error f => rfl
      | ok last => exact Scan.finish_followedBy origin
    · intro second hsecond
      obtain ⟨hlines, hpending'⟩ := declarations_strict_eq_ok_iff.1 hsecond
      have hapart' := hdisjoint second hlines
      rw [Scan.Apart, Scan.claimed_of_not_pending hpending'] at hapart'
      exact fun name hname hname' => hapart' name hname' hname
  · rw [Scan.followedBy_empty hpending] at hfault ⊢
    refine .inr ⟨f, by rw [hfault]; rfl, by omega, key, hkey, hdefect, fun second hsecond => ?_⟩
    obtain ⟨hlines, hpending'⟩ := declarations_strict_eq_ok_iff.1 hsecond
    rw [← Scan.claimed_of_not_pending hpending']
    exact hclaimed second hlines

/-- The lines above the one that a strict reading blames can be read. -/
theorem exists_declarations_take {f : LineFault}
    (hfault : declarations origin .strict ls = .error f) :
    0 < f.line ∧ f.line ≤ ls.length ∧
      ∃ scan, declarations origin .strict (ls.take (f.line - 1)) = .ok scan := by
  rcases Scan.exists_take_of_fault hfault with ⟨hopen, -⟩ | ⟨m, hm, hline, scan, hlines, hpending⟩
  · cases hopen
  · have hcount : f.line - 1 = m := by omega
    refine ⟨by omega, by omega, scan, ?_⟩
    rw [hcount]
    exact declarations_strict_eq_ok_iff.2 ⟨hlines, hpending⟩

/-- Below lines that can be read, a strict reading goes on from their declarations. Lines that can
be read alone and declare other names add their declarations, further down; all other lines make
the reading fail among them, with the fault they have alone or with one of the names above. And
whatever line a strict reading blames, the lines above it can be read. -/
theorem declarations_append (origin : String) :
    (∀ ls first, declarations origin .strict ls = .ok first → ∀ ms,
      declarations origin .strict (ls ++ ms) =
          first.lines origin .strict (ls.length + 1) ms >>= (·.finish origin .strict) ∧
        (∀ second, declarations origin .strict ms = .ok second →
          first.keys.Disjoint second.keys →
          declarations origin .strict (ls ++ ms) = .ok (first.followedBy ls.length second)) ∧
        ((¬ ∃ second, declarations origin .strict ms = .ok second ∧
            first.keys.Disjoint second.keys) →
          ∃ f, declarations origin .strict (ls ++ ms) = .error f ∧ ls.length < f.line ∧
            ((∃ f', declarations origin .strict ms = .error f' ∧ f = f'.shift ls.length) ∨
              ∃ key ∈ first.keys, f.defect = .duplicateKey key))) ∧
    ∀ ls f, declarations origin .strict ls = .error f →
      0 < f.line ∧ f.line ≤ ls.length ∧
        ∃ scan, declarations origin .strict (ls.take (f.line - 1)) = .ok scan := by
  refine ⟨fun ls first hfirst ms => ⟨declarations_append_eq hfirst ms, ?_, ?_⟩,
    fun ls f => exists_declarations_take⟩
  · intro second hsecond hdisjoint
    rcases declarations_below hfirst ms with ⟨hbelow, -⟩ | ⟨f, -, -, key, hkey, -, hclash⟩
    · rw [hbelow, hsecond]
      rfl
    · exact absurd (hclash second hsecond) (hdisjoint hkey)
  · intro hnone
    rcases declarations_below hfirst ms with
      ⟨hbelow, hdisjoint⟩ | ⟨f, hfault, hline, key, hkey, hdefect, -⟩
    · cases hsecond : declarations origin .strict ms with
      | ok second => exact absurd ⟨second, hsecond, hdisjoint second hsecond⟩ hnone
      | error f =>
        have hpositive := (exists_declarations_take hsecond).1
        rw [hsecond] at hbelow
        exact ⟨f.shift ls.length, hbelow, by simp [LineFault.shift, hpositive], .inl ⟨f, rfl, rfl⟩⟩
    · exact ⟨f, hfault, hline, .inr ⟨key, hkey, hdefect⟩⟩

/-- A value over two lines stands above two assignments, the second of which takes its name. -/
theorem declarations_append_clash :
    let ls := ["A=\"x", "y\" # two lines"].map String.toList
    let ms := ["B='1'", "A=2"].map String.toList
    ∃ first second f, declarations ".env" .strict ls = .ok first ∧ first.keys = ["A"] ∧
      declarations ".env" .strict ms = .ok second ∧ second.keys = ["B", "A"] ∧
      declarations ".env" .strict (ls ++ ms) = .error f ∧ 2 < f.line ∧
      ∃ scan, declarations ".env" .strict ((ls ++ ms).take (f.line - 1)) = .ok scan := by
  intro ls ms
  have hfirst : declarations ".env" .strict ls = .ok { declarations := [⟨"A", "x\ny", 1⟩] } := by
    cbv
  have hsecond : declarations ".env" .strict ms =
      .ok { declarations := [⟨"B", "1", 1⟩, ⟨"A", "2", 2⟩] } := by
    cbv
  have hclash : ¬ ∃ second, declarations ".env" .strict ms = .ok second ∧
      ["A"].Disjoint second.keys := by
    rintro ⟨second, hok, hdisjoint⟩
    rw [hsecond] at hok
    cases hok
    exact hdisjoint (List.mem_singleton_self "A") (by decide)
  obtain ⟨f, hfault, hline, -⟩ := ((declarations_append ".env").1 ls _ hfirst ms).2.2 hclash
  exact ⟨_, _, f, hfirst, rfl, hsecond, rfl, hfault, hline,
    ((declarations_append ".env").2 _ f hfault).2.2⟩

end EnvSettings.Dotenv
