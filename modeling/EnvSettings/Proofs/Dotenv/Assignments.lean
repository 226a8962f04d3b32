import EnvSettings.Proofs.Dotenv.Declarations

namespace EnvSettings.Dotenv

/-- A value whose quote is open ends within the text so far or goes on over the lines below; it has
the given value and leaves the given lines. A lenient reading takes what there is of a value that is
never closed. -/
inductive Quoted (mode : Mode) (quote : Quote) :
    List Char → List (List Char × Nat) → List Char → List (List Char × Nat) → Prop
  | closed {body value : List Char} {ls : List (List Char × Nat)}
      (hcloses : Scan.Closes mode quote body value) : Quoted mode quote body ls value ls
  | next {body l value : List Char} {n : Nat} {ls rest : List (List Char × Nat)}
      (hopen : quote.cut? body = none)
      (hbelow : Quoted mode quote (body ++ '\n' :: l) ls value rest) :
      Quoted mode quote body ((l, n) :: ls) value rest
  | unclosed {body : List Char} (hopen : quote.cut? body = none) (hmode : mode = .lenient) :
      Quoted mode quote body [] (quote.unescape body) []

/-- The assignments that numbered lines make, each with the line where it begins. A lenient reading
passes over faulty lines. -/
inductive Assigns (mode : Mode) : List (List Char × Nat) → List Declaration → Prop
  | nil : Assigns mode [] []
  | blank {l : List Char} {n : Nat} {ls : List (List Char × Nat)} {ds : List Declaration}
      (hline : Statement.ofTrimmed (Text.trim l) = .blank) (hrest : Assigns mode ls ds) :
      Assigns mode ((l, n) :: ls) ds
  | skipped {l : List Char} {n : Nat} {ls : List (List Char × Nat)} {ds : List Declaration}
      {defect : LineDefect} (hline : Statement.ofTrimmed (Text.trim l) = .faulty defect)
      (hmode : mode = .lenient) (hrest : Assigns mode ls ds) : Assigns mode ((l, n) :: ls) ds
  | plain {l key value : List Char} {n : Nat} {ls : List (List Char × Nat)}
      {ds : List Declaration} (hline : Statement.ofTrimmed (Text.trim l) = .assign key value)
      (hquote : value.head?.bind Quote.ofChar? = none) (hrest : Assigns mode ls ds) :
      Assigns mode ((l, n) :: ls)
        (⟨String.ofList key, String.ofList (plainValue value), n⟩ :: ds)
  | quoted {l key body value : List Char} {c : Char} {quote : Quote} {n : Nat}
      {ls rest : List (List Char × Nat)} {ds : List Declaration}
      (hline : Statement.ofTrimmed (Text.trim l) = .assign key (c :: body))
      (hquote : Quote.ofChar? c = some quote) (hvalue : Quoted mode quote body ls value rest)
      (hrest : Assigns mode rest ds) :
      Assigns mode ((l, n) :: ls) (⟨String.ofList key, String.ofList value, n⟩ :: ds)

/-- Stores assignments one after the other. -/
def storeAll (ds es : List Declaration) : List Declaration :=
  ds.foldl (fun es d => Scan.declareIn d es) es

/-- Names that are stored later stand behind the ones that are there, in the order of their first
assignments. -/
theorem map_key_storeAll (ds es : List Declaration) :
    (storeAll ds es).map (·.key) = es.map (·.key) ++
      ((ds.map (·.key)).filter fun key => key ∉ es.map (·.key)).eraseDups := by
  induction ds generalizing es with
  | nil => simp [storeAll]
  | cons d ds ih =>
    have hstep : storeAll (d :: ds) es = storeAll ds (Scan.declareIn d es) := rfl
    rw [hstep, ih, Scan.map_key_declareIn, List.map_cons]
    by_cases hmem : d.key ∈ es.map (·.key)
    · rw [if_pos hmem, List.filter_cons_of_neg (by simpa using hmem)]
    · rw [if_neg hmem, List.filter_cons_of_pos (by simpa using hmem), List.eraseDups_cons,
        List.filter_filter, List.append_assoc, List.singleton_append]
      congr 3
      refine List.filter_congr fun key _ => ?_
      rw [Bool.eq_iff_iff]
      simp [and_comm]

namespace Scan

variable {origin : String} {mode : Mode} {scan next : Scan}

/-- What lines below a reading lead to: their assignments are stored after what is declared so far.
Where a value is open, the lines complete it first. -/
structure Completes (mode : Mode) (scan : Scan) (ls : List (List Char × Nat))
    (final : List Declaration) : Prop where
  done : scan.pending = none → ∃ ds, Assigns mode ls ds ∧ final = storeAll ds scan.declarations
  rest : ∀ q, scan.pending = some q → q.quote.cut? q.body = none → ∃ value rest ds,
    Quoted mode q.quote q.body ls value rest ∧ Assigns mode rest ds ∧
      final = storeAll ds (scan.declare q.key value q.line).declarations

/-- At the end of the lines nothing is left to assign. -/
theorem completes_of_finish {final : Scan} (hfinish : scan.finish origin mode = .ok final) :
    Completes mode scan [] final.declarations := by
  constructor
  · intro hpending
    rw [finish_of_not_pending hpending] at hfinish
    exact ⟨[], .nil, by rw [Except.ok.inj hfinish]; rfl⟩
  · intro q hpending hopen
    cases mode with
    | strict =>
      rw [finish_strict hpending] at hfinish
      cases hfinish
    | lenient =>
      rw [finish_lenient hpending] at hfinish
      cases hfinish
      exact ⟨_, [], [], .unclosed hopen rfl, .nil, rfl⟩

/-- A scan without an open quote goes on with its assignments. -/
theorem Completes.of_done {ls : List (List Char × Nat)} {final : List Declaration}
    (hpending : scan.pending = none)
    (hdone : ∃ ds, Assigns mode ls ds ∧ final = storeAll ds scan.declarations) :
    Completes mode scan ls final :=
  ⟨fun _ => hdone, fun q hsome => by simp [hpending] at hsome⟩

/-- A scan with an open quote goes on with the rest of it. -/
theorem Completes.of_rest {ls : List (List Char × Nat)} {final : List Declaration}
    {q : OpenQuote} (hpending : scan.pending = some q)
    (hrest : q.quote.cut? q.body = none → ∃ value rest ds,
      Quoted mode q.quote q.body ls value rest ∧ Assigns mode rest ds ∧
        final = storeAll ds (scan.declare q.key value q.line).declarations) :
    Completes mode scan ls final := by
  refine ⟨fun hnone => by simp [hpending] at hnone, fun other hsome => ?_⟩
  obtain rfl : q = other := Option.some.inj (hpending.symm.trans hsome)
  exact hrest

/-- What the lines below a line lead to, the line and they lead to together. -/
theorem Step.completes {n : Nat} {l : List Char} {ls : List (List Char × Nat)}
    {final : List Declaration} (hstep : Step origin mode n l scan next)
    (hnext : Completes mode next ls final) : Completes mode scan ((l, n) :: ls) final := by
  cases hstep with
  | blank hpending hline =>
    obtain ⟨ds, hds, hfinal⟩ := hnext.done hpending
    exact .of_done hpending ⟨ds, .blank hline hds, hfinal⟩
  | skipped hpending hline hmode =>
    obtain ⟨ds, hds, hfinal⟩ := hnext.done hpending
    exact .of_done hpending ⟨ds, .skipped hline hmode hds, hfinal⟩
  | plain hpending hline _ hquote =>
    obtain ⟨ds, hds, hfinal⟩ := hnext.done rfl
    exact .of_done hpending ⟨_ :: ds, .plain hline hquote hds, hfinal⟩
  | quoted hpending hline _ hquote hcloses =>
    obtain ⟨ds, hds, hfinal⟩ := hnext.done rfl
    exact .of_done hpending ⟨_ :: ds, .quoted hline hquote (.closed hcloses) hds, hfinal⟩
  | opened hpending hline _ hquote hopen =>
    obtain ⟨value, rest, ds, hvalue, hds, hfinal⟩ := hnext.rest _ rfl hopen
    exact .of_done hpending ⟨_ :: ds, .quoted hline hquote hvalue hds, hfinal⟩
  | continued hpending hbelow =>
    obtain ⟨value, rest, ds, hvalue, hds, hfinal⟩ := hnext.rest _ rfl hbelow
    exact .of_rest hpending fun hopen => ⟨value, rest, ds, .next hopen hvalue, hds, hfinal⟩
  | closed hpending hcloses =>
    obtain ⟨ds, hds, hfinal⟩ := hnext.done rfl
    exact .of_rest hpending fun hopen => ⟨_, _, ds, .next hopen (.closed hcloses), hds, hfinal⟩

/-- A reading comes to the assignments of its lines, stored one after the other. -/
theorem completes_of_lines {last final : Scan} {n : Nat} {ls : List (List Char)}
    (hlines : scan.lines origin mode n ls = .ok last)
    (hfinish : last.finish origin mode = .ok final) :
    Completes mode scan (ls.zipIdx n) final.declarations := by
  induction ls generalizing scan n with
  | nil =>
    cases hlines
    exact completes_of_finish hfinish
  | cons l ls ih =>
    obtain ⟨next, hstep, hlines⟩ := lines_cons_eq_ok_iff.1 hlines
    exact hstep.completes (ih hlines)

end Scan

/-- The declarations of lines are their assignments, stored one after the other. -/
theorem exists_assigns_of_declarations {origin : String} {mode : Mode} {ls : List (List Char)}
    {scan : Scan} (hls : declarations origin mode ls = .ok scan) :
    ∃ ds, Assigns mode (ls.zipIdx 1) ds ∧ scan.declarations = storeAll ds [] := by
  obtain ⟨last, hlines, hfinish⟩ := declarations_eq_ok_iff.1 hls
  exact (Scan.completes_of_lines hlines hfinish).done rfl

end EnvSettings.Dotenv
