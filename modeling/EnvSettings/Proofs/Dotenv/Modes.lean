import EnvSettings.Dotenv.Reader
import EnvSettings.Proofs.Dotenv.Declarations
import EnvSettings.Proofs.Dotenv.Expansion

namespace EnvSettings.Dotenv

/-- Where the first outcome is a success, the second one is the same. -/
def Refines {ε α : Type} (r r' : Except ε α) : Prop :=
  ∀ a, r = .ok a → r' = .ok a

section Refines

variable {ε α β : Type}

theorem Refines.refl (r : Except ε α) : Refines r r :=
  fun _ => id

theorem Refines.of_error (e : ε) (r : Except ε α) : Refines (.error e) r :=
  nofun

/-- Steps that refine others are put together to one that does. -/
theorem Refines.bind {r r' : Except ε α} {f f' : α → Except ε β} (hr : Refines r r')
    (hf : ∀ a, Refines (f a) (f' a)) : Refines (r >>= f) (r' >>= f') := by
  cases r with
  | error e => exact .of_error e _
  | ok a =>
    rw [hr a rfl]
    exact hf a

theorem Refines.mapError {r r' : Except ε α} (hr : Refines r r') (message : ε → β) :
    Refines (r.mapError message) (r'.mapError message) := by
  cases r with
  | error e => exact .of_error _ _
  | ok a =>
    rw [hr a rfl]
    exact .refl _

/-- References that agree where the first ones succeed fill in the same text. -/
theorem fill_refines {refer refer' : String → Memo → Except LineFault (String × Memo)}
    (hrefer : ∀ name memo, Refines (refer name memo) (refer' name memo)) (ps : List Piece)
    (memo : Memo) : Refines (fill refer ps memo) (fill refer' ps memo) := by
  induction ps generalizing memo with
  | nil => exact .refl _
  | cons p ps ih =>
    cases p with
    | char c => exact (ih memo).bind fun _ => .refl _
    | reference name => exact (hrefer name memo).bind fun r => (ih r.2).bind fun _ => .refl _

end Refines

namespace Scan

variable {origin : String} {scan scan' : Scan} {n : Nat} {l : List Char}

/-- A quote that closes in strict mode closes in lenient mode. -/
theorem Closes.lenient {quote : Quote} {body value : List Char}
    (hcloses : Closes .strict quote body value) : Closes .lenient quote body value := by
  obtain ⟨inner, after, hcut, hvalue, -⟩ := hcloses
  exact ⟨inner, after, hcut, hvalue, nofun⟩

/-- A step in strict mode is one in lenient mode. -/
theorem Step.lenient (hstep : Step origin .strict n l scan scan') :
    Step origin .lenient n l scan scan' := by
  cases hstep with
  | blank hpending hline => exact .blank hpending hline
  | skipped _ _ hmode => cases hmode
  | plain hpending hline _ hquote => exact .plain hpending hline nofun hquote
  | quoted hpending hline _ hquote hcloses =>
    exact .quoted hpending hline nofun hquote hcloses.lenient
  | opened hpending hline _ hquote hopen => exact .opened hpending hline nofun hquote hopen
  | continued hpending hopen => exact .continued hpending hopen
  | closed hpending hcloses => exact .closed hpending hcloses.lenient

/-- Strict reading warns of nothing. -/
theorem Step.warnings_eq (hstep : Step origin .strict n l scan scan') :
    scan'.warnings = scan.warnings := by
  cases hstep with
  | skipped _ _ hmode => cases hmode
  | _ => rfl

/-- Lines that are read in strict mode are read alike in lenient mode. -/
theorem lines_refines (origin : String) (scan : Scan) (n : Nat) (ls : List (List Char)) :
    Refines (scan.lines origin .strict n ls) (scan.lines origin .lenient n ls) := by
  induction ls generalizing scan n with
  | nil => exact .refl _
  | cons l ls ih =>
    rw [lines_cons, lines_cons]
    exact Refines.bind (fun next hline => line_of_step (line_eq_ok_iff.1 hline).lenient)
      fun next => ih next (n + 1)

/-- What ends well in strict mode ends alike in lenient mode. -/
theorem finish_refines (origin : String) (scan : Scan) :
    Refines (scan.finish origin .strict) (scan.finish origin .lenient) := by
  intro last hfinish
  obtain ⟨hpending, rfl⟩ := finish_strict_eq_ok_iff.1 hfinish
  exact finish_of_not_pending hpending

end Scan

/-- Declarations that are read in strict mode are read alike in lenient mode. -/
theorem declarations_refines (origin : String) (ls : List (List Char)) :
    Refines (declarations origin .strict ls) (declarations origin .lenient ls) :=
  (Scan.lines_refines origin {} 1 ls).bind fun scan => Scan.finish_refines origin scan

/-- A strict reading reports nothing. -/
theorem warnings_of_declarations {origin : String} {ls : List (List Char)} {scan : Scan}
    (hls : declarations origin .strict ls = .ok scan) : scan.warnings = [] := by
  obtain ⟨last, hlines, hfinish⟩ := declarations_eq_ok_iff.1 hls
  obtain ⟨-, rfl⟩ := Scan.finish_strict_eq_ok_iff.1 hfinish
  exact Scan.lines_induct (motive := fun scan => scan.warnings = [])
    (fun hstep hscan => hstep.warnings_eq.trans hscan) rfl hlines

namespace Scope

variable {scope : Scope}

/-- The same file, read leniently. -/
def lenient (scope : Scope) : Scope :=
  { scope with mode := .lenient }

/-- In strict mode a cycle is a failure. -/
theorem cyclic_refines (hmode : scope.mode = .strict) (stack : List String) (key : String)
    (memo : Memo) (r : Except LineFault (String × Memo)) :
    Refines (scope.cyclic stack key memo) r := by
  simp only [cyclic, hmode]
  exact .of_error _ _

/-- A reference that is resolved in strict mode is resolved alike in lenient mode. -/
theorem refer_refines (hmode : scope.mode = .strict)
    {resolve resolve' : String → Memo → Except LineFault (String × Memo)}
    (hresolve : ∀ name memo, Refines (resolve name memo) (resolve' name memo))
    (key name : String) (memo : Memo) :
    Refines (scope.refer resolve key name memo) (scope.lenient.refer resolve' key name memo) := by
  have hdecl : scope.lenient.declaration? name = scope.declaration? name := rfl
  have houtside : scope.lenient.outside name = scope.outside name := rfl
  rw [refer, refer, hdecl, houtside]
  cases scope.declaration? name with
  | some d => exact hresolve name memo
  | none =>
    cases scope.outside name with
    | some text => exact .refl _
    | none =>
      simp only [hmode]
      exact .of_error _ _

/-- A key that is resolved in strict mode is resolved alike in lenient mode. -/
theorem resolve_refines (hmode : scope.mode = .strict) (room : Nat) (stack : List String)
    (key : String) (memo : Memo) :
    Refines (scope.resolve room stack key memo) (scope.lenient.resolve room stack key memo) := by
  induction room generalizing stack key memo with
  | zero =>
    cases hlookup : memo.values.lookup key with
    | some v => simpa only [resolve_of_lookup hlookup] using .refl _
    | none =>
      have hstuck : scope.resolve 0 stack key memo = scope.cyclic stack key memo := by
        simp [resolve, hlookup]
      rw [hstuck]
      exact cyclic_refines hmode stack key memo _
  | succ room ih =>
    cases hlookup : memo.values.lookup key with
    | some v => simpa only [resolve_of_lookup hlookup] using .refl _
    | none =>
      by_cases hmem : key ∈ stack
      · rw [resolve_of_mem hlookup hmem]
        exact cyclic_refines hmode stack key memo _
      · simp only [resolve, hlookup, List.contains_eq_mem, hmem, decide_false,
          Bool.false_eq_true, if_false]
        exact (fill_refines (refer_refines hmode (ih (stack ++ [key])) key) _ memo).bind
          fun _ => .refl _

/-- Declarations that are expanded in strict mode are expanded alike in lenient mode. -/
theorem expandFrom_refines (hmode : scope.mode = .strict) (ds : List Declaration) (memo : Memo)
    (env : EnvMap) :
    Refines (scope.expandFrom ds memo env) (scope.lenient.expandFrom ds memo env) := by
  induction ds generalizing memo env with
  | nil => exact .refl _
  | cons d ds ih =>
    exact (resolve_refines hmode scope.declarations.length [] d.key memo).bind
      fun r => ih r.2 (env.insert d.key r.1)

end Scope

/-- A text that is parsed in strict mode is parsed alike in lenient mode. -/
theorem parseWith_refines (origin : String) (outside : String → Option String) (content : String) :
    Refines (parseWith origin .strict outside content)
      (parseWith origin .lenient outside content) := by
  refine Refines.mapError ?_ _
  refine (declarations_refines origin _).bind fun scan => ?_
  have hexpand := @Scope.expandFrom_refines ⟨origin, .strict, scan.declarations, outside⟩ rfl
    scan.declarations {} EnvMap.empty
  exact hexpand.bind fun _ => .refl _

/-- A text that can be read strictly is read leniently as the same map, in the same order, and with
nothing to report. -/
theorem parseWith_lenient {origin content : String} {outside : String → Option String}
    {reading : Reading} (hstrict : parseWith origin .strict outside content = .ok reading) :
    parseWith origin .lenient outside content = .ok reading ∧ reading.warnings = [] := by
  refine ⟨parseWith_refines origin outside content reading hstrict, ?_⟩
  obtain ⟨scan, env, memo, hscan, hexpand, rfl⟩ := parseWith_eq_ok_iff.1 hstrict
  have houtcome := @Scope.expand_outcome ⟨origin, .strict, scan.declarations, outside⟩ rfl
    (named_of_declarations hscan).nodup
  rw [hexpand] at houtcome
  obtain ⟨⟨hmemo, -⟩, -⟩ := houtcome
  rw [warnings_of_declarations hscan, hmemo]
  rfl

/-- Quotes over two lines, comments and references of all kinds, and nothing to report. -/
theorem parseWith_lenient_banner :
    let content := "export NAME='app' # short\nBANNER=\"# ${NAME}\nat ${HOME}\"\nNONE="
    let outside := fun name => if name = "HOME" then some "/h" else none
    ∃ reading, parseWith ".env" .strict outside content = .ok reading ∧
      parseWith ".env" .lenient outside content = .ok reading ∧ reading.warnings = [] := by
  intro content outside
  have hok : (parseWith ".env" .strict outside content).isOk = true := by cbv
  cases hstrict : parseWith ".env" .strict outside content with
  | error e => simp [hstrict, Except.isOk, Except.toBool] at hok
  | ok reading => exact ⟨reading, rfl, parseWith_lenient hstrict⟩

end EnvSettings.Dotenv
