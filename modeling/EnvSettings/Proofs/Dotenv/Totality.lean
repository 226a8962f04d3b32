import EnvSettings.Proofs.Dotenv.Assignments
import EnvSettings.Proofs.Dotenv.Expansion

namespace EnvSettings.Dotenv

namespace Scope

variable {scope : Scope}

mutual

/-- The course of an expansion without a bound on its depth: with the names of a stack being
expanded, a name comes to a value and the memo to another one. -/
inductive Expands (scope : Scope) : List String → String → Memo → String → Memo → Prop
  | known {stack : List String} {key v : String} {memo : Memo}
      (hlookup : memo.values.lookup key = some v) : Expands scope stack key memo v memo
  | cyclic {stack : List String} {key : String} {memo : Memo}
      (hlookup : memo.values.lookup key = none) (hmem : key ∈ stack)
      (hmode : scope.mode = .lenient) :
      Expands scope stack key memo ""
        { memo with warnings := memo.warnings ++ [.cyclicReference scope.origin key] }
  | value {stack : List String} {key : String} {memo memo' : Memo} {d : Declaration}
      {text : List Char} (hlookup : memo.values.lookup key = none) (hmem : key ∉ stack)
      (hd : scope.declaration? key = some d)
      (hfills : Fills scope (stack ++ [key]) key (pieces d.raw.toList) memo text memo') :
      Expands scope stack key memo (String.ofList text)
        { memo' with values := (key, String.ofList text) :: memo'.values }

/-- The course of filling in the references of a value from left to right. -/
inductive Fills (scope : Scope) :
    List String → String → List Piece → Memo → List Char → Memo → Prop
  | nil {stack : List String} {key : String} {memo : Memo} :
      Fills scope stack key [] memo [] memo
  | char {stack : List String} {key : String} {c : Char} {ps : List Piece} {memo memo' : Memo}
      {text : List Char} (hrest : Fills scope stack key ps memo text memo') :
      Fills scope stack key (.char c :: ps) memo (c :: text) memo'
  | declared {stack : List String} {key name v : String} {ps : List Piece}
      {memo memo' memo'' : Memo} {d : Declaration} {text : List Char}
      (hname : scope.declaration? name = some d)
      (hvalue : Expands scope stack name memo v memo')
      (hrest : Fills scope stack key ps memo' text memo'') :
      Fills scope stack key (.reference name :: ps) memo (v.toList ++ text) memo''
  | outside {stack : List String} {key name v : String} {ps : List Piece} {memo memo' : Memo}
      {text : List Char} (hname : scope.declaration? name = none)
      (hvalue : scope.outside name = some v)
      (hrest : Fills scope stack key ps memo text memo') :
      Fills scope stack key (.reference name :: ps) memo (v.toList ++ text) memo'
  | undefined {stack : List String} {key name : String} {ps : List Piece} {memo memo' : Memo}
      {text : List Char} (hname : scope.declaration? name = none)
      (hnone : scope.outside name = none) (hmode : scope.mode = .lenient)
      (hrest : Fills scope stack key ps
        { memo with warnings := memo.warnings ++ [.undefinedReference scope.origin name key] }
        text memo') :
      Fills scope stack key (.reference name :: ps) memo text memo'

end

/-- The course of expanding declarations in their order. -/
inductive ExpandsAll (scope : Scope) : List Declaration → Memo → EnvMap → EnvMap → Memo → Prop
  | nil {memo : Memo} {env : EnvMap} : ExpandsAll scope [] memo env env memo
  | cons {d : Declaration} {ds : List Declaration} {memo memo' memo'' : Memo} {v : String}
      {env env' : EnvMap} (hvalue : Expands scope [] d.key memo v memo')
      (hrest : ExpandsAll scope ds memo' (env.insert d.key v) env' memo'') :
      ExpandsAll scope (d :: ds) memo env env' memo''

/-- Filling in ends if expanding the declared names that are mentioned does. -/
theorem exists_fills (hmode : scope.mode = .lenient)
    {resolve : String → Memo → Except LineFault (String × Memo)} {stack : List String}
    {key : String} {ps : List Piece}
    (hresolve : ∀ name d memo, .reference name ∈ ps → scope.declaration? name = some d →
      ∃ v memo', resolve name memo = .ok (v, memo') ∧ Expands scope stack name memo v memo')
    (memo : Memo) :
    ∃ text memo', fill (scope.refer resolve key) ps memo = .ok (text, memo') ∧
      Fills scope stack key ps memo text memo' := by
  induction ps generalizing memo with
  | nil => exact ⟨[], memo, rfl, .nil⟩
  | cons p ps ih =>
    have hrest := ih fun name d memo hmem => hresolve name d memo (List.mem_cons_of_mem p hmem)
    cases p with
    | char c =>
      obtain ⟨text, memo', hfill, hfills⟩ := hrest memo
      exact ⟨c :: text, memo', by simp [fill, hfill, bind, Except.bind], .char hfills⟩
    | reference name =>
      cases hname : scope.declaration? name with
      | some d =>
        obtain ⟨v, memo', hv, hexpands⟩ := hresolve name d memo List.mem_cons_self hname
        obtain ⟨text, memo'', hfill, hfills⟩ := hrest memo'
        refine ⟨v.toList ++ text, memo'', ?_, .declared hname hexpands hfills⟩
        simp [fill, refer, hname, hv, hfill, bind, Except.bind]
      | none =>
        cases houtside : scope.outside name with
        | some v =>
          obtain ⟨text, memo', hfill, hfills⟩ := hrest memo
          refine ⟨v.toList ++ text, memo', ?_, .outside hname houtside hfills⟩
          simp [fill, refer, hname, houtside, hfill, bind, Except.bind]
        | none =>
          obtain ⟨text, memo', hfill, hfills⟩ := hrest
            { memo with warnings := memo.warnings ++ [.undefinedReference scope.origin name key] }
          refine ⟨text, memo', ?_, .undefined hname houtside hmode hfills⟩
          simp [fill, refer, hname, houtside, hmode, hfill, bind, Except.bind]

/-- Expanding a name ends, as long as the stack holds declared names without repetition and leaves
room for the names not on it. -/
theorem exists_expands (hmode : scope.mode = .lenient) {room : Nat} {stack : List String}
    {key : String} {d : Declaration} (hd : scope.declaration? key = some d)
    (hdeclared : ∀ name ∈ stack, ∃ e, scope.declaration? name = some e) (hnodup : stack.Nodup)
    (hroom : room + stack.length = scope.declarations.length) (memo : Memo) :
    ∃ v memo', scope.resolve room stack key memo = .ok (v, memo') ∧
      Expands scope stack key memo v memo' := by
  induction room using Nat.strongRecOn generalizing stack key d memo with
  | ind room ih =>
    cases hlookup : memo.values.lookup key with
    | some v => exact ⟨v, memo, resolve_of_lookup hlookup, .known hlookup⟩
    | none =>
      by_cases hmem : key ∈ stack
      · refine ⟨"", _, ?_, .cyclic hlookup hmem hmode⟩
        rw [resolve_of_mem hlookup hmem, Scope.cyclic, hmode]
      · -- The stack grows by a declared name that is not on it, so there was room for the name.
        have hnodup' : (stack ++ [key]).Nodup := by
          rw [← List.concat_eq_append]
          exact hnodup.concat hmem
        have hdeclared' : ∀ name ∈ stack ++ [key], ∃ e, scope.declaration? name = some e :=
          List.forall_mem_append.2 ⟨hdeclared, List.forall_mem_singleton.2 ⟨d, hd⟩⟩
        have hlength := length_le_of_nodup hnodup' hdeclared'
        rw [List.length_append, List.length_singleton] at hlength
        obtain ⟨left, rfl⟩ : ∃ left, room = left + 1 := ⟨room - 1, by omega⟩
        have hroom' : left + (stack ++ [key]).length = scope.declarations.length := by
          rw [List.length_append, List.length_singleton]
          omega
        obtain ⟨text, memo', hfill, hfills⟩ := exists_fills hmode
          (fun name e memo _ hname => ih left (by omega) hname hdeclared' hnodup' hroom' memo) memo
        refine ⟨String.ofList text, _, ?_, .value hlookup hmem hd hfills⟩
        rw [resolve_of_not_mem hlookup hmem hd, hfill]
        rfl

theorem exists_expandsAll (hmode : scope.mode = .lenient) {ds : List Declaration}
    (hdeclared : ∀ d ∈ ds, ∃ e, scope.declaration? d.key = some e) (memo : Memo) (env : EnvMap) :
    ∃ env' memo', scope.expandFrom ds memo env = .ok (env', memo') ∧
      ExpandsAll scope ds memo env env' memo' := by
  induction ds generalizing memo env with
  | nil => exact ⟨env, memo, rfl, .nil⟩
  | cons d ds ih =>
    obtain ⟨⟨e, hd⟩, hdeclared⟩ := List.forall_mem_cons.1 hdeclared
    have hroom : scope.declarations.length + ([] : List String).length =
        scope.declarations.length := rfl
    obtain ⟨v, memo', hv, hexpands⟩ := exists_expands hmode hd (by simp) .nil hroom memo
    obtain ⟨env', memo'', hrest, hall⟩ := ih hdeclared memo' (env.insert d.key v)
    refine ⟨env', memo'', ?_, .cons hexpands hall⟩
    rw [expandFrom, hv]
    exact hrest

/-- An expansion keeps the names of the declarations and their order. -/
theorem keys_of_expandFrom {ds : List Declaration} {memo memo' : Memo} {env env' : EnvMap}
    (hkeys : (env.keys ++ ds.map (·.key)).Nodup)
    (hexpand : scope.expandFrom ds memo env = .ok (env', memo')) :
    env'.keys = env.keys ++ ds.map (·.key) := by
  induction ds generalizing memo env with
  | nil =>
    cases hexpand
    simp
  | cons d ds ih =>
    rw [expandFrom] at hexpand
    cases hv : scope.resolve scope.declarations.length [] d.key memo with
    | error f => simp [hv, bind, Except.bind] at hexpand
    | ok r =>
      rw [hv] at hexpand
      have hfresh : d.key ∉ env.keys := fun hmem =>
        (List.nodup_append.1 hkeys).2.2 d.key hmem d.key (by simp) rfl
      have hinsert : (env.insert d.key r.1).keys = env.keys ++ [d.key] :=
        EnvMap.keys_insert_of_not_mem hfresh
      have hrest := ih (by simpa [hinsert] using hkeys) hexpand
      simpa [hinsert] using hrest

end Scope

variable {origin content : String} {mode : Mode} {outside : String → Option String}

/-- A lenient reading gets past every line. -/
theorem Scan.exists_lines (origin : String) (scan : Scan) (n : Nat) (ls : List (List Char)) :
    ∃ scan', scan.lines origin .lenient n ls = .ok scan' := by
  induction ls generalizing scan n with
  | nil => exact ⟨scan, rfl⟩
  | cons l ls ih =>
    obtain ⟨next, hstep⟩ | ⟨f, -, hmode, -⟩ := Scan.line_cases origin .lenient scan n l
    · rw [Scan.lines_cons, Scan.line_of_step hstep]
      exact ih next (n + 1)
    · cases hmode

theorem exists_declarations (origin : String) (ls : List (List Char)) :
    ∃ scan, declarations origin .lenient ls = .ok scan := by
  obtain ⟨last, hlines⟩ := Scan.exists_lines origin {} 1 ls
  cases hpending : last.pending with
  | none =>
    exact ⟨last, declarations_eq_ok_iff.2 ⟨last, hlines, Scan.finish_of_not_pending hpending⟩⟩
  | some q =>
    exact ⟨_, declarations_eq_ok_iff.2 ⟨last, hlines, Scan.finish_lenient hpending⟩⟩

/-- The names of a map that is read are variable names without repetition, in the order of their
first assignments. -/
theorem keys_of_parseWith {reading : Reading}
    (hreading : parseWith origin mode outside content = .ok reading) :
    (∀ name ∈ reading.env.keys, validName name = true) ∧ reading.env.keys.Nodup ∧
      ∃ ds, Assigns mode ((Text.lines (dropByteOrderMark content.toList)).zipIdx 1) ds ∧
        reading.env.keys = (ds.map (·.key)).eraseDups := by
  obtain ⟨scan, env, memo, hscan, hexpand, rfl⟩ := parseWith_eq_ok_iff.1 hreading
  have hnamed := named_of_declarations hscan
  have hkeys : env.keys = scan.keys := by
    have hempty : EnvMap.empty.keys = [] := rfl
    have hall := Scope.keys_of_expandFrom (by rw [hempty]; exact hnamed.nodup) hexpand
    rw [hempty, List.nil_append] at hall
    exact hall
  obtain ⟨ds, hds, hstored⟩ := exists_assigns_of_declarations hscan
  refine ⟨hkeys ▸ hnamed.keys, hkeys ▸ hnamed.nodup, ds, hds, ?_⟩
  rw [hkeys, Scan.keys, hstored, map_key_storeAll]
  simp

/-- Reading a text leniently ends without a fault, for the expansion of its declarations ends
without a bound on its depth. In both modes the names of the map that is read are variable names
without repetition, in the order of their first assignments. -/
theorem parseWith_total (origin : String) (outside : String → Option String) (content : String) :
    (∃ scan env memo,
      declarations origin .lenient (Text.lines (dropByteOrderMark content.toList)) = .ok scan ∧
      Scope.ExpandsAll ⟨origin, .lenient, scan.declarations, outside⟩ scan.declarations {}
        EnvMap.empty env memo ∧
      parseWith origin .lenient outside content = .ok ⟨env, scan.warnings ++ memo.warnings⟩) ∧
    ∀ mode reading, parseWith origin mode outside content = .ok reading →
      (∀ name ∈ reading.env.keys, validName name = true) ∧ reading.env.keys.Nodup ∧
        ∃ ds, Assigns mode ((Text.lines (dropByteOrderMark content.toList)).zipIdx 1) ds ∧
          reading.env.keys = (ds.map (·.key)).eraseDups := by
  refine ⟨?_, fun mode reading => keys_of_parseWith⟩
  obtain ⟨scan, hscan⟩ :=
    exists_declarations origin (Text.lines (dropByteOrderMark content.toList))
  have hnodup := (named_of_declarations hscan).nodup
  obtain ⟨env, memo, hexpand, hall⟩ :=
    @Scope.exists_expandsAll ⟨origin, .lenient, scan.declarations, outside⟩ rfl scan.declarations
      (fun d hmem => ⟨d, Scope.find?_key_eq_some hnodup hmem⟩) {} EnvMap.empty
  exact ⟨scan, env, memo, hscan, hall,
    parseWith_eq_ok_iff.2 ⟨scan, env, memo, hscan, hexpand, rfl⟩⟩

/-- A cycle, a name that refers to itself, one that nothing defines, a name assigned twice, a faulty
line and a quote that is never closed. -/
theorem parseWith_total_faults :
    ∃ reading, parseWith ".env" .lenient (fun _ => none)
        "B=${A}${NONE}\nA=$${B}\n=x\nSELF=<${SELF}>\nB=${A}\nLAST='open\n" = .ok reading ∧
      reading.env.keys.Nodup ∧ ∀ name ∈ reading.env.keys, validName name = true := by
  obtain ⟨⟨scan, env, memo, -, -, hread⟩, hkeys⟩ := parseWith_total ".env" (fun _ => none)
    "B=${A}${NONE}\nA=$${B}\n=x\nSELF=<${SELF}>\nB=${A}\nLAST='open\n"
  obtain ⟨hnames, hnodup, -⟩ := hkeys .lenient _ hread
  exact ⟨_, hread, hnodup, hnames⟩

end EnvSettings.Dotenv
