import Mathlib
import EnvSettings.Proofs.Dotenv.Meaning
import EnvSettings.Proofs.EnvMap

namespace EnvSettings.Dotenv

/-- A computation over the memo either ends with a memo that satisfies `I` and a value that
satisfies `Q`, or fails with a fault that satisfies `E`. -/
def Outcome {α : Type} (I : Memo → Prop) (Q : α → Prop) (E : LineFault → Prop) :
    Except LineFault (α × Memo) → Prop
  | .ok (a, memo) => I memo ∧ Q a
  | .error fault => E fault

section Outcome

variable {α β : Type} {I : Memo → Prop} {E : LineFault → Prop}

theorem Outcome.bind {Q : α → Prop} {Q' : β → Prop} {r : Except LineFault (α × Memo)}
    {f : α × Memo → Except LineFault (β × Memo)} (hr : Outcome I Q E r)
    (hf : ∀ a memo, I memo → Q a → Outcome I Q' E (f (a, memo))) : Outcome I Q' E (r >>= f) := by
  cases r with
  | error fault => exact hr
  | ok result =>
    obtain ⟨a, memo⟩ := result
    exact hf a memo hr.1 hr.2

/-- Filling in references keeps what each of them keeps, and substitutes what they stand for. -/
theorem fill_outcome {refer : String → Memo → Except LineFault (String × Memo)}
    (value : Nat → String → Option String) {ps : List Piece} {memo : Memo}
    (hmono : ∀ {depth deeper name v}, depth ≤ deeper → value depth name = some v →
      value deeper name = some v)
    (hrefer : ∀ name memo, .reference name ∈ ps → I memo →
      Outcome I (fun v => ∃ depth, value depth name = some v) E (refer name memo))
    (hmemo : I memo) :
    Outcome I (fun text => ∃ depth, substitute (value depth) ps = some text) E
      (fill refer ps memo) := by
  induction ps generalizing memo with
  | nil => exact ⟨hmemo, 0, rfl⟩
  | cons p ps ih =>
    have hrest {memo : Memo} (hmemo : I memo) :
        Outcome I (fun text => ∃ depth, substitute (value depth) ps = some text) E
          (fill refer ps memo) :=
      ih (fun name memo hmem => hrefer name memo (List.mem_cons_of_mem p hmem)) hmemo
    cases p with
    | char c =>
      refine (hrest hmemo).bind ?_
      rintro text memo hmemo ⟨depth, htext⟩
      exact ⟨hmemo, depth, by simp [substitute, htext]⟩
    | reference name =>
      refine (hrefer name memo List.mem_cons_self hmemo).bind ?_
      rintro v memo hmemo ⟨depth, hv⟩
      refine (hrest hmemo).bind ?_
      rintro text memo hmemo ⟨depth', htext⟩
      have hv' := hmono (Nat.le_max_left depth depth') hv
      have htext' : substitute (value (max depth depth')) ps = some text :=
        substitute_mono (fun _ _ _ => hmono (Nat.le_max_right depth depth')) htext
      exact ⟨hmemo, max depth depth', by simp [substitute, hv', htext']⟩

end Outcome

namespace Scope

variable {scope : Scope}

/-- A walk through the reference graph whose last name occurs earlier in it. -/
def Lasso (scope : Scope) (chain : List String) : Prop :=
  chain.IsChain scope.RefersTo ∧ ∃ walk last, chain = walk ++ [last] ∧ last ∈ walk

/-- What a strict expansion can fail for: a walk into a cycle, or a name that is not known. -/
def Blames (scope : Scope) (fault : LineFault) : Prop :=
  (∃ chain, fault.defect = .cyclicReference chain ∧ scope.Lasso chain) ∨
    ∃ name, fault.defect = .undefinedReference name ∧ ¬ scope.Closed

/-- A memo without warnings that holds meanings only. -/
def Settled (scope : Scope) (memo : Memo) : Prop :=
  memo.warnings = [] ∧ ∀ key v, memo.values.lookup key = some v →
    ∃ depth, scope.meaning depth key = some v

/-- A reference keeps its text with deeper meanings. -/
theorem referent_meaning_mono {depth deeper : Nat} {name v : String} (hle : depth ≤ deeper)
    (h : scope.referent (scope.meaning depth) name = some v) :
    scope.referent (scope.meaning deeper) name = some v :=
  referent_mono (fun _ => meaning_mono hle) h

theorem Settled.insert {memo : Memo} (hmemo : scope.Settled memo) {depth : Nat} {key v : String}
    (hv : scope.meaning depth key = some v) :
    scope.Settled { memo with values := (key, v) :: memo.values } := by
  obtain ⟨hwarnings, hvalues⟩ := hmemo
  refine ⟨hwarnings, fun name w hlookup => ?_⟩
  rw [List.lookup_cons] at hlookup
  split at hlookup
  · rename_i heq
    rw [beq_iff_eq.1 heq, ← Option.some.inj hlookup]
    exact ⟨depth, hv⟩
  · exact hvalues name w hlookup

/-- A reference is resolved inside the file, looked up outside, or blamed. -/
theorem refer_outcome (hmode : scope.mode = .strict)
    {resolve : String → Memo → Except LineFault (String × Memo)} {key name : String}
    {d : Declaration} (hd : scope.declaration? key = some d)
    (hmention : Mentions d.raw.toList name.toList) {memo : Memo} (hmemo : scope.Settled memo)
    (hresolve : scope.RefersTo key name → Outcome scope.Settled
      (fun v => ∃ depth, scope.meaning depth name = some v) scope.Blames (resolve name memo)) :
    Outcome scope.Settled (fun v => ∃ depth, scope.referent (scope.meaning depth) name = some v)
      scope.Blames (scope.refer resolve key name memo) := by
  unfold refer
  cases hname : scope.declaration? name with
  | some e =>
    simpa [referent, hname] using hresolve ⟨d, hd, hmention, e, hname⟩
  | none =>
    cases houtside : scope.outside name with
    | some text => exact ⟨hmemo, 0, by simp [referent, hname, houtside]⟩
    | none =>
      simp only [hmode]
      refine .inr ⟨name, ?_, fun hclosed => ?_⟩
      · simp [fault, hd]
      · obtain ⟨text, htext⟩ := hclosed key d name hd hmention hname
        rw [houtside] at htext
        cases htext

@[simp]
theorem fault_defect (key : String) (defect : LineDefect) :
    (scope.fault key defect).defect = defect := by
  unfold fault
  split <;> rfl

/-- A name that is already on the stack closes the walk to a lasso. -/
theorem cyclic_outcome (hmode : scope.mode = .strict) {stack : List String} {key : String}
    {memo : Memo} {Q : String → Prop} (hwalk : (stack ++ [key]).IsChain scope.RefersTo)
    (hmem : key ∈ stack) :
    Outcome scope.Settled Q scope.Blames (scope.cyclic stack key memo) := by
  simp only [cyclic, hmode]
  exact .inl ⟨stack ++ [key], fault_defect key _, hwalk, stack, key, rfl, hmem⟩

theorem resolve_of_lookup {room : Nat} {stack : List String} {key v : String} {memo : Memo}
    (hlookup : memo.values.lookup key = some v) :
    scope.resolve room stack key memo = .ok (v, memo) := by
  cases room <;> simp [resolve, hlookup]

/-- A key that is being expanded refers back to itself. -/
theorem resolve_of_mem {room : Nat} {stack : List String} {key : String} {memo : Memo}
    (hlookup : memo.values.lookup key = none) (hmem : key ∈ stack) :
    scope.resolve room stack key memo = scope.cyclic stack key memo := by
  cases room <;> simp [resolve, hlookup, hmem]

theorem resolve_of_not_mem {room : Nat} {stack : List String} {key : String} {memo : Memo}
    {d : Declaration} (hlookup : memo.values.lookup key = none) (hmem : key ∉ stack)
    (hd : scope.declaration? key = some d) :
    scope.resolve (room + 1) stack key memo = (do
      let (text, memo) ← fill (scope.refer (scope.resolve room (stack ++ [key])) key)
        (pieces d.raw.toList) memo
      .ok (String.ofList text,
        { memo with values := (key, String.ofList text) :: memo.values })) := by
  simp [resolve, hlookup, hmem, hd]

/-- Resolving a name gives its meaning, as long as the stack is a walk to it without repetition that
leaves room for the names not on it. -/
theorem resolve_outcome (hmode : scope.mode = .strict) {room : Nat} {stack : List String}
    {key : String} {memo : Memo} (hwalk : (stack ++ [key]).IsChain scope.RefersTo)
    (hdeclared : ∀ name ∈ stack ++ [key], ∃ d, scope.declaration? name = some d)
    (hnodup : stack.Nodup) (hroom : room + stack.length = scope.declarations.length)
    (hmemo : scope.Settled memo) :
    Outcome scope.Settled (fun v => ∃ depth, scope.meaning depth key = some v) scope.Blames
      (scope.resolve room stack key memo) := by
  induction room using Nat.strongRecOn generalizing stack key memo with
  | ind room ih =>
    cases hlookup : memo.values.lookup key with
    | some v =>
      rw [resolve_of_lookup hlookup]
      exact ⟨hmemo, hmemo.2 key v hlookup⟩
    | none =>
      by_cases hmem : key ∈ stack
      · rw [resolve_of_mem hlookup hmem]
        exact cyclic_outcome hmode hwalk hmem
      · -- The stack grows by a name that is not on it, so the names of the file bound its length
        -- and some room is left.
        have hnodup' : (stack ++ [key]).Nodup := by
          simpa [List.nodup_append] using ⟨hnodup, fun name hname heq => hmem (heq ▸ hname)⟩
        have hlength := length_le_of_nodup hnodup' hdeclared
        simp only [List.length_append, List.length_singleton] at hlength
        obtain ⟨left, rfl⟩ : ∃ left, room = left + 1 := ⟨room - 1, by omega⟩
        obtain ⟨d, hd⟩ := hdeclared key (by simp)
        rw [resolve_of_not_mem hlookup hmem hd]
        refine (fill_outcome (fun depth => scope.referent (scope.meaning depth))
          referent_meaning_mono ?_ hmemo).bind ?_
        · intro name memo hpiece hmemo
          refine refer_outcome hmode hd (mem_pieces_iff.1 hpiece) hmemo fun href => ?_
          have hdeclared' : ∀ other ∈ stack ++ [key] ++ [name],
              ∃ e, scope.declaration? other = some e :=
            List.forall_mem_append.2 ⟨hdeclared, List.forall_mem_singleton.2 href.declared.2⟩
          refine ih left (by omega) (href.isChain_concat hwalk) hdeclared' hnodup' ?_ hmemo
          simp only [List.length_append, List.length_singleton]
          omega
        · rintro text memo hmemo ⟨depth, htext⟩
          have hv : scope.meaning (depth + 1) key = some (String.ofList text) :=
            (meaning_succ_eq_some_iff hd).2 ⟨text, htext, rfl⟩
          exact ⟨hmemo.insert hv, depth + 1, hv⟩

/-- An environment that gives names their meaning. -/
def Meaningful (scope : Scope) (env : EnvMap) : Prop :=
  ∀ e ∈ env.toList, ∃ depth, scope.meaning depth e.1 = some e.2

/-- Expanding further declarations adds their names in order, each with its meaning. -/
theorem expandFrom_outcome (hmode : scope.mode = .strict) {ds : List Declaration} {memo : Memo}
    {env : EnvMap} (hdeclared : ∀ d ∈ ds, ∃ e, scope.declaration? d.key = some e)
    (hkeys : (env.keys ++ ds.map (·.key)).Nodup) (henv : scope.Meaningful env)
    (hmemo : scope.Settled memo) :
    Outcome scope.Settled
      (fun env' => env'.keys = env.keys ++ ds.map (·.key) ∧ scope.Meaningful env') scope.Blames
      (scope.expandFrom ds memo env) := by
  induction ds generalizing memo env with
  | nil => exact ⟨hmemo, by simp, henv⟩
  | cons d ds ih =>
    have hdeclared' := hdeclared d List.mem_cons_self
    have hwalk : ([] ++ [d.key]).IsChain scope.RefersTo := .singleton d.key
    refine (resolve_outcome hmode hwalk (by simpa using hdeclared') .nil (by simp) hmemo).bind ?_
    rintro v memo hmemo ⟨depth, hv⟩
    have hfresh : d.key ∉ env.keys := by
      intro hmem
      exact (List.nodup_append.1 hkeys).2.2 d.key hmem d.key (by simp) rfl
    have hkeys' : (env.insert d.key v).keys = env.keys ++ [d.key] :=
      EnvMap.keys_insert_of_not_mem hfresh
    have henv' : scope.Meaningful (env.insert d.key v) := by
      intro e hmem
      rw [EnvMap.toList_insert_of_not_mem hfresh, List.mem_append, List.mem_singleton] at hmem
      rcases hmem with hmem | rfl
      · exact henv e hmem
      · exact ⟨depth, hv⟩
    have hrest := ih (fun e hmem => hdeclared e (List.mem_cons_of_mem d hmem))
      (by simpa [hkeys'] using hkeys) henv' hmemo
    simpa [hkeys'] using hrest

/-- Expanding all declarations gives their meanings, or a fault that one of them is to blame for. -/
theorem expand_outcome (hmode : scope.mode = .strict)
    (hkeys : (scope.declarations.map (·.key)).Nodup) :
    Outcome scope.Settled
      (fun env => env.keys = scope.declarations.map (·.key) ∧ scope.Meaningful env) scope.Blames
      scope.expand := by
  have hsettled : scope.Settled {} := ⟨rfl, by simp⟩
  have hdeclared : ∀ d ∈ scope.declarations, ∃ e, scope.declaration? d.key = some e :=
    fun d hmem => ⟨d, (declaration?_eq_some_iff hkeys).2 ⟨hmem, rfl⟩⟩
  have hempty : EnvMap.empty.keys = [] := rfl
  have hmeaningful : scope.Meaningful EnvMap.empty := by simp [Meaningful]
  have h := expandFrom_outcome hmode hdeclared (by simpa [hempty] using hkeys) hmeaningful hsettled
  rw [hempty, List.nil_append] at h
  exact h

/-- A lasso closes a cycle at its last name. -/
theorem Lasso.not_acyclic {chain : List String} (hlasso : scope.Lasso chain) : ¬ scope.Acyclic := by
  obtain ⟨hwalk, walk, last, rfl, hmem⟩ := hlasso
  intro hacyclic
  have hpairwise := transGen_of_walk hwalk
  exact hacyclic last ((List.pairwise_append.1 hpairwise).2.2 last hmem last (by simp))

/-- Every declared key is found with a meaning of it. -/
theorem Meaningful.get? {env : EnvMap} (henv : scope.Meaningful env)
    (hkeys : env.keys = scope.declarations.map (·.key)) {key : String} {d : Declaration}
    (hd : scope.declaration? key = some d) :
    ∃ depth v, env.get? key = some v ∧ scope.meaning depth key = some v := by
  obtain ⟨hmem, rfl⟩ := key_of_declaration? hd
  have hkey : d.key ∈ env.keys := hkeys ▸ List.mem_map_of_mem hmem
  obtain ⟨e, he, hname⟩ := List.mem_map.1 hkey
  obtain ⟨depth, hv⟩ := henv e he
  rw [hname] at hv
  exact ⟨depth, e.2, EnvMap.get?_eq_some_iff.2 (hname ▸ he), hv⟩

/-- Where every declared name has a meaning there is no cycle and no unknown name. -/
theorem Meaningful.acyclic_closed {env : EnvMap} (henv : scope.Meaningful env)
    (hkeys : env.keys = scope.declarations.map (·.key)) : scope.Acyclic ∧ scope.Closed := by
  constructor
  · intro key hcycle
    obtain ⟨name, href, _⟩ := Relation.TransGen.head'_iff.1 hcycle
    obtain ⟨d, hd⟩ := href.declared.1
    obtain ⟨depth, v, _, hv⟩ := henv.get? hkeys hd
    exact not_transGen_of_meaning (Option.isSome_of_eq_some hv) hcycle
  · intro key d name hd hmention hname
    obtain ⟨depth, v, _, hv⟩ := henv.get? hkeys hd
    obtain ⟨smaller, text, htext, -⟩ := exists_substitute_of_meaning hd hv
    have hsome := substitute_isSome.1 (Option.isSome_of_eq_some htext) name
      (mem_pieces_iff.2 hmention)
    simpa [referent, hname, Option.isSome_iff_exists] using hsome

/-- The values of a meaningful environment are the texts with their references replaced. -/
theorem Meaningful.substitute_get? {env : EnvMap} (henv : scope.Meaningful env)
    (hkeys : env.keys = scope.declarations.map (·.key)) {key : String} {d : Declaration}
    (hd : scope.declaration? key = some d) :
    ∃ text, substitute (scope.referent env.get?) (pieces d.raw.toList) = some text ∧
      env.get? key = some (String.ofList text) := by
  obtain ⟨depth, v, hget, hv⟩ := henv.get? hkeys hd
  obtain ⟨smaller, text, htext, rfl⟩ := exists_substitute_of_meaning hd hv
  refine ⟨text, substitute_mono ?_ htext, hget⟩
  intro name w _ hw
  refine referent_mono (fun hname hmeaning => ?_) hw
  obtain ⟨e, he⟩ := Option.ne_none_iff_exists'.1 hname
  obtain ⟨depth', v', hget', hv'⟩ := henv.get? hkeys he
  rw [hget', meaning_unique hmeaning hv']

/-- Expansion succeeds if no reference runs in a circle and all of them are known. -/
theorem expand_isOk_iff (hmode : scope.mode = .strict)
    (hkeys : (scope.declarations.map (·.key)).Nodup) :
    (∃ result, scope.expand = .ok result) ↔ scope.Acyclic ∧ scope.Closed := by
  have houtcome := expand_outcome hmode hkeys
  constructor
  · rintro ⟨⟨env, memo⟩, hresult⟩
    rw [hresult] at houtcome
    obtain ⟨_, hnames, henv⟩ := houtcome
    exact henv.acyclic_closed hnames
  · rintro ⟨hacyclic, hclosed⟩
    cases hresult : scope.expand with
    | ok result => exact ⟨result, rfl⟩
    | error fault =>
      rw [hresult] at houtcome
      rcases houtcome with ⟨chain, _, hlasso⟩ | ⟨name, _, hopen⟩
      · exact absurd hacyclic hlasso.not_acyclic
      · exact absurd hclosed hopen

/-- A file whose values mention no names expands to those values. -/
theorem expand_of_not_mentions (hmode : scope.mode = .strict)
    (hkeys : (scope.declarations.map (·.key)).Nodup)
    (hnone : ∀ d ∈ scope.declarations, ∀ name, ¬ Mentions d.raw.toList name) :
    ∃ env memo, scope.expand = .ok (env, memo) ∧ memo.warnings = [] ∧
      env.keys = scope.declarations.map (·.key) ∧
      ∀ d ∈ scope.declarations, env.get? d.key = some d.raw := by
  have hrefers : ∀ key name, ¬ scope.RefersTo key name := by
    rintro key name ⟨d, hd, hmention, _⟩
    exact hnone d (key_of_declaration? hd).1 _ hmention
  have hacyclic : scope.Acyclic := by
    intro key hcycle
    obtain ⟨name, href, _⟩ := Relation.TransGen.head'_iff.1 hcycle
    exact hrefers key name href
  have hclosed : scope.Closed := fun key d name hd hmention _ =>
    absurd hmention (hnone d (key_of_declaration? hd).1 _)
  obtain ⟨⟨env, memo⟩, hresult⟩ := (expand_isOk_iff hmode hkeys).2 ⟨hacyclic, hclosed⟩
  have houtcome := expand_outcome hmode hkeys
  rw [hresult] at houtcome
  obtain ⟨⟨hwarnings, _⟩, hnames, henv⟩ := houtcome
  refine ⟨env, memo, hresult, hwarnings, hnames, fun d hmem => ?_⟩
  obtain ⟨text, htext, hget⟩ :=
    henv.substitute_get? hnames ((declaration?_eq_some_iff hkeys).2 ⟨hmem, rfl⟩)
  rw [pieces_of_not_mentions (hnone d hmem), substitute_map_char, Option.some.injEq] at htext
  rw [hget, ← htext, String.ofList_toList]

/-- Two meaningful environments of the same names agree. -/
theorem Meaningful.get?_eq {env env' : EnvMap} (henv : scope.Meaningful env)
    (henv' : scope.Meaningful env') (hkeys : ∀ name, name ∈ env'.keys ↔ name ∈ env.keys) :
    env'.get? = env.get? := by
  funext name
  apply Option.ext
  intro v
  have agree : ∀ {m m' : EnvMap}, scope.Meaningful m → scope.Meaningful m' →
      (∀ name, name ∈ m'.keys ↔ name ∈ m.keys) → m'.get? name = some v → m.get? name = some v := by
    intro m m' hm hm' hnames hget
    have hmem := EnvMap.get?_eq_some_iff.1 hget
    have hname : name ∈ m.keys := (hnames name).1 (List.mem_map_of_mem (f := Prod.fst) hmem)
    obtain ⟨e, he, rfl⟩ := List.mem_map.1 hname
    obtain ⟨depth, hv⟩ := hm e he
    obtain ⟨depth', hv'⟩ := hm' _ hmem
    have hvalue : v = e.2 := meaning_unique hv' hv
    rw [EnvMap.get?_eq_some_iff, hvalue]
    exact he
  exact ⟨agree henv henv' hkeys, agree henv' henv fun name => (hkeys name).symm⟩

/-- A file whose declarations are listed in another order expands to the same values. -/
theorem expand_of_perm (hmode : scope.mode = .strict)
    (hkeys : (scope.declarations.map (·.key)).Nodup) {ds : List Declaration}
    (hperm : ds.Perm scope.declarations) {env : EnvMap} {memo : Memo}
    (hresult : scope.expand = .ok (env, memo)) :
    ∃ env' memo', ({ scope with declarations := ds } : Scope).expand = .ok (env', memo') ∧
      env'.get? = env.get? := by
  have hdecl := declaration?_of_perm hperm hkeys
  have hkeys' : (ds.map (·.key)).Nodup := (hperm.map _).nodup_iff.2 hkeys
  obtain ⟨hacyclic, hclosed⟩ := (expand_isOk_iff hmode hkeys).1 ⟨_, hresult⟩
  have hmode' : ({ scope with declarations := ds } : Scope).mode = .strict := hmode
  obtain ⟨⟨env', memo'⟩, hresult'⟩ := (expand_isOk_iff hmode' hkeys').2
    ⟨(acyclic_congr hdecl).2 hacyclic, (closed_congr hdecl rfl).2 hclosed⟩
  have houtcome := expand_outcome hmode hkeys
  rw [hresult] at houtcome
  have houtcome' := expand_outcome hmode' hkeys'
  rw [hresult'] at houtcome'
  have henv' : scope.Meaningful env' := by
    intro e hmem
    obtain ⟨depth, hv⟩ := houtcome'.2.2 e hmem
    rw [meaning_congr hdecl rfl] at hv
    exact ⟨depth, hv⟩
  refine ⟨env', memo', hresult', houtcome.2.2.get?_eq henv' fun name => ?_⟩
  rw [houtcome.2.1, houtcome'.2.1]
  exact (hperm.map _).mem_iff

/-- Strict expansion succeeds exactly on an acyclic file without unknown names. It keeps the names
and their order, and each value is its text with the references replaced, which is what plain
recursion without a memo gives; the order of the declarations does not matter to it. A cycle is
blamed with a walk through the references that comes back to one of its names. -/
theorem expand_strict (hmode : scope.mode = .strict)
    (hkeys : (scope.declarations.map (·.key)).Nodup) :
    ((∃ result, scope.expand = .ok result) ↔ scope.Acyclic ∧ scope.Closed) ∧
    (∀ env memo, scope.expand = .ok (env, memo) →
      env.keys = scope.declarations.map (·.key) ∧
      (∀ d ∈ scope.declarations, ∃ text,
        env.get? d.key = some (String.ofList text) ∧
        substitute (scope.referent env.get?) (pieces d.raw.toList) = some text ∧
        scope.meaning scope.declarations.length d.key = some (String.ofList text)) ∧
      ∀ ds, ds.Perm scope.declarations → ∃ env' memo',
        ({ scope with declarations := ds } : Scope).expand = .ok (env', memo') ∧
          env'.get? = env.get?) ∧
    ∀ fault chain, scope.expand = .error fault → fault.defect = .cyclicReference chain →
      scope.Lasso chain := by
  have houtcome := expand_outcome hmode hkeys
  refine ⟨expand_isOk_iff hmode hkeys, ?_, ?_⟩
  · intro env memo hresult
    have hgood := (expand_isOk_iff hmode hkeys).1 ⟨_, hresult⟩
    rw [hresult] at houtcome
    obtain ⟨_, hnames, henv⟩ := houtcome
    refine ⟨hnames, fun d hmem => ?_, fun ds hperm => ?_⟩
    · have hd := (declaration?_eq_some_iff hkeys).2 ⟨hmem, rfl⟩
      obtain ⟨text, htext, hget⟩ := henv.substitute_get? hnames hd
      obtain ⟨depth, v, hget', hv⟩ := henv.get? hnames hd
      rw [hget] at hget'
      exact ⟨text, hget, htext, Option.some.inj hget' ▸ hgood.1.meaning_length hv⟩
    · exact expand_of_perm hmode hkeys hperm hresult
  · intro fault chain hresult hchain
    rw [hresult] at houtcome
    rcases houtcome with ⟨chain', hchain', hlasso⟩ | ⟨name, hname, _⟩
    · rw [hchain] at hchain'
      cases hchain'
      exact hlasso
    · rw [hchain] at hname
      cases hname

/-- Two names share a reference to a third, which refers outside: each is expanded once, to its
meaning. -/
theorem expand_strict_shared :
    let scope : Scope := ⟨".env", .strict,
      [⟨"A", "${B}${C}", 1⟩, ⟨"B", "<${D}", 2⟩, ⟨"C", "${D}>", 3⟩, ⟨"D", "$${HOME}", 4⟩],
      fun name => if name = "HOME" then some "/h" else none⟩
    (scope.declarations.map (·.key)).Nodup ∧ scope.Acyclic ∧ scope.Closed ∧
      scope.meaning 4 "A" = some "<$/h$/h>" := by
  intro scope
  have hkeys : (scope.declarations.map (·.key)).Nodup := by decide
  have hresult : ∃ result, scope.expand = .ok result := by
    have hok : scope.expand.isOk = true := by cbv
    cases h : scope.expand with
    | ok result => exact ⟨result, rfl⟩
    | error fault => simp [h, Except.isOk, Except.toBool] at hok
  obtain ⟨hacyclic, hclosed⟩ := (expand_strict rfl hkeys).1.1 hresult
  exact ⟨hkeys, hacyclic, hclosed, by cbv⟩

end Scope

end EnvSettings.Dotenv
