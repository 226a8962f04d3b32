import Mathlib
import EnvSettings.Document
import EnvSettings.Proofs.Document.Declarations
import EnvSettings.Proofs.Document.Steps
import EnvSettings.Proofs.Room
import EnvSettings.Proofs.TypeExpr

namespace EnvSettings.Document

open Relation (ReflTransGen TransGen)

/-- Visits that only look into a table. -/
def consult (known : Built) (name : String) : Build Schema :=
  match known.lookup name with
  | some s => pure s
  | none => Build.fail (.unknownType name)

/-- A name is looked up in what is known, and nothing is built. -/
theorem consult_eq_ok_iff {known built : Built} {name : String} {result : Schema × Built} :
    consult known name built = .ok result ↔
      known.lookup name = some result.1 ∧ built = result.2 := by
  rw [consult]
  cases known.lookup name with
  | none => exact iff_of_false nofun nofun
  | some s =>
    have hpure : (pure s : Build Schema) built = .ok result ↔
        (.ok s : Except Error Schema) = .ok result.1 ∧ built = result.2 :=
      Build.lift_eq_ok_iff (x := .ok s)
    rw [Option.some.injEq, hpure, Except.ok.injEq]

namespace Declarations

variable {d : Declarations} {a b name : String} {s s' : Schema} {built built' known : Built}

/-- The outline of a schema mentions another declared one. -/
def Needs (d : Declarations) (a b : String) : Prop :=
  b ∈ d.names ∧ ∃ outline, d.schema? a = some outline ∧ outline.Mentions b

/-- What a declared schema means: its outline assembled from the meanings of schemas. -/
inductive Means (d : Declarations) : String → Schema → Prop
  | intro {name : String} {outline : SchemaOutline} {known : Built} {s : Schema}
      (houtline : d.schema? name = some outline)
      (hknown : ∀ other t, known.lookup other = some t → Means d other t)
      (hassemble : d.assemble (consult known) outline [] = .ok (s, [])) : Means d name s

/-- A declared schema is among the declared names. -/
theorem mem_names_of_schema? {outline : SchemaOutline} (houtline : d.schema? name = some outline) :
    name ∈ d.names := by
  have hname : outline.name = name := by simpa using List.find?_some houtline
  exact hname ▸ List.mem_map_of_mem (List.mem_of_find?_eq_some houtline)

/-- Only declared names have a meaning. -/
theorem Means.declared (hmeans : d.Means name s) : name ∈ d.names := by
  cases hmeans with
  | intro houtline => exact mem_names_of_schema? houtline

/-- Two steps have the same result where both succeed. -/
def SameResult {α : Type} (m m' : Build α) : Prop :=
  ∀ built built' result result', m built = .ok result → m' built' = .ok result' →
    result.1 = result'.1

/-- Steps with the same result are put together to steps with the same result. -/
theorem compositional_sameResult : Compositional @SameResult where
  lift x built built' result result' hresult hresult' := by
    obtain ⟨hx, -⟩ := Build.lift_eq_ok_iff.1 hresult
    obtain ⟨hx', -⟩ := Build.lift_eq_ok_iff.1 hresult'
    exact Except.ok.inj (hx.symm.trans hx')
  bind hm hk built built' result result' hresult hresult' := by
    obtain ⟨next, hnext, hresult⟩ := Build.bind_eq_ok_iff.1 hresult
    obtain ⟨next', hnext', hresult'⟩ := Build.bind_eq_ok_iff.1 hresult'
    rw [← hm _ _ _ _ hnext hnext'] at hresult'
    exact hk _ _ _ _ _ hresult hresult'
  atField schema field m m' hm built built' result result' hresult hresult' :=
    hm _ _ _ _ (Build.atField_eq_ok_iff.1 hresult) (Build.atField_eq_ok_iff.1 hresult')

/-- A name has at most one meaning. -/
theorem Means.unique (hmeans : d.Means name s) (hmeans' : d.Means name s') : s = s' := by
  induction hmeans generalizing s' with
  | intro houtline _ hassemble ih =>
    -- Both meanings are assembled from one outline, and below it the meanings agree.
    obtain @⟨_, outline', known', _, houtline', hknown', hassemble'⟩ := hmeans'
    obtain rfl := Option.some.inj (houtline.symm.trans houtline')
    refine related_assemble compositional_sameResult (fun other _ => ?_) _ _ _ _ hassemble
      hassemble'
    intro built built' result result' hresult hresult'
    obtain ⟨hlookup, -⟩ := consult_eq_ok_iff.1 hresult
    obtain ⟨hlookup', -⟩ := consult_eq_ok_iff.1 hresult'
    exact ih _ _ hlookup (hknown' _ _ hlookup')

/-- An outline is assembled from a table only if the table has each schema that it mentions. -/
theorem lookup_of_assemble {outline : SchemaOutline} {result : Schema × Built}
    (hassemble : d.assemble (consult known) outline built = .ok result)
    (hmentions : outline.Mentions name) (henum : d.enum? name = none) :
    ∃ t, known.lookup name = some t := by
  have hgives : Build.Gives (d.assemble (consult known) outline) result.1 := ⟨_, _, hassemble⟩
  obtain ⟨t, _, _, hresult⟩ := hgives.assemble hmentions henum
  exact ⟨t, (consult_eq_ok_iff.1 hresult).1⟩

/-- Below a schema with a meaning there is no endless chain of schemas. -/
theorem Means.acc (hnames : ∀ b ∈ d.names, d.enum? b = none) (hmeans : d.Means name s) :
    Acc (Function.swap d.Needs) name := by
  induction hmeans with
  | intro houtline _ hassemble ih =>
    refine ⟨_, fun b hneeds => ?_⟩
    obtain ⟨hb, outline', houtline', hmentions⟩ := hneeds
    obtain rfl := Option.some.inj (houtline.symm.trans houtline')
    obtain ⟨t, hlookup⟩ := lookup_of_assemble hassemble hmentions (hnames b hb)
    exact ih b t hlookup

/-- Nothing that is well-founded needs itself. -/
theorem not_transGen_of_acc (hacc : Acc (Function.swap d.Needs) name) :
    ¬ TransGen d.Needs name name := by
  induction hacc with
  | intro a _ ih =>
    intro hcycle
    obtain ⟨b, hneeds, hback⟩ := TransGen.head'_iff.1 hcycle
    exact ih b hneeds (.tail' hback hneeds)

/-- All that is built is what it means. -/
def Sound (d : Declarations) (built : Built) : Prop :=
  ∀ name s, built.lookup name = some s → d.Means name s

/-- What is built stays built. -/
def Extends (built built' : Built) : Prop :=
  ∀ name s, built.lookup name = some s → built'.lookup name = some s

/-- Every state extends itself. -/
theorem Extends.refl (built : Built) : Extends built built :=
  fun _ _ hlookup => hlookup

/-- An extension of an extension is one. -/
theorem Extends.trans {built₁ built₂ built₃ : Built} (hfirst : Extends built₁ built₂)
    (hsecond : Extends built₂ built₃) : Extends built₁ built₃ :=
  fun name s hlookup => hsecond name s (hfirst name s hlookup)

theorem lookup_cons_self : List.lookup name ((name, s) :: built) = some s := by
  simp

theorem sound_nil (d : Declarations) : d.Sound [] :=
  fun _ _ => nofun

/-- Schemas that are what their names mean stay so when another one is added. -/
theorem Sound.cons (hsound : d.Sound built) (hmeans : d.Means name s) :
    d.Sound ((name, s) :: built) := by
  intro other t hlookup
  by_cases hother : other = name
  · rw [hother, lookup_cons_self] at hlookup
    exact hother ▸ Option.some.inj hlookup ▸ hmeans
  · rw [List.lookup_cons, beq_eq_false_iff_ne.2 hother] at hlookup
    exact hsound other t hlookup

/-- A meaning can be added: there is no other one for its name. -/
theorem Sound.extends_cons (hsound : d.Sound built) (hmeans : d.Means name s) :
    Extends built ((name, s) :: built) := by
  intro other t hlookup
  by_cases hother : other = name
  · rw [hother, lookup_cons_self, hmeans.unique (hother ▸ hsound other t hlookup)]
  · rwa [List.lookup_cons, beq_eq_false_iff_ne.2 hother]

variable {room : Nat} {pending : List String} {result : Schema × Built}

/-- A visit takes a schema that is built, or assembles it, unless it is being built already. -/
theorem visit_succ (d : Declarations) (room : Nat) (pending : List String) (name : String)
    (built : Built) :
    d.visit (room + 1) pending name built =
      match built.lookup name with
      | some s => .ok (s, built)
      | none =>
        if pending.contains name then .error (.config (.recursiveSchema (pending ++ [name])))
        else match d.schema? name with
          | none => .error (.config (.unknownType name))
          | some outline =>
            (d.assemble (d.visit room (pending ++ [name])) outline built).map
              fun next => (next.1, (name, next.1) :: next.2) := by
  have hget (k : Built → Build Schema) : (get >>= k) built = k built built := rfl
  rw [visit, hget]
  cases built.lookup name with
  | some s => rfl
  | none =>
    by_cases hpending : pending.contains name
    · simp only [hpending, if_true]
      rfl
    · simp only [hpending, Bool.false_eq_true, if_false]
      cases d.schema? name with
      | none => rfl
      | some outline =>
        change (d.assemble (d.visit room (pending ++ [name])) outline built >>=
          fun next => .ok (next.1, (name, next.1) :: next.2)) = Except.map _ _
        cases d.assemble (d.visit room (pending ++ [name])) outline built <;> rfl

/-- A visit finds a schema that is built, or builds one that is not pending. -/
theorem visit_eq_ok_iff :
    d.visit (room + 1) pending name built = .ok result ↔
      (built.lookup name = some result.1 ∧ built = result.2) ∨
      (built.lookup name = none ∧ name ∉ pending ∧ ∃ outline between,
        d.schema? name = some outline ∧
        d.assemble (d.visit room (pending ++ [name])) outline built =
          .ok (result.1, between) ∧ (name, result.1) :: between = result.2) := by
  obtain ⟨s, built'⟩ := result
  rw [visit_succ]
  cases hlookup : built.lookup name with
  | some t => simp
  | none =>
    by_cases hpending : name ∈ pending
    · simp [hpending]
    · simp only [List.contains_iff_mem, hpending, if_false]
      cases houtline : d.schema? name with
      | none => simp
      | some outline =>
        rw [map_eq_ok_iff]
        simp [Prod.ext_iff]

/-- A step from what is built, and one from a table that has all that is built in the end. -/
def Traces (d : Declarations) (final : Built) {α : Type} (m m' : Build α) : Prop :=
  ∀ built result, d.Sound built → m built = .ok result →
    d.Sound result.2 ∧ Extends built result.2 ∧
      (Extends result.2 final → ∀ other, m' other = .ok (result.1, other))

/-- Steps that build what a final state has are put together to one that does. -/
theorem compositional_traces (d : Declarations) (final : Built) :
    Compositional (@Traces d final) where
  lift x built result hsound hresult := by
    obtain ⟨hx, rfl⟩ := Build.lift_eq_ok_iff.1 hresult
    exact ⟨hsound, .refl _, fun _ other => Build.lift_eq_ok_iff.2 ⟨hx, rfl⟩⟩
  bind hm hk built result hsound hresult := by
    obtain ⟨next, hnext, hresult⟩ := Build.bind_eq_ok_iff.1 hresult
    obtain ⟨hsound, hfirst, htable⟩ := hm _ _ hsound hnext
    obtain ⟨hsound, hsecond, htable'⟩ := hk _ _ _ hsound hresult
    refine ⟨hsound, hfirst.trans hsecond, fun hfinal other => ?_⟩
    exact Build.bind_eq_ok_iff.2
      ⟨(next.1, other), htable (hsecond.trans hfinal) other, htable' hfinal other⟩
  atField schema field m m' hm built result hsound hresult := by
    obtain ⟨hsound, hextends, htable⟩ := hm _ _ hsound (Build.atField_eq_ok_iff.1 hresult)
    exact ⟨hsound, hextends, fun hfinal other => Build.atField_eq_ok_iff.2 (htable hfinal other)⟩

/-- A visit finds a schema, and adds nothing but meanings to what is built. -/
def Finds (d : Declarations) (name : String) (built : Built) (result : Schema × Built) : Prop :=
  d.Sound result.2 ∧ Extends built result.2 ∧ result.2.lookup name = some result.1

/-- An assembly can be repeated from the table that it leaves. -/
theorem traces_assemble {visit : String → Build Schema} {outline : SchemaOutline}
    (hvisit : ∀ other built result, d.Sound built → visit other built = .ok result →
      d.Finds other built result)
    (hsound : d.Sound built) (hassemble : d.assemble visit outline built = .ok result) :
    d.Sound result.2 ∧ Extends built result.2 ∧
      d.assemble (consult result.2) outline [] = .ok (result.1, []) := by
  have htraces : Traces d result.2 (d.assemble visit outline)
      (d.assemble (consult result.2) outline) := by
    refine related_assemble (compositional_traces d result.2) fun other _ => ?_
    intro built next hsound hnext
    obtain ⟨hsound, hextends, hlookup⟩ := hvisit other built next hsound hnext
    exact ⟨hsound, hextends, fun hfinal built => consult_eq_ok_iff.2 ⟨hfinal _ _ hlookup, rfl⟩⟩
  obtain ⟨hsound, hextends, htable⟩ := htraces _ _ hsound hassemble
  exact ⟨hsound, hextends, htable (.refl result.2) []⟩

/-- A visit gives the meaning of the schema and stores it, and all that it stores are meanings. -/
theorem sound_of_visit (hsound : d.Sound built)
    (hvisit : d.visit room pending name built = .ok result) : d.Finds name built result := by
  induction room generalizing pending name built result with
  | zero => cases hvisit
  | succ room ih =>
    obtain ⟨hlookup, rfl⟩ | ⟨-, -, outline, between, houtline, hassemble, hbuilt⟩ :=
      visit_eq_ok_iff.1 hvisit
    · exact ⟨hsound, .refl _, hlookup⟩
    · obtain ⟨hbetween, hextends, htable⟩ :=
        traces_assemble (fun _ _ _ => ih) hsound hassemble
      have hmeans : d.Means name result.1 := .intro houtline hbetween htable
      rw [Finds, ← hbuilt]
      exact ⟨hbetween.cons hmeans, hextends.trans (hbetween.extends_cons hmeans),
        lookup_cons_self⟩

/-- The second step succeeds from all that is sound with each result of the first. -/
def Answers (d : Declarations) {α : Type} (m m' : Build α) : Prop :=
  ∀ other result, m other = .ok result →
    ∀ built, d.Sound built → ∃ built', m' built = .ok (result.1, built') ∧ d.Sound built'

/-- Steps that answer as the meanings do are put together to one that does. -/
theorem compositional_answers (d : Declarations) : Compositional (@Answers d) where
  lift x other result hresult built hsound := by
    obtain ⟨hx, -⟩ := Build.lift_eq_ok_iff.1 hresult
    exact ⟨built, Build.lift_eq_ok_iff.2 ⟨hx, rfl⟩, hsound⟩
  bind hm hk other result hresult built hsound := by
    obtain ⟨next, hnext, hresult⟩ := Build.bind_eq_ok_iff.1 hresult
    obtain ⟨between, hbetween, hsound⟩ := hm _ _ hnext built hsound
    obtain ⟨built', hbuilt', hsound⟩ := hk _ _ _ hresult between hsound
    exact ⟨built', Build.bind_eq_ok_iff.2 ⟨_, hbetween, hbuilt'⟩, hsound⟩
  atField schema field m m' hm other result hresult built hsound := by
    obtain ⟨built', hbuilt', hsound⟩ := hm _ _ (Build.atField_eq_ok_iff.1 hresult) built hsound
    exact ⟨built', Build.atField_eq_ok_iff.2 hbuilt', hsound⟩

/-- A schema with a meaning is found from all that is sound, below schemas that it does not
need. -/
theorem visit_of_means (hnames : ∀ b ∈ d.names, d.enum? b = none) (hmeans : d.Means name s)
    (hroom : HasRoom d.names room pending) (hapart : ∀ a ∈ pending, ¬ ReflTransGen d.Needs name a)
    (hsound : d.Sound built) :
    ∃ built', d.visit room pending name built = .ok (s, built') := by
  induction hmeans generalizing room pending built with
  | @intro name outline known s houtline hknown hassemble ih =>
    have hmeans : d.Means name s := .intro houtline hknown hassemble
    have hname : name ∉ pending := fun hmem => hapart name hmem .refl
    obtain ⟨room, rfl⟩ := hroom.exists_succ
    cases hlookup : built.lookup name with
    | some t =>
      obtain rfl := (hsound name t hlookup).unique hmeans
      exact ⟨built, visit_eq_ok_iff.2 (.inl ⟨hlookup, rfl⟩)⟩
    | none =>
      have hanswers : Answers d (d.assemble (consult known) outline)
          (d.assemble (d.visit room (pending ++ [name])) outline) := by
        refine related_assemble (compositional_answers d) fun other hmentions => ?_
        intro _ result hresult built hsound
        obtain ⟨hother, -⟩ := consult_eq_ok_iff.1 hresult
        have hneeds : d.Needs name other :=
          ⟨(hknown _ _ hother).declared, outline, houtline, hmentions⟩
        have hapart' : ∀ a ∈ pending ++ [name], ¬ ReflTransGen d.Needs other a := by
          refine List.forall_mem_append.2 ⟨fun a ha hback => hapart a ha (hback.head hneeds), ?_⟩
          -- Nothing that has a meaning needs itself.
          exact List.forall_mem_singleton.2 fun hback =>
            not_transGen_of_acc (hmeans.acc hnames) (.head' hneeds hback)
        obtain ⟨built', hvisit⟩ := ih other _ hother
          (hroom.push hname (mem_names_of_schema? houtline)) hapart' hsound
        exact ⟨built', hvisit, (sound_of_visit hsound hvisit).1⟩
      obtain ⟨between, hbetween, -⟩ := hanswers _ _ hassemble built hsound
      exact ⟨(name, s) :: between,
        visit_eq_ok_iff.2 (.inr ⟨hlookup, hname, outline, between, houtline, hbetween, rfl⟩)⟩

/-- More room than there are schemas makes no difference: a visit never runs out of it. -/
theorem visit_room {room' : Nat} (hroom : HasRoom d.names room pending)
    (hroom' : HasRoom d.names room' pending) : d.visit room pending = d.visit room' pending := by
  induction room generalizing room' pending with
  | zero =>
    obtain ⟨less, hless⟩ := hroom.exists_succ
    cases hless
  | succ room ih =>
    obtain ⟨room', rfl⟩ := hroom'.exists_succ
    funext name built
    rw [visit_succ, visit_succ]
    by_cases hname : name ∈ pending
    · simp only [List.contains_iff_mem, hname, if_true]
    · cases houtline : d.schema? name with
      | none => rfl
      | some outline =>
        have hdeclared := mem_names_of_schema? houtline
        rw [ih (hroom.push hname hdeclared) (hroom'.push hname hdeclared)]

/-- Visits schemas one after the other. -/
def visitAll (d : Declarations) (room : Nat) (order : List String) : Build PUnit :=
  order.forM fun name => discard (d.visit room [] name)

/-- Building with some room for the schemas that are pending. -/
def buildWithin (d : Declarations) (room : Nat) (order : List String) : Except Error Built :=
  (d.visitAll room order []).map Prod.snd

variable {order order' : List String} {final : PUnit × Built}

/-- There is room for every declared schema. -/
theorem buildAll_eq (d : Declarations) (order : List String) :
    d.buildAll order = d.buildWithin (d.schemas.length + 1) order := by
  change (d.visitAll (d.schemas.length + 1) order [] >>= fun final => .ok final.2) = _
  rw [buildWithin]
  cases d.visitAll (d.schemas.length + 1) order [] <;> rfl

/-- Building succeeds if all visits do, one after the other. -/
theorem buildWithin_eq_ok_iff :
    d.buildWithin room order = .ok built ↔
      ∃ final, d.visitAll room order [] = .ok final ∧ final.2 = built :=
  map_eq_ok_iff

theorem visitAll_cons_eq_ok_iff :
    d.visitAll room (name :: order) built = .ok final ↔
      ∃ next, d.visit room [] name built = .ok next ∧ d.visitAll room order next.2 = .ok final := by
  have hcons : d.visitAll room (name :: order) =
      d.visit room [] name >>= fun _ => d.visitAll room order := by
    change discard (d.visit room [] name) >>= (fun _ => d.visitAll room order) = _
    rw [Functor.discard, map_const, Function.comp_apply, bind_map_left]
  rw [hcons, Build.bind_eq_ok_iff]

/-- A run over an order gives meanings, one for each name of the order. -/
theorem sound_of_visitAll (hsound : d.Sound built)
    (hrun : d.visitAll room order built = .ok final) :
    d.Sound final.2 ∧ Extends built final.2 ∧
      ∀ name ∈ order, ∃ s, final.2.lookup name = some s := by
  induction order generalizing built with
  | nil =>
    cases hrun
    exact ⟨hsound, .refl _, List.forall_mem_nil _⟩
  | cons name order ih =>
    obtain ⟨next, hvisit, hrest⟩ := visitAll_cons_eq_ok_iff.1 hrun
    obtain ⟨hnext, hfirst, hlookup⟩ := sound_of_visit hsound hvisit
    obtain ⟨hfinal, hsecond, hlookups⟩ := ih hnext hrest
    exact ⟨hfinal, hfirst.trans hsecond,
      List.forall_mem_cons.2 ⟨⟨next.1, hsecond _ _ hlookup⟩, hlookups⟩⟩

/-- Where each name of an order has a meaning, a run over the order succeeds. -/
theorem visitAll_of_means (hnames : ∀ b ∈ d.names, d.enum? b = none)
    (hmeans : ∀ name ∈ order, ∃ s, d.Means name s) (hroom : HasRoom d.names room [])
    (hsound : d.Sound built) : ∃ final, d.visitAll room order built = .ok final := by
  induction order generalizing built with
  | nil => exact ⟨_, rfl⟩
  | cons name order ih =>
    obtain ⟨⟨s, hname⟩, hmeans⟩ := List.forall_mem_cons.1 hmeans
    obtain ⟨next, hvisit⟩ := visit_of_means hnames hname hroom (List.forall_mem_nil _) hsound
    obtain ⟨final, hrest⟩ := ih hmeans (sound_of_visit hsound hvisit).1
    exact ⟨final, visitAll_cons_eq_ok_iff.2 ⟨_, hvisit, hrest⟩⟩

theorem hasRoom_of_lt (hroom : d.schemas.length < room) : HasRoom d.names room [] :=
  .nil (by rwa [names, List.length_map])

/-- Building never runs out of room. -/
theorem buildWithin_room (hroom : d.schemas.length < room) :
    d.buildWithin room order = d.buildAll order := by
  rw [buildAll_eq, buildWithin, buildWithin, visitAll, visitAll,
    visit_room (hasRoom_of_lt hroom) (hasRoom_of_lt (Nat.lt_succ_self _))]

/-- Building in one order succeeds with meanings for all names of the order. -/
theorem sound_of_buildAll (hbuild : d.buildAll order = .ok built) :
    d.Sound built ∧ ∀ name ∈ order, ∃ s, built.lookup name = some s := by
  rw [buildAll_eq, buildWithin_eq_ok_iff] at hbuild
  obtain ⟨final, hrun, rfl⟩ := hbuild
  obtain ⟨hsound, -, hlookup⟩ := sound_of_visitAll (sound_nil d) hrun
  exact ⟨hsound, hlookup⟩

/-- If every name that is visited means a schema, building succeeds. -/
theorem buildAll_of_means (hnames : ∀ b ∈ d.names, d.enum? b = none)
    (hmeans : ∀ name ∈ order, ∃ s, d.Means name s) : ∃ built, d.buildAll order = .ok built := by
  obtain ⟨final, hrun⟩ := visitAll_of_means hnames hmeans
    (hasRoom_of_lt (Nat.lt_succ_self d.schemas.length)) (sound_nil d)
  rw [buildAll_eq]
  exact ⟨final.2, buildWithin_eq_ok_iff.2 ⟨final, hrun, rfl⟩⟩

/-- Where building fails, one of the schemas has no meaning. -/
theorem exists_not_means (hnames : ∀ b ∈ d.names, d.enum? b = none) {e : Error}
    (hbuild : d.buildAll order = .error e) : ∃ name ∈ order, ∀ s, ¬ d.Means name s := by
  by_contra! hmeans
  obtain ⟨built, hbuilt⟩ := buildAll_of_means hnames hmeans
  cases hbuild.symm.trans hbuilt

/-- What succeeds in one order succeeds in another one, with the same schemas. -/
theorem buildAll_reorder (hnames : ∀ b ∈ d.names, d.enum? b = none) (horder : order.Perm d.names)
    (horder' : order'.Perm d.names) (hbuild : d.buildAll order = .ok built) :
    ∃ built', d.buildAll order' = .ok built' ∧
      ∀ name ∈ d.names, ∃ s, d.Means name s ∧ built.lookup name = some s ∧
        built'.lookup name = some s := by
  obtain ⟨hsound, hlookup⟩ := sound_of_buildAll hbuild
  have hmeans : ∀ name ∈ order', ∃ s, d.Means name s := by
    intro name hname
    obtain ⟨s, hs⟩ := hlookup name (horder.mem_iff.2 (horder'.mem_iff.1 hname))
    exact ⟨s, hsound name s hs⟩
  obtain ⟨built', hbuild'⟩ := buildAll_of_means hnames hmeans
  obtain ⟨hsound', hlookup'⟩ := sound_of_buildAll hbuild'
  refine ⟨built', hbuild', fun name hname => ?_⟩
  obtain ⟨s, hs⟩ := hlookup name (horder.mem_iff.2 hname)
  obtain ⟨s', hs'⟩ := hlookup' name (horder'.mem_iff.2 hname)
  exact ⟨s, hsound name s hs, hs, (hsound name s hs).unique (hsound' name s' hs') ▸ hs'⟩

/-- Where all declared schemas are built, none of them needs itself. -/
theorem not_transGen_of_buildAll (hnames : ∀ b ∈ d.names, d.enum? b = none)
    (horder : order.Perm d.names) (hbuild : d.buildAll order = .ok built) (name : String) :
    ¬ TransGen d.Needs name name := by
  intro hcycle
  obtain ⟨_, ⟨-, outline, houtline, -⟩, -⟩ := TransGen.head'_iff.1 hcycle
  obtain ⟨hsound, hlookup⟩ := sound_of_buildAll hbuild
  obtain ⟨s, hs⟩ := hlookup name (horder.mem_iff.2 (mem_names_of_schema? houtline))
  exact not_transGen_of_acc ((hsound name s hs).acc hnames) hcycle

/-- Building ends, and its result does not depend on the order in which the declared schemas are
visited. In two orders it fails because one of them has no meaning, or it succeeds with what each of
them means, so with the same document. It succeeds only if no schema needs itself. -/
theorem buildAll_order {o : Outline} (hdeclare : o.declare = .ok d) (horder : order.Perm d.names)
    (horder' : order'.Perm d.names) :
    ((∀ (text : String) (depth : Nat), (Text.trim text.toList).length < depth →
        TypeExpr.parseWithin depth (Text.trim text.toList) = TypeExpr.parse text) ∧
      ∀ room, d.schemas.length < room →
        d.buildWithin room order = d.buildAll order ∧
        d.buildWithin room order' = d.buildAll order') ∧
    (((∃ e e', d.buildAll order = .error e ∧ d.buildAll order' = .error e') ∧
        ∃ name ∈ d.names, ∀ s, ¬ d.Means name s) ∨
      ∃ built built', d.buildAll order = .ok built ∧ d.buildAll order' = .ok built' ∧
        (∀ name ∈ d.names, ∃ s, d.Means name s ∧ built.lookup name = some s ∧
          built'.lookup name = some s) ∧
        ofBuilt d built = ofBuilt d built' ∧ ∀ name, ¬ TransGen d.Needs name name) := by
  have hnames := (proper_of_declare hdeclare).1.enum?_eq_none
  refine ⟨⟨fun text depth hdepth => TypeExpr.parseWithin_eq hdepth (Nat.lt_succ_self _),
    fun room hroom => ⟨buildWithin_room hroom, buildWithin_room hroom⟩⟩, ?_⟩
  cases hbuild : d.buildAll order with
  | error e =>
    cases hbuild' : d.buildAll order' with
    | error e' =>
      obtain ⟨name, hname, hmeans⟩ := exists_not_means hnames hbuild
      exact .inl ⟨⟨e, e', rfl, rfl⟩, name, horder.mem_iff.1 hname, hmeans⟩
    | ok built' =>
      obtain ⟨built, hbuilt, -⟩ := buildAll_reorder hnames horder' horder hbuild'
      cases hbuild.symm.trans hbuilt
  | ok built =>
    obtain ⟨built', hbuild', hsame⟩ := buildAll_reorder hnames horder horder' hbuild
    refine .inr ⟨built, built', rfl, hbuild', hsame, ?_,
      not_transGen_of_buildAll hnames horder hbuild⟩
    have hschemas : d.names.map (fun name => (built.lookup name).getD { name }) =
        d.names.map fun name => (built'.lookup name).getD { name } := by
      refine List.map_congr_left fun name hname => ?_
      obtain ⟨s, -, hs, hs'⟩ := hsame name hname
      rw [hs, hs']
    unfold ofBuilt
    rw [hschemas]

/-- A service extends a base and has stores, each in one of several regions. -/
def service : Declarations where
  config := none
  root := "Service"
  enums := [⟨"Region", [("North", "n"), ("South", "s")]⟩]
  schemas := [
    { name := "Service", parent := some "Base"
      fields := [{ name := "stores", type := "optional[list[Store]]", info := {} }] },
    { name := "Base", parent := none, fields := [{ name := "name", type := "str", info := {} }] },
    { name := "Store", parent := none
      fields := [{ name := "region", type := "Region", info := {} }] }]

theorem service_declare :
    ({ service with root := some service.root } : Outline).declare = .ok service := by
  have hbuiltin : ∀ name ∈ service.names, TypeExpr.isBuiltin name = false := by decide +kernel
  simp only [names, service, List.map_cons, List.map_nil, List.forall_mem_cons] at hbuiltin
  simp [Outline.declare, Outline.rootName, service, checkEnums, checkSchemas, hbuiltin, bind,
    Except.bind]

/-- The service builds in the order of its declaration, and with what it needs first. -/
theorem buildAll_order_service :
    let order := ["Service", "Base", "Store"]
    let order' := ["Store", "Base", "Service"]
    ({ service with root := some service.root } : Outline).declare = .ok service ∧
      order.Perm service.names ∧ order'.Perm service.names ∧
      ∃ built built', service.buildAll order = .ok built ∧ service.buildAll order' = .ok built' ∧
        (∀ name ∈ service.names, ∃ s, service.Means name s ∧ built.lookup name = some s ∧
          built'.lookup name = some s) ∧
        ofBuilt service built = ofBuilt service built' ∧
        ∀ name, ¬ TransGen service.Needs name name := by
  intro order order'
  have horder : order.Perm service.names := by decide
  have horder' : order'.Perm service.names := by decide
  have hsucceeds : (service.buildAll order).isOk = true := by decide +kernel
  obtain ⟨-, ⟨⟨e, e', herror, -⟩, -⟩ | hbuilt⟩ := buildAll_order service_declare horder horder'
  · rw [herror] at hsucceeds
    cases hsucceeds
  · exact ⟨service_declare, horder, horder', hbuilt⟩

end Declarations

end EnvSettings.Document
