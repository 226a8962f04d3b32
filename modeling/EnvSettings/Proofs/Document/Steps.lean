import Mathlib
import EnvSettings.Document.Builder
import EnvSettings.Proofs.Except

namespace EnvSettings.Document

namespace Build

variable {α β : Type} {m : Build α} {built : Built}

/-- Two steps succeed if the second one does with what the first one has built. -/
theorem bind_eq_ok_iff {k : α → Build β} {result : β × Built} :
    (m >>= k) built = .ok result ↔
      ∃ next, m built = .ok next ∧ k next.1 next.2 = .ok result :=
  EnvSettings.bind_eq_ok_iff

/-- A step without schemas succeeds on its own and builds nothing. -/
theorem lift_eq_ok_iff {x : Except Error α} {result : α × Built} :
    (liftM x : Build α) built = .ok result ↔ x = .ok result.1 ∧ built = result.2 := by
  cases x with
  | error e => exact iff_of_false nofun nofun
  | ok a =>
    obtain ⟨b, built'⟩ := result
    change Except.ok (a, built) = .ok (b, built') ↔ _
    simp

/-- Telling where an error has come from does not change what is built. -/
theorem atField_eq_ok_iff {schema field : String} {result : α × Built} :
    Build.atField schema field m built = .ok result ↔ m built = .ok result :=
  mapError_eq_ok_iff

end Build

/-- An outline mentions the name of a schema: as its parent, or anywhere in the type of a field. -/
def SchemaOutline.Mentions (s : SchemaOutline) (name : String) : Prop :=
  s.parent = some name ∨ ∃ f ∈ s.fields, name ∈ (TypeExpr.parse f.type).names

/-- A relation between steps that lifted results have to themselves, and that passes from the parts
of a step to the step. -/
structure Compositional (R : ∀ {α : Type}, Build α → Build α → Prop) : Prop where
  lift : ∀ {α : Type} (x : Except Error α), R (liftM x : Build α) (liftM x)
  bind : ∀ {α β : Type} {m m' : Build α} {k k' : α → Build β}, R m m' → (∀ a, R (k a) (k' a)) →
    R (m >>= k) (m' >>= k')
  atField : ∀ {α : Type} (schema field : String) {m m' : Build α}, R m m' →
    R (Build.atField schema field m) (Build.atField schema field m')

namespace Compositional

variable {R : ∀ {α : Type}, Build α → Build α → Prop} {α β : Type} {m m' : Build α}

/-- A relation of steps holds of a result that is there already. -/
theorem pure (hR : Compositional R) (a : α) : R (Pure.pure a) (Pure.pure a) :=
  hR.lift (.ok a)

theorem fail (hR : Compositional R) (problem : ConfigProblem) :
    R (Build.fail problem : Build α) (Build.fail problem) :=
  hR.lift (.error (.config problem))

/-- A relation of steps is kept by what is made of their results. -/
theorem map (hR : Compositional R) (g : α → β) (hm : R m m') : R (g <$> m) (g <$> m') := by
  rw [map_eq_pure_bind, map_eq_pure_bind]
  exact hR.bind hm fun a => hR.pure (g a)

/-- A relation of steps is kept by running them for all elements of a list. -/
theorem mapM (hR : Compositional R) {step step' : α → Build β} {as : List α}
    (hstep : ∀ a ∈ as, R (step a) (step' a)) : R (as.mapM step) (as.mapM step') := by
  induction as with
  | nil => exact hR.pure []
  | cons a as ih =>
    obtain ⟨ha, has⟩ := List.forall_mem_cons.1 hstep
    rw [List.mapM_cons, List.mapM_cons]
    exact hR.bind ha fun b => hR.bind (ih has) fun bs => hR.pure (b :: bs)

variable {enum? : String → Option EnumSpec} {refer refer' : String → Build SchemaId}

mutual

/-- A relation of references holds of the types that are made with them. -/
theorem typeOf (hR : Compositional R) : ∀ e : TypeExpr,
    (∀ name ∈ e.names, enum? name = none → R (refer name) (refer' name)) →
      R (Document.typeOf enum? refer e) (Document.typeOf enum? refer' e)
  | .builtin type, _ => by
    rw [Document.typeOf, Document.typeOf]
    exact hR.pure type
  | .list item, hrefer | .set item, hrefer | .optional item, hrefer | .map item, hrefer => by
    rw [Document.typeOf, Document.typeOf]
    exact hR.map _ (hR.typeOf item hrefer)
  | .tuple members, hrefer | .union members, hrefer => by
    rw [Document.typeOf, Document.typeOf]
    exact hR.map _ (hR.typesOf members hrefer)
  | .named name, hrefer => by
    rw [Document.typeOf, Document.typeOf]
    cases henum : enum? name with
    | some spec => exact hR.pure _
    | none =>
      by_cases hname : name = ""
      · rw [if_pos hname, if_pos hname]
        exact hR.fail _
      · rw [if_neg hname, if_neg hname]
        exact hR.map _ (hrefer name List.mem_cons_self henum)
  | .faulty problem, _ => by
    rw [Document.typeOf, Document.typeOf]
    exact hR.fail _

theorem typesOf (hR : Compositional R) : ∀ es : List TypeExpr,
    (∀ name ∈ TypeExpr.namesOfAll es, enum? name = none → R (refer name) (refer' name)) →
      R (Document.typesOf enum? refer es) (Document.typesOf enum? refer' es)
  | [], _ => hR.pure []
  | e :: es, hrefer => by
    rw [TypeExpr.namesOfAll, List.forall_mem_append] at hrefer
    rw [Document.typesOf, Document.typesOf]
    exact hR.bind (hR.typeOf e hrefer.1) fun t =>
      hR.bind (hR.typesOf es hrefer.2) fun ts => hR.pure (t :: ts)

end

variable {d : Declarations} {visit visit' : String → Build Schema}

/-- A relation of visits holds of the fields that are built with them. -/
theorem field (hR : Compositional R) (schema : String) {f : FieldOutline}
    (hvisit : ∀ name ∈ (TypeExpr.parse f.type).names, R (visit name) (visit' name)) :
    R (d.field visit schema f) (d.field visit' schema f) := by
  refine hR.bind (hR.atField _ _ (hR.typeOf _ fun name hname _ => ?_)) fun type => hR.pure _
  exact hR.map _ (hvisit name hname)

end Compositional

namespace Declarations

variable {d : Declarations} {visit visit' : String → Build Schema} {s : SchemaOutline}
  {b b' : Built} {schema : Schema}

/-- The schema of an outline without its fields. -/
def begin (visit : String → Build Schema) (s : SchemaOutline) : Build SchemaBuilder :=
  match s.parent with
  | some parent => (SchemaBuilder.inherit { name := s.name }) <$> visit parent
  | none => pure { name := s.name }

/-- The schema with its configuration and its fields. -/
def complete (d : Declarations) (s : SchemaOutline) (b : SchemaBuilder) (fields : List FieldDecl) :
    Except Error Schema :=
  let b := if s.name = d.root then d.config.elim b b.withConfig else b
  (fields.foldl SchemaBuilder.withField b).build

/-- A schema is begun from its parent, then its fields are built, and then it is completed. -/
theorem assemble_eq (d : Declarations) (visit : String → Build Schema) (s : SchemaOutline) :
    d.assemble visit s = begin visit s >>= fun b => s.fields.mapM (d.field visit s.name) >>=
      fun fields => liftM (d.complete s b fields) := by
  unfold assemble begin complete
  cases s.parent with
  | none =>
    by_cases hroot : s.name = d.root
    · simp only [hroot, if_true, pure_bind]
    · simp only [hroot, if_false, pure_bind]
  | some parent =>
    by_cases hroot : s.name = d.root
    · simp only [hroot, if_true, bind_map_left]
    · simp only [hroot, if_false, bind_map_left]

/-- Assemblies are related if the visits of the schemas that the outline mentions are. -/
theorem related_assemble {R : ∀ {α : Type}, Build α → Build α → Prop} (hR : Compositional R)
    (hvisit : ∀ name, s.Mentions name → R (visit name) (visit' name)) :
    R (d.assemble visit s) (d.assemble visit' s) := by
  have hbegin : R (begin visit s) (begin visit' s) := by
    unfold begin
    cases hparent : s.parent with
    | none => exact hR.pure _
    | some parent => exact hR.map _ (hvisit parent (.inl hparent))
  rw [assemble_eq, assemble_eq]
  refine hR.bind hbegin fun b => hR.bind (hR.mapM fun f hf => ?_) fun fields => hR.lift _
  exact hR.field s.name fun name hname => hvisit name (.inr ⟨f, hf, hname⟩)

end Declarations

/-- A step has a result from some state. -/
def Build.Gives {α : Type} (m : Build α) (a : α) : Prop :=
  ∃ built built', m built = .ok (a, built')

namespace Build.Gives

variable {α β : Type} {m : Build α} {a : α} {b : β}

/-- What two steps give is given by the second one for what the first one gives. -/
theorem bind {k : α → Build β} (hgives : Gives (m >>= k) b) : ∃ a, Gives m a ∧ Gives (k a) b := by
  obtain ⟨built, built', hresult⟩ := hgives
  obtain ⟨⟨a, between⟩, hm, hk⟩ := Build.bind_eq_ok_iff.1 hresult
  exact ⟨a, ⟨built, between, hm⟩, between, built', hk⟩

/-- A result that is there already is given as it is. -/
theorem pure {a' : α} (hgives : Gives (Pure.pure a) a') : a' = a := by
  obtain ⟨built, built', hresult⟩ := hgives
  cases hresult
  rfl

theorem lift {x : Except Error α} (hgives : Gives (liftM x : Build α) a) : x = .ok a := by
  obtain ⟨built, built', hresult⟩ := hgives
  exact (Build.lift_eq_ok_iff.1 hresult).1

/-- What is made of the result of a step comes from what the step gives. -/
theorem map {g : α → β} (hgives : Gives (g <$> m) b) : ∃ a, Gives m a ∧ b = g a := by
  rw [map_eq_pure_bind] at hgives
  obtain ⟨a, hm, hpure⟩ := hgives.bind
  exact ⟨a, hm, hpure.pure⟩

/-- Telling where an error has come from does not change what a step gives. -/
theorem atField {schema field : String} (hgives : Gives (Build.atField schema field m) a) :
    Gives m a := by
  obtain ⟨built, built', hresult⟩ := hgives
  exact ⟨built, built', Build.atField_eq_ok_iff.1 hresult⟩

theorem not_fail {problem : ConfigProblem} : ¬ Gives (Build.fail problem : Build α) a := by
  rintro ⟨built, built', hresult⟩
  cases hresult

/-- Running a step for all elements of a list gives something for each. -/
theorem mapM {step : α → Build β} {as : List α} {bs : List β} (hgives : Gives (as.mapM step) bs) :
    ∀ a ∈ as, ∃ b ∈ bs, Gives (step a) b := by
  induction as generalizing bs with
  | nil => exact List.forall_mem_nil _
  | cons a as ih =>
    rw [List.mapM_cons] at hgives
    obtain ⟨b, hb, hgives⟩ := hgives.bind
    obtain ⟨rest, hrest, hpure⟩ := hgives.bind
    obtain rfl := hpure.pure
    refine List.forall_mem_cons.2 ⟨⟨b, List.mem_cons_self, hb⟩, fun a' ha' => ?_⟩
    obtain ⟨b', hb', hgives⟩ := ih hrest a' ha'
    exact ⟨b', List.mem_cons_of_mem b hb', hgives⟩

variable {enum? : String → Option EnumSpec} {refer : String → Build SchemaId} {t : FieldType}

theorem not_faulty {problem : TypeProblem} :
    ¬ Gives (Document.typeOf enum? refer (.faulty problem)) t := by
  rw [Document.typeOf]
  exact not_fail

/-- A name gives the enum of that name, or the schema if there is no enum. -/
theorem named {name : String} (hgives : Gives (Document.typeOf enum? refer (.named name)) t) :
    (∃ spec, enum? name = some spec ∧ t = .enum spec) ∨
      (enum? name = none ∧ ∃ id, Gives (refer name) id ∧ t = .nested id) := by
  rw [Document.typeOf] at hgives
  cases henum : enum? name with
  | some spec =>
    rw [henum] at hgives
    exact .inl ⟨spec, rfl, hgives.pure⟩
  | none =>
    rw [henum] at hgives
    dsimp only at hgives
    split_ifs at hgives
    · exact absurd hgives not_fail
    · exact .inr ⟨rfl, hgives.map⟩

/-- The types of members are given at their places. -/
theorem typesOf_getElem? {es : List TypeExpr} {ts : List FieldType} {i : Nat}
    (hgives : Gives (Document.typesOf enum? refer es) ts) {e : TypeExpr} (he : es[i]? = some e) :
    ∃ t, ts[i]? = some t ∧ Gives (Document.typeOf enum? refer e) t := by
  induction es generalizing ts i with
  | nil => cases he
  | cons e' es ih =>
    rw [Document.typesOf] at hgives
    obtain ⟨t, ht, hgives⟩ := hgives.bind
    obtain ⟨ts, hts, hpure⟩ := hgives.bind
    obtain rfl := hpure.pure
    cases i with
    | zero =>
      obtain rfl := Option.some.inj he
      exact ⟨t, rfl, ht⟩
    | succ i =>
      obtain ⟨u, hu, hgives⟩ := ih hts he
      exact ⟨u, hu, hgives⟩

mutual

/-- A type is read only if each name in it can be referred to. -/
theorem typeOf : ∀ (e : TypeExpr) (t : FieldType), Gives (Document.typeOf enum? refer e) t →
    ∀ name ∈ e.names, enum? name = none → ∃ id, Gives (refer name) id
  | .builtin _, _, _ | .faulty _, _, _ => fun _ hname => nomatch hname
  | .list item, _, hgives | .set item, _, hgives | .optional item, _, hgives
  | .map item, _, hgives => by
    rw [Document.typeOf] at hgives
    obtain ⟨t, ht, -⟩ := hgives.map
    exact typeOf item t ht
  | .tuple members, _, hgives | .union members, _, hgives => by
    rw [Document.typeOf] at hgives
    obtain ⟨ts, hts, -⟩ := hgives.map
    exact typesOf members ts hts
  | .named other, t, hgives => by
    intro name hname henum
    obtain rfl := List.mem_singleton.1 hname
    obtain ⟨spec, hspec, -⟩ | ⟨-, id, hid, -⟩ := hgives.named
    · cases henum.symm.trans hspec
    · exact ⟨id, hid⟩

theorem typesOf : ∀ (es : List TypeExpr) (ts : List FieldType),
    Gives (Document.typesOf enum? refer es) ts →
      ∀ name ∈ TypeExpr.namesOfAll es, enum? name = none → ∃ id, Gives (refer name) id
  | [], _, _ => fun _ hname => nomatch hname
  | e :: es, _, hgives => by
    rw [Document.typesOf] at hgives
    obtain ⟨t, ht, hgives⟩ := hgives.bind
    obtain ⟨ts, hts, -⟩ := hgives.bind
    rw [TypeExpr.namesOfAll, List.forall_mem_append]
    exact ⟨typeOf e t ht, typesOf es ts hts⟩

end

variable {d : Declarations} {visit : String → Build Schema} {s : SchemaOutline} {schema : Schema}

/-- A schema is assembled only if each schema that the outline mentions can be visited. -/
theorem assemble (hgives : Gives (d.assemble visit s) schema) {name : String}
    (hname : s.Mentions name) (henum : d.enum? name = none) : ∃ t, Gives (visit name) t := by
  rw [Declarations.assemble_eq] at hgives
  obtain ⟨b, hbegin, hgives⟩ := hgives.bind
  obtain hparent | ⟨f, hf, hname⟩ := hname
  · rw [Declarations.begin, hparent] at hbegin
    obtain ⟨t, ht, -⟩ := hbegin.map
    exact ⟨t, ht⟩
  · obtain ⟨fields, hfields, -⟩ := hgives.bind
    obtain ⟨decl, -, hfield⟩ := hfields.mapM f hf
    obtain ⟨type, htype, -⟩ := hfield.bind
    obtain ⟨id, hid⟩ := typeOf _ _ htype.atField name hname henum
    obtain ⟨t, ht, -⟩ := hid.map
    exact ⟨t, ht⟩

end Build.Gives

end EnvSettings.Document
