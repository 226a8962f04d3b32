import Mathlib
import EnvSettings.Proofs.Document.Progress
import EnvSettings.Proofs.TypeExpr.Printed

namespace EnvSettings.Document

namespace Build

variable {α β : Type} {P : Built → Prop} {m : Build α} {a : α}

/-- From every state with a property, a step gives a result and keeps the property. -/
def Yields (P : Built → Prop) (m : Build α) (a : α) : Prop :=
  ∀ built, P built → ∃ built', m built = .ok (a, built') ∧ P built'

theorem yields_pure (a : α) : Yields P (pure a) a :=
  fun built hbuilt => ⟨built, rfl, hbuilt⟩

theorem Yields.bind {k : α → Build β} {b : β} (hm : Yields P m a) (hk : Yields P (k a) b) :
    Yields P (m >>= k) b := by
  intro built hbuilt
  obtain ⟨next, hnext, hP⟩ := hm built hbuilt
  obtain ⟨built', hbuilt', hP'⟩ := hk next hP
  exact ⟨built', Build.bind_eq_ok_iff.2 ⟨(a, next), hnext, hbuilt'⟩, hP'⟩

/-- What is made of a result is yielded if the result is. -/
theorem Yields.map (g : α → β) (hm : Yields P m a) : Yields P (g <$> m) (g a) := by
  rw [map_eq_pure_bind]
  exact hm.bind (yields_pure (g a))

/-- Types are yielded from expressions that yield each of them. -/
theorem yields_typesOf {enum? : String → Option EnumSpec} {refer : String → Build SchemaId}
    {read : FieldType → TypeExpr} {types : List FieldType}
    (htypes : ∀ t ∈ types, Yields P (typeOf enum? refer (read t)) t) :
    Yields P (typesOf enum? refer (types.map read)) types := by
  induction types with
  | nil => exact yields_pure []
  | cons t types ih =>
    obtain ⟨ht, htypes⟩ := List.forall_mem_cons.1 htypes
    rw [List.map_cons, typesOf]
    exact ht.bind ((ih htypes).bind (yields_pure (t :: types)))

end Build

namespace Declarations

open Build (Yields yields_pure yields_typesOf)
open Relation (ReflTransGen)
open TypeExpr (Referable)

variable {d : Declarations} {room : Nat} {pending : List String} {built : Built}
  {type : FieldType} {id : SchemaId}

/-- The position of a schema, which is built first. -/
def refer (d : Declarations) (visit : String → Build Schema) (name : String) : Build SchemaId :=
  (fun _ => d.idOf name) <$> visit name

/-- Reads the type of a field. -/
def readType (d : Declarations) (visit : String → Build Schema) (text : String) : Build FieldType :=
  typeOf d.enum? (d.refer visit) (TypeExpr.parse text)

/-- A field has the type that its expression is read as. -/
theorem field_eq (d : Declarations) (visit : String → Build Schema) (schema : String)
    (f : FieldOutline) :
    d.field visit schema f = do
      let type ← Build.atField schema f.name (d.readType visit f.type)
      return { name := f.name, type := type, info := some f.info } :=
  rfl

/-- A declared enum with a name that expressions can refer to. -/
def NamesEnum (d : Declarations) (spec : EnumSpec) : Prop :=
  spec ∈ d.enums ∧ Referable spec.name

/-- A declared schema with a name that expressions can refer to. -/
def NamesSchema (d : Declarations) (id : SchemaId) : Prop :=
  id < d.names.length ∧ Referable (d.nameOf id)

/-- A schema can be built while others are pending. -/
def Buildable (d : Declarations) (room : Nat) (pending : List String) (built : Built)
    (name : String) : Prop :=
  ∃ result, d.visit room pending name built = .ok result

/-- A schema can be built at one point exactly if it has a meaning and needs no pending schema, so
it does not matter what is built already. -/
theorem Underway.buildable_iff (hd : d.Proper) (h : d.Underway room pending built) {name : String} :
    d.Buildable room pending built name ↔
      (∃ s, d.Means name s) ∧ ∀ a ∈ pending, ¬ ReflTransGen d.Needs name a := by
  constructor
  · rintro ⟨result, hvisit⟩
    obtain ⟨hsound, -, hlookup⟩ := sound_of_visit h.sound hvisit
    exact ⟨⟨result.1, hsound _ _ hlookup⟩, (h.visit hd.enum?_eq_none hvisit).apart hlookup⟩
  · rintro ⟨⟨s, hmeans⟩, hapart⟩
    obtain ⟨built', hvisit⟩ := visit_of_means hd.enum?_eq_none hmeans h.room hapart h.sound
    exact ⟨(s, built'), hvisit⟩

/-- A schema that can be built can be referred to, also after others were built. -/
theorem Underway.yields_refer (hd : d.Proper) (h : d.Underway room pending built)
    (hid : id < d.names.length) (hbuildable : d.Buildable room pending built (d.nameOf id)) :
    Yields (d.Underway room pending) (d.refer (d.visit room pending) (d.nameOf id)) id := by
  intro built' h'
  obtain ⟨⟨s, built''⟩, hvisit⟩ := (h'.buildable_iff hd).2 ((h.buildable_iff hd).1 hbuildable)
  refine ⟨built'', ?_, h'.visit hd.enum?_eq_none hvisit⟩
  rw [refer, map_eq_pure_bind, hd.idOf_nameOf hid]
  exact Build.bind_eq_ok_iff.2 ⟨(s, built''), hvisit, rfl⟩

/-- The text of a type is read into the type. All its enums and schemas are declared under names
that mean nothing else, and its schemas can be built. -/
theorem readType_print {o : Outline} (hdeclare : o.declare = .ok d)
    (h : d.Underway room pending built)
    (htype : type.Expressible d.NamesEnum fun id =>
      d.NamesSchema id ∧ d.Buildable room pending built (d.nameOf id)) :
    ∃ built', d.readType (d.visit room pending) (type.print d.nameOf) built = .ok (type, built') ∧
      d.Underway room pending built' := by
  have hd := (proper_of_declare hdeclare).1
  have hprint : ∀ {t : FieldType}, t.Expressible d.NamesEnum (fun id =>
      d.NamesSchema id ∧ d.Buildable room pending built (d.nameOf id)) →
      TypeExpr.Printable d.nameOf t :=
    FieldType.Expressible.mono (fun _ hspec => hspec.2) fun _ hid => hid.1.2
  suffices hyields : Yields (d.Underway room pending)
      (typeOf d.enum? (d.refer (d.visit room pending)) (TypeExpr.parseChars (type.chars d.nameOf)))
      type from hyields built h
  induction htype with
  | simple hsimple =>
    rw [TypeExpr.parseChars_simple hsimple, typeOf]
    exact yields_pure _
  | @enum spec hspec =>
    have hparse : TypeExpr.parseChars ((FieldType.enum spec).chars d.nameOf) = .named spec.name :=
      hspec.2.parseChars (TypeExpr.tight_chars (.enum hspec.2)).trim_eq
    rw [hparse, typeOf, hd.enum?_eq_some hspec.1]
    exact yields_pure _
  | @nested id hid =>
    obtain ⟨⟨hlength, hname⟩, hbuildable⟩ := hid
    have hparse : TypeExpr.parseChars ((FieldType.nested id).chars d.nameOf) =
        .named (d.nameOf id) :=
      hname.parseChars (TypeExpr.tight_chars (.nested hname)).trim_eq
    rw [hparse, typeOf, hd.enum?_eq_none _ (d.nameOf_mem hlength)]
    simp only [hname.ne_empty, if_false]
    exact (h.yields_refer hd hlength hbuildable).map _
  | list hitem ih =>
    rw [TypeExpr.parseChars_list (hprint hitem), typeOf]
    exact ih.map _
  | set hitem ih =>
    rw [TypeExpr.parseChars_set (hprint hitem), typeOf]
    exact ih.map _
  | map hvalue ih =>
    rw [TypeExpr.parseChars_map (hprint hvalue), typeOf]
    exact ih.map _
  | tuple hne hmembers ih =>
    rw [TypeExpr.parseChars_tuple hne fun t ht => hprint (hmembers t ht), typeOf]
    exact (yields_typesOf ih).map _
  | union htwo hflat hmembers ih =>
    rw [TypeExpr.parseChars_union htwo hflat fun t ht => hprint (hmembers t ht), typeOf]
    exact (yields_typesOf ih).map _

/-- While the service is built, a field can have maps to unions of tuples, sets and nothing. -/
theorem readType_print_service :
    let region : EnumSpec := ⟨"Region", [("North", "n"), ("South", "s")]⟩
    let type : FieldType :=
      .map (.union [.tuple [.enum region, .list (.nested 2)], .set .str, .null])
    type.print service.nameOf = "dict[str, tuple[Region, list[Store]] | set[str] | None]" ∧
      service.Underway 3 ["Service"] [] ∧
      ∃ built', service.readType (service.visit 3 ["Service"]) (type.print service.nameOf) [] =
          .ok (type, built') ∧ service.Underway 3 ["Service"] built' := by
  intro region type
  have hunderway : service.Underway 3 ["Service"] [] :=
    (Underway.start (Nat.lt_succ_self 3)).push List.not_mem_nil (by decide) rfl
  have hregion : service.NamesEnum region :=
    ⟨List.mem_singleton.2 rfl, by decide, by decide +kernel⟩
  have hstore : service.NamesSchema 2 := ⟨by decide, by decide, by decide +kernel⟩
  have hbuildable : service.Buildable 3 ["Service"] [] (service.nameOf 2) := by
    have hok : (service.visit 3 ["Service"] "Store" []).isOk = true := by decide +kernel
    cases hvisit : service.visit 3 ["Service"] "Store" [] with
    | error e =>
      rw [hvisit] at hok
      cases hok
    | ok result => exact ⟨result, hvisit⟩
  have htype : type.Expressible service.NamesEnum fun id =>
      service.NamesSchema id ∧ service.Buildable 3 ["Service"] [] (service.nameOf id) := by
    have hlist : (FieldType.list (.nested 2)).Expressible service.NamesEnum fun id =>
        service.NamesSchema id ∧ service.Buildable 3 ["Service"] [] (service.nameOf id) :=
      .list (.nested ⟨hstore, hbuildable⟩)
    refine .map (.union (by decide) (by decide) ?_)
    simp only [List.forall_mem_cons]
    refine ⟨.tuple (List.cons_ne_nil _ _) ?_, .set (.simple rfl), .simple rfl, nofun⟩
    exact List.forall_mem_cons.2 ⟨.enum hregion, List.forall_mem_singleton.2 hlist⟩
  refine ⟨?_, hunderway, readType_print service_declare hunderway htype⟩
  simp only [type, region, FieldType.print, FieldType.printAll, nameOf, names, service]
  decide

end Declarations

end EnvSettings.Document
