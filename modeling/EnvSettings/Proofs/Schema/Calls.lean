import EnvSettings.Proofs.Except
import EnvSettings.Schema.Builder

namespace EnvSettings

namespace SchemaBuilder

/-- A call of a builder. -/
inductive Call where
  | inherit (parent : Schema)
  | config (config : Config)
  | field (d : FieldDecl)
  | transform (t : FieldTransform)
  | recordTransform (t : RecordTransform)

namespace Call

/-- The builder after a call. -/
def apply (b : SchemaBuilder) : Call → SchemaBuilder
  | inherit parent => b.inherit parent
  | config c => b.withConfig c
  | field d => b.withField d
  | transform t => b.withTransform t
  | recordTransform t => b.withRecordTransform t

/-- The parent that a call names. -/
def parent? : Call → Option Schema
  | inherit parent => some parent
  | _ => none

/-- The field that a call declares. -/
def field? : Call → Option FieldDecl
  | field d => some d
  | _ => none

/-- The transform of a field that a call declares. -/
def transform? : Call → Option FieldTransform
  | transform t => some t
  | _ => none

/-- The record transform that a call declares. -/
def recordTransform? : Call → Option RecordTransform
  | recordTransform t => some t
  | _ => none

end Call

/-- The builder of a schema after some calls. -/
def ofCalls (name : String) (calls : List Call) : SchemaBuilder :=
  calls.foldl Call.apply { name }

/-- The parent that counts: the last one that is taken over. -/
def parent? (calls : List Call) : Option Schema :=
  (calls.filterMap Call.parent?).getLast?

variable {name : String} {calls : List Call} {parent s : Schema}

theorem parent?_cons_inherit (parent : Schema) (calls : List Call) :
    parent? (.inherit parent :: calls) = some ((parent? calls).getD parent) := by
  simp [parent?, Call.parent?, List.getLast?_cons]

/-- The parent is one that a call names. -/
theorem inherit_mem_of_parent? (hparent : parent? calls = some parent) :
    .inherit parent ∈ calls := by
  obtain ⟨call, hcall, hparent⟩ := List.mem_filterMap.1 (List.mem_of_getLast? hparent)
  cases call with
  | inherit p => exact Option.some.inj hparent ▸ hcall
  | config | field | transform | recordTransform => cases hparent

/-- What calls leave in a builder. -/
theorem foldl_apply (b : SchemaBuilder) (calls : List Call) :
    (calls.foldl Call.apply b).inherited = (parent? calls).getD b.inherited ∧
      (calls.foldl Call.apply b).declared = b.declared ++ calls.filterMap Call.field? ∧
      (calls.foldl Call.apply b).transforms = b.transforms ++ calls.filterMap Call.transform? ∧
      (calls.foldl Call.apply b).recordTransforms =
        b.recordTransforms ++ calls.filterMap Call.recordTransform? := by
  induction calls generalizing b with
  | nil => simp [parent?]
  | cons call calls ih =>
    obtain ⟨hinherited, hdeclared, htransforms, hrecord⟩ := ih (call.apply b)
    rw [List.foldl_cons, hinherited, hdeclared, htransforms, hrecord]
    cases call with
    | inherit p =>
      rw [parent?_cons_inherit]
      exact ⟨rfl, rfl, rfl, rfl⟩
    | config c => exact ⟨rfl, rfl, rfl, rfl⟩
    | field d => exact ⟨rfl, List.append_assoc .., rfl, rfl⟩
    | transform t => exact ⟨rfl, rfl, List.append_assoc .., rfl⟩
    | recordTransform t => exact ⟨rfl, rfl, rfl, List.append_assoc ..⟩

/-- A builder inherits from the last parent that is named. -/
theorem inherited_ofCalls :
    (ofCalls name calls).inherited = (parent? calls).getD { name := "" } :=
  (foldl_apply _ calls).1

theorem declared_ofCalls : (ofCalls name calls).declared = calls.filterMap Call.field? :=
  (foldl_apply _ calls).2.1

/-- A builder declares the transforms of its calls. -/
theorem transforms_ofCalls : (ofCalls name calls).transforms = calls.filterMap Call.transform? :=
  (foldl_apply _ calls).2.2.1

/-- A builder declares the record transforms of its calls. -/
theorem recordTransforms_ofCalls :
    (ofCalls name calls).recordTransforms = calls.filterMap Call.recordTransform? :=
  (foldl_apply _ calls).2.2.2

/-- What a builder gives: its fields are found, each transform is bound to one of them, and the
transforms are composed. -/
theorem build_eq_ok_iff {b : SchemaBuilder} :
    b.build = .ok s ↔ ∃ fields, addFields b.name [] b.inherited.fields b.declared = .ok fields ∧
      (∀ t ∈ b.transforms, checkBinding fields t = .ok ()) ∧
      (∀ t ∈ b.recordTransforms, checkNamed b.name t = .ok ()) ∧
      s = {
        name := b.name
        fields := fields
        config := b.config
        transforms := TransformRegistry.compose b.inherited.transforms b.transforms
        recordTransforms :=
          composeRecordTransforms b.inherited.recordTransforms b.recordTransforms } := by
  simp only [build, bind_eq_ok_iff, Except.ok.injEq, eq_comm (a := s)]
  constructor
  · rintro ⟨fields, hfields, ⟨⟩, hbound, ⟨⟩, hnamed, rfl⟩
    exact ⟨fields, hfields, forM_eq_ok_iff.1 hbound, forM_eq_ok_iff.1 hnamed, rfl⟩
  · rintro ⟨fields, hfields, hbound, hnamed, rfl⟩
    exact ⟨fields, hfields, (), forM_eq_ok_iff.2 hbound, (), forM_eq_ok_iff.2 hnamed, rfl⟩

end SchemaBuilder

open SchemaBuilder (Call ofCalls)

/-- The schemas that calls of a builder give, where the parents were built in the same way. -/
inductive Schema.Built : Schema → Prop
  | intro {name : String} {calls : List Call} {s : Schema}
      (hparents : ∀ parent, Call.inherit parent ∈ calls → Built parent)
      (hbuild : (ofCalls name calls).build = .ok s) : Built s

end EnvSettings
