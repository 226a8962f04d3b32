import EnvSettings.Proofs.Conversion

namespace EnvSettings

namespace Coerce

variable {c : Catalog} {levels : Nat} {info : FieldInfo} {raw path : String} {v : Value}

/-- What a text is coerced to meets the constraints. -/
theorem check_of_value {t : FieldType} (hv : value c levels info t raw path = .ok v) :
    info.check v = .ok () :=
  value_induct (fun _ _ hcheck => hcheck) (fun _ _ _ hcheck => hcheck) hv

end Coerce

/-- Only null is read as null. -/
theorem eq_null_of_isNull_ofJson {j : Json} (hnull : (Value.ofJson j).isNull) : j = .null := by
  cases j with
  | null => rfl
  | number n => cases n <;> cases hnull
  | _ => cases hnull

namespace Resolver

variable {r : Resolver} {levels : Nat} {build : Builder} {schema : Schema} {f : Field}
  {text path : String} {depth : Nat} {members : List FieldType} {v : Value}

/-- What a field makes of a text if one type stands for its own. Null takes no text. -/
def alone? (r : Resolver) (levels : Nat) (build : Builder) (schema : Schema) (f : Field)
    (text path : String) (depth : Nat) (t : FieldType) : Option Value :=
  if t.isNull then none
  else (r.coerceField levels build schema { f with type := t } (.str text) path depth).toOption

/-- Without transforms a text is coerced to the type of its field and checked. -/
theorem coerceField_text_iff (hfree : schema.TransformFree) :
    r.coerceField levels build schema f (.str text) path depth = .ok v ↔
      r.coerceText levels build f text path depth = .ok v ∧ f.info.check v = .ok () := by
  rw [coerceField_eq_ok_iff hfree, coerceRaw_text hfree]

/-- Without a nested member a field takes what its text is coerced to. -/
theorem coerceField_scalar_iff (hfree : schema.TransformFree)
    (hnested : f.type.nestedSchema? = none) :
    r.coerceField levels build schema f (.str text) path depth = .ok v ↔
      Coerce.value r.catalog levels f.info f.type text path = .ok v := by
  simp only [coerceField_text_iff hfree, coerceText, hnested]
  exact ⟨And.left, fun hv => ⟨hv, Coerce.check_of_value hv⟩⟩

/-- A text for a nested type is a JSON object with the entries of a record, or null. -/
theorem coerceText_nested_iff {id : SchemaId} (hnested : f.type.nestedSchema? = some id) :
    r.coerceText levels build f text path depth = .ok v ↔
      (∃ entries, GivesEntries (.str text) entries ∧
        r.nestedRecord build id entries path depth = .ok v) ∨
      Json.parse text = .ok .null ∧ f.type.nullable ∧ v = .null := by
  constructor
  · intro hv
    simp only [coerceText, hnested] at hv
    split at hv
    · cases hv
    · rename_i j hparse
      split at hv
      · rename_i entries hobject
        exact .inl ⟨entries, .text hparse hobject, hv⟩
      · split at hv
        · rename_i hnull
          obtain ⟨hnull, hnullable⟩ := Bool.and_eq_true_iff.1 hnull
          refine .inr ⟨hparse.trans (congrArg _ ?_), hnullable, (Except.ok.inj hv).symm⟩
          exact eq_null_of_isNull_ofJson hnull
        · cases hv
  · rintro (⟨entries, hgives, hv⟩ | ⟨hparse, hnullable, rfl⟩)
    · cases hgives with
      | text hparse hobject => simpa only [coerceText, hnested, hparse, hobject] using hv
    · simp [coerceText, hnested, hparse, Value.ofJson, Value.isNull, hnullable]

/-- With a nested member a field takes what the first one takes, and null if a member allows it. -/
theorem coerceField_nested_iff (hfree : schema.TransformFree) {id : SchemaId}
    (hnested : f.type.nestedSchema? = some id) :
    r.coerceField levels build schema f (.str text) path depth = .ok v ↔
      r.coerceField levels build schema { f with type := .nested id } (.str text) path depth =
          .ok v ∨
        Json.parse text = .ok .null ∧ f.type.nullable ∧ v = .null := by
  have hself : ({ f with type := .nested id } : Field).type.nestedSchema? = some id := rfl
  have hnull : f.info.check .null = .ok () := rfl
  rw [coerceField_text_iff hfree, coerceField_text_iff hfree, coerceText_nested_iff hnested,
    coerceText_nested_iff hself]
  constructor
  · rintro ⟨hbuilt | hnull, hcheck⟩
    · exact .inl ⟨.inl hbuilt, hcheck⟩
    · exact .inr hnull
  · rintro (⟨hbuilt | ⟨-, hnullable, -⟩, hcheck⟩ | ⟨hparse, hnullable, rfl⟩)
    · exact ⟨.inl hbuilt, hcheck⟩
    · cases hnullable
    · exact ⟨.inr ⟨hparse, hnullable, rfl⟩, hnull⟩

/-- A member without a nested schema takes what it accepts as a type. -/
theorem alone?_eq_accepted? (hfree : schema.TransformFree) {t : FieldType}
    (hnested : t.nestedSchema? = none) :
    r.alone? levels build schema f text path depth t =
      Coerce.accepted? r.catalog levels f.info text path t := by
  rw [alone?, Coerce.accepted?]
  split
  · rfl
  · refine Option.ext fun v => ?_
    rw [toOption_eq_some_iff, toOption_eq_some_iff]
    exact coerceField_scalar_iff hfree hnested

/-- How a text becomes the value of a union: without nested members it is that of the first member
that takes the text alone; without one that is nested itself, that of the first member it is coerced
to; otherwise it is what the first nested member takes, or null. -/
theorem coerceField_union_iff (hfree : schema.TransformFree) (htype : f.type = .union members) :
    ((∀ t ∈ members, t.nestedSchema? = none) → ∀ v,
      r.coerceField levels build schema f (.str text) path depth = .ok v ↔
        members.findSome? (r.alone? levels build schema f text path depth) = some v) ∧
    (f.type.nestedSchema? = none → ∀ v,
      r.coerceField levels build schema f (.str text) path depth = .ok v ↔
        members.findSome? (Coerce.accepted? r.catalog levels f.info text path) = some v) ∧
    (∀ id, f.type.nestedSchema? = some id → ∀ v,
      r.coerceField levels build schema f (.str text) path depth = .ok v ↔
        r.coerceField levels build schema { f with type := .nested id } (.str text) path depth =
            .ok v ∨
          Json.parse text = .ok .null ∧ FieldType.anyNullable members ∧ v = .null) := by
  have hscalar : f.type.nestedSchema? = none → ∀ v,
      r.coerceField levels build schema f (.str text) path depth = .ok v ↔
        members.findSome? (Coerce.accepted? r.catalog levels f.info text path) = some v := by
    intro hnested v
    rw [coerceField_scalar_iff hfree hnested, htype, Coerce.value_union_eq_ok_iff]
  refine ⟨fun hmembers v => ?_, hscalar, fun id hnested v => ?_⟩
  · have hnested : f.type.nestedSchema? = none := by
      rw [htype, FieldType.nestedSchema?, List.findSome?_eq_none_iff]
      intro t ht
      have hnone := hmembers t ht
      cases t with
      | nested id => cases hnone
      | _ => rfl
    rw [hscalar hnested, ← List.head?_filterMap, ← List.head?_filterMap,
      List.filterMap_congr fun t ht => alone?_eq_accepted? hfree (hmembers t ht)]
  · rw [coerceField_nested_iff hfree hnested, htype]
    rfl

/-- A port is a number or a word. -/
def portField : Field where
  name := "port"
  type := .union [.int, .str]

/-- A database is a number or a record. -/
def databaseField : Field where
  name := "database"
  type := .union [.int, .nested 0]

/-- An application with a port and a database, each of one of two types. -/
def services : Catalog :=
  ⟨#[{ name := "Database", fields := [{ name := "host", type := .str }] },
    { name := "App", fields := [portField, databaseField] }]⟩

/-- What the application makes of a text for a field. -/
def serviceValue (f : Field) (text : String) : Except Error Value :=
  let r : Resolver := ⟨services, none⟩
  r.coerceField nestingLimit (r.buildRecord nestingLimit) (services.schema 1) f (.str text) f.name 0

theorem services_transformFree : (services.schema 1).TransformFree :=
  ⟨fun stage name => by cases stage <;> rfl, rfl⟩

/-- A port is a name where it is no number, and a database is a record. -/
theorem coerceField_union_services :
    serviceValue portField "http" = .ok (.str "http") ∧
      serviceValue databaseField "\x7b\"host\":\"local\"\x7d" =
        .ok (.record "Database" [("host", .str "local")]) := by
  constructor
  · refine ((coerceField_union_iff services_transformFree rfl).1 ?_ _).2 ?_
    · decide
    · cbv
  · refine ((coerceField_union_iff services_transformFree rfl).2.2 0 rfl _).2 (.inl ?_)
    cbv

/-- A number is no database, though the first member of the union takes it alone. -/
theorem coerceField_union_passes_over :
    let r : Resolver := ⟨services, none⟩
    databaseField.type = .union [.int, .nested 0] ∧
      (serviceValue databaseField "5").toOption = none ∧
      [.int, .nested 0].findSome? (r.alone? nestingLimit (r.buildRecord nestingLimit)
        (services.schema 1) databaseField "5" databaseField.name 0) = some (.int 5) := by
  refine ⟨rfl, ?_, ?_⟩
  · cbv
  · cbv

end Resolver

end EnvSettings
