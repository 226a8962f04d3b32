import EnvSettings.Proofs.Conformance

namespace EnvSettings

open Value

section

variable {ε ε' α β : Type} {x : Except ε α}

/-- Two steps give what the second one gives for the result of the first one. -/
theorem toOption_bind (x : Except ε α) (k : α → Except ε β) :
    (x >>= k).toOption = x.toOption.bind fun a => (k a).toOption := by
  cases x <;> rfl

/-- What is made of a result is given if the result is. -/
theorem toOption_map (x : Except ε α) (f : α → β) : (x.map f).toOption = x.toOption.map f := by
  cases x <;> rfl

/-- The wording of errors does not change what is given. -/
theorem toOption_mapError (x : Except ε α) (message : ε → ε') :
    (x.mapError message).toOption = x.toOption := by
  cases x <;> rfl

end

namespace Convert

variable {c : Catalog} {build : RecordBuilder}

/-- What becomes of entries does not depend on their place, which only errors tell. -/
def PlaceFree (build : RecordBuilder) : Prop :=
  ∀ id es place other, (build id es place).toOption = (build id es other).toOption

section

variable {convert : Value → String → Except Misfit Value}

/-- Where an item stands does not change what it is converted to. -/
theorem toOption_eachItem
    (hconvert : ∀ v place other, (convert v place).toOption = (convert v other).toOption)
    (vs : List Value) (place other : String) (index index' : Nat) :
    (eachItem convert place index vs).toOption = (eachItem convert other index' vs).toOption := by
  induction vs generalizing index index' with
  | nil => rfl
  | cons v vs ih =>
    simp only [eachItem, toOption_bind]
    rw [hconvert v (itemPlace place index) (itemPlace other index'), ih (index + 1) (index' + 1)]

/-- Where an entry stands does not change what it is converted to. -/
theorem toOption_eachEntry
    (hconvert : ∀ v place other, (convert v place).toOption = (convert v other).toOption)
    (es : Entries) (place other : String) :
    (eachEntry convert place es).toOption = (eachEntry convert other es).toOption := by
  induction es with
  | nil => rfl
  | cons e es ih =>
    simp only [eachEntry, toOption_bind]
    rw [hconvert e.2 (entryPlace place e.1) (entryPlace other e.1), ih]

end

/-- Where a text stands does not change how it is read. -/
theorem toOption_readText {ε : Type} (message : ε → String) (read : List Char → Except ε Value)
    (t : FieldType) (v : Value) (place other : String) :
    (readText message read c t v place).toOption =
      (readText message read c t v other).toOption := by
  cases v with
  | str raw => simp only [readText, toOption_mapError]
  | _ => rfl

/-- The first member that takes the value counts; null is none. -/
theorem toOption_toFirst_cons (t : FieldType) (ts : List FieldType) (v : Value) (place : String) :
    (toFirst c build (t :: ts) v place).bind Except.toOption =
      if t.isNull then (toFirst c build ts v place).bind Except.toOption
      else (toType c build t v place).toOption.or
        ((toFirst c build ts v place).bind Except.toOption) := by
  rw [toFirst]
  split
  · rfl
  · cases toType c build t v place with
    | ok w => rfl
    | error e => cases toFirst c build ts v place <;> rfl

/-- A union gives null for null if a member takes it, and otherwise what its first accepting member
gives. -/
theorem toOption_toType_union (members : List FieldType) (v : Value) (place : String) :
    (toType c build (.union members) v place).toOption =
      if v.isNull then if FieldType.anyNullable members then some .null else none
      else (toFirst c build members v place).bind Except.toOption := by
  cases v with
  | null =>
    rw [toType]
    split <;> simp [*, Value.isNull, Except.toOption, mismatch]
  | _ =>
    rw [toType]
    · cases toFirst c build members _ place <;> rfl
    · simp

mutual

/-- The place of a value only goes into the wording of errors. -/
theorem toOption_toType (hbuild : PlaceFree build) :
    ∀ (t : FieldType) (v : Value) (place other : String),
      (toType c build t v place).toOption = (toType c build t v other).toOption
  | .any, _, _, _ => rfl
  | .null, v, _, _ | .str, v, _, _ | .bool, v, _, _ | .int, v, _, _ => by
    unfold toType
    split <;> rfl
  | .float, v, _, _ => by
    unfold toType
    split
    · split <;> rfl
    · rfl
    · rfl
  | .date, v, place, other | .time, v, place, other => by
    unfold toType
    split
    · rfl
    · exact toOption_readText _ _ _ _ _ _
  | .datetime, v, place, other => by
    unfold toType
    split
    · rfl
    · rfl
    · exact toOption_readText _ _ _ _ _ _
  | .duration, v, place, other => by
    unfold toType
    split
    · rfl
    · rfl
    · rfl
    · exact toOption_readText _ _ _ _ _ _
  | .enum spec, v, place, other => by
    unfold toType
    split
    · split <;> rfl
    · exact toOption_readText _ _ _ _ _ _
  | .list item, v, place, other => by
    cases v with
    | list vs | set vs =>
      simp only [toType, toOption_map]
      rw [toOption_eachItem (toOption_toType hbuild item) vs place other 0 0]
    | _ => rfl
  | .set item, v, place, other => by
    cases v with
    | list vs | set vs =>
      simp only [toType, toOption_map]
      rw [toOption_eachItem (toOption_toType hbuild item) vs place other 0 0]
    | _ => rfl
  | .map value, v, place, other => by
    cases v with
    | map es =>
      simp only [toType, toOption_map]
      rw [toOption_eachEntry (toOption_toType hbuild value) es place other]
    | _ => rfl
  | .tuple members, v, place, other => by
    cases v with
    | list vs =>
      simp only [toType]
      split
      · rw [toOption_map, toOption_map, toOption_toEach hbuild members vs place other 0 0]
      · rfl
    | _ => rfl
  | .nested id, v, place, other => by
    cases v with
    | record schema fields =>
      simp only [toType]
      split <;> rfl
    | map es =>
      simp only [toType, toOption_map]
      rw [hbuild id es place other]
    | _ => rfl
  | .union members, v, place, other => by
    rw [toOption_toType_union, toOption_toType_union, toOption_toFirst hbuild members v place other]

theorem toOption_toEach (hbuild : PlaceFree build) :
    ∀ (ts : List FieldType) (vs : List Value) (place other : String) (index index' : Nat),
      (toEach c build ts vs place index).toOption = (toEach c build ts vs other index').toOption
  | [], _, _, _, _, _ | _ :: _, [], _, _, _, _ => by simp [toEach]
  | t :: ts, v :: vs, place, other, index, index' => by
    simp only [toEach, toOption_bind]
    rw [toOption_toType hbuild t v (itemPlace place index) (itemPlace other index'),
      toOption_toEach hbuild ts vs place other (index + 1) (index' + 1)]

theorem toOption_toFirst (hbuild : PlaceFree build) :
    ∀ (ts : List FieldType) (v : Value) (place other : String),
      (toFirst c build ts v place).bind Except.toOption =
        (toFirst c build ts v other).bind Except.toOption
  | [], _, _, _ => rfl
  | t :: ts, v, place, other => by
    rw [toOption_toFirst_cons, toOption_toFirst_cons, toOption_toType hbuild t v place other,
      toOption_toFirst hbuild ts v place other]

end

/-- The place of a record does not change what its fields are converted to. -/
theorem toOption_fields (hbuild : PlaceFree build) (es : Entries) (fs : List Field)
    (place other : String) :
    (fields c build es place fs).toOption = (fields c build es other fs).toOption := by
  induction fs with
  | nil => rfl
  | cons f fs ih =>
    simp only [fields]
    cases (es.lookup f.name).or f.info.default with
    | none => rfl
    | some v =>
      simp only [field, toOption_bind, toOption_mapError]
      rw [toOption_toType hbuild f.type v s!"{place}.{f.name}" s!"{other}.{f.name}", ih]

theorem placeFree_record (c : Catalog) (levels : Nat) : PlaceFree (record c levels) := by
  induction levels with
  | zero => exact fun _ _ _ _ => rfl
  | succ levels ih =>
    intro id es place other
    simp only [record, toOption_bind]
    rw [toOption_fields ih es (c.schema id).fields place other]

/-- What is converted at some place is converted on its own. -/
theorem value_of_toType {levels : Nat} {t : FieldType} {v w : Value} {place : String}
    (hw : toType c (record c levels) t v place = .ok w) : value c levels t v = .ok w := by
  rw [← toOption_eq_some_iff] at hw ⊢
  rw [value, ← hw]
  exact toOption_toType (placeFree_record c levels) t v "$" place

/-- A text that converts to a type that is no union coerces to the same value. -/
theorem scalar_of_toType {levels : Nat} {t : FieldType} (hunion : ∀ members, t ≠ .union members)
    {text place : String} {w : Value} (hw : toType c build t (.str text) place = .ok w) :
    Coerce.scalar c levels t text = .ok w := by
  cases t with
  | any | str =>
    obtain rfl := Except.ok.inj hw
    rfl
  | date | time | duration =>
    obtain ⟨x, hx, rfl⟩ := map_eq_ok_iff.1 (mapError_eq_ok_iff.1 hw)
    exact Coerce.reading_eq_ok_iff.2 ⟨x, hx, rfl⟩
  | datetime => exact Coerce.reading_eq_ok_iff.2 ⟨w, mapError_eq_ok_iff.1 hw, rfl⟩
  | enum spec =>
    have hread : spec.read (String.ofList text.toList) = .ok w := mapError_eq_ok_iff.1 hw
    rw [String.ofList_toList] at hread
    exact Coerce.reading_eq_ok_iff.2 ⟨w, hread, rfl⟩
  | union members => exact absurd rfl (hunion members)
  | null | bool | int | float | list | set | map | tuple | nested => cases hw

end Convert

namespace FieldType

/-- A type as it is, or as one of two members of a union, with null as the other one. -/
inductive OrNull (item : FieldType) : FieldType → Prop
  | self : OrNull item item
  | first : OrNull item (.union [item, .null])
  | last : OrNull item (.union [.null, item])

/-- A type that is no union, with or without null beside it. -/
def AtMostOptional (t : FieldType) : Prop :=
  ∃ item, (∀ members, item ≠ .union members) ∧ OrNull item t

theorem AtMostOptional.of_ne {t : FieldType} (ht : ∀ members, t ≠ .union members) :
    t.AtMostOptional :=
  ⟨t, ht, .self⟩

/-- The schema of such a type is that of the one type in it. -/
theorem OrNull.eq_nested {item t : FieldType} {id : SchemaId} (ht : OrNull item t)
    (hitem : ∀ members, item ≠ .union members) (hnested : t.nestedSchema? = some id) :
    item = .nested id := by
  obtain rfl | ⟨members, rfl, hmember⟩ := eq_or_mem_of_nestedSchema? hnested
  · cases ht
    rfl
  · cases ht with
    | self => exact absurd rfl (hitem members)
    | first | last => simpa [eq_comm] using hmember

end FieldType

namespace Convert

variable {c : Catalog} {build : RecordBuilder} {item t : FieldType} {v w : Value} {place : String}

/-- Other values than null are taken by the one type beside null. -/
theorem exists_toType_item (ht : item.OrNull t) (hv : v ≠ .null)
    (hw : toType c build t v place = .ok w) : ∃ place, toType c build item v place = .ok w := by
  have hmember : ∀ members, t = .union members →
      ∃ t' ∈ members, ∃ place, toType c build t' v place = .ok w := by
    rintro members rfl
    cases gives_of_toType hw with
    | scalar hscalar => cases hscalar
    | null => exact absurd rfl hv
    | member hmember hw => exact ⟨_, hmember, _, hw⟩
  have hnull : ∀ place, toType c build .null v place ≠ .ok w := by
    intro place hw
    cases v with
    | null => exact hv rfl
    | _ => cases hw
  cases ht with
  | self => exact ⟨place, hw⟩
  | first | last =>
    obtain ⟨t', hmem, other, hw'⟩ := hmember _ rfl
    obtain rfl | rfl : t' = item ∨ t' = .null := by simpa [or_comm] using hmem
    · exact ⟨other, hw'⟩
    · exact absurd hw' (hnull other)

/-- The fields of a record that is converted, each with what its value is converted to. -/
theorem forall₂_fields {P : Field → String × Value → Prop} {es out : Entries} {fs : List Field}
    (hfield : ∀ f ∈ fs, ∀ v w place, (es.lookup f.name).or f.info.default = some v →
      field c build f v place = .ok w → P f (f.name, w))
    (hout : fields c build es place fs = .ok out) : List.Forall₂ P fs out := by
  induction fs generalizing out with
  | nil =>
    obtain rfl := Except.ok.inj hout
    exact .nil
  | cons f fs ih =>
    obtain ⟨hhead, htail⟩ := List.forall_mem_cons.1 hfield
    simp only [fields] at hout
    split at hout
    · rename_i v hv
      simp only [bind_eq_ok_iff] at hout
      obtain ⟨w, hw, rest, hrest, heq⟩ := hout
      obtain rfl := Except.ok.inj heq
      exact .cons (hhead v w _ hv hw) (ih htail hrest)
    · cases hout

end Convert

/-- A text that converts to a type that is at most optional coerces to the same value, if that meets
the constraints. -/
theorem Coerce.value_of_toType {c : Catalog} {build : Convert.RecordBuilder} {levels : Nat}
    {info : FieldInfo} {item t : FieldType} {text path place : String} {w : Value}
    (hitem : ∀ members, item ≠ .union members) (ht : item.OrNull t)
    (hw : Convert.toType c build item (.str text) place = .ok w) (hcheck : info.check w = .ok ()) :
    value c levels info t text path = .ok w := by
  have hvalue : value c levels info item text path = .ok w := by
    rw [value_eq_member hitem, member_eq_ok_iff]
    exact ⟨Convert.scalar_of_toType hitem hw, hcheck⟩
  have hnull : item.isNull = false := by
    cases item with
    | null => cases hw
    | _ => rfl
  have haccepted : accepted? c levels info text path item = some w :=
    accepted?_eq_some_iff.2 ⟨hnull, hvalue⟩
  have hskipped : accepted? c levels info text path .null = none := rfl
  cases ht with
  | self => exact hvalue
  | first | last => simp [value_union_eq_ok_iff, haccepted, hskipped]

namespace Catalog

/-- No schema below the root has transforms, and a union that is the type of a field there stands
for one type that is no union, beside null. -/
structure Simple (c : Catalog) (root : SchemaId) : Prop where
  transformFree : ∀ id, c.Reaches root id → (c.schema id).TransformFree
  atMostOptional : ∀ id, c.Reaches root id → ∀ f ∈ (c.schema id).fields, f.type.AtMostOptional

end Catalog

namespace Resolver

variable {c : Catalog} {root : SchemaId} {levels : Nat} {build : Builder} {schema : Schema}
  {f : Field} {v w : Value} {place : String}

/-- The builder takes the entries that strict conversion takes, and gives the same records. -/
def Follows (c : Catalog) (levels : Nat) (build : Builder) (ids : SchemaId → Prop) : Prop :=
  ∀ id, ids id → ∀ es place record, Convert.record c levels id es place = .ok record →
    ∀ path depth, build id es path depth = .ok record

/-- A field is brought to the value that strict conversion gives. -/
theorem coerceRaw_of_toType (hfree : schema.TransformFree) (hform : f.type.AtMostOptional)
    (hbuild : Follows c levels build (· ∈ f.type.schemas))
    (hw : Convert.toType c (Convert.record c levels) f.type v place = .ok w)
    (hcheck : f.info.check w = .ok ()) (path : String) (depth : Nat) :
    (⟨c, none⟩ : Resolver).coerceRaw levels build schema f v path depth = .ok w := by
  obtain ⟨item, hitem, ht⟩ := hform
  have hsetting : Convert.setting c levels f.type v path = .ok w :=
    mapError_eq_ok_iff.2 (Convert.value_of_toType hw)
  cases v with
  | str text =>
    have hv : Value.str text ≠ .null := by simp
    obtain ⟨place, hitemValue⟩ := Convert.exists_toType_item ht hv hw
    rw [coerceRaw_text hfree, coerceText]
    split
    · exact Coerce.value_of_toType hitem ht hitemValue hcheck
    · rename_i id hnested
      obtain rfl := ht.eq_nested hitem hnested
      cases hitemValue
  | map entries =>
    have hv : Value.map entries ≠ .null := by simp
    obtain ⟨place, hitemValue⟩ := Convert.exists_toType_item ht hv hw
    cases hnested : f.type.nestedSchema? with
    | none => simpa only [coerceRaw, hnested] using hsetting
    | some id =>
      obtain rfl := ht.eq_nested hitem hnested
      obtain ⟨record, hrecord, rfl⟩ := map_eq_ok_iff.1 hitemValue
      have hid := FieldType.mem_schemas_of_nestedSchema? hnested
      simp only [coerceRaw, hnested]
      exact nestedRecord_eq_ok_iff.2
        ⟨by simp [Projection.Fits], record, hbuild id hid _ _ _ hrecord path (depth + 1), rfl⟩
  | _ => exact hsetting

/-- Nested records are built field by field from all that converts to records, to the same records.
-/
theorem follows_buildRecord (hsimple : c.Simple root) (levels : Nat) :
    Follows c levels ((⟨c, none⟩ : Resolver).buildRecord levels) (c.Reaches root) := by
  induction levels with
  | zero =>
    intro id hid es place record hrecord
    cases hrecord
  | succ levels ih =>
    intro id hid es place record hrecord path depth
    have hfree := hsimple.transformFree id hid
    simp only [Convert.record, bind_eq_ok_iff] at hrecord
    obtain ⟨fields, hfields, heq⟩ := hrecord
    obtain rfl := Except.ok.inj heq
    simp only [buildRecord, Pipeline.applyToRecord_eq hfree, bind_eq_ok_iff, coerceFields_eq_ok_iff]
    refine ⟨fields, Convert.forall₂_fields (fun f hf v w place hgiven hw => ⟨rfl, ?_⟩) hfields, rfl⟩
    simp only [Convert.field, bind_eq_ok_iff] at hw
    obtain ⟨w', hconvert, _, hcheck, heq⟩ := hw
    obtain rfl : w' = w := Except.ok.inj heq
    have hcheck := mapError_eq_ok_iff.1 hcheck
    refine bind_eq_ok_iff.2 ⟨v, entryOf_eq_ok_iff.2 hgiven, ?_⟩
    refine (coerceField_eq_ok_iff hfree).2 ⟨?_, hcheck⟩
    exact coerceRaw_of_toType hfree (hsimple.atMostOptional id hid f hf)
      (fun next hnext => ih next (hid.field hf hnext)) hconvert hcheck _ depth

/-- What converts strictly to a record is also built field by field, at every path and depth, and
gives the same record. -/
theorem buildRecord_of_record (hsimple : c.Simple root) {es : Entries} {record : Record}
    (hrecord : Convert.record c levels root es place = .ok record) (path : String) (depth : Nat) :
    (⟨c, none⟩ : Resolver).buildRecord levels root es path depth = .ok record :=
  follows_buildRecord hsimple levels root .root es place record hrecord path depth

open Loader (stores stores_plain)

/-- No schema of the stores has transforms or unions of nested members. -/
theorem stores_simple : stores.Simple 1 := by
  refine ⟨stores_plain.transformFree, fun id hid f hf => ?_⟩
  have hmem : id ∈ [0, 1] := hid.mem_of_closed (by decide) (by decide)
  obtain rfl | rfl : id = 0 ∨ id = 1 := by simpa using hmem
  · obtain rfl | rfl : f = _ ∨ f = _ := by simpa [stores, Catalog.schema] using hf
    · exact .of_ne (by simp)
    · exact .of_ne (by simp)
  · obtain rfl | rfl | rfl | rfl | rfl : f = _ ∨ f = _ ∨ f = _ ∨ f = _ ∨ f = _ := by
      simpa [stores, Catalog.schema] using hf
    · exact .of_ne (by simp)
    · exact .of_ne (by simp)
    · exact .of_ne (by simp)
    · exact .of_ne (by simp)
    · exact ⟨.nested 0, by simp, .first⟩

/-- The entries of a store with a part in its list and a spare one. -/
def storeEntries : Entries :=
  [("labels", .list [.str "x", .str "x"]),
    ("parts", .list [.map [("grade", .str "high"), ("tag", .str "a")]]),
    ("prices", .map [("first", .int 5)]), ("span", .list [.int 3, .null]),
    ("spare", .map [("grade", .str "LOW"), ("tag", .str "b")])]

/-- The record that the entries make. -/
def spareRecord : Record where
  schema := "Store"
  fields :=
    [("parts", .list
        [.record "Part" [("tag", .str "a"), ("grade", .enum ⟨"Grade", "HIGH", "high"⟩)]]),
      ("labels", .set [.str "x"]), ("span", .list [.int 3, .null]),
      ("prices", .map [("first", .int 5)]),
      ("spare", .record "Part" [("tag", .str "b"), ("grade", .enum ⟨"Grade", "LOW", "low"⟩)])]

/-- The store is built with its parts, the one in the list and the one in the nested field. -/
theorem buildRecord_of_record_store :
    stores.Simple 1 ∧
      Convert.record stores nestingLimit 1 storeEntries "$[0]" = .ok spareRecord ∧
      (⟨stores, none⟩ : Resolver).buildRecord nestingLimit 1 storeEntries "app.store" 1 =
        .ok spareRecord := by
  have hrecord : Convert.record stores nestingLimit 1 storeEntries "$[0]" = .ok spareRecord := by
    cbv
  exact ⟨stores_simple, hrecord, buildRecord_of_record stores_simple hrecord _ _⟩

end Resolver

end EnvSettings
