import EnvSettings.Proofs.Number
import EnvSettings.Proofs.RecordFree

namespace EnvSettings

open Value

/-- A value of a type whose values hold no others. -/
inductive ScalarOf : FieldType → Value → Prop
  | null : ScalarOf .null .null
  | str (s : String) : ScalarOf .str (.str s)
  | bool (b : Bool) : ScalarOf .bool (.bool b)
  | int (n : Int64) : ScalarOf .int (.int n)
  | float {x : Float} (hfinite : x.isFinite) : ScalarOf .float (.float x)
  | date (d : Temporal.Date) : ScalarOf .date (.date d)
  | time (t : Temporal.Time) : ScalarOf .time (.time t)
  | zoned (z : Temporal.ZonedTimestamp) : ScalarOf .datetime (.zoned z)
  | timestamp (t : Temporal.Timestamp) : ScalarOf .datetime (.timestamp t)
  | duration (d : Temporal.Duration) : ScalarOf .duration (.duration d)
  | enum {spec : EnumSpec} {member value : String} (hmember : (member, value) ∈ spec.members) :
    ScalarOf (.enum spec) (.enum ⟨spec.name, member, value⟩)

mutual

/-- A value of a type, with all that it holds. -/
inductive Conforms (c : Catalog) : FieldType → Value → Prop
  | any {v : Value} (hfree : v.recordFree false) : Conforms c .any v
  | scalar {t : FieldType} {v : Value} (hv : ScalarOf t v) : Conforms c t v
  | list {item : FieldType} {vs : List Value} (hitems : ∀ v ∈ vs, Conforms c item v) :
    Conforms c (.list item) (.list vs)
  | set {item : FieldType} {vs : List Value} (hitems : ∀ v ∈ vs, Conforms c item v)
    (hdistinct : vs.Pairwise fun v w => same v w = false) : Conforms c (.set item) (.set vs)
  | map {value : FieldType} {es : Entries} (hvalues : ∀ e ∈ es, Conforms c value e.2) :
    Conforms c (.map value) (.map es)
  | tuple {members : List FieldType} {vs : List Value}
    (hmembers : List.Forall₂ (Conforms c) members vs) : Conforms c (.tuple members) (.list vs)
  | nested {id : SchemaId} {fields : Entries}
    (hfields : List.Forall₂ (FieldConforms c) (c.schema id).fields fields) :
    Conforms c (.nested id) (.record (c.schemaName id) fields)
  | union {members : List FieldType} {t : FieldType} {v : Value} (hmember : t ∈ members)
    (hv : Conforms c t v) : Conforms c (.union members) v

/-- An entry with the name of a field and a value of its type that meets its constraints. -/
inductive FieldConforms (c : Catalog) : Field → String × Value → Prop
  | intro {f : Field} {v : Value} (hv : Conforms c f.type v) (hcheck : f.info.check v = .ok ()) :
    FieldConforms c f (f.name, v)

end

section

variable {c : Catalog}

/-- The value of a nested type is one of the union that its schema stands for. -/
theorem Conforms.of_nestedSchema? {t : FieldType} {id : SchemaId} {v : Value}
    (hnested : t.nestedSchema? = some id) (hv : Conforms c (.nested id) v) : Conforms c t v := by
  obtain rfl | ⟨members, rfl, hmember⟩ := FieldType.eq_or_mem_of_nestedSchema? hnested
  · exact hv
  · exact .union hmember hv

mutual

/-- Null is a value of just the types that allow it. -/
theorem conforms_null_iff : ∀ t : FieldType, Conforms c t .null ↔ t.nullable
  | .any => ⟨fun _ => rfl, fun _ => .any rfl⟩
  | .null => ⟨fun _ => rfl, fun _ => .scalar .null⟩
  | .union members => by
    rw [FieldType.nullable, ← exists_conforms_null_iff members]
    constructor
    · intro hnull
      cases hnull with
      | scalar hv => cases hv
      | union hmember hv => exact ⟨_, hmember, hv⟩
    · rintro ⟨t, hmember, hnull⟩
      exact .union hmember hnull
  | .str | .bool | .int | .float | .date | .time | .datetime | .duration | .enum _ | .list _
  | .set _ | .map _ | .tuple _ | .nested _ => by
    refine ⟨fun hnull => ?_, nofun⟩
    cases hnull with
    | scalar hv => cases hv

theorem exists_conforms_null_iff :
    ∀ ts : List FieldType, (∃ t ∈ ts, Conforms c t .null) ↔ FieldType.anyNullable ts
  | [] => by simp [FieldType.anyNullable]
  | t :: ts => by
    rw [FieldType.anyNullable, Bool.or_eq_true, ← conforms_null_iff t,
      ← exists_conforms_null_iff ts, List.exists_mem_cons_iff]

end

theorem scalarOf_readEnum {spec : EnumSpec} {raw : String} {v : Value}
    (hread : spec.read raw = .ok v) : ScalarOf (.enum spec) v := by
  rw [EnumSpec.read] at hread
  split at hread
  · rename_i member value hlookup
    obtain rfl := Except.ok.inj hread
    refine .enum ?_
    rw [EnumSpec.lookup?] at hlookup
    split at hlookup
    · rename_i hfind
      exact Option.some.inj hlookup ▸ List.mem_of_find?_eq_some hfind
    · exact List.mem_of_find?_eq_some hlookup
  · cases hread

/-- What is read as a timestamp is one, with a zone or without. -/
theorem scalarOf_readTimestamp {s : List Char} {v : Value}
    (hread : readTimestampValue s = .ok v) : ScalarOf .datetime v := by
  obtain ⟨reading, -, rfl⟩ := map_eq_ok_iff.1 hread
  cases reading with
  | zoned z => exact .zoned z
  | plain t => exact .timestamp t

/-- The distinct items are among the items, and no two of them are the same. -/
theorem distinct_induct {vs kept : List Value} {P : Value → Prop} (hvs : ∀ v ∈ vs, P v)
    (hkept : ∀ v ∈ kept, P v) (hdistinct : kept.Pairwise fun v w => same v w = false) :
    let out := vs.foldl (fun kept v => if kept.any (same · v) then kept else kept ++ [v]) kept
    (∀ v ∈ out, P v) ∧ out.Pairwise fun v w => same v w = false := by
  induction vs generalizing kept with
  | nil => exact ⟨hkept, hdistinct⟩
  | cons v vs ih =>
    obtain ⟨hv, hvs⟩ := List.forall_mem_cons.1 hvs
    rw [List.foldl_cons]
    split
    · exact ih hvs hkept hdistinct
    · rename_i hnew
      refine ih hvs ?_ ?_
      · simpa [or_imp, forall_and, hv] using hkept
      · rw [List.pairwise_append]
        refine ⟨hdistinct, List.pairwise_singleton _ _, fun w hw u hu => ?_⟩
        obtain rfl := List.mem_singleton.1 hu
        simpa using (List.any_eq_false.1 (Bool.eq_false_iff.2 hnew)) w hw

/-- Items that conform make a set that does, without the repeated ones. -/
theorem conforms_distinct {item : FieldType} {vs : List Value}
    (hvs : ∀ v ∈ vs, Conforms c item v) : Conforms c (.set item) (.set (distinct vs)) := by
  obtain ⟨hitems, hdistinct⟩ := distinct_induct hvs (List.forall_mem_nil _) List.Pairwise.nil
  exact .set hitems hdistinct

end

namespace Convert

variable {c : Catalog} {root : SchemaId} {build : RecordBuilder}

/-- Items that are converted one by one have what conversion gives every item. -/
theorem forall_mem_eachItem {convert : Value → String → Except Misfit Value} {P : Value → Prop}
    {place : String} {index : Nat} {vs ws : List Value}
    (hconvert : ∀ v ∈ vs, ∀ place w, convert v place = .ok w → P w)
    (heach : eachItem convert place index vs = .ok ws) : ∀ w ∈ ws, P w := by
  induction vs generalizing index ws with
  | nil =>
    obtain rfl := Except.ok.inj heach
    simp
  | cons v vs ih =>
    obtain ⟨hhead, htail⟩ := List.forall_mem_cons.1 hconvert
    simp only [eachItem, bind_eq_ok_iff] at heach
    obtain ⟨w, hw, rest, hrest, heq⟩ := heach
    obtain rfl := Except.ok.inj heq
    exact List.forall_mem_cons.2 ⟨hhead _ _ hw, ih htail hrest⟩

/-- What every conversion of an entry ensures holds of all converted entries. -/
theorem forall_mem_eachEntry {convert : Value → String → Except Misfit Value} {P : Value → Prop}
    {place : String} {es ws : Entries}
    (hconvert : ∀ e ∈ es, ∀ place w, convert e.2 place = .ok w → P w)
    (heach : eachEntry convert place es = .ok ws) : ∀ e ∈ ws, P e.2 := by
  induction es generalizing ws with
  | nil =>
    obtain rfl := Except.ok.inj heach
    simp
  | cons e es ih =>
    obtain ⟨name, v⟩ := e
    obtain ⟨hhead, htail⟩ := List.forall_mem_cons.1 hconvert
    simp only [eachEntry, bind_eq_ok_iff] at heach
    obtain ⟨w, hw, rest, hrest, heq⟩ := heach
    obtain rfl := Except.ok.inj heq
    exact List.forall_mem_cons.2 ⟨hhead _ _ hw, ih htail hrest⟩

/-- A value that is converted from a text has been read. -/
theorem readText_eq_ok {ε : Type} {message : ε → String} {read : List Char → Except ε Value}
    {t : FieldType} {v w : Value} {place : String}
    (hread : readText message read c t v place = .ok w) :
    ∃ raw, read raw = .ok w := by
  unfold readText at hread
  split at hread
  · exact ⟨_, mapError_eq_ok_iff.1 hread⟩
  · cases hread

/-- The items of a tuple have what conversion to their types gives. -/
theorem forall₂_toEach {P : FieldType → Value → Prop} {ts : List FieldType} {vs ws : List Value}
    {place : String} {index : Nat} (hlength : vs.length = ts.length)
    (hconvert : ∀ t ∈ ts, ∀ v ∈ vs, ∀ place w, toType c build t v place = .ok w → P t w)
    (heach : toEach c build ts vs place index = .ok ws) : List.Forall₂ P ts ws := by
  induction ts generalizing vs ws index with
  | nil =>
    obtain rfl := Except.ok.inj heach
    exact .nil
  | cons t ts ih =>
    cases vs with
    | nil => cases hlength
    | cons v vs =>
      simp only [toEach, bind_eq_ok_iff] at heach
      obtain ⟨w, hw, rest, hrest, heq⟩ := heach
      obtain rfl := Except.ok.inj heq
      refine .cons (hconvert t List.mem_cons_self v List.mem_cons_self _ w hw)
        (ih (Nat.succ.inj hlength) (fun t ht v hv => ?_) hrest)
      exact hconvert t (List.mem_cons_of_mem _ ht) v (List.mem_cons_of_mem _ hv)

/-- What a union takes is taken by one of its members. -/
theorem exists_of_toFirst {ts : List FieldType} {v w : Value} {place : String}
    (hfirst : toFirst c build ts v place = some (.ok w)) :
    ∃ t ∈ ts, toType c build t v place = .ok w := by
  induction ts with
  | nil => cases hfirst
  | cons t ts ih =>
    unfold toFirst at hfirst
    split at hfirst
    · obtain ⟨t', hmember, ht'⟩ := ih hfirst
      exact ⟨t', List.mem_cons_of_mem t hmember, ht'⟩
    · split at hfirst
      · rename_i w' hw'
        obtain rfl : w' = w := Except.ok.inj (Option.some.inj hfirst)
        exact ⟨t, List.mem_cons_self, hw'⟩
      · split at hfirst
        · rename_i result hrest
          obtain rfl : result = .ok w := Option.some.inj hfirst
          obtain ⟨t', hmember, ht'⟩ := ih hrest
          exact ⟨t', List.mem_cons_of_mem t hmember, ht'⟩
        · cases hfirst

/-- What conversion makes of a value, by the type. -/
inductive Gives (c : Catalog) (build : RecordBuilder) : FieldType → Value → Value → Prop
  | any (v : Value) : Gives c build .any v v
  | scalar {t : FieldType} {v w : Value} (hw : ScalarOf t w) : Gives c build t v w
  | enum {spec : EnumSpec} {m : EnumValue} (hname : m.enumName = spec.name) :
    Gives c build (.enum spec) (.enum m) (.enum m)
  | list {item : FieldType} {v : Value} {vs ws : List Value} {place : String}
    (hv : v = .list vs ∨ v = .set vs)
    (heach : eachItem (toType c build item) place 0 vs = .ok ws) :
    Gives c build (.list item) v (.list ws)
  | set {item : FieldType} {v : Value} {vs ws : List Value} {place : String}
    (hv : v = .list vs ∨ v = .set vs)
    (heach : eachItem (toType c build item) place 0 vs = .ok ws) :
    Gives c build (.set item) v (.set (distinct ws))
  | map {value : FieldType} {es out : Entries} {place : String}
    (heach : eachEntry (toType c build value) place es = .ok out) :
    Gives c build (.map value) (.map es) (.map out)
  | tuple {members : List FieldType} {vs ws : List Value} {place : String}
    (hlength : vs.length = members.length)
    (heach : toEach c build members vs place 0 = .ok ws) :
    Gives c build (.tuple members) (.list vs) (.list ws)
  | record {id : SchemaId} {fields : Entries} :
    Gives c build (.nested id) (.record (c.schemaName id) fields)
      (.record (c.schemaName id) fields)
  | built {id : SchemaId} {es : Entries} {place : String} {record : Record}
    (hrecord : build id es place = .ok record) :
    Gives c build (.nested id) (.map es) record.toValue
  | null {members : List FieldType} (hnullable : FieldType.anyNullable members) :
    Gives c build (.union members) .null .null
  | member {members : List FieldType} {t : FieldType} {v w : Value} {place : String}
    (hmember : t ∈ members) (hw : toType c build t v place = .ok w) :
    Gives c build (.union members) v w

/-- A value that is converted comes from one of the ways that its type allows. -/
theorem gives_of_toType {t : FieldType} {v w : Value} {place : String}
    (hw : toType c build t v place = .ok w) : Gives c build t v w := by
  cases t with
  | any =>
    obtain rfl := Except.ok.inj hw
    exact .any v
  | null | str | bool | int =>
    unfold toType at hw
    split at hw
    · obtain rfl := Except.ok.inj hw
      exact .scalar (by constructor)
    · cases hw
  | float =>
    unfold toType at hw
    split at hw
    · split at hw
      · rename_i hfinite
        obtain rfl := Except.ok.inj hw
        exact .scalar (.float hfinite)
      · cases hw
    · obtain rfl := Except.ok.inj hw
      exact .scalar (.float (Number.isFinite_ofInt _))
    · cases hw
  | date | time =>
    unfold toType at hw
    split at hw
    · obtain rfl := Except.ok.inj hw
      exact .scalar (by constructor)
    · obtain ⟨raw, hread⟩ := readText_eq_ok hw
      obtain ⟨x, -, rfl⟩ := map_eq_ok_iff.1 hread
      exact .scalar (by constructor)
  | datetime =>
    unfold toType at hw
    split at hw
    · obtain rfl := Except.ok.inj hw
      exact .scalar (.zoned _)
    · obtain rfl := Except.ok.inj hw
      exact .scalar (.timestamp _)
    · obtain ⟨raw, hread⟩ := readText_eq_ok hw
      exact .scalar (scalarOf_readTimestamp hread)
  | duration =>
    unfold toType at hw
    split at hw
    · obtain rfl := Except.ok.inj hw
      exact .scalar (.duration _)
    · obtain ⟨d, -, rfl⟩ := map_eq_ok_iff.1 (mapError_eq_ok_iff.1 hw)
      exact .scalar (.duration d)
    · obtain ⟨d, -, rfl⟩ := map_eq_ok_iff.1 (mapError_eq_ok_iff.1 hw)
      exact .scalar (.duration d)
    · obtain ⟨raw, hread⟩ := readText_eq_ok hw
      obtain ⟨d, -, rfl⟩ := map_eq_ok_iff.1 hread
      exact .scalar (.duration d)
  | enum spec =>
    unfold toType at hw
    split at hw
    · split at hw
      · rename_i hname
        obtain rfl := Except.ok.inj hw
        exact .enum hname
      · cases hw
    · obtain ⟨raw, hread⟩ := readText_eq_ok hw
      exact .scalar (scalarOf_readEnum hread)
  | list item =>
    unfold toType at hw
    split at hw
    · obtain ⟨ws, hws, rfl⟩ := map_eq_ok_iff.1 hw
      exact .list (.inl rfl) hws
    · obtain ⟨ws, hws, rfl⟩ := map_eq_ok_iff.1 hw
      exact .list (.inr rfl) hws
    · cases hw
  | set item =>
    unfold toType at hw
    split at hw
    · obtain ⟨ws, hws, rfl⟩ := map_eq_ok_iff.1 hw
      exact .set (.inl rfl) hws
    · obtain ⟨ws, hws, rfl⟩ := map_eq_ok_iff.1 hw
      exact .set (.inr rfl) hws
    · cases hw
  | map value =>
    unfold toType at hw
    split at hw
    · obtain ⟨out, hout, rfl⟩ := map_eq_ok_iff.1 hw
      exact .map hout
    · cases hw
  | tuple members =>
    unfold toType at hw
    split at hw
    · split at hw
      · rename_i hlength
        obtain ⟨ws, hws, rfl⟩ := map_eq_ok_iff.1 hw
        exact .tuple hlength hws
      · cases hw
    · cases hw
  | nested id =>
    unfold toType at hw
    split at hw
    · split at hw
      · rename_i hname
        obtain rfl := Except.ok.inj hw
        exact hname ▸ .record
      · cases hw
    · obtain ⟨record, hrecord, rfl⟩ := map_eq_ok_iff.1 hw
      exact .built hrecord
    · cases hw
  | union members =>
    unfold toType at hw
    split at hw
    · split at hw
      · rename_i hnullable
        obtain rfl := Except.ok.inj hw
        exact .null hnullable
      · cases hw
    · split at hw
      · rename_i result hfirst
        obtain ⟨t, hmember, ht⟩ := exists_of_toFirst (hw ▸ hfirst)
        exact .member hmember ht
      · cases hw

/-- Conversion gives a record for a record, which stays as it is, or for entries. -/
theorem eq_or_map_of_toType {t : FieldType} {v : Value} {place schema : String} {fields : Entries}
    (hrecord : toType c build t v place = .ok (.record schema fields)) :
    v = .record schema fields ∨ ∃ entries, v = .map entries := by
  have hgives := gives_of_toType hrecord
  generalize hw : Value.record schema fields = w at hgives
  cases hgives with
  | any | record => exact .inl rfl
  | scalar hscalar =>
    subst hw
    cases hscalar
  | built => exact .inr ⟨_, rfl⟩
  | member hmember hconvert =>
    subst hw
    exact eq_or_map_of_toType hconvert
  | enum | list | set | map | tuple | null => cases hw
termination_by sizeOf t

/-- The builder gives records of the schemas that are asked for, if no records go in. -/
def Builds (c : Catalog) (root : SchemaId) (build : RecordBuilder) : Prop :=
  ∀ id, c.Reaches root id → ∀ es place record, RecordFree false es →
    build id es place = .ok record → Conforms c (.nested id) record.toValue

/-- What strict conversion gives is a value of the type. -/
theorem conforms_toType (hbuild : Builds c root build) {t : FieldType} {v w : Value}
    {place : String} (hreach : ∀ id ∈ t.schemas, c.Reaches root id) (hv : v.recordFree false)
    (hw : toType c build t v place = .ok w) : Conforms c t w := by
  cases gives_of_toType hw with
  | any v => exact .any hv
  | scalar hw => exact .scalar hw
  | enum hname => cases hv
  | list hitems heach =>
    exact .list (forall_mem_eachItem (fun v hmem place w hw =>
      conforms_toType hbuild hreach (recordFree_of_mem hitems hv v hmem) hw) heach)
  | set hitems heach =>
    exact conforms_distinct (forall_mem_eachItem (fun v hmem place w hw =>
      conforms_toType hbuild hreach (recordFree_of_mem hitems hv v hmem) hw) heach)
  | map heach =>
    exact .map (forall_mem_eachEntry (fun e hmem place w hw =>
      conforms_toType hbuild hreach (recordFree_map.1 hv e hmem) hw) heach)
  | tuple hlength heach =>
    have hitems := recordFree_list.1 hv
    exact .tuple (forall₂_toEach hlength (fun t hmember v hmem place w hw =>
      conforms_toType hbuild
        (fun id hid => hreach id (FieldType.mem_allSchemas.2 ⟨t, hmember, hid⟩))
        (hitems v hmem) hw) heach)
  | record => cases hv
  | built hrecord =>
    exact hbuild _ (hreach _ List.mem_cons_self) _ _ _ (recordFree_map.1 hv) hrecord
  | null hnullable => exact (conforms_null_iff _).2 hnullable
  | member hmember hw =>
    exact .union hmember (conforms_toType hbuild
      (fun id hid => hreach id (FieldType.mem_allSchemas.2 ⟨_, hmember, hid⟩)) hv hw)
termination_by sizeOf t

/-- A converted field conforms. -/
theorem conforms_field (hbuild : Builds c root build) {f : Field} {v w : Value} {place : String}
    (hreach : ∀ id ∈ f.type.schemas, c.Reaches root id) (hv : v.recordFree false)
    (hw : field c build f v place = .ok w) : FieldConforms c f (f.name, w) := by
  simp only [field, bind_eq_ok_iff] at hw
  obtain ⟨w', hconvert, u, hcheck, heq⟩ := hw
  obtain rfl : w' = w := Except.ok.inj heq
  exact .intro (conforms_toType hbuild hreach hv hconvert)
    (mapError_eq_ok_iff.1 hcheck)

/-- The converted fields of a record conform. -/
theorem conforms_fields (hbuild : Builds c root build) {fs : List Field} {es out : Entries}
    {place : String} (hreach : ∀ f ∈ fs, ∀ id ∈ f.type.schemas, c.Reaches root id)
    (hgiven : ∀ f ∈ fs, ∀ v, (es.lookup f.name).or f.info.default = some v → v.recordFree false)
    (hout : fields c build es place fs = .ok out) : List.Forall₂ (FieldConforms c) fs out := by
  induction fs generalizing out with
  | nil =>
    obtain rfl := Except.ok.inj hout
    exact .nil
  | cons f fs ih =>
    obtain ⟨hreach, hreachs⟩ := List.forall_mem_cons.1 hreach
    obtain ⟨hgiven, hgivens⟩ := List.forall_mem_cons.1 hgiven
    simp only [fields] at hout
    split at hout
    · rename_i v hv
      simp only [bind_eq_ok_iff] at hout
      obtain ⟨w, hw, rest, hrest, heq⟩ := hout
      obtain rfl := Except.ok.inj heq
      exact .cons (conforms_field hbuild hreach (hgiven v hv) hw) (ih hreachs hgivens hrest)
    · cases hout

/-- Where no default holds a record, the records that conversion gives have the fields of their
schema, however deep they lie in each other. -/
theorem builds_record (hplain : c.Plain root false) (levels : Nat) :
    Builds c root (record c levels) := by
  induction levels with
  | zero =>
    intro id hid es place record hes hbuild
    cases hbuild
  | succ levels ih =>
    intro id hid es place out hes hbuild
    simp only [record, bind_eq_ok_iff] at hbuild
    obtain ⟨fs, hfs, heq⟩ := hbuild
    obtain rfl := Except.ok.inj heq
    exact .nested (conforms_fields ih (fun f hf _ hnext => hid.field hf hnext)
      (fun f hf v hv => hplain.given hid hf hes hv) hfs)

/-- A value that is converted to a type conforms to it. -/
theorem conforms_value (hplain : c.Plain root false) {levels : Nat} {t : FieldType} {v w : Value}
    (hreach : ∀ id ∈ t.schemas, c.Reaches root id) (hv : v.recordFree false)
    (hw : value c levels t v = .ok w) : Conforms c t w :=
  conforms_toType (builds_record hplain levels) hreach hv hw

end Convert

namespace Coerce

variable {c : Catalog} {root : SchemaId} {levels : Nat} {info : FieldInfo}

theorem reading_eq_ok_iff {ε α : Type} {message : ε → String} {value : α → Value}
    {x : Except ε α} {v : Value} :
    reading message value x = .ok v ↔ ∃ a, x = .ok a ∧ value a = v := by
  cases x <;> simp [reading]

/-- A text is kept, read as a scalar, or converted from the JSON in it. -/
theorem scalar_eq_ok {t : FieldType} {raw : String} {v : Value}
    (hv : scalar c levels t raw = .ok v) :
    t = .any ∧ v = .str raw ∨ ScalarOf t v ∨
      ∃ j, Convert.value c levels t (Value.ofJson j) = .ok v := by
  unfold scalar at hv
  split at hv
  · obtain rfl := Except.ok.inj hv
    exact .inl ⟨rfl, rfl⟩
  · obtain rfl := Except.ok.inj hv
    exact .inr (.inl (.str raw))
  · obtain ⟨b, -, rfl⟩ := reading_eq_ok_iff.1 hv
    exact .inr (.inl (.bool b))
  · obtain ⟨n, -, rfl⟩ := reading_eq_ok_iff.1 hv
    exact .inr (.inl (.int n))
  · obtain ⟨x, hx, rfl⟩ := reading_eq_ok_iff.1 hv
    rw [readFloat] at hx
    split at hx
    · cases hx
    · split at hx
      · rename_i hfinite
        obtain rfl := Except.ok.inj hx
        exact .inr (.inl (.float hfinite))
      · cases hx
  · obtain ⟨d, -, rfl⟩ := reading_eq_ok_iff.1 hv
    exact .inr (.inl (.date d))
  · obtain ⟨t, -, rfl⟩ := reading_eq_ok_iff.1 hv
    exact .inr (.inl (.time t))
  · obtain ⟨w, hw, rfl⟩ := reading_eq_ok_iff.1 hv
    exact .inr (.inl (scalarOf_readTimestamp hw))
  · obtain ⟨d, -, rfl⟩ := reading_eq_ok_iff.1 hv
    exact .inr (.inl (.duration d))
  · obtain ⟨w, hw, rfl⟩ := reading_eq_ok_iff.1 hv
    exact .inr (.inl (scalarOf_readEnum hw))
  · rw [ofJsonText] at hv
    split at hv
    · cases hv
    · rename_i j _
      obtain ⟨w, hw, rfl⟩ := reading_eq_ok_iff.1 hv
      exact .inr (.inr ⟨j, hw⟩)

/-- A text that is coerced to a type conforms to it. -/
theorem conforms_scalar (hplain : c.Plain root false) {t : FieldType} {raw : String} {v : Value}
    (hreach : ∀ id ∈ t.schemas, c.Reaches root id) (hv : scalar c levels t raw = .ok v) :
    Conforms c t v := by
  obtain ⟨rfl, rfl⟩ | hscalar | ⟨j, hj⟩ := scalar_eq_ok hv
  · exact .any rfl
  · exact .scalar hscalar
  · exact Convert.conforms_value hplain hreach (recordFree_ofJson false j) hj

/-- Only the members of a union are tried one after the other. -/
theorem value_eq_member {t : FieldType} (hunion : ∀ members, t ≠ .union members)
    (raw path : String) : value c levels info t raw path = member c levels info t raw path := by
  unfold value
  split
  · exact absurd rfl (hunion _)
  · rfl

/-- A text is accepted for a member if it is coerced to it and meets the constraints. -/
theorem member_eq_ok_iff {t : FieldType} {raw path : String} {v : Value} :
    member c levels info t raw path = .ok v ↔
      scalar c levels t raw = .ok v ∧ info.check v = .ok () := by
  rw [member]
  cases scalar c levels t raw with
  | error cause => simp
  | ok w =>
    simp only [bind_eq_ok_iff, Except.ok.injEq]
    constructor
    · rintro ⟨u, hcheck, rfl⟩
      exact ⟨rfl, FieldInfo.checkSetting_eq_ok_iff.1 hcheck⟩
    · rintro ⟨rfl, hcheck⟩
      exact ⟨(), FieldInfo.checkSetting_eq_ok_iff.2 hcheck, rfl⟩

/-- What a member of a union makes of a text, if it accepts it. Null accepts none. -/
def accepted? (c : Catalog) (levels : Nat) (info : FieldInfo) (raw path : String) (t : FieldType) :
    Option Value :=
  if t.isNull then none else (value c levels info t raw path).toOption

/-- A member is accepted if it is not null and the text is coerced to it. -/
theorem accepted?_eq_some_iff {t : FieldType} {raw path : String} {v : Value} :
    accepted? c levels info raw path t = some v ↔
      t.isNull = false ∧ value c levels info t raw path = .ok v := by
  unfold accepted?
  split <;> simp [*, toOption_eq_some_iff]

/-- The members of a union are tried from left to right. -/
theorem first_eq_ok_iff {ts : List FieldType} {raw path : String} {v : Value} :
    first c levels info ts raw path = some (.ok v) ↔
      ts.findSome? (accepted? c levels info raw path) = some v := by
  induction ts with
  | nil => simp [first]
  | cons t ts ih =>
    rw [first, List.findSome?_cons, accepted?]
    split
    · exact ih
    · cases value c levels info t raw path with
      | ok w => simp [Except.toOption]
      | error e =>
        rw [Except.toOption, ← ih]
        cases first c levels info ts raw path <;> simp

/-- The value of a union is that of its first accepted member. -/
theorem value_union_eq_ok_iff {members : List FieldType} {raw path : String} {v : Value} :
    value c levels info (.union members) raw path = .ok v ↔
      members.findSome? (accepted? c levels info raw path) = some v := by
  rw [value, ← first_eq_ok_iff]
  cases first c levels info members raw path with
  | none => simp
  | some result => cases result <;> simp

/-- What holds for the types that read a text, and for a union where it holds for a member, holds
for the type that a text is coerced to. -/
theorem value_induct {P : FieldType → Prop} {raw path : String} {v : Value}
    (hscalar : ∀ t, scalar c levels t raw = .ok v → info.check v = .ok () → P t)
    (hunion : ∀ members, ∀ t ∈ members, P t → P (.union members)) {t : FieldType}
    (hv : value c levels info t raw path = .ok v) : P t := by
  induction t using FieldType.unionInduction with
  | union members ih =>
    obtain ⟨t, hmember, ht⟩ := List.exists_of_findSome?_eq_some (value_union_eq_ok_iff.1 hv)
    exact hunion members t hmember (ih t hmember (accepted?_eq_some_iff.1 ht).2)
  | other t hother =>
    rw [value_eq_member hother, member_eq_ok_iff] at hv
    exact hscalar t hv.1 hv.2

/-- What a text is coerced to is a value of the type. -/
theorem conforms_value (hplain : c.Plain root false) {t : FieldType} {raw path : String}
    {v : Value} (hreach : ∀ id ∈ t.schemas, c.Reaches root id)
    (hv : value c levels info t raw path = .ok v) : Conforms c t v := by
  revert hreach
  refine value_induct (fun t hscalar _ hreach => conforms_scalar hplain hreach hscalar) ?_ hv
  intro members t hmember ih hreach
  exact .union hmember (ih fun id hid =>
    hreach id (FieldType.mem_allSchemas.2 ⟨t, hmember, hid⟩))

end Coerce

namespace Resolver

variable {r : Resolver} {levels : Nat} {build : Builder} {f : Field} {raw : Value}
  {path schema : String} {depth : Nat} {id : SchemaId} {inner : Entries}

/-- A record in a nested field was there before, or it was built. -/
theorem Brought.eq_or_built (hnested : f.type.nestedSchema? = some id)
    (hv : Brought r levels build f raw path depth (.record schema inner)) :
    raw = .record schema inner ∨ ∃ entries, GivesEntries raw entries ∧
      r.nestedRecord build id entries path depth = .ok (.record schema inner) := by
  generalize hrecord : Value.record schema inner = v at hv
  cases hv with
  | built hnested' hgives hv =>
    obtain rfl := Option.some.inj (hnested.symm.trans hnested')
    exact .inr ⟨_, hgives, hv⟩
  | null => cases hrecord
  | coerced hnone => cases hnested.symm.trans hnone
  | converted hmap hvalue =>
    obtain hraw | ⟨entries, rfl⟩ := Convert.eq_or_map_of_toType (hrecord ▸ hvalue)
    · exact .inl (hraw.trans hrecord)
    · obtain hnone | hmap := hmap
      · cases hnested.symm.trans hnone
      · exact absurd rfl (hmap entries)

end Resolver

end EnvSettings
