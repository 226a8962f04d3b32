import Mathlib
import EnvSettings.Proofs.Projection.Walk

namespace EnvSettings.Projection

variable {p : Projection} {c : Catalog} {root : SchemaId}

/-- Segments do not resolve from a schema: one of them matches no field of the schema reached so
far, or goes on below a field that is not nested. -/
inductive Unmatched (p : Projection) (c : Catalog) : List String → SchemaId → Prop
  | noField {segment : String} {rest : List String} {id : SchemaId}
      (hmatch : Schema.matchField? (c.schema id).toShape segment p.caseSensitive = none) :
      Unmatched p c (segment :: rest) id
  | notNested {segment : String} {rest : List String} {id : SchemaId} {f : Field}
      (hmatch : Schema.matchField? (c.schema id).toShape segment p.caseSensitive = some f)
      (hrest : rest ≠ []) (hnested : f.type.nestedSchema? = none) :
      Unmatched p c (segment :: rest) id
  | deeper {segment : String} {rest : List String} {id next : SchemaId} {f : Field}
      (hmatch : Schema.matchField? (c.schema id).toShape segment p.caseSensitive = some f)
      (hnested : f.type.nestedSchema? = some next) (hbelow : Unmatched p c rest next) :
      Unmatched p c (segment :: rest) id

theorem Unmatched.target_eq_none {segments : List String} {id : SchemaId}
    (hunmatched : p.Unmatched c segments id) : (p.route c segments id).target = none := by
  induction hunmatched with
  | noField hmatch => simp only [route, hmatch]
  | notNested hmatch hrest hnested => simp [route, hmatch, hrest, hnested]
  | @deeper segment rest id next f hmatch hnested hbelow ih =>
    have hrest : rest ≠ [] := by rintro rfl; cases hbelow
    simpa [route, hmatch, hrest, hnested, Route.under] using ih

/-- One name that does not resolve changes nothing exactly when its walk is not refused and finds
all maps open. -/
theorem applyEntry_unmatched_iff {name : String} {segments : List String}
    (hsegments : p.segments? name = some segments) (hunmatched : p.Unmatched c segments root)
    (value : String) {data : Entries} (htidy : Tidy data) :
    p.applyEntry c root data (name, value) = .ok data ↔
      Fits p.bound (p.route c segments root).entered.length ∧
        HoldsMaps (p.route c segments root).entered data := by
  have hroute : p.routeOf c root name = p.route c segments root := by rw [routeOf, hsegments]
  rw [applyEntry_eq, hroute, ← Route.edit_eq_self_iff hunmatched.target_eq_none htidy value]
  have hfits : ensureWalk p.bound [] (p.route c segments root).entered = .ok () ↔
      Fits p.bound (p.route c segments root).entered.length := by
    rw [ensureWalk_eq_ok_iff, List.length_nil, Nat.zero_add, or_iff_right_of_imp]
    intro hnil limit _
    rw [hnil]
    exact Nat.zero_le limit
  rw [← hfits]
  cases ensureWalk p.bound [] (p.route c segments root).entered with
  | error e => simp [Except.map]
  | ok _ => simp [Except.map]

/-- A name that does not resolve is without effect at a place in an environment exactly when its
entry is without effect on what the earlier names set. -/
theorem apply_insert_unmatched_iff {name : String} {segments : List String}
    (hsegments : p.segments? name = some segments) (hunmatched : p.Unmatched c segments root)
    (value : String) {before : List (String × String)} {data : Entries} (htidy : Tidy data) :
    (∀ after, p.apply c root (before ++ (name, value) :: after) data =
        p.apply c root (before ++ after) data) ↔
      ∀ d, p.apply c root before data = .ok d →
        Fits p.bound (p.route c segments root).entered.length ∧
          HoldsMaps (p.route c segments root).entered d := by
  simp only [apply_append, apply_cons]
  cases hbefore : p.apply c root before data with
  | error e => exact iff_of_true (fun after => rfl) (by simp)
  | ok d =>
    have hiff := applyEntry_unmatched_iff hsegments hunmatched value (htidy.apply hbefore)
    constructor
    · rintro hafter d' hd'
      obtain rfl : d = d' := Except.ok.inj hd'
      refine hiff.1 ?_
      have hlast := hafter []
      simp only [apply, List.foldlM_nil, bind, Except.bind, pure, Except.pure] at hlast
      cases hentry : p.applyEntry c root d (name, value) with
      | error e => simp [hentry] at hlast
      | ok d' => simpa [hentry] using hlast
    · intro hopen after
      simp only [bind, Except.bind, hiff.2 (hopen d rfl)]

/-- A name that does not resolve is without effect at a place in an environment exactly when the
nested fields that it enters are within the bound on nesting and hold maps there already, unless
an earlier name is refused. It is without effect at all places of all environments exactly when it
enters no nested field. -/
theorem apply_unmatched_iff {name : String} {segments : List String}
    (hsegments : p.segments? name = some segments) (hunmatched : p.Unmatched c segments root)
    (value : String) :
    (∀ before data, Tidy data →
      ((∀ after, p.apply c root (before ++ (name, value) :: after) data =
          p.apply c root (before ++ after) data) ↔
        ∀ d, p.apply c root before data = .ok d →
          Fits p.bound (p.route c segments root).entered.length ∧
            HoldsMaps (p.route c segments root).entered d)) ∧
    ((∀ before after, p.apply c root (before ++ (name, value) :: after) [] =
        p.apply c root (before ++ after) []) ↔
      (p.route c segments root).entered = []) := by
  refine ⟨fun before data => apply_insert_unmatched_iff hsegments hunmatched value, ?_, ?_⟩
  · intro heverywhere
    have hfirst := (apply_insert_unmatched_iff hsegments hunmatched value .nil).1 (heverywhere [])
    obtain ⟨-, hholds⟩ := hfirst [] rfl
    cases hentered : (p.route c segments root).entered with
    | nil => rfl
    | cons first names =>
      rw [hentered] at hholds
      obtain ⟨inner, hlookup, -⟩ := hholds
      cases hlookup
  · intro hentered before
    refine (apply_insert_unmatched_iff hsegments hunmatched value .nil).2 fun d _ => ?_
    rw [hentered]
    exact ⟨fun limit _ => Nat.zero_le limit, trivial⟩

/-- A nested field `db`, whose schema has the one field `host`. -/
def databaseCatalog : Catalog :=
  ⟨#[{ name := "Database", fields := [{ name := "host", type := .str }] },
    { name := "App", fields := [{ name := "db", type := .nested 0 }] }]⟩

/-- Segments between double underscores, in any letter case, and no bound on nesting. -/
def doubleUnderscore : Projection :=
  ⟨"", "__", false, none⟩

theorem unmatched_replica :
    doubleUnderscore.segments? "DB__REPLICA__HOST" = some ["DB", "REPLICA", "HOST"] ∧
      doubleUnderscore.Unmatched databaseCatalog ["DB", "REPLICA", "HOST"] 1 := by
  have hdb : Schema.matchField? (databaseCatalog.schema 1).toShape "DB" false =
      some { name := "db", type := .nested 0 } := by
    cbv
  exact ⟨by cbv, .deeper hdb rfl (.noField (by cbv))⟩

/-- After `DB__HOST` the name `DB__REPLICA__HOST` is without effect, but not in front of it. -/
theorem apply_unmatched_replica :
    doubleUnderscore.segments? "DB__REPLICA__HOST" = some ["DB", "REPLICA", "HOST"] ∧
    doubleUnderscore.Unmatched databaseCatalog ["DB", "REPLICA", "HOST"] 1 ∧
    (∀ after, doubleUnderscore.apply databaseCatalog 1
        ([("DB__HOST", "local")] ++ ("DB__REPLICA__HOST", "x") :: after) [] =
      doubleUnderscore.apply databaseCatalog 1 ([("DB__HOST", "local")] ++ after) []) ∧
    ¬ ∀ before after, doubleUnderscore.apply databaseCatalog 1
        (before ++ ("DB__REPLICA__HOST", "x") :: after) [] =
      doubleUnderscore.apply databaseCatalog 1 (before ++ after) [] := by
  obtain ⟨hsegments, hunmatched⟩ := unmatched_replica
  obtain ⟨hplace, heverywhere⟩ := apply_unmatched_iff hsegments hunmatched "x"
  have hentered :
      (doubleUnderscore.route databaseCatalog ["DB", "REPLICA", "HOST"] 1).entered = ["db"] := by
    cbv
  have hbefore : doubleUnderscore.apply databaseCatalog 1 [("DB__HOST", "local")] [] =
      .ok [("db", .map [("host", .str "local")])] := by
    cbv
  refine ⟨hsegments, hunmatched, (hplace _ [] .nil).2 fun d hd => ?_, fun h => ?_⟩
  · rw [hbefore] at hd
    obtain rfl := Except.ok.inj hd
    rw [hentered]
    refine ⟨fun limit hlimit => ?_, _, rfl, trivial⟩
    cases hlimit
  · have hnil := heverywhere.1 h
    rw [hentered] at hnil
    cases hnil

/-- A name that does not resolve is not without effect everywhere: `DB__REPLICA__HOST` alone leaves
an empty map at `db`, where nothing would stand without it. -/
theorem apply_unmatched_opens :
    doubleUnderscore.segments? "DB__REPLICA__HOST" = some ["DB", "REPLICA", "HOST"] ∧
    doubleUnderscore.Unmatched databaseCatalog ["DB", "REPLICA", "HOST"] 1 ∧
    doubleUnderscore.apply databaseCatalog 1 [("DB__REPLICA__HOST", "x")] [] =
      .ok [("db", .map [])] ∧
    doubleUnderscore.apply databaseCatalog 1 [("DB__REPLICA__HOST", "x")] [] ≠
      doubleUnderscore.apply databaseCatalog 1 [] [] := by
  have hopened : doubleUnderscore.apply databaseCatalog 1 [("DB__REPLICA__HOST", "x")] [] =
      .ok [("db", .map [])] := by
    cbv
  refine ⟨unmatched_replica.1, unmatched_replica.2, hopened, fun heq => ?_⟩
  rw [hopened] at heq
  cases Except.ok.inj heq

end EnvSettings.Projection
