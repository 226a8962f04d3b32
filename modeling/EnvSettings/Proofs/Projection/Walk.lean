import EnvSettings.Proofs.Projection.Edit

namespace EnvSettings.Projection

variable {p : Projection} {c : Catalog} {root : SchemaId}

/-- Where segments lead from a schema. They end early at a segment that matches no field, and at
one that would go on below a field that is not nested. -/
def route (p : Projection) (c : Catalog) : List String → SchemaId → Route
  | [], _ => {}
  | segment :: rest, id =>
    match Schema.matchField? (c.schema id).toShape segment p.caseSensitive with
    | none => {}
    | some f =>
      if rest.isEmpty then { target := some f.name }
      else match f.type.nestedSchema? with
        | none => {}
        | some next => (p.route c rest next).under f.name

/-- Where an environment name leads. A name without segments leads nowhere. -/
def routeOf (p : Projection) (c : Catalog) (root : SchemaId) (name : String) : Route :=
  match p.segments? name with
  | none => {}
  | some segments => p.route c segments root

/-- Where segments lead does not depend on the bound. -/
theorem route_bound (p : Projection) (bound : Option Nat) (segments : List String)
    (id : SchemaId) :
    Projection.route { p with bound := bound } c segments id = p.route c segments id := by
  induction segments generalizing id with
  | nil => rfl
  | cons segment rest ih => simp only [route, ih]

/-- The bound on nesting does not decide where a name leads. -/
theorem routeOf_bound (p : Projection) (bound : Option Nat) (name : String) :
    Projection.routeOf { p with bound := bound } c root name = p.routeOf c root name := by
  have hsegments : Projection.segments? { p with bound := bound } name = p.segments? name := rfl
  simp only [routeOf, hsegments, route_bound]

theorem two_le_length_of_segments? {name : String} {segments : List String}
    (hsegments : p.segments? name = some segments) : 2 ≤ segments.length := by
  simp only [segments?] at hsegments
  split at hsegments
  · cases hsegments
  · split at hsegments
    · cases hsegments
    · split at hsegments
      · cases hsegments
      · rw [← Option.some.inj hsegments, List.length_map]
        omega

/-- A name that enters no nested field sets nothing. -/
theorem routeOf_target_eq_none {name : String} (hentered : (p.routeOf c root name).entered = []) :
    (p.routeOf c root name).target = none := by
  unfold routeOf at hentered ⊢
  cases hsegments : p.segments? name with
  | none => rfl
  | some segments =>
    simp only [hsegments] at hentered ⊢
    have hlength := two_le_length_of_segments? hsegments
    obtain _ | ⟨segment, rest⟩ := segments
    · rfl
    have hrest : rest ≠ [] := by rintro rfl; simp at hlength
    unfold route at hentered ⊢
    cases hmatch : Schema.matchField? (c.schema root).toShape segment p.caseSensitive with
    | none => rfl
    | some f =>
      cases hnested : f.type.nestedSchema? with
      | none => simp [hrest, hnested]
      | some next => simp [hmatch, hrest, hnested, Route.under] at hentered

/-- Checks the depth of each nested field that is entered below a path. -/
def ensureWalk (bound : Option Nat) : List String → List String → Except Error Unit
  | _, [] => .ok ()
  | path, name :: names => do
    ensureDepth bound (path ++ [name]).length (dotted (path ++ [name]))
    ensureWalk bound (path ++ [name]) names

/-- A number of nested fields is within the bound on nesting. -/
def Fits (bound : Option Nat) (depth : Nat) : Prop :=
  ∀ limit ∈ bound, depth ≤ limit

theorem ensureDepth_eq_ok_iff {bound : Option Nat} {depth : Nat} {path : String} :
    ensureDepth bound depth path = .ok () ↔ Fits bound depth := by
  cases bound with
  | none => simp [ensureDepth, Fits]
  | some limit =>
    by_cases hlimit : limit < depth
    · simp [ensureDepth, Fits, hlimit]
    · simp [ensureDepth, Fits, hlimit, Nat.le_of_not_lt hlimit]

/-- A walk is allowed if its last depth fits the bound. -/
theorem ensureWalk_eq_ok_iff {bound : Option Nat} {names path : List String} :
    ensureWalk bound path names = .ok () ↔
      names = [] ∨ Fits bound (path.length + names.length) := by
  induction names generalizing path with
  | nil => simp [ensureWalk]
  | cons name names ih =>
    simp only [ensureWalk, reduceCtorEq, false_or]
    cases hhead : ensureDepth bound (path ++ [name]).length (dotted (path ++ [name])) with
    | error e =>
      have hdeep : ¬ Fits bound (path ++ [name]).length := fun h => by
        rw [ensureDepth_eq_ok_iff.2 h] at hhead
        cases hhead
      refine iff_of_false (by simp [bind, Except.bind]) fun hfits => hdeep fun limit hlimit => ?_
      have := hfits limit hlimit
      simp only [List.length_append, List.length_cons, List.length_nil] at this ⊢
      omega
    | ok _ =>
      have hfits := ensureDepth_eq_ok_iff.1 hhead
      change ensureWalk bound (path ++ [name]) names = .ok () ↔ _
      rw [ih, List.length_append, List.length_cons, List.length_nil, List.length_cons]
      constructor
      · rintro (rfl | h)
        · exact fun limit hlimit => by simpa using hfits limit hlimit
        · exact fun limit hlimit => by have := h limit hlimit; omega
      · exact fun h => .inr fun limit hlimit => by have := h limit hlimit; omega

/-- Setting a value walks first and edits then. -/
theorem setAt_eq (value : String) (segments : List String) (id : SchemaId) (path : List String)
    (data : Entries) :
    p.setAt c value segments id path data =
      (ensureWalk p.bound path (p.route c segments id).entered).map fun _ =>
        (p.route c segments id).edit value data := by
  induction segments generalizing id path data with
  | nil => rfl
  | cons segment rest ih =>
    rw [setAt, route]
    cases Schema.matchField? (c.schema id).toShape segment p.caseSensitive with
    | none => rfl
    | some f =>
      cases hrest : rest.isEmpty with
      | true => rfl
      | false =>
        simp only [Bool.false_eq_true, if_false]
        cases f.type.nestedSchema? with
        | none => rfl
        | some next =>
          simp only [ih, Route.edit_under]
          simp only [Route.under, ensureWalk]
          cases ensureDepth p.bound (path ++ [f.name]).length (dotted (path ++ [f.name])) with
          | error e => rfl
          | ok _ =>
            simp only [bind, Except.bind]
            cases ensureWalk p.bound (path ++ [f.name]) (p.route c rest next).entered <;> rfl

/-- A name that goes too deep is refused whatever is set so far. -/
theorem applyEntry_eq (data : Entries) (e : String × String) :
    p.applyEntry c root data e =
      (ensureWalk p.bound [] (p.routeOf c root e.1).entered).map fun _ =>
        (p.routeOf c root e.1).edit e.2 data := by
  rw [applyEntry, routeOf]
  cases p.segments? e.1 with
  | none => rfl
  | some segments => exact setAt_eq e.2 segments root [] data

theorem apply_append (env env' : List (String × String)) (data : Entries) :
    p.apply c root (env ++ env') data =
      p.apply c root env data >>= fun data => p.apply c root env' data :=
  List.foldlM_append

theorem apply_cons (e : String × String) (env : List (String × String)) (data : Entries) :
    p.apply c root (e :: env) data =
      p.applyEntry c root data e >>= fun data => p.apply c root env data :=
  List.foldlM_cons

/-- A projection keeps a map tidy. -/
theorem Tidy.apply {env : List (String × String)} {data d : Entries} (htidy : Tidy data)
    (happly : p.apply c root env data = .ok d) : Tidy d := by
  induction env generalizing data with
  | nil => exact Except.ok.inj happly ▸ htidy
  | cons e env ih =>
    rw [apply_cons, applyEntry_eq] at happly
    cases hwalk : ensureWalk p.bound [] (p.routeOf c root e.1).entered with
    | error error => simp [hwalk, bind, Except.bind, Except.map] at happly
    | ok _ =>
      rw [hwalk] at happly
      exact ih (htidy.edit _ e.2) happly

end EnvSettings.Projection
