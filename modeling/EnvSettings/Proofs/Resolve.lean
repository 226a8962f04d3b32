import EnvSettings.Resolve

namespace EnvSettings

/-- Both results are errors, or both are the same. -/
def Agree {α : Type} (x y : Except Error α) : Prop :=
  x.toOption = y.toOption

namespace Agree

variable {α β : Type} {x y : Except Error α}

theorem refl (x : Except Error α) : Agree x x :=
  rfl

/-- Steps that agree are put together to ones that do. -/
theorem bind {k k' : α → Except Error β} (h : Agree x y)
    (hk : ∀ a, x = .ok a → y = .ok a → Agree (k a) (k' a)) : Agree (x >>= k) (y >>= k') := by
  cases x with
  | error e =>
    cases y with
    | error e' => rfl
    | ok b => cases h
  | ok a =>
    cases y with
    | error e' => cases h
    | ok b =>
      obtain rfl : a = b := Option.some.inj h
      exact hk a rfl rfl

theorem of_errors {e e' : Error} : Agree (.error e : Except Error α) (.error e') :=
  rfl

end Agree

/-- The text that a violation is reported with does not decide whether there is one. -/
theorem FieldInfo.checkSetting_agree (info : FieldInfo) (v : Value)
    (path target raw raw' : String) :
    Agree (info.checkSetting v path target raw) (info.checkSetting v path target raw') := by
  rw [checkSetting, checkSetting]
  cases info.check v <;> rfl

namespace Resolver

variable {r : Resolver} {schema : Schema} {f : Field}

/-- Without transforms before coercion, a JSON object that a nested field reads from a text goes
the way of the map. -/
theorem coerceRaw_json {levels : Nat} {build : Builder} {id : SchemaId}
    (hnested : f.type.nestedSchema? = some id)
    (hbefore : schema.transforms.transforms .before f.name = []) {text : String} {j : Json}
    (hparse : Json.parse text = .ok j) {entries : Entries} (hmap : Value.ofJson j = .map entries)
    (path : String) (depth : Nat) :
    r.coerceRaw levels build schema f (.str text) path depth =
      r.coerceRaw levels build schema f (.map entries) path depth := by
  have happly : Pipeline.applyBefore r.catalog schema f path (.str text) = .ok (.str text) := by
    rw [Pipeline.applyBefore, hbefore]
    rfl
  calc r.coerceRaw levels build schema f (.str text) path depth
      = r.coerceText levels build f text path depth := by
        simp only [coerceRaw, happly]
        rfl
    _ = r.nestedRecord build id entries path depth := by
        simp only [coerceText, hnested, hparse, hmap]
    _ = r.coerceRaw levels build schema f (.map entries) path depth := by
        simp only [coerceRaw, hnested]

/-- Raw values that are brought to the same value of the type resolve alike. -/
theorem coerceField_agree {levels : Nat} {build : Builder} {raw raw' : Value} {path : String}
    {depth : Nat}
    (hraw : r.coerceRaw levels build schema f raw path depth =
      r.coerceRaw levels build schema f raw' path depth) :
    Agree (r.coerceField levels build schema f raw path depth)
      (r.coerceField levels build schema f raw' path depth) := by
  rw [coerceField, coerceField, hraw]
  refine (Agree.refl _).bind fun v _ _ => (Agree.refl _).bind fun v _ _ => ?_
  exact (FieldInfo.checkSetting_agree f.info v path _ _ _).bind fun _ _ _ => .refl _

theorem coerceFields_cons {rawOf : Field → Except Error Value}
    {coerce : Field → Value → Except Error Value} (f : Field) (fs : List Field) :
    coerceFields rawOf coerce (f :: fs) =
      (rawOf f >>= coerce f) >>= fun v =>
        coerceFields rawOf coerce fs >>= fun rest => .ok ((f.name, v) :: rest) := by
  rw [coerceFields]
  cases rawOf f <;> rfl

/-- Fields that resolve alike one by one resolve alike together. -/
theorem coerceFields_agree {rawOf rawOf' : Field → Except Error Value}
    {coerce coerce' : Field → Value → Except Error Value} {fs : List Field}
    (hfields : ∀ f ∈ fs, Agree (rawOf f >>= coerce f) (rawOf' f >>= coerce' f)) :
    Agree (coerceFields rawOf coerce fs) (coerceFields rawOf' coerce' fs) := by
  induction fs with
  | nil => exact .refl _
  | cons f fs ih =>
    obtain ⟨hhead, htail⟩ := List.forall_mem_cons.1 hfields
    rw [coerceFields_cons, coerceFields_cons]
    exact hhead.bind fun v _ _ => (ih htail).bind fun rest _ _ => .refl _

end Resolver

end EnvSettings
