import Mathlib
import EnvSettings.Document.Declarations
import EnvSettings.Proofs.Entries
import EnvSettings.Proofs.Except

namespace EnvSettings.Document

section Checks

variable {α : Type} {name : α → String} {proper : α → Prop} {seen : List String}

/-- Declarations that are proper and have different names, none of them seen before. -/
def Distinct (proper : α → Prop) (name : α → String) (seen : List String) (as : List α) : Prop :=
  (∀ a ∈ as, proper a ∧ name a ∉ seen) ∧ (as.map name).Nodup

theorem distinct_nil : Distinct proper name seen [] :=
  ⟨List.forall_mem_nil _, List.nodup_nil⟩

/-- Names are distinct if the first one is new and the others are distinct behind it. -/
theorem distinct_cons_iff {a : α} {as : List α} :
    Distinct proper name seen (a :: as) ↔
      (proper a ∧ name a ∉ seen) ∧ Distinct proper name (name a :: seen) as := by
  have hfresh : (∀ b ∈ as, proper b ∧ name b ∉ name a :: seen) ↔
      (∀ b ∈ as, proper b ∧ name b ∉ seen) ∧ name a ∉ as.map name := by
    simp only [List.mem_cons, List.mem_map, not_or, not_exists, not_and, ← forall_and]
    exact forall_congr' fun b => by tauto
  simp only [Distinct, List.forall_mem_cons, List.map_cons, List.nodup_cons, hfresh]
  tauto

/-- Enums pass the check if they have members and distinct names. -/
theorem checkEnums_eq_ok_iff {enums : List EnumSpec} :
    checkEnums seen enums = .ok () ↔
      Distinct (fun e => e.members ≠ []) (fun e => e.name) seen enums := by
  induction enums generalizing seen with
  | nil => exact iff_of_true rfl distinct_nil
  | cons e enums ih =>
    rw [checkEnums, distinct_cons_iff, ← ih]
    by_cases hmembers : e.members = []
    · simp [hmembers]
    · by_cases hseen : e.name ∈ seen <;> simp [hmembers, hseen]

/-- Schemas pass the check if their names are distinct and mean nothing else. -/
theorem checkSchemas_eq_ok_iff {enums : List String} {outlines : List SchemaOutline} :
    checkSchemas enums seen outlines = .ok () ↔
      Distinct (fun s => s.name ∉ enums ∧ TypeExpr.isBuiltin s.name = false) (fun s => s.name) seen
        outlines := by
  induction outlines generalizing seen with
  | nil => exact iff_of_true rfl distinct_nil
  | cons s outlines ih =>
    rw [checkSchemas, distinct_cons_iff, ← ih]
    by_cases henum : s.name ∈ enums
    · simp [henum]
    · cases hbuiltin : TypeExpr.isBuiltin s.name with
      | true => simp
      | false => by_cases hseen : s.name ∈ seen <;> simp [henum, hseen]

end Checks

namespace Declarations

variable {d : Declarations} {name : String}

/-- The name of the schema at a position. -/
def nameOf (d : Declarations) (id : SchemaId) : String :=
  d.names.getD id ""

/-- A position in the document has a declared name. -/
theorem nameOf_mem (d : Declarations) {id : SchemaId} (hid : id < d.names.length) :
    d.nameOf id ∈ d.names := by
  rw [nameOf, List.getD_eq_getElem _ _ hid]
  exact List.getElem_mem hid

/-- Declarations with their names in order. -/
structure Proper (d : Declarations) : Prop where
  enums : Distinct (fun e => e.members ≠ []) (fun e => e.name) [] d.enums
  schemas : Distinct (fun s => s.name ∉ d.enums.map (·.name) ∧ TypeExpr.isBuiltin s.name = false)
    (fun s => s.name) [] d.schemas
  root : d.root ∈ d.names

/-- An outline with its names in order declares what it says. -/
theorem proper_of_declare {o : Outline} (hdeclare : o.declare = .ok d) :
    d.Proper ∧ d.enums = o.enums ∧ d.schemas = o.schemas := by
  unfold Outline.declare at hdeclare
  obtain ⟨root, -, hdeclare⟩ := bind_eq_ok_iff.1 hdeclare
  obtain ⟨_, henums, hdeclare⟩ := bind_eq_ok_iff.1 hdeclare
  obtain ⟨_, hschemas, hdeclare⟩ := bind_eq_ok_iff.1 hdeclare
  by_cases hroot : o.schemas.any (·.name == root) = true
  · rw [if_pos hroot] at hdeclare
    obtain rfl := Except.ok.inj hdeclare
    obtain ⟨s, hs, hname⟩ := List.any_eq_true.1 hroot
    exact ⟨⟨checkEnums_eq_ok_iff.1 henums, checkSchemas_eq_ok_iff.1 hschemas,
      List.mem_map.2 ⟨s, hs, beq_iff_eq.1 hname⟩⟩, rfl, rfl⟩
  · rw [if_neg hroot] at hdeclare
    cases hdeclare

namespace Proper

theorem nodup_names (hd : d.Proper) : d.names.Nodup :=
  hd.schemas.2

/-- The name of a schema means nothing without its declaration. -/
theorem not_isBuiltin (hd : d.Proper) (hname : name ∈ d.names) :
    TypeExpr.isBuiltin name = false := by
  obtain ⟨s, hs, rfl⟩ := List.mem_map.1 hname
  exact (hd.schemas.1 s hs).1.2

/-- No declared schema has the name of an enum. -/
theorem enum?_eq_none (hd : d.Proper) : ∀ name ∈ d.names, d.enum? name = none := by
  intro name hname
  obtain ⟨s, hs, rfl⟩ := List.mem_map.1 hname
  rw [enum?, List.find?_eq_none]
  exact fun e he heq => (hd.schemas.1 s hs).1.1 (List.mem_map.2 ⟨e, he, beq_iff_eq.1 heq⟩)

/-- An enum is found by its name. -/
theorem enum?_eq_some (hd : d.Proper) {spec : EnumSpec} (hspec : spec ∈ d.enums) :
    d.enum? spec.name = some spec := by
  refine find?_eq_some_of_unique hspec (beq_self_eq_true spec.name) fun other hother hname => ?_
  exact List.inj_on_of_nodup_map hd.enums.2 hother hspec (beq_iff_eq.1 hname)

/-- The outline of a schema is found by its name. -/
theorem schema?_eq_some (hd : d.Proper) {s : SchemaOutline} (hs : s ∈ d.schemas) :
    d.schema? s.name = some s := by
  refine find?_eq_some_of_unique hs (beq_self_eq_true s.name) fun other hother hname => ?_
  exact List.inj_on_of_nodup_map hd.nodup_names hother hs (beq_iff_eq.1 hname)

/-- The name of a schema stands for its position. -/
theorem idOf_nameOf (hd : d.Proper) {id : SchemaId} (hid : id < d.names.length) :
    d.idOf (d.nameOf id) = id := by
  rw [nameOf, List.getD_eq_getElem _ _ hid, idOf, hd.nodup_names.idxOf_getElem id hid]

end Proper

end Declarations

end EnvSettings.Document
