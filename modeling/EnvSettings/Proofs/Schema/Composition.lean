import Mathlib
import EnvSettings.Proofs.Entries
import EnvSettings.Proofs.Schema.Calls

namespace EnvSettings

variable {α : Type} {nameOf : α → String} {ts : List α} {t : α}

/-- The elements that no later one shares its name with, in their order. -/
def standing (nameOf : α → String) : List α → List α
  | [] => []
  | t :: ts =>
    if ts.any (nameOf · == nameOf t) then standing nameOf ts else t :: standing nameOf ts

/-- One more element at the end replaces those of its name. -/
theorem standing_concat (ts : List α) (t : α) :
    standing nameOf (ts ++ [t]) = (standing nameOf ts).filter (nameOf · != nameOf t) ++ [t] := by
  induction ts with
  | nil => rfl
  | cons u ts ih =>
    rw [List.cons_append, standing, standing, ih, List.any_append]
    by_cases hlater : ts.any (nameOf · == nameOf u)
    · simp [hlater]
    · by_cases hname : nameOf t = nameOf u
      · simp [hlater, hname]
      · simp [hlater, hname, Ne.symm hname]

/-- What stands is left of the list in its order. -/
theorem standing_sublist (ts : List α) : (standing nameOf ts).Sublist ts := by
  induction ts with
  | nil => exact List.Sublist.refl _
  | cons t ts ih =>
    rw [standing]
    split
    · exact ih.cons t
    · exact ih.cons_cons t

/-- No name stands twice. -/
theorem nodup_standing (ts : List α) : ((standing nameOf ts).map nameOf).Nodup := by
  induction ts with
  | nil => exact List.nodup_nil
  | cons t ts ih =>
    rw [standing]
    split
    · exact ih
    · rename_i hlater
      rw [List.map_cons, List.nodup_cons]
      refine ⟨fun hmem => hlater ?_, ih⟩
      obtain ⟨u, hu, hname⟩ := List.mem_map.1 hmem
      exact List.any_eq_true.2 ⟨u, (standing_sublist ts).subset hu, beq_iff_eq.2 hname⟩

/-- A list in order of creation; what was created at once keeps its order. -/
def byCreation (order : α → Nat) (ts : List α) : List α :=
  ts.mergeSort fun a b => order a ≤ order b

/-- Ordering by creation moves elements only past others that were created at another time. -/
theorem byCreation_stable (order : α → Nat) (ts : List α) :
    (byCreation order ts).Perm ts ∧ (byCreation order ts).Pairwise (order · ≤ order ·) ∧
      ∀ n, (byCreation order ts).filter (order · = n) = ts.filter (order · = n) := by
  have hperm : (byCreation order ts).Perm ts := List.mergeSort_perm ts _
  have htrans : ∀ a b c : α, decide (order a ≤ order b) → decide (order b ≤ order c) →
      decide (order a ≤ order c) := by
    simp only [decide_eq_true_eq]
    intro a b c hab hbc
    omega
  have htotal : ∀ a b : α, (decide (order a ≤ order b) || decide (order b ≤ order a)) := by
    simp only [Bool.or_eq_true, decide_eq_true_eq]
    intro a b
    omega
  refine ⟨hperm, ?_, fun n => ?_⟩
  · exact (List.pairwise_mergeSort htrans htotal ts).imp fun hle => of_decide_eq_true hle
  · have heq : (ts.filter (order · = n)).Pairwise fun a b => decide (order a ≤ order b) := by
      refine List.pairwise_of_forall_mem_list fun a ha b hb => ?_
      simp only [List.mem_filter, decide_eq_true_eq] at ha hb ⊢
      omega
    have hsub : (ts.filter (order · = n)).Sublist (byCreation order ts) :=
      List.sublist_mergeSort htrans htotal heq List.filter_sublist
    have hkept := hsub.filter (order · = n)
    rw [List.filter_filter] at hkept
    simp only [Bool.and_self] at hkept
    exact (hkept.eq_of_length (hperm.filter _).length_eq.symm).symm

namespace FieldTransforms

/-- The transforms of a field of either stage. -/
def all (ts : FieldTransforms) : List FieldTransform :=
  ts.before ++ ts.after

theorem ofStage_append (ts : FieldTransforms) (t : FieldTransform) (stage : Stage) :
    (ts.append t).ofStage stage = ts.ofStage stage ++ if t.stage = stage then [t] else [] := by
  cases stage <;> cases hstage : t.stage <;> simp [append, ofStage, hstage]

theorem ofStage_removeNamed (ts : FieldTransforms) (name : String) (stage : Stage) :
    (ts.removeNamed name).ofStage stage = (ts.ofStage stage).filter (·.name != name) := by
  cases stage <;> rfl

/-- Removing a name takes it out of all transforms of a field. -/
theorem all_removeNamed (ts : FieldTransforms) (name : String) :
    (ts.removeNamed name).all = ts.all.filter (·.name != name) :=
  (List.filter_append ..).symm

theorem all_append (ts : FieldTransforms) (t : FieldTransform) :
    (ts.append t).all.Perm (ts.all ++ [t]) := by
  cases hstage : t.stage with
  | before =>
    simp only [append, hstage, all, List.append_assoc]
    exact List.perm_append_comm.append_left ts.before
  | after => simp [append, hstage, all]

end FieldTransforms

namespace TransformRegistry

variable {r : TransformRegistry}

/-- All transforms that are registered, for whatever field and stage. -/
def all (r : TransformRegistry) : List FieldTransform :=
  r.slots.flatMap fun slot => slot.2.all

/-- Removing a name takes it out of the transforms of every field. -/
theorem slot_map_removeNamed (r : TransformRegistry) (name field : String) :
    slot ⟨r.slots.map fun (f, ts) => (f, ts.removeNamed name)⟩ field =
      (r.slot field).removeNamed name := by
  unfold slot
  induction r.slots with
  | nil => rfl
  | cons e slots ih =>
    rw [List.map_cons, Entries.lookup_cons_eq, Entries.lookup_cons_eq]
    by_cases hfield : field = e.1
    · rw [if_pos hfield, if_pos hfield, Option.getD_some, Option.getD_some]
    · rw [if_neg hfield, if_neg hfield]
      exact ih

/-- A declaration goes to the field that it names, and replaces those of its name under all
fields. -/
theorem slot_declare (r : TransformRegistry) (t : FieldTransform) (field : String) :
    (r.declare t).slot field =
      if field = t.field then ((r.slot field).removeNamed t.name).append t
      else (r.slot field).removeNamed t.name := by
  rw [declare, slot_map_removeNamed, slot, Entries.lookup_put]
  by_cases hfield : field = t.field
  · rw [if_pos hfield, if_pos hfield, Option.getD_some, hfield]
  · rw [if_neg hfield, if_neg hfield]
    exact slot_map_removeNamed r t.name field

/-- Declaring a transform takes those of its name away from every field and stage, and puts it last
where it belongs. -/
theorem transforms_declare (r : TransformRegistry) (t : FieldTransform) (stage : Stage)
    (field : String) :
    (r.declare t).transforms stage field =
      (r.transforms stage field).filter (·.name != t.name) ++
        if t.field = field ∧ t.stage = stage then [t] else [] := by
  rw [transforms, slot_declare, transforms]
  by_cases hfield : t.field = field
  · rw [if_pos hfield.symm, FieldTransforms.ofStage_append, FieldTransforms.ofStage_removeNamed]
    simp [hfield]
  · rw [if_neg (Ne.symm hfield), FieldTransforms.ofStage_removeNamed]
    simp [hfield]

/-- An added transform is one more in the registry. -/
theorem flatMap_put_perm (slots : List (String × FieldTransforms)) (t : FieldTransform) :
    ((Entries.put t.field (((slots.lookup t.field).getD {}).append t) slots).flatMap
      fun slot => slot.2.all).Perm (slots.flatMap (fun slot => slot.2.all) ++ [t]) := by
  induction slots with
  | nil =>
    simp only [List.lookup_nil, Option.getD_none, Entries.put, List.flatMap_cons, List.flatMap_nil,
      List.append_nil]
    exact FieldTransforms.all_append {} t
  | cons e slots ih =>
    rw [Entries.lookup_cons_eq, Entries.put]
    by_cases hfield : e.1 = t.field
    · rw [if_pos hfield, if_pos hfield.symm, List.flatMap_cons, List.flatMap_cons]
      calc (e.2.append t).all ++ slots.flatMap (fun slot => slot.2.all)
        _ |>.Perm (e.2.all ++ [t] ++ slots.flatMap fun slot => slot.2.all) :=
          (FieldTransforms.all_append e.2 t).append_right _
        _ |>.Perm (e.2.all ++ slots.flatMap (fun slot => slot.2.all) ++ [t]) := by
          rw [List.append_assoc, List.append_assoc]
          exact List.perm_append_comm.append_left _
    · rw [if_neg hfield, if_neg (Ne.symm hfield), List.flatMap_cons, List.flatMap_cons,
        List.append_assoc]
      exact ih.append_left _

/-- A declaration replaces those of its name, and is one more. -/
theorem all_declare_perm (r : TransformRegistry) (t : FieldTransform) :
    (r.declare t).all.Perm (r.all.filter (·.name != t.name) ++ [t]) := by
  refine (flatMap_put_perm _ t).trans (List.Perm.of_eq ?_)
  rw [all, List.filter_flatMap, List.flatMap_map]
  simp only [FieldTransforms.all_removeNamed]

/-- A registry holds the last declaration of each name, and nothing else. -/
structure Composed (r : TransformRegistry) (ts : List FieldTransform) : Prop where
  transforms : ∀ stage field, r.transforms stage field =
    (standing (·.name) ts).filter fun t => t.field = field ∧ t.stage = stage
  all : r.all.Perm (standing (·.name) ts)

/-- The empty registry is composed of no declarations. -/
theorem composed_empty : Composed {} [] where
  transforms stage field := by cases stage <;> rfl
  all := List.Perm.refl _

/-- A declaration composes a registry with one more. -/
theorem Composed.declare {ts : List FieldTransform} (hr : Composed r ts) (t : FieldTransform) :
    Composed (r.declare t) (ts ++ [t]) where
  transforms stage field := by
    rw [transforms_declare, hr.transforms, standing_concat, List.filter_append,
      List.filter_comm, List.filter_singleton]
    simp only [Bool.cond_decide]
  all := by
    rw [standing_concat]
    exact (all_declare_perm r t).trans ((hr.all.filter _).append_right [t])

/-- Declarations compose a registry one after the other. -/
theorem Composed.foldl_declare {ts : List FieldTransform} (hr : Composed r ts)
    (declared : List FieldTransform) :
    Composed (declared.foldl TransformRegistry.declare r) (ts ++ declared) := by
  induction declared generalizing r ts with
  | nil => rwa [List.append_nil]
  | cons t declared ih =>
    rw [List.foldl_cons, List.append_cons]
    exact ih (hr.declare t)

/-- Composing adds the declared transforms to those that have been declared before. -/
theorem Composed.compose {ts : List FieldTransform} (hr : Composed r ts)
    (declared : List FieldTransform) :
    Composed (compose r declared) (ts ++ byCreation (·.order) declared) :=
  hr.foldl_declare _

end TransformRegistry

/-- The same for record transforms. -/
theorem composeRecordTransforms_standing (ts declared : List RecordTransform) :
    composeRecordTransforms (standing (·.name) ts) declared =
      standing (·.name) (ts ++ byCreation (·.order) declared) := by
  rw [composeRecordTransforms, ← byCreation]
  generalize byCreation (·.order) declared = declared
  induction declared generalizing ts with
  | nil => rw [List.append_nil, List.foldl_nil]
  | cons t declared ih =>
    rw [List.foldl_cons, List.append_cons, ← ih (ts ++ [t]), standing_concat,
      declareRecordTransform]

namespace SchemaBuilder

/-- The field transforms that calls declare, in order of creation. -/
def declaredTransforms (calls : List Call) : List FieldTransform :=
  byCreation (·.order) (calls.filterMap Call.transform?)

/-- The record transforms that calls declare, in order of creation. -/
def declaredRecordTransforms (calls : List Call) : List RecordTransform :=
  byCreation (·.order) (calls.filterMap Call.recordTransform?)

end SchemaBuilder

namespace Schema

open SchemaBuilder

variable {levels : List (List Call)} {s : Schema}

/-- The calls that build a schema without a parent, then those that build the next schema on it, and
so on down to a schema. -/
inductive Lineage : List (List Call) → Schema → Prop
  | root {name : String} {calls : List Call} {s : Schema} (hparent : parent? calls = none)
      (hbuild : (ofCalls name calls).build = .ok s) : Lineage [calls] s
  | extend {levels : List (List Call)} {parent : Schema} {name : String} {calls : List Call}
      {s : Schema} (hancestors : Lineage levels parent) (hparent : parent? calls = some parent)
      (hbuild : (ofCalls name calls).build = .ok s) : Lineage (levels ++ [calls]) s

/-- Whatever is built has a lineage. -/
theorem Built.exists_lineage (hbuilt : Built s) : ∃ levels, Lineage levels s := by
  induction hbuilt with
  | @intro name calls s hparents hbuild ih =>
    cases hparent : parent? calls with
    | none => exact ⟨_, .root hparent hbuild⟩
    | some parent =>
      obtain ⟨levels, hancestors⟩ := ih parent (inherit_mem_of_parent? hparent)
      exact ⟨_, .extend hancestors hparent hbuild⟩

/-- A schema has the transforms of its parent below its own. -/
theorem transforms_of_build {name : String} {calls : List Call}
    (hbuild : (ofCalls name calls).build = .ok s) :
    s.transforms = TransformRegistry.compose ((parent? calls).getD { name := "" }).transforms
        (calls.filterMap Call.transform?) ∧
      s.recordTransforms =
        composeRecordTransforms ((parent? calls).getD { name := "" }).recordTransforms
          (calls.filterMap Call.recordTransform?) := by
  obtain ⟨fields, -, -, -, rfl⟩ := build_eq_ok_iff.1 hbuild
  rw [inherited_ofCalls, transforms_ofCalls, recordTransforms_ofCalls]
  exact ⟨rfl, rfl⟩

/-- The transforms of a schema are composed of all declarations down its lineage. -/
theorem Lineage.composed (hlineage : Lineage levels s) :
    s.transforms.Composed (levels.flatMap declaredTransforms) ∧
      s.recordTransforms = standing (·.name) (levels.flatMap declaredRecordTransforms) := by
  induction hlineage with
  | root hparent hbuild =>
    obtain ⟨htransforms, hrecord⟩ := transforms_of_build hbuild
    rw [htransforms, hrecord, hparent, List.flatMap_singleton, List.flatMap_singleton]
    exact ⟨TransformRegistry.composed_empty.compose _, composeRecordTransforms_standing [] _⟩
  | extend hancestors hparent hbuild ih =>
    obtain ⟨htransforms, hrecord⟩ := transforms_of_build hbuild
    obtain ⟨hcomposed, hstanding⟩ := ih
    rw [htransforms, hrecord, hparent, Option.getD_some, hstanding,
      composeRecordTransforms_standing, List.flatMap_append, List.flatMap_append,
      List.flatMap_singleton, List.flatMap_singleton]
    exact ⟨hcomposed.compose _, rfl⟩

/-- Along a lineage the last declaration of each name stands. The transforms of a field at a stage
are those declarations that are bound to them, in the order of all declarations, and no name is
registered twice. The same holds of record transforms. -/
theorem lineage_transforms (hlineage : Lineage levels s) :
    (∀ stage field, s.transforms.transforms stage field =
        (standing (·.name) (levels.flatMap declaredTransforms)).filter
          fun t => t.field = field ∧ t.stage = stage) ∧
      (s.transforms.all.map (·.name)).Nodup ∧
      s.recordTransforms = standing (·.name) (levels.flatMap declaredRecordTransforms) ∧
      (s.recordTransforms.map (·.name)).Nodup := by
  obtain ⟨hcomposed, hrecord⟩ := hlineage.composed
  refine ⟨hcomposed.transforms, ?_, hrecord, ?_⟩
  · exact (hcomposed.all.map _).nodup_iff.2 (nodup_standing _)
  · rw [hrecord]
    exact nodup_standing _

/-- A transform that leaves values as they are. -/
def idle (name field : String) (stage : Stage) (order : Nat) : FieldTransform where
  name
  field
  stage
  order
  run _ v := .ok v

/-- A record transform that leaves records as they are. -/
def idleRecord (name : String) (order : Nat) : RecordTransform where
  name
  order
  run _ r := .ok r

/-- A service declares its transforms against the order of their creation. -/
def serviceCalls : List Call := [
  .field { name := "host", type := .str }, .field { name := "port", type := .int },
  .transform (idle "check" "port" .after 2), .transform (idle "trim" "host" .before 1),
  .recordTransform (idleRecord "audit" 0)]

/-- What the calls of the service build. -/
def service : Schema where
  name := "Service"
  fields := [{ name := "host", type := .str }, { name := "port", type := .int }]
  transforms := ⟨[("host", { before := [idle "trim" "host" .before 1] }),
    ("port", { after := [idle "check" "port" .after 2] })]⟩
  recordTransforms := [idleRecord "audit" 0]

/-- A proxy binds the name of a transform to another field and stage. -/
def proxyCalls : List Call := [
  .inherit service, .transform (idle "trim" "port" .after 3),
  .recordTransform (idleRecord "seal" 4)]

/-- What the calls of the proxy build, below the service. -/
def proxy : Schema where
  name := "Proxy"
  fields := [{ name := "host", type := .str }, { name := "port", type := .int }]
  transforms := ⟨[("host", {}),
    ("port", { after := [idle "check" "port" .after 2, idle "trim" "port" .after 3] })]⟩
  recordTransforms := [idleRecord "audit" 0, idleRecord "seal" 4]

/-- A gateway does so once more, and declares a record transform of the service again. -/
def gatewayCalls : List Call := [
  .transform (idle "check" "host" .before 6), .inherit proxy,
  .transform (idle "mask" "host" .before 5), .recordTransform (idleRecord "audit" 7)]

/-- What the calls of the gateway build, below the proxy. -/
def gateway : Schema where
  name := "Gateway"
  fields := [{ name := "host", type := .str }, { name := "port", type := .int }]
  transforms := ⟨[("host", { before := [idle "mask" "host" .before 5,
      idle "check" "host" .before 6] }),
    ("port", { after := [idle "trim" "port" .after 3] })]⟩
  recordTransforms := [idleRecord "seal" 4, idleRecord "audit" 7]

/-- The gateway descends from the proxy and that from the service. -/
theorem lineage_gateway : Lineage [serviceCalls, proxyCalls, gatewayCalls] gateway := by
  have hservice : (ofCalls "Service" serviceCalls).build = .ok service := by cbv
  have hproxy : (ofCalls "Proxy" proxyCalls).build = .ok proxy := by cbv
  have hgateway : (ofCalls "Gateway" gatewayCalls).build = .ok gateway := by cbv
  exact .extend (.extend (.root rfl hservice) rfl hproxy) rfl hgateway

/-- Of the six declarations of four names, the last ones stand. -/
theorem lineage_transforms_gateway :
    Lineage [serviceCalls, proxyCalls, gatewayCalls] gateway ∧
      ((gateway.transforms.transforms .before "host").map (·.name) = ["mask", "check"] ∧
        (gateway.transforms.transforms .after "port").map (·.name) = ["trim"]) ∧
      (gateway.transforms.all.map (·.name)).Nodup ∧
      gateway.recordTransforms.map (·.name) = ["seal", "audit"] := by
  obtain ⟨htransforms, hnodup, hrecord, -⟩ := lineage_transforms lineage_gateway
  refine ⟨lineage_gateway, ?_, hnodup, ?_⟩
  · rw [htransforms, htransforms]
    constructor <;> cbv
  · rw [hrecord]
    cbv

end Schema

end EnvSettings
