import EnvSettings.Config
import EnvSettings.FieldInfo
import EnvSettings.FieldType

namespace EnvSettings

/-- A field of a schema with its resolved metadata. -/
structure Field where
  name : String
  type : FieldType
  info : FieldInfo := {}
  deriving Inhabited

namespace Field

/-- The names under which the environment may give the field, the preferred one first. -/
def envNames (f : Field) : List String :=
  match f.info.envAlias with
  | some other => if other = f.name then [f.name] else [other, f.name]
  | none => [f.name]

/-- The name that messages and examples give. -/
def primaryName (f : Field) : String :=
  f.info.envAlias.getD f.name

end Field

/-- The part of a schema that its transforms see. -/
structure Shape where
  name : String
  fields : List Field := []
  config : Option Config := none
  deriving Inhabited

/-- Why a transform fails: for a reason of its own, or with an error of the library. -/
inductive Failure where
  | text (reason : String)
  | error (e : Error)

/-- When a field transform runs. -/
inductive Stage where
  | before
  | after
  deriving DecidableEq, Repr

/-- The mode of a stage in messages. -/
def Stage.mode : Stage → TransformMode
  | before => .before
  | after => .after

/-- A function on the values of a field. `order` tells which of two transforms was created first. -/
structure FieldTransform where
  name : String
  field : String
  stage : Stage
  order : Nat
  run : Shape → Value → Except Failure Value

/-- A function on whole records. Where it fails it tells how far it has changed the record. -/
structure RecordTransform where
  name : String
  order : Nat
  run : Shape → Record → Except (Failure × Record) Record

/-- The transforms of one field in the order in which they run. -/
structure FieldTransforms where
  before : List FieldTransform := []
  after : List FieldTransform := []

namespace FieldTransforms

/-- The transforms of a stage, in the order in which they run. -/
def ofStage (ts : FieldTransforms) : Stage → List FieldTransform
  | .before => ts.before
  | .after => ts.after

/-- The transforms with one more, which runs last in its stage. -/
def append (ts : FieldTransforms) (t : FieldTransform) : FieldTransforms :=
  match t.stage with
  | .before => { ts with before := ts.before ++ [t] }
  | .after => { ts with after := ts.after ++ [t] }

/-- The transforms without those of a name. -/
def removeNamed (ts : FieldTransforms) (name : String) : FieldTransforms :=
  ⟨ts.before.filter (·.name != name), ts.after.filter (·.name != name)⟩

end FieldTransforms

/-- The field transforms of a schema by field. -/
structure TransformRegistry where
  slots : List (String × FieldTransforms) := []

namespace TransformRegistry

/-- The transforms of a field. -/
def slot (r : TransformRegistry) (field : String) : FieldTransforms :=
  (r.slots.lookup field).getD {}

/-- The transforms of a field at a stage, in the order in which they run. -/
def transforms (r : TransformRegistry) (stage : Stage) (field : String) : List FieldTransform :=
  (r.slot field).ofStage stage

/-- Declares a transform: all transforms of its name go, and it runs last for its field. -/
def declare (r : TransformRegistry) (t : FieldTransform) : TransformRegistry :=
  let kept : TransformRegistry := ⟨r.slots.map fun (f, ts) => (f, ts.removeNamed t.name)⟩
  ⟨Entries.put t.field ((kept.slot t.field).append t) kept.slots⟩

/-- The inherited transforms and the declared ones, which take effect in order of creation. -/
def compose (inherited : TransformRegistry) (declared : List FieldTransform) : TransformRegistry :=
  (declared.mergeSort fun a b => a.order ≤ b.order).foldl TransformRegistry.declare inherited

end TransformRegistry

/-- Declares a record transform: one of its name goes, and it runs last. -/
def declareRecordTransform (ts : List RecordTransform) (t : RecordTransform) :
    List RecordTransform :=
  ts.filter (·.name != t.name) ++ [t]

/-- The inherited record transforms and the declared ones, in order of creation. -/
def composeRecordTransforms (inherited declared : List RecordTransform) : List RecordTransform :=
  (declared.mergeSort fun a b => a.order ≤ b.order).foldl declareRecordTransform inherited

end EnvSettings
