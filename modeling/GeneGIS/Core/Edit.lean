/-
`EditableLayer.apply` updates a layer in place.  Revisions are 64-bit counters; the layer and most
features saturate, and a split adds one and wraps.
-/
import GeneGIS.Data.Fallible
import GeneGIS.Crs

namespace GeneGIS

open Std

open Fallible (check lift)

def u64Max : Nat := 18446744073709551615

def saturatingSucc (n : Nat) : Nat := min (n + 1) u64Max

inductive AttributeValue where
  | null
  | boolean (b : Bool)
  | integer (n : Int)
  | number (x : F64)
  | text (s : String)
  deriving DecidableEq

def AttributeValue.toJson : AttributeValue → Value
  | .null => .object [("type", .str "null")]
  | .boolean b => .object [("type", .str "boolean"), ("value", .bool b)]
  | .integer n => .object [("type", .str "integer"), ("value", .ofInt n)]
  | .number x => .object [("type", .str "number"), ("value", .ofF64 x)]
  | .text s => .object [("type", .str "text"), ("value", .str s)]

inductive AttributeType where
  | boolean
  | integer
  | number
  | text
  deriving DecidableEq

def AttributeType.asStr : AttributeType → String
  | .boolean => "boolean"
  | .integer => "integer"
  | .number => "number"
  | .text => "text"

structure AttributeField where
  name : String
  valueType : AttributeType
  nullable : Bool
  deriving DecidableEq

def AttributeField.toJson (f : AttributeField) : Value :=
  .object [("name", .str f.name), ("value_type", .str f.valueType.asStr),
    ("nullable", .bool f.nullable)]

structure FeatureSchema where
  primaryKey : String
  fields : List AttributeField
  deriving DecidableEq

def FeatureSchema.toJson (s : FeatureSchema) : Value :=
  .object [("primary_key", .str s.primaryKey), ("fields", .ofList AttributeField.toJson s.fields)]

inductive EditableGeometryKind where
  | point
  | lineString
  | polygon
  deriving DecidableEq

def EditableGeometryKind.asStr : EditableGeometryKind → String
  | .point => "point"
  | .lineString => "line_string"
  | .polygon => "polygon"

abbrev Point := F64 × F64

abbrev Ring := List Point

def Point.toJson (p : Point) : Value := .ofList .ofF64 [p.1, p.2]

def Point.eq (p q : Point) : Bool := F64.eq p.1 q.1 && F64.eq p.2 q.2

inductive FeatureGeometry where
  | point (p : Point)
  | lineString (points : List Point)
  | polygon (rings : List Ring)
  | multiPolygon (polygons : List (List Ring))
  deriving DecidableEq

namespace FeatureGeometry

def toJson : FeatureGeometry → Value
  | .point p => .object [("type", .str "point"), ("coordinates", Point.toJson p)]
  | .lineString points =>
    .object [("type", .str "line_string"), ("coordinates", .ofList Point.toJson points)]
  | .polygon rings =>
    .object [("type", .str "polygon"), ("coordinates", .ofList (.ofList Point.toJson) rings)]
  | .multiPolygon polygons =>
    .object [("type", .str "multi_polygon"),
      ("coordinates", .ofList (.ofList (.ofList Point.toJson)) polygons)]

def kind : FeatureGeometry → EditableGeometryKind
  | .point _ => .point
  | .lineString _ => .lineString
  | .polygon _ | .multiPolygon _ => .polygon

def coordinates : FeatureGeometry → List Point
  | .point p => [p]
  | .lineString points => points
  | .polygon rings => rings.flatten
  | .multiPolygon polygons => polygons.flatten.flatten

def edges : Ring → List (Point × Point)
  | a :: b :: rest => (a, b) :: edges (b :: rest)
  | _ => []

def ringArea (ring : Ring) : F64 :=
  let cross := fun (e : Point × Point) => F64.sub (F64.mul e.1.1 e.2.2) (F64.mul e.2.1 e.1.2)
  F64.div (F64.abs (F64.sum ((edges ring).map cross))) (.ofNat 2)

def polygonArea (rings : List Ring) : F64 := F64.sub (match rings with
    | [] => .zero
    | ring :: _ => ringArea ring) (F64.sum ((rings.drop 1).map ringArea))

def area : FeatureGeometry → F64
  | .polygon rings => polygonArea rings
  | .multiPolygon polygons => F64.sum (polygons.map polygonArea)
  | .point _ | .lineString _ => .zero

/-- `Vec::dedup`: drop a point equal to the one kept before it. -/
def dedup : Ring → Ring
  | [] => []
  | a :: rest => a :: go a rest
where
  go (kept : Point) : Ring → Ring
    | [] => []
    | b :: rest => if Point.eq b kept then go kept rest else b :: go b rest

def repairRing (ring : Ring) : Ring :=
  let ring := dedup ring
  match ring, ring.getLast? with
  | first :: _, some last => if Point.eq last first then ring else ring ++ [first]
  | _, _ => ring

def repair : FeatureGeometry → FeatureGeometry
  | .polygon rings => .polygon (rings.map repairRing)
  | .multiPolygon polygons => .multiPolygon (polygons.map (·.map repairRing))
  | other => other

def polygons : FeatureGeometry → Option (List (List Ring))
  | .polygon rings => some [rings]
  | .multiPolygon polygons => some polygons
  | .point _ | .lineString _ => none

end FeatureGeometry

abbrev Attributes := ExtTreeMap String AttributeValue

structure EditableFeature where
  id : String
  revision : Nat
  geometry : FeatureGeometry
  attributes : Attributes
  deriving DecidableEq

def EditableFeature.toJson (f : EditableFeature) : Value :=
  .object [("id", .str f.id), ("revision", .ofNat f.revision), ("geometry", f.geometry.toJson),
    ("attributes", .ofMap AttributeValue.toJson f.attributes)]

structure FeatureDraft where
  id : String
  geometry : FeatureGeometry
  attributes : Attributes
  deriving DecidableEq

def FeatureDraft.toJson (d : FeatureDraft) : Value :=
  .object [("id", .str d.id), ("geometry", d.geometry.toJson),
    ("attributes", .ofMap AttributeValue.toJson d.attributes)]

def intoFeature (draft : FeatureDraft) (revision : Nat) : EditableFeature :=
  { id := draft.id, revision := revision, geometry := draft.geometry,
    attributes := draft.attributes }

inductive FeatureEdit where
  | create (feature : FeatureDraft)
  | update (feature : FeatureDraft) (expectedFeatureRevision : Nat)
  | delete (featureId : String) (expectedFeatureRevision : Nat)
  | split (featureId : String) (expectedFeatureRevision : Nat) (parts : List FeatureDraft)
  | merge (featureIds : List String) (expectedFeatureRevisions : List Nat) (merged : FeatureDraft)
  | repair (featureId : String) (expectedFeatureRevision : Nat)
  deriving DecidableEq

namespace FeatureEdit

def workflowOperation : FeatureEdit → String
  | .create .. => "EditFeatureCreate"
  | .update .. => "EditFeatureUpdate"
  | .delete .. => "EditFeatureDelete"
  | .split .. => "EditFeatureSplit"
  | .merge .. => "EditFeatureMerge"
  | .repair .. => "EditFeatureRepair"

def toJson : FeatureEdit → Value
  | .create feature => .object [("operation", .str "create"), ("feature", feature.toJson)]
  | .update feature revision =>
    .object [("operation", .str "update"), ("feature", feature.toJson),
      ("expected_feature_revision", .ofNat revision)]
  | .delete id revision =>
    .object [("operation", .str "delete"), ("feature_id", .str id),
      ("expected_feature_revision", .ofNat revision)]
  | .split id revision parts =>
    .object [("operation", .str "split"), ("feature_id", .str id),
      ("expected_feature_revision", .ofNat revision),
      ("parts", .ofList FeatureDraft.toJson parts)]
  | .merge ids revisions merged =>
    .object [("operation", .str "merge"), ("feature_ids", .ofList .str ids),
      ("expected_feature_revisions", .ofList .ofNat revisions), ("merged", merged.toJson)]
  | .repair id revision =>
    .object [("operation", .str "repair"), ("feature_id", .str id),
      ("expected_feature_revision", .ofNat revision)]

end FeatureEdit

structure MutationWorkflowBinding where
  workflowId : Uuid
  nodeId : String
  deriving DecidableEq

def MutationWorkflowBinding.toJson (b : MutationWorkflowBinding) : Value :=
  .object [("workflow_id", .str b.workflowId.toText), ("node_id", .str b.nodeId)]

structure EditableLayer where
  layerId : Uuid
  crs : Crs
  coordinateUnit : CoordinateUnit
  geometryKind : EditableGeometryKind
  schema : FeatureSchema
  revision : Nat
  features : ExtTreeMap String EditableFeature
  deriving DecidableEq

structure EditReceipt where
  beforeRevision : Nat
  afterRevision : Nat
  changedFeatures : List String

def EditReceipt.toJson (r : EditReceipt) : Value :=
  .object [("before_revision", .ofNat r.beforeRevision), ("after_revision", .ofNat r.afterRevision),
    ("changed_features", .ofList .str r.changedFeatures)]

inductive EditError where
  | staleRevision (expected actual : Nat)
  | featureNotFound (id : String)
  | duplicateFeature (id : String)
  | geometry (reason : String)
  | attributes (reason : String)
  | conservation (reason : String)
  | areaChanged (input output : F64)
  | layer (reason : String)
  | layerCrs (error : CrsError)
  deriving DecidableEq

namespace EditableLayer

def toJson (l : EditableLayer) : Value :=
  .object [("layer_id", .str l.layerId.toText), ("crs", l.crs.toJson),
    ("coordinate_unit", l.coordinateUnit.toJson), ("geometry_kind", .str l.geometryKind.asStr),
    ("schema", l.schema.toJson), ("revision", .ofNat l.revision),
    ("features", .ofMap EditableFeature.toJson l.features)]

/-! ## Validation -/

abbrev Check := Except EditError Unit

def require (holds : Bool) (error : EditError) : Check :=
  if holds then .ok () else .error error

def validateSchema (schema : FeatureSchema) : Check := do
  require (!Text.isBlank schema.primaryKey && !schema.fields.isEmpty)
    (.layer "schema needs a primary key and at least one field")
  let names := schema.fields.map AttributeField.name
  require ((ExtTreeSet.ofList names).size = schema.fields.length && schema.primaryKey ∈ names)
    (.layer "schema field names must be unique and include the primary key")
  match schema.fields.find? fun field => field.name = schema.primaryKey with
  | none => .error (.layer "checked primary key")
  | some key =>
    require (!key.nullable && (key.valueType = .integer || key.valueType = .text))
      (.layer "primary key must be non-null text or integer")

def admits (field : AttributeField) : AttributeValue → Bool
  | .null => field.nullable
  | .boolean _ => field.valueType = .boolean
  | .integer _ => field.valueType = .integer
  | .number x => field.valueType = .number && x.isFinite
  | .text _ => field.valueType = .text

def validateFields (values : Attributes) : List AttributeField → Check
  | [] => .ok ()
  | field :: rest =>
    match values[field.name]? with
    | none => .error (.attributes ("missing field " ++ field.name))
    | some value => do
      require (admits field value)
        (.attributes ("field " ++ field.name ++ " violates type or null policy"))
      validateFields values rest

def validateAttributes (values : Attributes) (schema : FeatureSchema) : Check := do
  require (values.size = schema.fields.length)
    (.attributes "attributes must exactly match the closed schema")
  validateFields values schema.fields

def closedRing (ring : Ring) : Bool := 4 ≤ ring.length &&
    match ring.head?, ring.getLast? with
    | some first, some last => Point.eq first last
    | _, _ => true

def validateRings (rings : List Ring) : Check := do
  require (!rings.isEmpty && rings.all closedRing)
    (.geometry "polygon rings must be closed and contain at least four coordinates")
  let area := FeatureGeometry.polygonArea rings
  require (!F64.le area .zero && area.isFinite)
    (.geometry "polygon area must be finite and positive after holes")

def validatePolygons : List (List Ring) → Check
  | [] => .ok ()
  | rings :: rest => do
    validateRings rings
    validatePolygons rest

def validPoint (crs : Crs) (p : Point) : Bool :=
  p.1.isFinite && p.2.isFinite && (crs.validateCoordinate p.1 p.2).isOk

def validateShape : FeatureGeometry → Check
  | .point _ => .ok ()
  | .lineString points =>
    require (2 ≤ points.length) (.geometry "line strings require at least two coordinates")
  | .polygon rings => validateRings rings
  | .multiPolygon [] => .error (.geometry "multipolygon is empty")
  | .multiPolygon polygons => validatePolygons polygons

def validateGeometry (geometry : FeatureGeometry) (requiredKind : EditableGeometryKind)
    (crs : Crs) : Check := do
  require (geometry.kind = requiredKind) (.geometry "geometry family mismatch")
  require (!geometry.coordinates.isEmpty && geometry.coordinates.all (validPoint crs))
    (.geometry "coordinates are empty, non-finite, or outside the CRS domain")
  validateShape geometry

variable (l : EditableLayer)

def validateDraft (draft : FeatureDraft) : Check := do
  require (!Text.isBlank draft.id && draft.id.utf8ByteSize ≤ 256) (.duplicateFeature draft.id)
  validateGeometry draft.geometry l.geometryKind l.crs
  validateAttributes draft.attributes l.schema

def requireAreaConservation (input output : F64) : Check :=
  let scale := F64.max (F64.max input.abs output.abs) .epsilon
  let relative := F64.div (F64.abs (F64.sub input output)) scale
  require (!F64.lt (.ofRatio 1 1000000) relative) (.areaChanged input output)

def featureWithRevision (id : String) (expected : Nat) : Except EditError EditableFeature :=
  match l.features[id]? with
  | none => .error (.featureNotFound id)
  | some feature =>
    if feature.revision ≠ expected then .error (.staleRevision expected feature.revision)
    else .ok feature

/-! ## Edits -/

def new (layerId : Uuid) (crs : Crs) (geometryKind : EditableGeometryKind)
    (schema : FeatureSchema) : Except EditError EditableLayer := do
  match crs.requireKnown with
  | .error error => throw (.layerCrs error)
  | .ok _ =>
    validateSchema schema
    return { layerId := layerId, crs := crs, coordinateUnit := crs.coordinateUnit,
             geometryKind := geometryKind, schema := schema, revision := 0, features := ∅ }

def insertFeature (id : String) (feature : EditableFeature) (l : EditableLayer) : EditableLayer :=
  { l with features := l.features.insert id feature }

def removeFeature (id : String) (l : EditableLayer) : EditableLayer :=
  { l with features := l.features.erase id }

/-- The parts of a split are valid, distinct, and new apart from the source. -/
def validateParts (l : EditableLayer) (featureId : String) :
    ExtTreeSet String → List FeatureDraft → Except EditError (ExtTreeSet String)
  | ids, [] => .ok ids
  | ids, part :: rest => do
    l.validateDraft part
    require (!ids.contains part.id && (part.id = featureId || !l.features.contains part.id))
      (.duplicateFeature part.id)
    validateParts l featureId (ids.insert part.id) rest

def applySplit (featureId : String) (expectedRevision : Nat) (parts : List FeatureDraft) :
    Fallible EditError EditableLayer (List String) := do
  let l ← get
  let source ← lift (l.featureWithRevision featureId expectedRevision)
  check (2 ≤ parts.length) (.conservation "a split requires at least two output features")
  let ids ← lift (l.validateParts featureId ∅ parts)
  let outputArea := F64.sum (parts.map fun part => part.geometry.area)
  lift (requireAreaConservation source.geometry.area outputArea)
  modify (removeFeature featureId)
  modify fun l => parts.foldl (fun l part =>
    l.insertFeature part.id (intoFeature part ((source.revision + 1) % 2 ^ 64))) l
  return ids.toList

/-- What a merge reads from its members. -/
structure Members where
  polygons : List (List Ring)
  inputArea : F64
  maxRevision : Nat

def collectMembers (l : EditableLayer) : List (String × Nat) → Members → Except EditError Members
  | [], members => .ok members
  | (id, revision) :: rest, members => do
    let feature ← l.featureWithRevision id revision
    match feature.geometry.polygons with
    | none => throw (.conservation "merge supports polygonal geometry only")
    | some polygons =>
      collectMembers l rest
        { polygons := members.polygons ++ polygons
          inputArea := F64.add members.inputArea feature.geometry.area
          maxRevision := max members.maxRevision feature.revision }

def applyMerge (featureIds : List String) (expectedRevisions : List Nat) (merged : FeatureDraft) :
    Fallible EditError EditableLayer (List String) := do
  check (2 ≤ featureIds.length && featureIds.length = expectedRevisions.length)
    (.conservation "merge requires at least two identities and one revision per identity")
  let ids : ExtTreeSet String := .ofList featureIds
  check (ids.size = featureIds.length) (.duplicateFeature "merge input")
  let l ← get
  let members ← lift (l.collectMembers (featureIds.zip expectedRevisions)
    { polygons := [], inputArea := .zero, maxRevision := 0 })
  let merged := { merged with geometry := .multiPolygon members.polygons }
  lift (l.validateDraft merged)
  lift (requireAreaConservation members.inputArea merged.geometry.area)
  check (ids.contains merged.id || !l.features.contains merged.id) (.duplicateFeature merged.id)
  modify fun l => ids.toList.foldl (fun l id => l.removeFeature id) l
  modify (insertFeature merged.id (intoFeature merged (saturatingSucc members.maxRevision)))
  return (ids.insert merged.id).toList

def applyEdit : FeatureEdit → Fallible EditError EditableLayer (List String)
  | .create feature => do
    let l ← get
    lift (l.validateDraft feature)
    check (!l.features.contains feature.id) (.duplicateFeature feature.id)
    modify (insertFeature feature.id (intoFeature feature 1))
    return [feature.id]
  | .update feature expectedFeatureRevision => do
    let l ← get
    lift (l.validateDraft feature)
    let previous ← lift (l.featureWithRevision feature.id expectedFeatureRevision)
    modify (insertFeature feature.id (intoFeature feature (saturatingSucc previous.revision)))
    return [feature.id]
  | .delete featureId expectedFeatureRevision => do
    let l ← get
    let _ ← lift (l.featureWithRevision featureId expectedFeatureRevision)
    modify (removeFeature featureId)
    return [featureId]
  | .split featureId expectedFeatureRevision parts =>
    applySplit featureId expectedFeatureRevision parts
  | .merge featureIds expectedFeatureRevisions merged =>
    applyMerge featureIds expectedFeatureRevisions merged
  | .repair featureId expectedFeatureRevision => do
    let l ← get
    let previous ← lift (l.featureWithRevision featureId expectedFeatureRevision)
    let repaired : FeatureDraft :=
      { id := previous.id, geometry := previous.geometry.repair,
        attributes := previous.attributes }
    lift (l.validateDraft repaired)
    modify (insertFeature featureId (intoFeature repaired (saturatingSucc previous.revision)))
    return [featureId]

def bumpRevision : EditableLayer :=
  { l with revision := saturatingSucc l.revision }

def apply (expectedLayerRevision : Nat) (edit : FeatureEdit) :
    Fallible EditError EditableLayer EditReceipt := do
  let l ← get
  check (l.revision = expectedLayerRevision) (.staleRevision expectedLayerRevision l.revision)
  let changedFeatures ← applyEdit edit
  modify bumpRevision
  return { beforeRevision := l.revision, afterRevision := saturatingSucc l.revision,
           changedFeatures := changedFeatures }

end EditableLayer
end GeneGIS
