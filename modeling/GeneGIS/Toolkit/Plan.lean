/-
`validatePlan` checks a plan against the loaded layers, and `planToWorkflow` compiles a valid plan
into a graph whose input contracts pin every layer it reads.
-/
import GeneGIS.Toolkit.Layer
import GeneGIS.Workflow.Graph

namespace GeneGIS

open Text

/-- `str::parse::<u32>`: digits, after a plus sign or without one, that stay in range. -/
def parseU32 (s : String) : Option Nat :=
  let digits := match s.toList with
    | '+' :: rest => rest
    | chars => chars
  let value := digits.foldl (fun n c => 10 * n + (c.toNat - 48)) 0
  if !digits.isEmpty && digits.all Char.isDigit && value < 2 ^ 32 then some value else none

/-- `Crs::parse`. -/
def Crs.parse (value : String) : Option Crs :=
  let normalized := trim value
  let code := (withoutPrefix "urn:ogc:def:crs:" normalized).getD normalized
  let number := (withoutPrefix "EPSG::" code).or <| (withoutPrefix "epsg::" code).or <|
    (withoutPrefix "EPSG:" code).or (withoutPrefix "epsg:" code)
  (number.bind parseU32).map Crs.epsg

namespace Toolkit

structure PlanStep where
  id : String
  op : String
  /-- References by input role. -/
  inputs : Std.ExtTreeMap String String
  params : Value

structure ToolkitPlan where
  goal : String
  steps : List PlanStep
  output : Option String
  assumptions : List String

/-- What the validation and the executor read of an operation. -/
structure OperationSpec where
  name : String
  inputs : List String

def catalog : List OperationSpec :=
  [⟨"make_points", []⟩, ⟨"place", []⟩, ⟨"census_mesh", ["area"]⟩, ⟨"buffer", ["layer"]⟩,
    ⟨"clip", ["layer", "mask"]⟩, ⟨"erase", ["layer", "mask"]⟩,
    ⟨"intersect", ["layer", "overlay"]⟩, ⟨"dissolve", ["layer"]⟩,
    ⟨"spatial_join", ["target", "join"]⟩, ⟨"select_by_location", ["layer", "other"]⟩,
    ⟨"distance_to_nearest", ["layer", "target"]⟩, ⟨"reproject", ["layer"]⟩,
    ⟨"assign_crs", ["layer"]⟩, ⟨"make_valid", ["layer"]⟩, ⟨"centroid", ["layer"]⟩,
    ⟨"measure", ["layer"]⟩, ⟨"filter", ["layer"]⟩, ⟨"calculate", ["layer"]⟩,
    ⟨"summarize", ["layer"]⟩]

inductive Ref where
  | layer (id : String)
  | step (id : String)

def startsWithLyr (s : String) : Bool := (withoutPrefix "lyr_" s).isSome

def parseRef (reference : String) : Ref :=
  match withoutPrefix "layer:" reference with
  | some id => .layer id
  | none =>
    match withoutPrefix "step:" reference with
    | some id => .step id
    | none => if startsWithLyr reference then .layer reference else .step reference

def isIdChar (c : Char) : Bool := c.isAlphanum || c == '_' || c == '-'

def validId (id : String) : Bool := !id.isEmpty && id.utf8ByteSize ≤ 64 && id.toList.all isIdChar

namespace PlanStep

variable (step : PlanStep)

def refs : List (String × Ref) := step.inputs.toList.map fun e => (e.1, parseRef e.2)

def layerRefs : List String := step.refs.filterMap fun e =>
    match e.2 with
    | .layer id => some id
    | .step _ => none

def stepRefs : List String := step.refs.filterMap fun e =>
    match e.2 with
    | .layer _ => none
    | .step id => some id

end PlanStep

/-- How the standard library quotes a text, and the text of a graph error. -/
structure Texts where
  debug : String → String
  graphError : WorkflowValidationError → String

def Texts.set (texts : Texts) (names : List String) : String :=
  "\x7b" ++ ", ".intercalate (names.map texts.debug) ++ "\x7d"

abbrev Layers := Std.ExtTreeMap String Layer

def require (holds : Bool) (error : ToolkitError) : Except ToolkitError Unit :=
  if holds then .ok () else .error error

section

variable (texts : Texts) (layers : Layers)

/-- `seen` holds the step itself and the steps before it. -/
def checkRef (seen : List String) (stepId : String) (ref : Ref) : Except ToolkitError Unit :=
  match ref with
  | .layer id =>
    require (layers.contains id)
      (.unknownReference ("step " ++ stepId ++ ": layer " ++ id ++ " is not loaded"))
  | .step id =>
    require (id ∈ seen && id ≠ stepId) (.unknownReference
      ("step " ++ stepId ++ ": " ++ id ++ " is not an earlier step or a loaded layer"))

def isParams (params : Value) : Bool :=
  match params.json with
  | .null => true
  | .obj _ => true
  | _ => false

def checkStep (before : List String) (step : PlanStep) : Except ToolkitError Unit := do
  require (validId step.id && !startsWithLyr step.id)
    (.plan ("invalid step id " ++ texts.debug step.id))
  require (step.id ∉ before) (.plan ("duplicate step id " ++ step.id))
  match catalog.find? fun spec => spec.name = step.op with
  | none => throw (.plan ("step " ++ step.id ++ ": unknown operation " ++ step.op))
  | some spec =>
    let expected := (Std.ExtTreeSet.ofList spec.inputs).toList
    require (step.inputs.keys = expected) (.plan ("step " ++ step.id ++ " (" ++ step.op ++
      ") needs inputs " ++ texts.set expected ++ ", got " ++ texts.set step.inputs.keys))
    step.refs.forM fun e => checkRef layers (step.id :: before) step.id e.2
    require (isParams step.params) (.plan ("step " ++ step.id ++ ": params must be an object"))

def checkSteps : List String → List PlanStep → Except ToolkitError Unit
  | _, [] => .ok ()
  | before, step :: rest => do
    checkStep texts layers before step
    checkSteps (step.id :: before) rest

/-- A step that is needed makes the steps it reads needed. -/
def need (needed : List String) (step : PlanStep) : List String :=
  if step.id ∈ needed then step.stepRefs ++ needed else needed

def validatePlan (plan : ToolkitPlan) : Except ToolkitError String := do
  require (!plan.steps.isEmpty) (.plan "plan has no steps")
  require (plan.steps.length ≤ 64) (.plan "plan has more than 64 steps")
  checkSteps texts layers [] plan.steps
  let output := plan.output.getD ((plan.steps.getLast?.map PlanStep.id).getD "")
  require (output ∈ plan.steps.map PlanStep.id) (.plan ("output " ++ output ++ " is not a step"))
  let needed := plan.steps.reverse.foldl need [output]
  match plan.steps.find? fun step => step.id ∉ needed with
  | some unused => throw (.plan ("step " ++ unused.id ++ " does not contribute to the output"))
  | none => return output

end

section

variable (rt : Runtime) (outlines : Outlines)

/-- Immutable source identity of a stored layer. -/
def layerSnapshot (layer : Layer) : SourceSnapshot :=
  let digest := layer.digest rt.floatText outlines
  { SourceMetadata.new ("layer://" ++ digest) with
    datasetId := some (layer.id rt.floatText outlines)
    license := layer.provenance.license
    checksum := some digest
    expectedChecksum := some digest
    observedChecksum := some digest
    checksumStatus := .verified }

def coreCrs (layer : Layer) : Except ToolkitError Crs :=
  match Crs.parse layer.crs with
  | none => .error (.unsupportedCrs ("invalid CRS identifier: " ++ layer.crs))
  | some crs =>
    match crs.requireKnown with
    | .error _ => .error (.unsupportedCrs ("unsupported CRS: " ++ crs.identifier))
    | .ok _ => .ok crs

/-- The layers a plan reads, each once and by name. -/
def referenced (plan : ToolkitPlan) : List String :=
  (Std.ExtTreeSet.ofList (plan.steps.flatMap PlanStep.layerRefs)).toList

def inputContract (id : String) (layer : Layer) (crs : Crs) : WorkflowInputContract :=
  { name := id, crs := some crs, coordinateUnit := some crs.coordinateUnit, valueUnit := none
    sourceSnapshot := some (layerSnapshot rt outlines layer), geoContract := none }

def inputDocument (id : String) (layer : Layer) : Value :=
  .object [("layer_id", .str id), ("name", .str layer.name), ("crs", .str layer.crs),
    ("digest", .str (layer.digest rt.floatText outlines)),
    ("feature_count", .ofNat layer.features.length)]

/-- Looking a layer up panics on an absent name, which validation has excluded. -/
def compileInput (layers : Layers) (id : String) :
    Except ToolkitError (WorkflowInputContract × Value) :=
  match layers[id]? with
  | none => .error (.unknownReference id)
  | some layer => do
    let crs ← coreCrs layer
    return (inputContract rt outlines id layer crs, inputDocument rt outlines id layer)

/-- The steps that are read, each at its first place. -/
def dependencies (step : PlanStep) : List WorkflowNodeId :=
  step.stepRefs.foldl (fun found id => if id ∈ found then found else found ++ [id]) []

def Ref.dataRef : Ref → WorkflowDataRef
  | .layer id => .input id
  | .step id => .output id "layer"

def Ref.role : Ref → Value
  | .layer id => .object [("layer", .str id)]
  | .step id => .object [("step", .str id)]

def parameters (step : PlanStep) : Value :=
  .object [("inputs", .object (step.refs.map fun e => (e.1, e.2.role))),
    ("params", match step.params.json with
      | .null => .object []
      | _ => step.params)]

/-- The random identifier of a step is drawn by `fresh`. -/
def compileStep (fresh : String → Uuid) (step : PlanStep) : WorkflowStep where
  id := fresh step.id
  stableId := step.id
  operation := "toolkit." ++ step.op
  parameters := parameters step
  expectedSchema := none
  validation := none
  provenance := none
  dependsOn := dependencies step
  inputs := step.refs.map fun e => e.2.dataRef
  outputs := [.output step.id "layer"]
  outputContracts := []

def compile (id : Uuid) (fresh : String → Uuid) (plan : ToolkitPlan) (output : String)
    (inputs : List (WorkflowInputContract × Value)) : GeoWorkflow where
  id := id
  goal := plan.goal
  assumptions := plan.assumptions
  inputs := inputs.map Prod.snd
  inputContracts := inputs.map Prod.fst
  steps := plan.steps.map (compileStep fresh)
  outputs := [.object [("step", .str output), ("port", .str "layer")]]
  outputRefs := [.output output "layer"]
  citations := []
  reviewStatus := .draft

def planToWorkflow (texts : Texts) (id : Uuid) (fresh : String → Uuid)
    (layers : Layers) (plan : ToolkitPlan) : Except ToolkitError GeoWorkflow := do
  let output ← validatePlan texts layers plan
  let inputs ← (referenced plan).mapM (compileInput rt outlines layers)
  let workflow := compile id fresh plan output inputs
  (workflow.validate rt).mapError fun e => .plan (texts.graphError e)
  return workflow

end

end Toolkit
end GeneGIS
