/-
The nodes of a graph are taken in topological order.  The operations are a parameter and may change
a world of their own.  A run keeps the nodes whose turn has come, so that what a failed run did can
be told.
-/
import GeneGIS.Core.Command
import GeneGIS.Toolkit.Plan

namespace GeneGIS.Toolkit

open Fallible

structure Check where
  id : String
  passed : Bool
  detail : String

structure OpOutput where
  layer : Layer
  checks : List Check
  notes : List String

structure StepReceipt where
  id : String
  op : String
  inputs : Std.ExtTreeMap String String
  outputDigest : String
  crs : String
  featureCount : Nat
  checks : List Check
  notes : List String

def Check.toJson (c : Check) : Value :=
  .object [("id", .str c.id), ("passed", .bool c.passed), ("detail", .str c.detail)]

def StepReceipt.toJson (r : StepReceipt) : Value :=
  .object [("id", .str r.id), ("op", .str r.op), ("inputs", .ofMap .str r.inputs),
    ("output_digest", .str r.outputDigest), ("crs", .str r.crs),
    ("feature_count", .ofNat r.featureCount), ("checks", .ofList Check.toJson r.checks),
    ("notes", .ofList .str r.notes)]

structure RunArtifacts where
  steps : List StepReceipt
  stepLayers : Layers
  outputStep : String

/-- Why the executor stopped. -/
inductive PlanFailure where
  | inputUnavailable (name : String)
  | noPinnedDigest (name : String)
  | inputChanged (name : String)
  | graph (error : WorkflowValidationError)
  | nodeMissing (node : WorkflowNodeId)
  | notToolkit (operation : String)
  | layerMissing (id : String)
  | notProduced (id : String)
  | noSource (role : String)
  | step (node : WorkflowNodeId) (error : ToolkitError)
  | verification (node : WorkflowNodeId) (op : String) (check : Check)
  | noOutput
  | producedNothing

/-- The text of `WorkflowExecutionError::Failed`. -/
def PlanFailure.display (texts : Texts) : PlanFailure → String
  | .inputUnavailable name => "input layer " ++ name ++ " is no longer available"
  | .noPinnedDigest name => "input " ++ name ++ " has no pinned digest"
  | .inputChanged name => "input layer " ++ name ++ " changed after authorization"
  | .graph error => texts.graphError error
  | .nodeMissing node => "node " ++ node ++ " missing"
  | .notToolkit operation => operation ++ " is not a toolkit operation"
  | .layerMissing id => "layer " ++ id ++ " missing"
  | .notProduced id => "step " ++ id ++ " has not produced a layer"
  | .noSource role => "input " ++ role ++ " has no source"
  | .step node error => "step " ++ node ++ ": " ++ error.display
  | .verification node op check =>
    "verification failed at step " ++ node ++ " (" ++ op ++ "): " ++ check.id ++ " — " ++
      check.detail
  | .noOutput => "workflow has no output"
  | .producedNothing => "output step produced nothing"

/-- `ops::run` and what it reads and changes elsewhere. -/
abbrev Operations (World : Type) := String → Layers → Json → Fallible ToolkitError World OpOutput

structure PlanRun (World : Type) where
  world : World
  /-- The nodes whose turn has come, in order. -/
  visited : List WorkflowNodeId
  produced : Layers
  receipts : List StepReceipt

section

variable {World : Type} (rt : Runtime) (outlines : Outlines) (operations : Operations World)
  (layers : Layers)

/-- Every graph input must still have exactly the authorized content. -/
def checkInput (contract : WorkflowInputContract) : Except PlanFailure Unit :=
  match layers[contract.name]? with
  | none => .error (.inputUnavailable contract.name)
  | some layer =>
    match contract.sourceSnapshot.bind SourceMetadata.checksum with
    | none => .error (.noPinnedDigest contract.name)
    | some expected =>
      if layer.digest rt.floatText outlines = expected then .ok ()
      else .error (.inputChanged contract.name)

def textAt (key : String) (j : Json) : Option String :=
  match j.get? key with
  | some (.str s) => some s
  | _ => none

/-- The sources of a step by role, as its parameters list them. -/
def sources (step : WorkflowStep) : List (String × Json) :=
  match step.parameters.json.get? "inputs" with
  | some (.obj members) => members
  | _ => []

def resolve (produced : Layers) (e : String × Json) : Except PlanFailure (String × Layer) :=
  match textAt "layer" e.2 with
  | some id =>
    match layers[id]? with
    | some layer => .ok (e.1, layer)
    | none => .error (.layerMissing id)
  | none =>
    match textAt "step" e.2 with
    | some id =>
      match produced[id]? with
      | some layer => .ok (e.1, layer)
      | none => .error (.notProduced id)
    | none => .error (.noSource e.1)

variable (node : WorkflowNodeId)

def stepReceipt (op : String) (inputs : List (String × Layer))
    (layer : Layer) (output : OpOutput) : StepReceipt where
  id := node
  op := op
  inputs := .ofList (inputs.map fun e => (e.1, e.2.digest rt.floatText outlines))
  outputDigest := layer.digest rt.floatText outlines
  crs := layer.crs
  featureCount := layer.features.length
  checks := output.checks
  notes := output.notes

def PlanRun.visit (s : PlanRun World) : PlanRun World :=
  { s with visited := s.visited ++ [node] }

def PlanRun.record (layer : Layer) (receipt : StepReceipt) (s : PlanRun World) : PlanRun World :=
  { s with produced := s.produced.insert node layer, receipts := s.receipts ++ [receipt] }

/-- Run the operation of a step on its resolved inputs and keep what it produces. -/
def runOperation (digest : WorkflowDigest) (node : WorkflowNodeId) (op : String)
    (inputs : List (String × Layer)) (params : Json) :
    Fallible PlanFailure (PlanRun World) Unit := do
  let output ← zoom PlanRun.world (fun s world => { s with world := world })
    (mapError (.step node) (operations op (.ofList inputs) params))
  match output.checks.find? fun check => !check.passed with
  | some check => throw (.verification node op check)
  | none =>
    let layer := { output.layer with
      provenance := { output.layer.provenance with workflowDigest := some digest.text } }
    modify (PlanRun.record node layer (stepReceipt rt outlines node op inputs layer output))

def runNode (w : GeoWorkflow) (digest : WorkflowDigest) (node : WorkflowNodeId) :
    Fallible PlanFailure (PlanRun World) Unit := do
  modify (PlanRun.visit node)
  match w.steps.find? fun step => step.nodeId rt = node with
  | none => throw (.nodeMissing node)
  | some step =>
    match Text.withoutPrefix "toolkit." step.operation with
    | none => throw (.notToolkit step.operation)
    | some op =>
      let s ← get
      let inputs ← lift ((sources step).mapM (resolve layers s.produced))
      runOperation rt outlines operations digest node op inputs
        ((step.parameters.json.get? "params").getD (.obj []))

def runNodes (w : GeoWorkflow) (digest : WorkflowDigest) :
    List WorkflowNodeId → Fallible PlanFailure (PlanRun World) Unit
  | [] => pure ()
  | node :: rest => do
    runNode rt outlines operations layers w digest node
    runNodes w digest rest

def outputOf (w : GeoWorkflow) (produced : Layers) : Except PlanFailure (String × Layer) :=
  match w.outputRefs.head?.bind WorkflowDataRef.node with
  | none => .error .noOutput
  | some step =>
    match produced[step]? with
    | none => .error .producedNothing
    | some layer => .ok (step, layer)

def executionOf (summary : Layer → Value) (context : WorkflowExecutionContext)
    (receipts : List StepReceipt) (output : Layer) : WorkflowExecution :=
  let evidence := Value.ofList StepReceipt.toJson receipts
  { resultDigest := "sha256:" ++ rt.sha256
      ((output.digest rt.floatText outlines).toList ++ Char.ofNat 0 :: rt.canonicalJson evidence)
    output := summary output
    evidence := evidence
    events := [{
      kind := "toolkit_analysis"
      sourceUri := none
      observedAt := context.commandTimestamp
      details := .object [("workflow_digest", context.workflowDigest.toJson),
        ("command_id", .str context.commandId.toText)] }] }

/-- `PlanExecutor::execute`.  The summary of a layer is a parameter. -/
def execute (summary : Layer → Value) (w : GeoWorkflow) (context : WorkflowExecutionContext) :
    Fallible PlanFailure (PlanRun World) (RunArtifacts × WorkflowExecution) := do
  lift (w.inputContracts.forM (checkInput rt outlines layers))
  let order ← lift ((w.topologicalOrder rt).mapError .graph)
  runNodes rt outlines operations layers w context.workflowDigest order
  let s ← get
  let output ← lift (outputOf w s.produced)
  return ({ steps := s.receipts, stepLayers := s.produced, outputStep := output.1 },
    executionOf rt outlines summary context s.receipts output.2)

end

def PlanRun.start {World : Type} (world : World) : PlanRun World :=
  { world := world, visited := [], produced := ∅, receipts := [] }

end GeneGIS.Toolkit
