/-
A call changes the bus and the project it is given, so it is `Fallible` over the pair.  `now` is
the clock of one call and `clock` the readings of a replay.
-/
import GeneGIS.Core.Command

namespace GeneGIS

open Fallible (check lift onFirst)

structure CommandBus where
  history : List CommandEnvelope
  cursor : Nat
  beforeStates : List Project
  afterStates : List Project
  initialState : Option Project
  currentState : Option Project
  auditLog : List CommandEnvelope
  workflows : Std.ExtTreeMap Uuid GeoWorkflow
  workflowExecutions : Std.ExtTreeMap Uuid WorkflowExecutionRecord
  expectedReplayDigest : Option String

/-- A bus with the project its commands are applied to. -/
structure Session where
  bus : CommandBus
  project : Project

/-! ## Project mutations -/

namespace Project

/-- The workflow a command is bound to, as provenance names it. -/
def boundWorkflow : Command → Option String
  | .runWorkflow workflowId => some workflowId.toText
  | .initializeEditableLayer _ _ _ _ workflow => some workflow.workflowId.toText
  | .editFeatures _ _ _ workflow => some workflow.workflowId.toText
  | .setEvidenceMapStyle _ workflow => some workflow.workflowId.toText
  | _ => none

variable (envelope : CommandEnvelope)

def recordCommandProvenance (action target : String) (details : Value) (p : Project) : Project :=
  p.modifyWorkspace fun w =>
    { w with provenance := { entries := w.provenance.entries ++ [
      { id := envelope.id, timestamp := envelope.timestamp, actor := envelope.origin.asStr,
        action := action, target := target, details := details, agentRunId := none,
        workflowId := boundWorkflow envelope.command }] } }

def touch (t : DateTime) (p : Project) : Project := p.modifyWorkspace (Workspace.touch t)

/-- Run on the first layer with an identifier. -/
def onLayer {α : Type} (layerId : Uuid) (m : Fallible CommandError Layer α) :
    Fallible CommandError Project α :=
  Fallible.zoom (fun p => p.workspace.layers)
    (fun p layers => p.modifyWorkspace fun w => { w with layers := layers })
    (onFirst (fun layer => layer.id = layerId) (.targetNotFound ("layer " ++ layerId.toText)) m)

def onView {α : Type} (viewId : Uuid) (m : Fallible CommandError View α) :
    Fallible CommandError Project α :=
  Fallible.zoom (fun p => p.workspace.views)
    (fun p views => p.modifyWorkspace fun w => { w with views := views })
    (onFirst (fun view => view.id = viewId) (.targetNotFound ("view " ++ viewId.toText)) m)

def onEditableLayer {α : Type} (layerId : Uuid) (m : Fallible CommandError EditableLayer α) :
    Fallible CommandError Project α :=
  Fallible.zoom (fun p => p.workspace.editableLayers)
    (fun p layers => p.modifyWorkspace fun w => { w with editableLayers := layers })
    (onFirst (fun layer => layer.layerId = layerId)
      (.targetNotFound ("editable layer " ++ layerId.toText)) m)

/-- The layer an `AddLayer` command adds; its identity is the envelope's. -/
def layerOf (name : String) (sourceId : Uuid) : Layer :=
  { id := envelope.id, name := name, kind := .vector, sourceId := sourceId, crs := none,
    extent := none, timeExtent := none, statistics := { featureCount := none, bbox := none },
    styleId := none, visible := true, opacity := F32.one }

def addLayer (now : DateTime) (envelope : CommandEnvelope) (name : String) (sourceId : Uuid) :
    Fallible CommandError Project Unit := do
  let p ← get
  check (!p.workspace.layers.any fun layer => layer.id = envelope.id) .duplicateEnvelopeIdentity
  modify (modifyWorkspace (Workspace.addLayer now (layerOf envelope name sourceId)))
  modify (recordCommandProvenance envelope "add_layer" envelope.id.toText
    (.object [("name", .str name), ("source_id", .str sourceId.toText)]))

variable (layerId : Uuid)

def removeLayer : Fallible CommandError Project Unit := do
  let p ← get
  match p.workspace.layers.findIdx? fun layer => layer.id = layerId with
  | none => throw (.targetNotFound ("layer " ++ layerId.toText))
  | some index =>
    modify (modifyWorkspace fun w => { w with layers := w.layers.eraseIdx index })
    modify (touch envelope.timestamp)
    modify (recordCommandProvenance envelope "remove_layer" layerId.toText (.object []))

def setLayerVisibility (visible : Bool) : Fallible CommandError Project Unit := do
  onLayer layerId (modify fun layer => { layer with visible := visible })
  modify (touch envelope.timestamp)
  modify (recordCommandProvenance envelope "set_layer_visibility" layerId.toText
    (.object [("visible", .bool visible)]))

def setViewCamera (viewId : Uuid) (center : Point) (zoom : F64) :
    Fallible CommandError Project Unit := do
  onView viewId (modify fun view => { view with center := some center, zoom := some zoom })
  modify (touch envelope.timestamp)
  modify (recordCommandProvenance envelope "set_view_camera" viewId.toText
    (.object [("center", Point.toJson center), ("zoom", .ofF64 zoom)]))

/-- Members every workflow-bound mutation records. -/
def bindingDetails (workflow : MutationWorkflowBinding) : List (String × Value) :=
  [("workflow_id", .str workflow.workflowId.toText), ("workflow_node", .str workflow.nodeId),
    ("workflow_digest", .ofOption WorkflowDigest.toJson envelope.workflowDigest)]

def initializeEditableLayer (crs : Crs)
    (geometryKind : EditableGeometryKind) (schema : FeatureSchema)
    (workflow : MutationWorkflowBinding) : Fallible CommandError Project Unit := do
  let p ← get
  match p.workspace.layers.find? fun layer => layer.id = layerId with
  | none => throw (.targetNotFound ("layer " ++ layerId.toText))
  | some layer =>
    check (layer.kind = .vector) .notVectorLayer
    check (!p.workspace.editableLayers.any fun editable => editable.layerId = layerId)
      .editableLayerInitialized
    let editable ← lift
      ((EditableLayer.new layerId crs geometryKind schema).mapError .featureEditRejected)
    modify (modifyWorkspace fun w => { w with editableLayers := w.editableLayers ++ [editable] })
    modify (touch envelope.timestamp)
    modify (recordCommandProvenance envelope "initialize_editable_layer" layerId.toText
      (.object ([("crs", crs.toJson), ("coordinate_unit", editable.coordinateUnit.toJson),
        ("geometry_kind", .str geometryKind.asStr), ("schema", schema.toJson)] ++
        bindingDetails envelope workflow)))

def editFeatures (expectedLayerRevision : Nat)
    (edit : FeatureEdit) (workflow : MutationWorkflowBinding) :
    Fallible CommandError Project Unit := do
  let receipt ← onEditableLayer layerId
    (Fallible.mapError .featureEditRejected (EditableLayer.apply expectedLayerRevision edit))
  modify (touch envelope.timestamp)
  let p ← get
  let editable := p.workspace.editableLayers.find? fun editable => editable.layerId = layerId
  modify (recordCommandProvenance envelope edit.workflowOperation layerId.toText
    (.object ([("receipt", receipt.toJson),
      ("crs", .ofOption (fun editable => editable.crs.toJson) editable),
      ("coordinate_unit", .ofOption (fun editable => editable.coordinateUnit.toJson) editable)] ++
      bindingDetails envelope workflow)))

/-- Replace the style with the same identifier, or insert the style in order. -/
def putStyle (style : EvidenceMapStyle) (styles : List EvidenceMapStyle) : List EvidenceMapStyle :=
  if styles.any fun candidate => candidate.id = style.id then
    styles.replaceF fun candidate => if candidate.id = style.id then some style else none
  else (styles ++ [style]).insertionSort fun a b => (compare a.id b.id).isLE = true

def setEvidenceMapStyle (style : EvidenceMapStyle)
    (workflow : MutationWorkflowBinding) : Fallible CommandError Project Unit := do
  lift (style.validate.mapError .mapStyleRejected)
  onLayer style.layerId (modify fun layer => { layer with styleId := some style.id })
  modify (modifyWorkspace fun w => { w with mapStyles := putStyle style w.mapStyles })
  modify (touch envelope.timestamp)
  modify (recordCommandProvenance envelope "set_evidence_map_style" style.layerId.toText
    (.object (("style", style.toJson) :: bindingDetails envelope workflow)))

def runWorkflow (rt : Runtime) (envelope : CommandEnvelope) (workflowId : Uuid)
    (digest : WorkflowDigest) (execution : WorkflowExecution) :
    Fallible CommandError Project Unit :=
  modify (recordCommandProvenance envelope "run_workflow" workflowId.toText
    (.object [("workflow_digest", digest.toJson), ("workflow_id", .str workflowId.toText),
      ("result_digest", .str execution.resultDigest), ("evidence", execution.evidence),
      ("events", .ofList (WorkflowExecutionEvent.toJson rt) execution.events),
      ("source_snapshots", .ofList SourceMetadata.toJson envelope.sourceSnapshots),
      ("input_snapshots", .ofList InputSnapshot.toJson envelope.inputSnapshots)]))

/-- `apply_project_mutation`.  A `RunWorkflow` arrives with the digest and the
output of its validated run. -/
def applyMutation (rt : Runtime) (now : DateTime) (envelope : CommandEnvelope)
    (run : Option (WorkflowDigest × WorkflowExecution)) : Fallible CommandError Project Unit :=
  match envelope.command with
  | .addLayer name sourceId => addLayer now envelope name sourceId
  | .removeLayer layerId => removeLayer envelope layerId
  | .setLayerVisibility layerId visible => setLayerVisibility envelope layerId visible
  | .setViewCamera viewId center zoom => setViewCamera envelope viewId center zoom
  | .initializeEditableLayer layerId crs geometryKind schema workflow =>
    initializeEditableLayer envelope layerId crs geometryKind schema workflow
  | .editFeatures layerId expectedLayerRevision edit workflow =>
    editFeatures envelope layerId expectedLayerRevision edit workflow
  | .setEvidenceMapStyle style workflow => setEvidenceMapStyle envelope style workflow
  | .runWorkflow workflowId =>
    match run with
    | some (digest, execution) => runWorkflow rt envelope workflowId digest execution
    | none => throw .executorRequired
  | _ => throw (.unsupportedCommand envelope.command)

end Project

namespace CommandBus

/-! ## Validation -/

/-- Every source of the envelope belongs to a contract or is a supplemental
catalogue source. -/
def validateSources (workflow : GeoWorkflow) : List SourceSnapshot → Except CommandError Unit
  | [] => .ok ()
  | snapshot :: rest =>
    let sources := workflow.inputContracts.filterMap WorkflowInputContract.sourceSnapshot
    let known := sources.any fun expected => snapshot.sameSourceIdentity expected
    let belongsToContract := sources.any fun expected =>
      expected.datasetId.isSome && snapshot.datasetId.isSome &&
        expected.datasetId = snapshot.datasetId
    let supplemental := snapshot.datasetId.isSome && !belongsToContract
    if !known && !supplemental && !workflow.inputContracts.isEmpty then
      .error (.inputSnapshotMismatch snapshot.uri)
    else validateSources workflow rest

def validateInputs (workflow : GeoWorkflow) : List InputSnapshot → Except CommandError Unit
  | [] => .ok ()
  | snapshot :: rest =>
    match workflow.inputContracts.find? fun contract => contract.name = snapshot.name with
    | none => .error (.inputSnapshotMismatch snapshot.name)
    | some contract =>
      if contract.sourceSnapshot.all fun expected => snapshot.source.sameSourceIdentity expected
      then validateInputs workflow rest
      else .error (.inputSnapshotMismatch snapshot.name)

def validateContracts (envelope : CommandEnvelope) :
    List WorkflowInputContract → Except CommandError Unit
  | [] => .ok ()
  | contract :: rest =>
    match contract.sourceSnapshot with
    | none => validateContracts envelope rest
    | some expected =>
      let inputMatch :=
        match envelope.inputSnapshots.find? fun snapshot => snapshot.name = contract.name with
        | some snapshot => snapshot.source.sameSourceIdentity expected
        | none => false
      let sourceMatch := envelope.sourceSnapshots.any fun snapshot =>
        snapshot.sameSourceIdentity expected
      if !inputMatch && !sourceMatch then
        if envelope.inputSnapshots.isEmpty && envelope.sourceSnapshots.isEmpty then
          .error (.missingInputSnapshot contract.name)
        else .error (.inputSnapshotMismatch contract.name)
      else validateContracts envelope rest

def validateInputSnapshots (workflow : GeoWorkflow) (envelope : CommandEnvelope) :
    Except CommandError Unit := do
  validateSources workflow envelope.sourceSnapshots
  validateInputs workflow envelope.inputSnapshots
  validateContracts envelope workflow.inputContracts

variable (rt : Runtime)

/-- `validate_workflow_command` for the registered graph of a `RunWorkflow`. -/
def validateRun (workflow : GeoWorkflow) (envelope : CommandEnvelope) :
    Except CommandError WorkflowDigest := do
  let digest ← (workflow.stableDigest rt).mapError CommandError.workflowInvalid
  let actual := WorkflowDigest.new digest
  match envelope.workflowDigest with
  | none => throw .missingWorkflowDigest
  | some expected =>
    if expected ≠ actual then throw (.workflowDigestMismatch expected.text actual.text)
    validateInputSnapshots workflow envelope
    return actual

def validateWorkflowCommand (bus : CommandBus) (envelope : CommandEnvelope) :
    Except CommandError (Option (GeoWorkflow × WorkflowDigest)) :=
  match envelope.command with
  | .runWorkflow workflowId =>
    match bus.workflows[workflowId]? with
    | none => .error (.workflowNotRegistered workflowId)
    | some workflow => do
      let digest ← validateRun rt workflow envelope
      return some (workflow, digest)
  | _ => .ok none

/-- The workflow node a mutation must be bound to, with the node's operation. -/
def requiredBinding : Command → Option (MutationWorkflowBinding × String)
  | .initializeEditableLayer _ _ _ _ workflow => some (workflow, "InitializeEditableLayer")
  | .editFeatures _ _ edit workflow => some (workflow, edit.workflowOperation)
  | .setEvidenceMapStyle _ workflow => some (workflow, "SetEvidenceMapStyle")
  | _ => none

/-- `validate_mutation_workflow` for the registered graph of a binding. -/
def validateBinding (workflow : GeoWorkflow) (envelope : CommandEnvelope)
    (binding : MutationWorkflowBinding) (expectedOperation : String) :
    Except CommandError Unit := do
  let actual ← (workflow.stableDigest rt).mapError CommandError.bindingWorkflowInvalid
  match envelope.workflowDigest with
  | none => throw .bindingDigestMissing
  | some expected =>
    if expected.text ≠ actual then throw (.workflowDigestMismatch expected.text actual)
    match workflow.steps.find? fun step => step.nodeId rt = binding.nodeId with
    | none => throw (.bindingNodeMissing binding.nodeId)
    | some node =>
      if node.operation ≠ expectedOperation then
        throw (.bindingOperation binding.nodeId node.operation expectedOperation)

def validateMutationWorkflow (bus : CommandBus) (envelope : CommandEnvelope) :
    Except CommandError Unit :=
  match requiredBinding envelope.command with
  | none => .ok ()
  | some (binding, expectedOperation) =>
    match bus.workflows[binding.workflowId]? with
    | none => .error (.bindingNotRegistered binding.workflowId)
    | some workflow => validateBinding rt workflow envelope binding expectedOperation

/-! ## The dispatcher -/

def new (initialState : Project) : CommandBus :=
  { history := [], cursor := 0, beforeStates := [], afterStates := [],
    initialState := some initialState, currentState := some initialState, auditLog := [],
    workflows := ∅, workflowExecutions := ∅, expectedReplayDigest := none }

def registerWorkflow (workflow : GeoWorkflow) :
    Fallible CommandError CommandBus WorkflowDigest := do
  lift ((workflow.validate rt).mapError .workflowInvalid)
  let digest ← lift ((workflow.stableDigest rt).mapError .workflowInvalid)
  modify fun bus => { bus with workflows := bus.workflows.insert workflow.id workflow }
  return WorkflowDigest.new digest

variable (envelope : CommandEnvelope)

def contextOf (digest : WorkflowDigest) : WorkflowExecutionContext :=
  { workflowDigest := digest, commandId := envelope.id, commandTimestamp := envelope.timestamp,
    sourceSnapshots := envelope.sourceSnapshots, inputSnapshots := envelope.inputSnapshots }

/-- Call the executor of a validated workflow. -/
def execute (executor : Option WorkflowExecutor) (envelope : CommandEnvelope) :
    Option (GeoWorkflow × WorkflowDigest) →
      Except CommandError (Option (WorkflowDigest × WorkflowExecution))
  | none => .ok none
  | some (workflow, digest) =>
    match executor with
    | none => .error .executorRequired
    | some executor => do
      let execution ← (executor workflow (contextOf envelope digest)).mapError
        CommandError.workflowExecutionFailed
      if Text.isBlank execution.resultDigest then throw .emptyResultDigest
      return some (digest, execution)

/-- Everything that is checked before the project is changed. -/
def authorize (bus : CommandBus) (envelope : CommandEnvelope) (executor : Option WorkflowExecutor) :
    Except CommandError (Option (WorkflowDigest × WorkflowExecution)) := do
  bus.validateMutationWorkflow rt envelope
  let validated ← bus.validateWorkflowCommand rt envelope
  execute executor envelope validated

def recordOf (digest : WorkflowDigest) (execution : WorkflowExecution) : WorkflowExecutionRecord :=
  { commandId := envelope.id, workflowDigest := digest, resultDigest := execution.resultDigest,
    output := execution.output, evidence := execution.evidence, events := execution.events }

/-- Enter an accepted mutation: drop the undone branch and append. -/
def commit (run : Option (WorkflowDigest × WorkflowExecution))
    (before after : Project) (bus : CommandBus) : CommandBus :=
  { bus with
    initialState := if bus.initialState.isNone then some before else bus.initialState
    history := bus.history.take bus.cursor ++ [envelope]
    beforeStates := bus.beforeStates.take bus.cursor ++ [before]
    afterStates := bus.afterStates.take bus.cursor ++ [after]
    cursor := (bus.history.take bus.cursor).length + 1
    currentState := some after
    auditLog := bus.auditLog ++ [envelope]
    workflowExecutions :=
      match run with
      | some (digest, execution) =>
        bus.workflowExecutions.insert envelope.id (recordOf envelope digest execution)
      | none => bus.workflowExecutions }

def log (bus : CommandBus) : CommandBus :=
  { bus with auditLog := bus.auditLog ++ [envelope] }

end CommandBus

namespace Session

open CommandBus

def undo : Fallible CommandError Session Unit := do
  let s ← get
  check (s.bus.cursor ≠ 0) .nothingToUndo
  match s.bus.beforeStates[s.bus.cursor - 1]? with
  | none => throw .missingStateSnapshot
  | some state =>
    modify fun s =>
      { project := state
        bus := { s.bus with cursor := s.bus.cursor - 1, currentState := some state } }

def redo : Fallible CommandError Session Unit := do
  let s ← get
  check (s.bus.cursor < s.bus.history.length) .nothingToRedo
  match s.bus.afterStates[s.bus.cursor]? with
  | none => throw .missingStateSnapshot
  | some state =>
    modify fun s =>
      { project := state
        bus := { s.bus with cursor := s.bus.cursor + 1, currentState := some state } }

def logEvent (envelope : CommandEnvelope) (s : Session) : Session :=
  { s with bus := s.bus.log envelope }

variable (rt : Runtime)

def execution (commandId : Uuid)
    (run : Option (WorkflowDigest × WorkflowExecution)) (s : Session) : CommandExecution :=
  { commandId := commandId, stateDigest := s.project.stateDigest rt,
    workflowDigest := run.map Prod.fst, resultDigest := run.map fun r => r.2.resultDigest,
    output := run.map fun r => r.2.output, evidence := run.map fun r => r.2.evidence,
    events := (run.map fun r => r.2.events).getD [], cursor := s.bus.cursor }

variable (now : DateTime)

def dispatch (envelope : CommandEnvelope)
    (executor : Option WorkflowExecutor) : Fallible CommandError Session CommandExecution :=
  match envelope.command with
  | .undo => do
    undo
    modify (logEvent envelope)
    let s ← get
    return s.execution rt envelope.id none
  | .redo => do
    redo
    modify (logEvent envelope)
    let s ← get
    return s.execution rt envelope.id none
  | _ => do
    let s ← get
    let run ← lift (s.bus.authorize rt envelope executor)
    let before := s.project
    Fallible.zoom Session.project (fun s p => { s with project := p })
      (Project.applyMutation rt now envelope run)
    modify fun s => { s with bus := s.bus.commit envelope run before s.project }
    let s ← get
    return s.execution rt envelope.id run

def apply (envelope : CommandEnvelope) : Fallible CommandError Session CommandExecution :=
  dispatch rt now envelope none

def applyWithExecutor (envelope : CommandEnvelope)
    (executor : WorkflowExecutor) : Fallible CommandError Session CommandExecution :=
  dispatch rt now envelope (some executor)

def registerWorkflow (rt : Runtime) (workflow : GeoWorkflow) :
    Fallible CommandError Session WorkflowDigest :=
  Fallible.zoom Session.bus (fun s bus => { s with bus := bus })
    (CommandBus.registerWorkflow rt workflow)

def applyWithWorkflow (envelope : CommandEnvelope)
    (workflow : GeoWorkflow) : Fallible CommandError Session CommandExecution := do
  let _ ← registerWorkflow rt workflow
  apply rt now envelope

def applyWithWorkflowExecutor (envelope : CommandEnvelope)
    (workflow : GeoWorkflow) (executor : WorkflowExecutor) :
    Fallible CommandError Session CommandExecution := do
  let _ ← registerWorkflow rt workflow
  applyWithExecutor rt now envelope executor

end Session
end GeneGIS
