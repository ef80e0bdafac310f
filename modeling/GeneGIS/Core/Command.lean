/-
Commands, envelopes, receipts and the persisted command log.
-/
import GeneGIS.Core.Project
import GeneGIS.Workflow.Graph

namespace GeneGIS

inductive CommandOrigin where
  | ui
  | ai
  | cli
  | plugin
  | system

def CommandOrigin.asStr : CommandOrigin → String
  | .ui => "ui"
  | .ai => "ai"
  | .cli => "cli"
  | .plugin => "plugin"
  | .system => "system"

structure WorkflowDigest where
  text : String
  deriving DecidableEq

def WorkflowDigest.new (value : String) : WorkflowDigest := ⟨Text.trim value⟩

def WorkflowDigest.toJson (d : WorkflowDigest) : Value := .str d.text

structure InputSnapshot where
  name : String
  source : SourceSnapshot
  crs : Option Crs
  coordinateUnit : Option CoordinateUnit
  valueUnit : Option String

def InputSnapshot.toJson (s : InputSnapshot) : Value :=
  .object ( [("name", .str s.name), ("source", s.source.toJson)] ++
    Value.optional "crs" Crs.toJson s.crs ++
    Value.optional "coordinate_unit" CoordinateUnit.toJson s.coordinateUnit ++
    Value.optional "value_unit" .str s.valueUnit)

inductive Command where
  | registerStacEndpoint (endpointId title url authKind : String)
      (authEnv authHeader : Option String)
  | removeStacEndpoint (endpointId : String)
  | searchFederatedStac (endpointIds : List String) (bbox : Option Bbox)
      (datetime : Option String) (collections : List String) (limit : Option Nat)
  | bindStacAsset (stacItemKey assetKey : String) (sourceEndpoints : List String)
      (href mediaType crs units license : String)
  | readRemoteGeoParquet (uri : String) (rowGroups : Option (List Nat))
  | addLayer (name : String) (sourceId : Uuid)
  | removeLayer (layerId : Uuid)
  | setLayerVisibility (layerId : Uuid) (visible : Bool)
  | setViewCamera (viewId : Uuid) (center : Point) (zoom : F64)
  | initializeEditableLayer (layerId : Uuid) (crs : Crs) (geometryKind : EditableGeometryKind)
      (schema : FeatureSchema) (workflow : MutationWorkflowBinding)
  | editFeatures (layerId : Uuid) (expectedLayerRevision : Nat) (edit : FeatureEdit)
      (workflow : MutationWorkflowBinding)
  | setEvidenceMapStyle (style : EvidenceMapStyle) (workflow : MutationWorkflowBinding)
  | runWorkflow (workflowId : Uuid)
  | undo
  | redo
  deriving DecidableEq

namespace Command

/-- A variant is an object tagged with its name. -/
def tagged (name : String) (members : List (String × Value)) : Value :=
  .object (("type", .str name) :: members)

def toJson : Command → Value
  | .registerStacEndpoint endpointId title url authKind authEnv authHeader =>
    tagged "register_stac_endpoint" [("endpoint_id", .str endpointId), ("title", .str title),
      ("url", .str url), ("auth_kind", .str authKind), ("auth_env", .ofOption .str authEnv),
      ("auth_header", .ofOption .str authHeader)]
  | .removeStacEndpoint endpointId =>
    tagged "remove_stac_endpoint" [("endpoint_id", .str endpointId)]
  | .searchFederatedStac endpointIds bbox datetime collections limit =>
    tagged "search_federated_stac" [("endpoint_ids", .ofList .str endpointIds),
      ("bbox", .ofOption Bbox.toJson bbox), ("datetime", .ofOption .str datetime),
      ("collections", .ofList .str collections), ("limit", .ofOption .ofNat limit)]
  | .bindStacAsset stacItemKey assetKey sourceEndpoints href mediaType crs units license =>
    tagged "bind_stac_asset" [("stac_item_key", .str stacItemKey), ("asset_key", .str assetKey),
      ("source_endpoints", .ofList .str sourceEndpoints), ("href", .str href),
      ("media_type", .str mediaType), ("crs", .str crs), ("units", .str units),
      ("license", .str license)]
  | .readRemoteGeoParquet uri rowGroups =>
    tagged "read_remote_geo_parquet" [("uri", .str uri),
      ("row_groups", .ofOption (.ofList .ofNat) rowGroups)]
  | .addLayer name sourceId =>
    tagged "add_layer" [("name", .str name), ("source_id", .str sourceId.toText)]
  | .removeLayer layerId => tagged "remove_layer" [("layer_id", .str layerId.toText)]
  | .setLayerVisibility layerId visible =>
    tagged "set_layer_visibility" [("layer_id", .str layerId.toText), ("visible", .bool visible)]
  | .setViewCamera viewId center zoom =>
    tagged "set_view_camera" [("view_id", .str viewId.toText), ("center", Point.toJson center),
      ("zoom", .ofF64 zoom)]
  | .initializeEditableLayer layerId crs geometryKind schema workflow =>
    tagged "initialize_editable_layer" [("layer_id", .str layerId.toText), ("crs", crs.toJson),
      ("geometry_kind", .str geometryKind.asStr), ("schema", schema.toJson),
      ("workflow", workflow.toJson)]
  | .editFeatures layerId expectedLayerRevision edit workflow =>
    tagged "edit_features" [("layer_id", .str layerId.toText),
      ("expected_layer_revision", .ofNat expectedLayerRevision), ("edit", edit.toJson),
      ("workflow", workflow.toJson)]
  | .setEvidenceMapStyle style workflow =>
    tagged "set_evidence_map_style" [("style", style.toJson), ("workflow", workflow.toJson)]
  | .runWorkflow workflowId => tagged "run_workflow" [("workflow_id", .str workflowId.toText)]
  | .undo => tagged "undo" []
  | .redo => tagged "redo" []

end Command

structure CommandEnvelope where
  id : Uuid
  origin : CommandOrigin
  timestamp : DateTime
  workflowDigest : Option WorkflowDigest
  sourceSnapshots : List SourceSnapshot
  inputSnapshots : List InputSnapshot
  command : Command

def CommandEnvelope.toJson (rt : Runtime) (e : CommandEnvelope) : Value :=
  .object ( [("id", .str e.id.toText), ("origin", .str e.origin.asStr),
      ("timestamp", rt.dateTime e.timestamp)] ++
    Value.optional "workflow_digest" WorkflowDigest.toJson e.workflowDigest ++
    Value.unlessEmpty "source_snapshots" SourceMetadata.toJson e.sourceSnapshots ++
    Value.unlessEmpty "input_snapshots" InputSnapshot.toJson e.inputSnapshots ++
    [("command", e.command.toJson)])

/-! ## Workflow execution -/

structure WorkflowExecutionContext where
  workflowDigest : WorkflowDigest
  commandId : Uuid
  commandTimestamp : DateTime
  sourceSnapshots : List SourceSnapshot
  inputSnapshots : List InputSnapshot

structure WorkflowExecutionEvent where
  kind : String
  sourceUri : Option String
  observedAt : DateTime
  details : Value

def WorkflowExecutionEvent.toJson (rt : Runtime) (e : WorkflowExecutionEvent) : Value :=
  .object ( [("kind", .str e.kind)] ++ Value.optional "source_uri" .str e.sourceUri ++
    [("observed_at", rt.dateTime e.observedAt), ("details", e.details)])

structure WorkflowExecution where
  resultDigest : String
  output : Value
  evidence : Value
  events : List WorkflowExecutionEvent

structure WorkflowExecutionRecord where
  commandId : Uuid
  workflowDigest : WorkflowDigest
  resultDigest : String
  output : Value
  evidence : Value
  events : List WorkflowExecutionEvent

def WorkflowExecutionRecord.toJson (rt : Runtime) (r : WorkflowExecutionRecord) : Value :=
  .object [("command_id", .str r.commandId.toText), ("workflow_digest", r.workflowDigest.toJson),
    ("result_digest", .str r.resultDigest), ("output", r.output), ("evidence", r.evidence),
    ("events", .ofList (WorkflowExecutionEvent.toJson rt) r.events)]

inductive WorkflowExecutionError where
  | failed (reason : String)

/-- A workflow executor: any function of the graph and the context of one run. -/
abbrev WorkflowExecutor :=
  GeoWorkflow → WorkflowExecutionContext → Except WorkflowExecutionError WorkflowExecution

structure CommandExecution where
  commandId : Uuid
  stateDigest : String
  workflowDigest : Option WorkflowDigest
  resultDigest : Option String
  output : Option Value
  evidence : Option Value
  events : List WorkflowExecutionEvent
  cursor : Nat

/-- Errors of the dispatcher.  Where the source prints another error into the
reason, the error itself stands here. -/
inductive CommandError where
  | targetNotFound (target : String)
  | unsupportedCommand (command : Command)
  | duplicateEnvelopeIdentity
  | workflowNotRegistered (workflowId : Uuid)
  | workflowInvalid (reason : WorkflowValidationError)
  | executorRequired
  | workflowExecutionFailed (reason : WorkflowExecutionError)
  | emptyResultDigest
  | missingWorkflowDigest
  | workflowDigestMismatch (expected actual : String)
  | bindingNotRegistered (workflowId : Uuid)
  | bindingWorkflowInvalid (reason : WorkflowValidationError)
  | bindingDigestMissing
  | bindingNodeMissing (nodeId : String)
  | bindingOperation (nodeId operation expected : String)
  | featureEditRejected (reason : EditError)
  | notVectorLayer
  | editableLayerInitialized
  | mapStyleRejected (reason : StyleError)
  | missingInputSnapshot (input : String)
  | inputSnapshotMismatch (input : String)
  | nothingToUndo
  | nothingToRedo
  | missingStateSnapshot
  | unsupportedLogSchema (version : Nat)
  | missingLogDigest
  | logDigestMismatch (expected observed : String)
  | replayDigestMismatch (expected observed : String)
  | json (reason : String)

structure CommandLog where
  schemaVersion : Nat
  initialState : Project
  commands : List CommandEnvelope
  auditLog : List CommandEnvelope
  cursor : Nat
  workflows : List GeoWorkflow
  workflowExecutions : List WorkflowExecutionRecord
  stateDigest : String
  logDigest : Option String

namespace CommandLog

def currentSchemaVersion : Nat := 1

def toJson (rt : Runtime) (l : CommandLog) : Value :=
  .object (
    [("schema_version", .ofNat l.schemaVersion), ("initial_state", l.initialState.toJson rt),
      ("commands", .ofList (CommandEnvelope.toJson rt) l.commands),
      ("audit_log", .ofList (CommandEnvelope.toJson rt) l.auditLog), ("cursor", .ofNat l.cursor),
      ("workflows", .ofList GeoWorkflow.toJson l.workflows),
      ("workflow_executions", .ofList (WorkflowExecutionRecord.toJson rt) l.workflowExecutions),
      ("state_digest", .str l.stateDigest)] ++
    Value.optional "log_digest" .str l.logDigest)

/-- Digest of the document without its own digest. -/
def digest (rt : Runtime) (l : CommandLog) : String :=
  rt.digestJson ({ l with logDigest := none }.toJson rt)

end CommandLog

/-- The reader and the writer of the log file. -/
structure LogCodec where
  toStringPretty : Value → String
  fromStr : String → Except String CommandLog

end GeneGIS
