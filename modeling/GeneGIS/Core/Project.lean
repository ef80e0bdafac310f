/-
The canonical state is the JSON document without the members that name run-time data, whatever
object they are found in, and the state digest is that of its text.
-/
import GeneGIS.Core.Edit
import GeneGIS.Runtime
import GeneGIS.Style

namespace GeneGIS

inductive LayerKind where
  | vector
  | raster
  | tile
  | pointCloud
  | scene3d
  | table
  deriving DecidableEq

def LayerKind.asStr : LayerKind → String
  | .vector => "vector"
  | .raster => "raster"
  | .tile => "tile"
  | .pointCloud => "point_cloud"
  | .scene3d => "scene3d"
  | .table => "table"

structure Bbox where
  minX : F64
  minY : F64
  maxX : F64
  maxY : F64
  deriving DecidableEq

def Bbox.toJson (b : Bbox) : Value := .ofList .ofF64 [b.minX, b.minY, b.maxX, b.maxY]

structure LayerStatistics where
  featureCount : Option Nat
  bbox : Option Bbox

def LayerStatistics.toJson (s : LayerStatistics) : Value :=
  .object [("feature_count", .ofOption .ofNat s.featureCount),
    ("bbox", .ofOption Bbox.toJson s.bbox)]

structure Layer where
  id : Uuid
  name : String
  kind : LayerKind
  sourceId : Uuid
  crs : Option String
  extent : Option Bbox
  timeExtent : Option (DateTime × DateTime)
  statistics : LayerStatistics
  styleId : Option Uuid
  visible : Bool
  opacity : F32

def Layer.toJson (rt : Runtime) (l : Layer) : Value :=
  .object [("id", .str l.id.toText), ("name", .str l.name), ("kind", .str l.kind.asStr),
    ("source_id", .str l.sourceId.toText), ("crs", .ofOption .str l.crs),
    ("extent", .ofOption Bbox.toJson l.extent),
    ("time_extent", .ofOption (fun t => .ofList rt.dateTime [t.1, t.2]) l.timeExtent),
    ("statistics", l.statistics.toJson),
    ("style_id", .ofOption (fun id => .str id.toText) l.styleId), ("visible", .bool l.visible),
    ("opacity", .ofF64 l.opacity.widen)]

inductive ViewKind where
  | map
  | scene
  | dashboard
  | notebook
  | report

def ViewKind.asStr : ViewKind → String
  | .map => "map"
  | .scene => "scene"
  | .dashboard => "dashboard"
  | .notebook => "notebook"
  | .report => "report"

structure View where
  id : Uuid
  name : String
  kind : ViewKind
  layerIds : List Uuid
  crs : Option String
  center : Option Point
  zoom : Option F64

def View.toJson (v : View) : Value :=
  .object [("id", .str v.id.toText), ("name", .str v.name), ("kind", .str v.kind.asStr),
    ("layer_ids", .ofList (fun id => .str id.toText) v.layerIds), ("crs", .ofOption .str v.crs),
    ("center", .ofOption Point.toJson v.center), ("zoom", .ofOption .ofF64 v.zoom)]

inductive SourceKind where
  | file
  | directory
  | objectStore
  | httpRange
  | database
  | stac
  | ogcApi
  | rest
  | sensorStream
  | generated

def SourceKind.asStr : SourceKind → String
  | .file => "file"
  | .directory => "directory"
  | .objectStore => "object_store"
  | .httpRange => "http_range"
  | .database => "database"
  | .stac => "stac"
  | .ogcApi => "ogc_api"
  | .rest => "rest"
  | .sensorStream => "sensor_stream"
  | .generated => "generated"

structure DataSource where
  id : Uuid
  name : String
  kind : SourceKind
  uri : String
  formatHint : Option String
  crs : Option String
  license : Option String
  sourceUrl : Option String

def DataSource.toJson (s : DataSource) : Value :=
  .object [("id", .str s.id.toText), ("name", .str s.name), ("kind", .str s.kind.asStr),
    ("uri", .str s.uri), ("format_hint", .ofOption .str s.formatHint),
    ("crs", .ofOption .str s.crs), ("license", .ofOption .str s.license),
    ("source_url", .ofOption .str s.sourceUrl)]

structure ProvenanceEntry where
  id : Uuid
  timestamp : DateTime
  actor : String
  action : String
  target : String
  details : Value
  agentRunId : Option Uuid
  workflowId : Option String

def ProvenanceEntry.toJson (rt : Runtime) (e : ProvenanceEntry) : Value :=
  .object (
    [("id", .str e.id.toText), ("timestamp", rt.dateTime e.timestamp), ("actor", .str e.actor),
      ("action", .str e.action), ("target", .str e.target), ("details", e.details)] ++
    Value.optional "agent_run_id" (fun id => .str id.toText) e.agentRunId ++
    Value.optional "workflow_id" .str e.workflowId)

structure ProvenanceStore where
  entries : List ProvenanceEntry

/-- Append the entry of an agent run; its identifier and time are drawn by the caller. -/
def ProvenanceStore.recordAgentRun (id : Uuid) (now : DateTime) (runId : Uuid)
    (workflowId actor action : String) (details : Value) (s : ProvenanceStore) : ProvenanceStore :=
  { entries := s.entries ++
      [{ id := id, timestamp := now, actor := actor, action := action, target := workflowId
         details := details, agentRunId := some runId, workflowId := some workflowId }] }

def ProvenanceStore.toJson (rt : Runtime) (s : ProvenanceStore) : Value :=
  .object [("entries", .ofList (ProvenanceEntry.toJson rt) s.entries)]

structure Workspace where
  id : Uuid
  name : String
  createdAt : DateTime
  updatedAt : DateTime
  sources : List DataSource
  layers : List Layer
  editableLayers : List EditableLayer
  mapStyles : List EvidenceMapStyle
  views : List View
  activeView : Option Uuid
  provenance : ProvenanceStore

namespace Workspace

/-- An empty workspace; its identifier and creation time are drawn by the caller. -/
def new (id : Uuid) (now : DateTime) (name : String) : Workspace :=
  { id := id, name := name, createdAt := now, updatedAt := now, sources := [], layers := [],
    editableLayers := [], mapStyles := [], views := [], activeView := none,
    provenance := { entries := [] } }

def touch (now : DateTime) (w : Workspace) : Workspace := { w with updatedAt := now }

def addLayer (now : DateTime) (layer : Layer) (w : Workspace) : Workspace :=
  ({ w with layers := w.layers ++ [layer] }).touch now

def toJson (rt : Runtime) (w : Workspace) : Value :=
  .object [("id", .str w.id.toText), ("name", .str w.name),
    ("created_at", rt.dateTime w.createdAt), ("updated_at", rt.dateTime w.updatedAt),
    ("sources", .ofList DataSource.toJson w.sources),
    ("layers", .ofList (Layer.toJson rt) w.layers),
    ("editable_layers", .ofList EditableLayer.toJson w.editableLayers),
    ("map_styles", .ofList EvidenceMapStyle.toJson w.mapStyles),
    ("views", .ofList View.toJson w.views),
    ("active_view", .ofOption (fun id => .str id.toText) w.activeView),
    ("provenance", w.provenance.toJson rt)]

end Workspace

structure ProjectManifest where
  schemaVersion : Nat
  workspace : Workspace

def ProjectManifest.toJson (rt : Runtime) (m : ProjectManifest) : Value :=
  .object [("schema_version", .ofNat m.schemaVersion), ("workspace", m.workspace.toJson rt)]

structure Project where
  manifest : ProjectManifest
  path : Option String

namespace Project

def new (id : Uuid) (now : DateTime) (name : String) : Project :=
  { manifest := { schemaVersion := 1, workspace := Workspace.new id now name }, path := none }

def workspace (p : Project) : Workspace := p.manifest.workspace

def modifyWorkspace (f : Workspace → Workspace) (p : Project) : Project :=
  { p with manifest := { p.manifest with workspace := f p.manifest.workspace } }

def toJson (rt : Runtime) (p : Project) : Value :=
  .object [("manifest", p.manifest.toJson rt), ("path", .ofOption .str p.path)]

def runtimeFields : List String :=
  ["created_at", "updated_at", "timestamp", "command_timestamp", "observed_at", "retrieved_at",
    "path"]

def canonicalStateJson (rt : Runtime) (p : Project) : Value := (p.toJson rt).strip runtimeFields

def stateDigest (rt : Runtime) (p : Project) : String := rt.digestJson (p.canonicalStateJson rt)

end Project
end GeneGIS
