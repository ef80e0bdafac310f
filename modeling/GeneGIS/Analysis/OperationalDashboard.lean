/-
A view shows one result with the state of the feed and the history of alerts.  It names the digest
of the view before it, and is digested with its own digest empty.
-/
import GeneGIS.Analysis.VerifiedAlert

namespace GeneGIS

structure HistogramBin where
  label : String
  minimumInclusive : F64
  maximumExclusive : Option F64
  count : Nat

structure CategoryCount where
  category : String
  count : Nat

inductive DashboardWidget where
  | kpi (id label : String) (value : F64) (unit : String)
  | histogram (id label unit : String) (bins : List HistogramBin)
  | categoryBreakdown (id label : String) (categories : List CategoryCount)

def DashboardWidget.id : DashboardWidget → String
  | .kpi id _ _ _ => id
  | .histogram id _ _ _ => id
  | .categoryBreakdown id _ _ => id

structure OperationalMapLayer where
  id : String
  resultDigest : String
  styleDigest : String
  visible : Bool
  opacity : F64

structure OperationalStatus where
  cursor : Nat
  watermark : String
  fresh : Bool
  incrementalStateDigest : String
  feedSource : SourceSnapshot

structure OperationalAlertHistoryEntry where
  alertDigest : String
  triggeringResultDigest : String
  triggeredAt : String
  state : String
  deriving DecidableEq

structure OperationalDashboardView where
  schemaVersion : String
  version : Nat
  previousViewDigest : Option String
  resultDigest : String
  mapLayers : List OperationalMapLayer
  widgets : List DashboardWidget
  status : OperationalStatus
  alertHistory : List OperationalAlertHistoryEntry
  viewDigest : String

structure OperationalDashboardDraft where
  resultDigest : String
  mapLayers : List OperationalMapLayer
  widgets : List DashboardWidget
  status : OperationalStatus
  alertHistory : List OperationalAlertHistoryEntry
  previous : Option OperationalDashboardView

inductive OperationalDashboardError where
  | invalid (reason : String)
  deriving DecidableEq

def Json.option {α : Type} (write : α → Json) : Option α → Json
  | none => .null
  | some a => write a

def HistogramBin.toJson (b : HistogramBin) : Json :=
  .obj [("label", .str b.label), ("minimum_inclusive", b.minimumInclusive.toJson),
    ("maximum_exclusive", .option F64.toJson b.maximumExclusive), ("count", .nat b.count)]

def CategoryCount.toJson (c : CategoryCount) : Json :=
  .obj [("category", .str c.category), ("count", .nat c.count)]

def DashboardWidget.toJson : DashboardWidget → Json
  | .kpi id label value unit =>
    .obj [("kind", .str "kpi"), ("id", .str id), ("label", .str label), ("value", value.toJson),
      ("unit", .str unit)]
  | .histogram id label unit bins =>
    .obj [("kind", .str "histogram"), ("id", .str id), ("label", .str label), ("unit", .str unit),
      ("bins", .arr (bins.map HistogramBin.toJson))]
  | .categoryBreakdown id label categories =>
    .obj [("kind", .str "category_breakdown"), ("id", .str id), ("label", .str label),
      ("categories", .arr (categories.map CategoryCount.toJson))]

def OperationalMapLayer.toJson (l : OperationalMapLayer) : Json :=
  .obj [("id", .str l.id), ("result_digest", .str l.resultDigest),
    ("style_digest", .str l.styleDigest), ("visible", .bool l.visible),
    ("opacity", l.opacity.toJson)]

def OperationalStatus.toJson (s : OperationalStatus) : Json :=
  .obj [("cursor", .nat s.cursor), ("watermark", .str s.watermark), ("fresh", .bool s.fresh),
    ("incremental_state_digest", .str s.incrementalStateDigest),
    ("feed_source", s.feedSource.toJson.json)]

def OperationalAlertHistoryEntry.toJson (e : OperationalAlertHistoryEntry) : Json :=
  .obj [("alert_digest", .str e.alertDigest),
    ("triggering_result_digest", .str e.triggeringResultDigest),
    ("triggered_at", .str e.triggeredAt), ("state", .str e.state)]

def OperationalDashboardView.toJson (v : OperationalDashboardView) : Json :=
  .obj [("schema_version", .str v.schemaVersion), ("version", .nat v.version),
    ("previous_view_digest", .option .str v.previousViewDigest),
    ("result_digest", .str v.resultDigest),
    ("map_layers", .arr (v.mapLayers.map OperationalMapLayer.toJson)),
    ("widgets", .arr (v.widgets.map DashboardWidget.toJson)), ("status", v.status.toJson),
    ("alert_history", .arr (v.alertHistory.map OperationalAlertHistoryEntry.toJson)),
    ("view_digest", .str v.viewDigest)]

namespace OperationalDashboard

variable (rt : Runtime)

abbrev Operating (α : Type) := Except OperationalDashboardError α

def schemaVersion : String := "0.1.0"

def viewDigest (v : OperationalDashboardView) : String :=
  rt.digestCompact { v with viewDigest := "" }.toJson

/-! ## Validation -/

def require (holds : Bool) (reason : String) : Operating Unit :=
  if holds then .ok () else .error (.invalid reason)

def requireDigest (value label : String) : Operating Unit :=
  require (Text.isSha256 value) ("invalid " ++ label ++ " digest")

def parseTime (value reason : String) : Operating DateTime :=
  match rt.parseRfc3339 value with
  | some t => .ok t
  | none => .error (.invalid reason)

/-- The loop over the layers, with the identifiers before. -/
def validateLayers (resultDigest : String) : List String → List OperationalMapLayer → Operating Unit
  | _, [] => .ok ()
  | ids, layer :: rest => do
    require (!(Text.isBlank layer.id || decide (layer.id ∈ ids) ||
        layer.resultDigest != resultDigest || !layer.opacity.isFinite ||
        !(F64.le .zero layer.opacity && F64.le layer.opacity (.ofNat 1))))
      "map layer identity, result, or opacity is invalid"
    requireDigest layer.styleDigest "style"
    validateLayers resultDigest (layer.id :: ids) rest

def validateWidgets : List String → List DashboardWidget → Operating Unit
  | _, [] => .ok ()
  | ids, widget :: rest => do
    require (!(Text.isBlank widget.id || decide (widget.id ∈ ids)))
      "widget ids must be non-empty and unique"
    validateWidgets (widget.id :: ids) rest

def validateAlerts : List OperationalAlertHistoryEntry → Operating Unit
  | [] => .ok ()
  | alert :: rest => do
    requireDigest alert.alertDigest "alert"
    requireDigest alert.triggeringResultDigest "alert triggering result"
    require (["open", "acknowledged", "resolved"].contains alert.state &&
        (rt.parseRfc3339 alert.triggeredAt).isSome)
      "alert history entry is not linked to this result"
    validateAlerts rest

def validateComponents (resultDigest : String) (layers : List OperationalMapLayer)
    (widgets : List DashboardWidget) (status : OperationalStatus)
    (alerts : List OperationalAlertHistoryEntry) : Operating Unit := do
  requireDigest resultDigest "result"
  requireDigest status.incrementalStateDigest "incremental state"
  let _ ← parseTime rt status.watermark "invalid watermark"
  require (!(layers.isEmpty || widgets.isEmpty ||
      decide (status.feedSource.checksumStatus ≠ .verified)))
    "map, widgets, and verified feed source are required"
  validateLayers resultDigest [] layers
  validateWidgets [] widgets
  validateAlerts rt alerts

def verifyOperationalDashboard (v : OperationalDashboardView) : Operating Unit := do
  require (!(v.schemaVersion != schemaVersion || decide (v.version = 0) ||
      decide (v.version = 1) != v.previousViewDigest.isNone))
    "schema or version chain is invalid"
  validateComponents rt v.resultDigest v.mapLayers v.widgets v.status v.alertHistory
  require (v.viewDigest == viewDigest rt v) "view digest mismatch"

variable (d : OperationalDashboardDraft)

def validateDraft : Operating Unit := do
  validateComponents rt d.resultDigest d.mapLayers d.widgets d.status d.alertHistory
  match d.previous with
  | none => .ok ()
  | some previous => do
    verifyOperationalDashboard rt previous
    let previousWatermark ← parseTime rt previous.status.watermark "invalid previous watermark"
    let nextWatermark ← parseTime rt d.status.watermark "invalid next watermark"
    require (!(decide (d.status.cursor < previous.status.cursor) ||
        decide (nextWatermark.nanos < previousWatermark.nanos) ||
        !previous.alertHistory.isPrefixOf d.alertHistory ||
        ((d.alertHistory.drop previous.alertHistory.length).any fun alert =>
          alert.triggeringResultDigest != d.resultDigest)))
      "cursor, watermark, or alert history regressed"

def nextVersion : Nat :=
  match d.previous with
  | none => 1
  | some previous => (previous.version + 1) % 2 ^ 64

def sealedView : OperationalDashboardView :=
  let view : OperationalDashboardView :=
    { schemaVersion := schemaVersion, version := nextVersion d
      previousViewDigest := d.previous.map OperationalDashboardView.viewDigest
      resultDigest := d.resultDigest, mapLayers := d.mapLayers, widgets := d.widgets
      status := d.status, alertHistory := d.alertHistory, viewDigest := "" }
  { view with viewDigest := viewDigest rt view }

def sealOperationalDashboard : Operating OperationalDashboardView := do
  validateDraft rt d
  let view := sealedView rt d
  verifyOperationalDashboard rt view
  return view

end OperationalDashboard
end GeneGIS
