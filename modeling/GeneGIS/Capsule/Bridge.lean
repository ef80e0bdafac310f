/-
A capsule carries the layers that a host selected in four documents.  The verifier checks the
entries of the inventory, not that there is one for what it reads.
-/
import GeneGIS.Capsule.Approval
import GeneGIS.Workflow.Retimed
import GeneGIS.Workflow.Wiring

namespace GeneGIS

open List Bool

inductive DesktopLayerFormat where
  | geoJson
  | geoParquet
  | cog
  | copc
  | pmTiles

namespace DesktopLayerFormat

def extension : DesktopLayerFormat → String
  | .geoJson => "geojson"
  | .geoParquet => "parquet"
  | .cog => "tif"
  | .copc => "copc.laz"
  | .pmTiles => "pmtiles"

def asStr : DesktopLayerFormat → String
  | .geoJson => "geojson"
  | .geoParquet => "geoparquet"
  | .cog => "cog"
  | .copc => "copc"
  | .pmTiles => "pmtiles"

/-- The name that the request gives the format. -/
def toJson : DesktopLayerFormat → Value
  | .geoJson => .str "geo_json"
  | .geoParquet => .str "geo_parquet"
  | .cog => .str "cog"
  | .copc => .str "copc"
  | .pmTiles => .str "pm_tiles"

end DesktopLayerFormat

structure DesktopBridgeLayer where
  id : String
  name : String
  kind : LayerKind
  format : DesktopLayerFormat
  sourcePath : String
  crs : Crs
  coordinateUnit : CoordinateUnit
  license : String
  expectedChecksum : Option String
  extent : Option (String × String × String × String)
  temporalInterval : Option (String × String)

structure DesktopBridgeRequest where
  projectName : String
  desktopHost : String
  layers : List DesktopBridgeLayer

structure BridgeCapsuleManifest where
  schemaVersion : String
  workflowDigest : String
  projectDigest : String
  entries : List CapsuleEntry

structure BridgeCapsuleVerification where
  schemaVersion : String
  workflowDigest : String
  projectDigest : String
  verifiedLayers : Nat
  verifiedEntries : Nat

structure DesktopLayerBridgeInput where
  layerId : String
  format : String
  crs : Crs
  source : SourceSnapshot

def DesktopBridgeLayer.toJson (layer : DesktopBridgeLayer) : Value :=
  .object [("id", .str layer.id), ("name", .str layer.name), ("kind", .str layer.kind.asStr),
    ("format", layer.format.toJson), ("source_path", .str layer.sourcePath),
    ("crs", layer.crs.toJson), ("coordinate_unit", layer.coordinateUnit.toJson),
    ("license", .str layer.license),
    ("expected_checksum", .ofOption .str layer.expectedChecksum),
    ("extent", .ofOption (fun e => .ofList .str [e.1, e.2.1, e.2.2.1, e.2.2.2]) layer.extent),
    ("temporal_interval", .ofOption (fun t => .ofList .str [t.1, t.2]) layer.temporalInterval)]

def DesktopBridgeRequest.toJson (request : DesktopBridgeRequest) : Value :=
  .object [("project_name", .str request.projectName), ("desktop_host", .str request.desktopHost),
    ("layers", .ofList DesktopBridgeLayer.toJson request.layers)]

namespace Capsule.Bridge

open Fallible

/-- The readers of the documents, and of a number in a text. -/
structure BridgeReaders where
  manifest : Bytes → Except String BridgeCapsuleManifest
  request : Bytes → Except String DesktopBridgeRequest
  workflow : Bytes → Except String GeoWorkflow
  command : Bytes → Except String CommandEnvelope
  value : Bytes → Except String Value
  float : String → Option F64

def bridgePath : String := "bridge.json"

def requestPath : String := "metadata/bridge-request.json"

def inputContract (layer : DesktopLayerBridgeInput) : WorkflowInputContract :=
  { name := layer.layerId, crs := some layer.crs, coordinateUnit := some layer.crs.coordinateUnit
    valueUnit := some "source_bytes", sourceSnapshot := some layer.source, geoContract := none }

def validateStep (layers : List DesktopLayerBridgeInput) : WorkflowStep :=
  let step := WorkflowComposer.dagStep (Uuid.ofNat 1) "validate-layer-declarations"
    "ValidateDesktopLayerDeclarations"
    (.object [("formats", .ofList .str (layers.map DesktopLayerBridgeInput.format)),
      ("require", .ofList .str ["crs", "coordinate_unit", "license", "source_checksum"])]) []
  { step with inputs := step.inputs ++ layers.map fun layer => .input layer.layerId }

/-- The identifiers stand for the fresh ones of a run. -/
def desktopLayerBridgeTemplate (layers : List DesktopLayerBridgeInput) : GeoWorkflow where
  id := Uuid.ofNat 0
  goal := "選択したデスクトップGISレイヤーをプロジェクトカプセルへ転送"
  assumptions := []
  inputs := []
  inputContracts := layers.map inputContract
  steps :=
    [validateStep layers,
      WorkflowComposer.dagStep (Uuid.ofNat 2) "copy-content-addressed-assets"
        "CopyContentAddressedLayerAssets" (.object [("reject_path_escape", .bool true)])
        ["validate-layer-declarations"],
      WorkflowComposer.dagStep (Uuid.ofNat 3) "build-project-capsule"
        "BuildDesktopBridgeProjectCapsule" (.object [("schema_version", .str "0.1.0")])
        ["copy-content-addressed-assets"],
      WorkflowComposer.dagStep (Uuid.ofNat 4) "verify-bridge-inventory"
        "VerifyDesktopBridgeInventory" (.object [("require_byte_exact_assets", .bool true)])
        ["build-project-capsule"]]
  outputs := []
  outputRefs := [.output "verify-bridge-inventory" "result"]
  citations := []
  reviewStatus := .draft

/-- The source of a transferred layer: its checksum was compared with the file that was read. -/
def layerSource (layer : DesktopBridgeLayer) : SourceSnapshot :=
  { datasetId := none, uri := layer.sourcePath, license := some layer.license
    checksum := layer.expectedChecksum, expectedChecksum := layer.expectedChecksum
    observedChecksum := layer.expectedChecksum, retrievedAt := none
    sourceVersion := some "desktop-bridge-v0", checksumStatus := .verified }

def bridgeInput (layer : DesktopBridgeLayer) : DesktopLayerBridgeInput :=
  { layerId := layer.id, format := layer.format.asStr, crs := layer.crs
    source := layerSource layer }

/-! ## Verification -/

section

variable (lib : Offline) (readers : BridgeReaders)

def isLayerIdChar (c : Char) : Bool := ('a' ≤ c && c ≤ 'z') || ('0' ≤ c && c ≤ '9') || c == '-'

def finite (texts : String × String × String × String) : Option (F64 × F64 × F64 × F64) := do
  let a ← readers.float texts.1
  let b ← readers.float texts.2.1
  let c ← readers.float texts.2.2.1
  let d ← readers.float texts.2.2.2
  if a.isFinite && b.isFinite && c.isFinite && d.isFinite then some (a, b, c, d) else none

def validExtent (texts : String × String × String × String) : Bool :=
  match finite readers texts with
  | none => false
  | some (minX, minY, maxX, maxY) => !F64.le maxX minX && !F64.le maxY minY

variable (layer : DesktopBridgeLayer)

def validateLayer : Verifying Unit := do
  verifyUnless (Text.isBlank layer.name || Text.isBlank layer.license)
    ("layer " ++ layer.id ++ " lacks name or license")
  let definition ← required layer.crs.definition ("unsupported CRS: " ++ layer.crs.identifier)
  verifyUnless (definition.unit != layer.coordinateUnit)
    ("layer " ++ layer.id ++ " CRS/unit mismatch")
  verifyUnless (layer.extent.any fun extent => !validExtent readers extent)
    ("layer " ++ layer.id ++ " invalid extent")
  verifyUnless (layer.temporalInterval.any fun interval => Text.isBlank interval.1 ||
      Text.isBlank interval.2 || !decide (interval.1 < interval.2))
    ("layer " ++ layer.id ++ " invalid temporal interval")

def validateLayers : List String → List DesktopBridgeLayer → Verifying Unit
  | _, [] => .ok ()
  | ids, layer :: rest => do
    verifyUnless (layer.id.isEmpty || !layer.id.toList.all isLayerIdChar || ids.contains layer.id)
      ("invalid or duplicate layer id: " ++ layer.id)
    validateLayer readers layer
    validateLayers (layer.id :: ids) rest

def validateRequest (request : DesktopBridgeRequest) : Verifying Unit := do
  verifyUnless (Text.isBlank request.projectName || Text.isBlank request.desktopHost)
    "bridge project and desktop host are required"
  verifyUnless request.layers.isEmpty "bridge requires at least one selected layer"
  validateLayers readers [] request.layers

/-- The bytes that a file of the format starts and ends with, and its name. -/
def validAsset (format : DesktopLayerFormat) (fileName : String) (bytes : Bytes) : Bool :=
  let named (suffix : String) : Bool :=
    suffix.toList.isSuffixOf (Text.toAsciiLowercase fileName).toList
  match format with
  | .geoJson =>
    named ".geojson" &&
      match readers.value bytes with
      | .ok value => (value.json.get? "type").bind Json.asStr? == some "FeatureCollection"
      | .error _ => false
  | .geoParquet =>
    named ".parquet" && decide (8 ≤ bytes.length) &&
      (Bytes.ofText "PAR1").isPrefixOf bytes && (Bytes.ofText "PAR1").isSuffixOf bytes
  | .cog =>
    (named ".tif" || named ".tiff") &&
      ((Bytes.ofText "II*\u0000").isPrefixOf bytes || (Bytes.ofText "MM\u0000*").isPrefixOf bytes)
  | .copc => named ".copc.laz" && (Bytes.ofText "LASF").isPrefixOf bytes
  | .pmTiles => named ".pmtiles" && (Bytes.ofText "PMTiles\u0003").isPrefixOf bytes

def assetName : String := layer.id ++ "." ++ layer.format.extension

def assetPath : String := "assets/" ++ assetName layer

def checkInventory (root : Directory) : List CapsuleEntry → Verifying Unit
  | [] => .ok ()
  | item :: rest => do
    verifyUnless (!PluginManifest.isNormalized item.path) ("non-portable bridge path: " ++ item.path)
    let bytes ← readFile root item.path
    verifyUnless (item.bytes != bytes.length || item.sha256 != lib.digestBytes bytes)
      ("inventory mismatch: " ++ item.path)
    checkInventory root rest

def checkAssets (root : Directory) : List DesktopBridgeLayer → Verifying Unit
  | [] => .ok ()
  | layer :: rest => do
    let bytes ← readFile root (assetPath layer)
    verifyUnless (!validAsset readers layer.format (assetName layer) bytes)
      ("asset " ++ assetPath layer ++ " does not match declared " ++ layer.format.asStr ++ " format")
    verifyUnless (layer.expectedChecksum != some (lib.digestBytes bytes))
      ("bridge asset changed: " ++ layer.id)
    checkAssets root rest

def projectDigest (request : DesktopBridgeRequest) (entries : List CapsuleEntry) : String :=
  lib.digestJson (.object [("request", request.toJson), ("assets", .ofList CapsuleEntry.toJson
      (entries.filter fun item => item.role == "desktop-layer-asset"))])

def verifyDesktopBridgeCapsule (root : Directory) : Verifying BridgeCapsuleVerification := do
  let manifest ← readJson readers.manifest root bridgePath
  verifyUnless (manifest.schemaVersion != "0.1.0") "unsupported bridge capsule schema"
  checkInventory lib root manifest.entries
  let request ← readJson readers.request root requestPath
  validateRequest readers request
  let workflow ← readJson readers.workflow root workflowPath
  (workflow.validate lib.toRuntime).mapError .workflow
  let actualWorkflowDigest ← (workflow.stableDigest lib.toRuntime).mapError .workflow
  verifyUnless (actualWorkflowDigest != manifest.workflowDigest) "bridge workflow digest mismatch"
  let command ← readJson readers.command root commandPath
  verifyUnless (command.workflowDigest.map WorkflowDigest.text != some manifest.workflowDigest ||
      command.command != .runWorkflow workflow.id)
    "bridge command is not bound to workflow"
  checkAssets lib readers root request.layers
  verifyUnless (projectDigest lib request manifest.entries != manifest.projectDigest)
    "bridge project digest mismatch"
  return { schemaVersion := manifest.schemaVersion, workflowDigest := manifest.workflowDigest
           projectDigest := manifest.projectDigest, verifiedLayers := request.layers.length
           verifiedEntries := manifest.entries.length }

end

/-! ## What is checked -/

section

variable {lib : Offline} {readers : BridgeReaders} {root : Directory}
variable {manifest : BridgeCapsuleManifest} {request : DesktopBridgeRequest} {workflow : GeoWorkflow}

theorem checkInventory_ok {entries : List CapsuleEntry} {u : Unit} :
    checkInventory lib root entries = .ok u ↔
      ∀ item ∈ entries, PluginManifest.isNormalized item.path = true ∧ Intact lib root item := by
  induction entries with
  | nil => simp [checkInventory]
  | cons item rest ih =>
    rw [forall_mem_cons, ← ih]
    constructor
    · intro h
      obtain ⟨_, hpath, h⟩ := bind_iff.mp h
      obtain ⟨bytes, hbytes, h⟩ := bind_iff.mp h
      obtain ⟨_, hsame, h⟩ := bind_iff.mp h
      rw [verifyUnless_ok, not_eq_false'] at hpath
      rw [verifyUnless_ok, or_eq_false_iff, bne_eq_false_iff_eq, bne_eq_false_iff_eq] at hsame
      exact ⟨⟨hpath, bytes, readFile_ok.mp hbytes, hsame.1.symm, hsame.2.symm⟩, h⟩
    · intro ⟨⟨hpath, bytes, hbytes, hlength, hdigest⟩, h⟩
      refine verify_then ?_ ?_
      · rw [hpath]
        rfl
      refine bind_iff.mpr ⟨bytes, readFile_ok.mpr hbytes, ?_⟩
      refine verify_then ?_ h
      rw [hlength, hdigest]
      exact or_eq_false_iff.mpr ⟨bne_self_eq_false _, bne_self_eq_false _⟩

theorem checkAssets_ok {layers : List DesktopBridgeLayer} {u : Unit} :
    checkAssets lib readers root layers = .ok u ↔ ∀ layer ∈ layers, ∃ bytes,
      root.read (assetPath layer) = .ok bytes ∧
      validAsset readers layer.format (assetName layer) bytes = true ∧
      layer.expectedChecksum = some (lib.digestBytes bytes) := by
  induction layers with
  | nil => simp [checkAssets]
  | cons layer rest ih =>
    rw [forall_mem_cons, ← ih]
    constructor
    · intro h
      obtain ⟨bytes, hbytes, h⟩ := bind_iff.mp h
      obtain ⟨_, hvalid, h⟩ := bind_iff.mp h
      obtain ⟨_, hsame, h⟩ := bind_iff.mp h
      rw [verifyUnless_ok, not_eq_false'] at hvalid
      rw [verifyUnless_ok, bne_eq_false_iff_eq] at hsame
      exact ⟨⟨bytes, readFile_ok.mp hbytes, hvalid, hsame⟩, h⟩
    · intro ⟨⟨bytes, hbytes, hvalid, hsame⟩, h⟩
      refine bind_iff.mpr ⟨bytes, readFile_ok.mpr hbytes, ?_⟩
      refine verify_then ?_ ?_
      · rw [hvalid]
        rfl
      exact verify_then (bne_eq_false_iff_eq.mpr hsame) h

theorem validateLayer_unit {layer : DesktopBridgeLayer} {u : Unit}
    (h : validateLayer readers layer = .ok u) : layer.crs.coordinateUnit = layer.coordinateUnit := by
  obtain ⟨_, -, h⟩ := bind_iff.mp h
  obtain ⟨definition, hdefinition, h⟩ := bind_iff.mp h
  obtain ⟨_, hunit, -⟩ := bind_iff.mp h
  rw [verifyUnless_ok, bne_eq_false_iff_eq] at hunit
  rw [Crs.coordinateUnit, required_ok.mp hdefinition]
  exact hunit

theorem validateLayers_unit {ids : List String} {layers : List DesktopBridgeLayer} {u : Unit}
    (h : validateLayers readers ids layers = .ok u) :
    ∀ layer ∈ layers, layer.crs.coordinateUnit = layer.coordinateUnit := by
  induction layers generalizing ids with
  | nil =>
    intro layer hlayer
    cases hlayer
  | cons layer rest ih =>
    obtain ⟨_, -, h⟩ := bind_iff.mp h
    obtain ⟨_, hlayer, h⟩ := bind_iff.mp h
    exact forall_mem_cons.mpr ⟨validateLayer_unit hlayer, ih h⟩

theorem validateRequest_unit {u : Unit} (h : validateRequest readers request = .ok u) :
    ∀ layer ∈ request.layers, layer.crs.coordinateUnit = layer.coordinateUnit := by
  obtain ⟨_, -, h⟩ := bind_iff.mp h
  obtain ⟨_, -, h⟩ := bind_iff.mp h
  exact validateLayers_unit h

/-- What the verifier makes sure of. -/
structure Checked (lib : Offline) (readers : BridgeReaders) (root : Directory)
    (manifest : BridgeCapsuleManifest) (request : DesktopBridgeRequest) : Prop where
  entries : ∀ item ∈ manifest.entries, Intact lib root item
  units : ∀ layer ∈ request.layers, layer.crs.coordinateUnit = layer.coordinateUnit
  assets : ∀ layer ∈ request.layers, ∃ bytes, root.read (assetPath layer) = .ok bytes ∧
    validAsset readers layer.format (assetName layer) bytes = true ∧
    layer.expectedChecksum = some (lib.digestBytes bytes)

theorem verify_checked {v : BridgeCapsuleVerification}
    (h : verifyDesktopBridgeCapsule lib readers root = .ok v)
    (hmanifest : readJson readers.manifest root bridgePath = .ok manifest)
    (hrequest : readJson readers.request root requestPath = .ok request) :
    Checked lib readers root manifest request := by
  obtain ⟨manifest', hmanifest', h⟩ := bind_iff.mp h
  rw [hmanifest, Except.ok.injEq] at hmanifest'
  rw [← hmanifest'] at h
  obtain ⟨_, -, h⟩ := bind_iff.mp h
  obtain ⟨_, hentries, h⟩ := bind_iff.mp h
  obtain ⟨request', hrequest', h⟩ := bind_iff.mp h
  rw [hrequest, Except.ok.injEq] at hrequest'
  rw [← hrequest'] at h
  obtain ⟨_, hvalid, h⟩ := bind_iff.mp h
  obtain ⟨_, -, h⟩ := bind_iff.mp h
  obtain ⟨_, -, h⟩ := bind_iff.mp h
  obtain ⟨_, -, h⟩ := bind_iff.mp h
  obtain ⟨_, -, h⟩ := bind_iff.mp h
  obtain ⟨_, -, h⟩ := bind_iff.mp h
  obtain ⟨_, -, h⟩ := bind_iff.mp h
  obtain ⟨_, hassets, -⟩ := bind_iff.mp h
  exact ⟨fun item hitem => (checkInventory_ok.mp hentries item hitem).2,
    validateRequest_unit hvalid, checkAssets_ok.mp hassets⟩

/-! ## What a bridge capsule says -/

variable (w : GeoWorkflow)

/-- A workflow without the identifiers and the retrieval times of a run. -/
def unnamed : GeoWorkflow :=
  { w with
    id := Uuid.ofNat 0
    inputContracts := w.inputContracts.map WorkflowInputContract.untimed
    steps := w.steps.map fun step => { step with id := Uuid.ofNat 0 } }

def templateOf (request : DesktopBridgeRequest) : GeoWorkflow :=
  desktopLayerBridgeTemplate (request.layers.map bridgeInput)

def boundPaths (request : DesktopBridgeRequest) : List String :=
  requestPath :: workflowPath :: commandPath :: request.layers.map assetPath

/-- Exactly one entry has the path, and it gives the size and the digest of the file. -/
def CoveredOnce (lib : Offline) (root : Directory) (manifest : BridgeCapsuleManifest)
    (path : String) : Prop :=
  ∃ entry, (manifest.entries.filter fun entry => entry.path == path) = [entry] ∧
    Intact lib root entry

/-- The contract of a layer in the workflow, against the request and the asset. -/
structure Agrees (lib : Offline) (root : Directory) (contract : WorkflowInputContract)
    (layer : DesktopBridgeLayer) : Prop where
  id : contract.name = layer.id
  crs : contract.crs = some layer.crs
  unit : contract.coordinateUnit = some layer.coordinateUnit
  source : ∃ source bytes, contract.sourceSnapshot = some source ∧
    source.uri = layer.sourcePath ∧ source.license = some layer.license ∧
    root.read (assetPath layer) = .ok bytes ∧ source.checksum = some (lib.digestBytes bytes)

def formatsOf : Option Json := w.steps.head?.bind fun step => step.parameters.json.get? "formats"

structure Sound (lib : Offline) (root : Directory) (manifest : BridgeCapsuleManifest)
    (request : DesktopBridgeRequest) (workflow : GeoWorkflow) : Prop where
  inventory : ∀ path ∈ boundPaths request, CoveredOnce lib root manifest path
  template : unnamed workflow = unnamed (templateOf request)
  layers : List.Forall₂ (Agrees lib root) workflow.inputContracts request.layers
  formats : formatsOf workflow =
    some (.arr (request.layers.map fun layer => .str layer.format.asStr))

/-- What the verifier leaves out. -/
structure Unverified (manifest : BridgeCapsuleManifest) (request : DesktopBridgeRequest)
    (workflow : GeoWorkflow) : Prop where
  inventory : ∀ path ∈ boundPaths request,
    (manifest.entries.map CapsuleEntry.path).count path = 1
  template : unnamed workflow = unnamed (templateOf request)

theorem coveredOnce_iff (h : Checked lib readers root manifest request) {path : String} :
    CoveredOnce lib root manifest path ↔
      (manifest.entries.map CapsuleEntry.path).count path = 1 := by
  have hcount : (manifest.entries.map CapsuleEntry.path).count path =
      (manifest.entries.filter fun entry => entry.path == path).length := by
    rw [List.count, countP_map, countP_eq_length_filter]
    rfl
  rw [hcount]
  constructor
  · intro ⟨entry, hentry, _⟩
    rw [hentry]
    rfl
  · intro hlength
    obtain ⟨entry, hentry⟩ := length_eq_one_iff.mp hlength
    have hmem : entry ∈ manifest.entries.filter fun entry => entry.path == path := by
      rw [hentry]
      exact mem_singleton_self entry
    exact ⟨entry, hentry, h.entries entry (mem_of_mem_filter hmem)⟩

theorem agrees_of_contract (h : Checked lib readers root manifest request)
    {contract : WorkflowInputContract} {layer : DesktopBridgeLayer} (hlayer : layer ∈ request.layers)
    (hsame : contract.untimed = inputContract (bridgeInput layer)) : Agrees lib root contract layer := by
  obtain ⟨bytes, hbytes, -, hchecksum⟩ := h.assets layer hlayer
  have hsource : contract.sourceSnapshot.map SourceMetadata.untimed = some (layerSource layer) :=
    congrArg WorkflowInputContract.sourceSnapshot hsame
  have hunit : contract.coordinateUnit = some layer.crs.coordinateUnit :=
    congrArg WorkflowInputContract.coordinateUnit hsame
  obtain ⟨source, hsnapshot, huntimed⟩ := Option.map_eq_some_iff.mp hsource
  refine ⟨congrArg WorkflowInputContract.name hsame, congrArg WorkflowInputContract.crs hsame, ?_,
    source, bytes, hsnapshot, congrArg SourceMetadata.uri huntimed,
    congrArg SourceMetadata.license huntimed, hbytes, ?_⟩
  · rw [hunit, h.units layer hlayer]
  · rw [← hchecksum]
    exact congrArg SourceMetadata.checksum huntimed

theorem contracts_agree (h : Checked lib readers root manifest request)
    (hsame : unnamed workflow = unnamed (templateOf request)) :
    List.Forall₂ (Agrees lib root) workflow.inputContracts request.layers := by
  have hcontracts : workflow.inputContracts.map WorkflowInputContract.untimed =
      request.layers.map fun layer => inputContract (bridgeInput layer) := by
    refine (congrArg GeoWorkflow.inputContracts hsame).trans ?_
    show ((request.layers.map bridgeInput).map inputContract).map _ = _
    rw [map_map, map_map]
    rfl
  rw [← forall₂_eq_eq_eq, forall₂_map_left_iff, forall₂_map_right_iff] at hcontracts
  rw [forall₂_iff_zip] at hcontracts ⊢
  refine ⟨hcontracts.1, ?_⟩
  intro contract layer hpair
  exact agrees_of_contract h (of_mem_zip hpair).2 (hcontracts.2 hpair)

theorem formatsOf_unnamed : formatsOf (unnamed w) = formatsOf w := by
  rw [formatsOf, formatsOf, unnamed, head?_map]
  cases w.steps.head? with
  | none => rfl
  | some step => rfl

theorem formatsOf_template (request : DesktopBridgeRequest) : formatsOf (templateOf request) =
    some (.arr (request.layers.map fun layer => .str layer.format.asStr)) := by
  show (Value.object [("formats", .ofList .str ((request.layers.map bridgeInput).map
      DesktopLayerBridgeInput.format)), ("require", .ofList .str
      ["crs", "coordinate_unit", "license", "source_checksum"])]).json.get? "formats" = _
  rw [Value.get?_object (by simp)]
  show some (Json.arr (((request.layers.map bridgeInput).map
      DesktopLayerBridgeInput.format).map fun format => (Value.str format).json)) = _
  rw [map_map, map_map]
  rfl

theorem sound_iff (lib : Offline) (readers : BridgeReaders) (root : Directory)
    (v : BridgeCapsuleVerification) (manifest : BridgeCapsuleManifest)
    (request : DesktopBridgeRequest) (workflow : GeoWorkflow)
    (hverified : verifyDesktopBridgeCapsule lib readers root = .ok v)
    (hmanifest : readJson readers.manifest root bridgePath = .ok manifest)
    (hrequest : readJson readers.request root requestPath = .ok request)
    (_hworkflow : readJson readers.workflow root workflowPath = .ok workflow) :
    Sound lib root manifest request workflow ↔ Unverified manifest request workflow := by
  have h := verify_checked hverified hmanifest hrequest
  constructor
  · intro hsound
    exact ⟨fun path hpath => (coveredOnce_iff h).mp (hsound.inventory path hpath), hsound.template⟩
  · intro hleft
    refine ⟨fun path hpath => (coveredOnce_iff h).mpr (hleft.inventory path hpath), hleft.template,
      contracts_agree h hleft.template, ?_⟩
    rw [← formatsOf_unnamed, hleft.template, formatsOf_unnamed, formatsOf_template]

end

namespace Sample

open Capsule.Sample

/-! One layer, with the workflow and the inventory left open. -/

def collection : Value := .object [("type", .str "FeatureCollection"), ("features", .ofList id [])]

def asset : Bytes := write collection

def layer : DesktopBridgeLayer :=
  { id := "wards", name := "Wards", kind := .vector, format := .geoJson
    sourcePath := "/data/wards.geojson", crs := .epsg Crs.wgs84Epsg, coordinateUnit := .degrees
    license := "CC BY 4.0", expectedChecksum := some (library.digestBytes asset)
    extent := none, temporalInterval := some ("2020-01-01", "2025-01-01") }

def request : DesktopBridgeRequest :=
  { projectName := "Desktop transfer", desktopHost := "desktop-gis-test/1.0", layers := [layer] }

def command (w : GeoWorkflow) : CommandEnvelope :=
  { id := Uuid.ofNat 9, origin := .plugin, timestamp := ⟨0⟩
    workflowDigest := some ⟨w.stableDigestUnchecked rt⟩, sourceSnapshots := []
    inputSnapshots := [], command := .runWorkflow w.id }

variable (w : GeoWorkflow)

def files : List (String × String × String × Bytes) := [
  ("assets/wards.geojson", "desktop-layer-asset", "application/geo+json", asset),
  (requestPath, "desktop-bridge-request", "application/json", write request.toJson),
  (commandPath, "command", "application/json", write ((command w).toJson rt)),
  (workflowPath, "workflow", "application/json", write w.toJson)]

variable (entries : List CapsuleEntry)

def manifest : BridgeCapsuleManifest :=
  { schemaVersion := "0.1.0", workflowDigest := w.stableDigestUnchecked rt
    projectDigest := projectDigest library request entries, entries := entries }

def manifestText : Bytes :=
  write (.object [("schema_version", .str (manifest w entries).schemaVersion),
    ("workflow_digest", .str (manifest w entries).workflowDigest),
    ("project_digest", .str (manifest w entries).projectDigest),
    ("entries", .ofList CapsuleEntry.toJson entries)])

def contents : List (String × Bytes) :=
  (bridgePath, manifestText w entries) :: (files w).map fun f => (f.1, f.2.2.2)

def bridgeRoot : Directory := directoryOf (contents w entries)

def bridgeReaders : BridgeReaders :=
  { manifest := reading (manifestText w entries) (manifest w entries)
    request := reading (write request.toJson) request
    workflow := reading (write w.toJson) w
    command := reading (write ((command w).toJson rt)) (command w)
    value := parse write [collection]
    float := fun _ => none }

variable {w : GeoWorkflow} {entries : List CapsuleEntry}

theorem read_bridge {path : String} {bytes : Bytes}
    (h : (contents w entries).lookup path = some bytes) :
    (bridgeRoot w entries).read path = .ok bytes := by
  show readFrom (contents w entries) path = _
  rw [readFrom, h]

theorem read_file : ∀ f ∈ files w, (bridgeRoot w entries).read f.1 = .ok f.2.2.2 := by
  have hlookup : ∀ f ∈ files w, (contents w entries).lookup f.1 = some f.2.2.2 := by
    simp [contents, files, lookup_cons, bridgePath, requestPath, commandPath, workflowPath]
  exact fun f hf => read_bridge (hlookup f hf)

theorem read_listed {path role mediaType : String} {bytes : Bytes}
    (h : (path, role, mediaType, bytes) ∈ files w) :
    (bridgeRoot w entries).read path = .ok bytes := read_file _ h

theorem asset_mem : (assetPath layer, "desktop-layer-asset", "application/geo+json", asset) ∈
    files w := .head _

theorem request_mem : (requestPath, "desktop-bridge-request", "application/json",
    write request.toJson) ∈ files w := .tail _ (.head _)

theorem command_mem : (commandPath, "command", "application/json",
    write ((command w).toJson rt)) ∈ files w := .tail _ (.tail _ (.head _))

theorem workflow_mem : (workflowPath, "workflow", "application/json", write w.toJson) ∈ files w :=
  .tail _ (.tail _ (.tail _ (.head _)))

theorem read_asset : (bridgeRoot w entries).read (assetPath layer) = .ok asset :=
  read_listed asset_mem

theorem readJson_manifest : readJson (bridgeReaders w entries).manifest (bridgeRoot w entries)
    bridgePath = .ok (manifest w entries) := by
  have hlookup : (contents w entries).lookup bridgePath = some (manifestText w entries) := by
    simp [contents]
  rw [bridgeReaders]
  exact readJson_reading _ (read_bridge hlookup)

theorem readJson_request : readJson (bridgeReaders w entries).request (bridgeRoot w entries)
    requestPath = .ok request := by
  rw [bridgeReaders]
  exact readJson_reading _ (read_listed request_mem)

theorem readJson_command : readJson (bridgeReaders w entries).command (bridgeRoot w entries)
    commandPath = .ok (command w) := by
  rw [bridgeReaders]
  exact readJson_reading _ (read_listed command_mem)

theorem readJson_workflow : readJson (bridgeReaders w entries).workflow (bridgeRoot w entries)
    workflowPath = .ok w := by
  rw [bridgeReaders]
  exact readJson_reading _ (read_listed workflow_mem)

theorem validate_request (readers : BridgeReaders) : validateRequest readers request = .ok () := by
  have hlayer : validateLayer readers layer = .ok () := by
    refine verify_then (by decide) ?_
    refine bind_iff.mpr ⟨Crs.geographicDefinition 4326, required_ok.mpr rfl, ?_⟩
    refine verify_then (by decide) ?_
    refine bind_iff.mpr ⟨(), rfl, ?_⟩
    exact verifyUnless_ok.mpr (by decide)
  refine verify_then (by decide) ?_
  refine bind_iff.mpr ⟨(), rfl, ?_⟩
  refine verify_then (by decide) ?_
  exact bind_iff.mpr ⟨(), hlayer, rfl⟩

theorem bridge_value : (bridgeReaders w entries).value = parse write [collection] := by
  rw [bridgeReaders]

theorem validAsset_asset : validAsset (bridgeReaders w entries) .geoJson (assetName layer) asset =
    true := by
  have hparse : (bridgeReaders w entries).value asset = .ok collection := by
    rw [bridge_value]
    exact parse_of_mem write_inj mem_cons_self
  have htype : (collection.json.get? "type").bind Json.asStr? = some "FeatureCollection" := by
    rw [collection, Value.get?_object (by simp)]
    rfl
  simp only [validAsset, hparse, htype]
  decide

theorem verify_bridge (hvalid : w.validate rt = .ok ())
    (hentries : ∀ item ∈ entries, PluginManifest.isNormalized item.path = true ∧
      Intact library (bridgeRoot w entries) item) :
    verifyDesktopBridgeCapsule library (bridgeReaders w entries) (bridgeRoot w entries) =
      .ok { schemaVersion := "0.1.0", workflowDigest := w.stableDigestUnchecked rt
            projectDigest := projectDigest library request entries, verifiedLayers := 1
            verifiedEntries := entries.length } := by
  have hdigest : w.stableDigest rt = .ok (w.stableDigestUnchecked rt) :=
    bind_iff.mpr ⟨(), hvalid, rfl⟩
  refine then_ok readJson_manifest ?_
  refine bind_iff.mpr ⟨(), rfl, ?_⟩
  refine bind_iff.mpr ⟨(), checkInventory_ok.mpr hentries, ?_⟩
  refine bind_iff.mpr ⟨_, readJson_request, ?_⟩
  refine then_ok (validate_request _) ?_
  refine then_ok readJson_workflow ?_
  refine bind_iff.mpr ⟨(), mapError_iff.mpr hvalid, ?_⟩
  refine bind_iff.mpr ⟨_, mapError_iff.mpr hdigest, ?_⟩
  refine verify_then (bne_self_eq_false _) ?_
  refine bind_iff.mpr ⟨_, readJson_command, ?_⟩
  refine verify_then ?_ ?_
  · exact or_eq_false_iff.mpr ⟨bne_self_eq_false _, bne_self_eq_false _⟩
  refine bind_iff.mpr ⟨(), checkAssets_ok.mpr ?_, ?_⟩
  · intro item hitem
    rw [mem_singleton.mp hitem]
    exact ⟨asset, read_asset, validAsset_asset, rfl⟩
  exact verify_then (bne_self_eq_false _) rfl

/-! The workflow and the inventory of the transfer, and a workflow without the layer. -/

def transfer : GeoWorkflow := templateOf request

def inventory : List CapsuleEntry := (files transfer).map entryOf

theorem transfer_valid : transfer.validate rt = .ok () := by
  decide

theorem intact_inventory : ∀ item ∈ inventory, PluginManifest.isNormalized item.path = true ∧
    Intact library (bridgeRoot transfer inventory) item := by
  have hsafe : ∀ f ∈ files transfer, PluginManifest.isNormalized f.1 = true := by
    simp only [files, forall_mem_cons]
    decide
  intro item hitem
  obtain ⟨f, hf, rfl⟩ := mem_map.mp hitem
  exact ⟨hsafe f hf, _, read_file f hf, rfl, rfl⟩

theorem count_inventory : ∀ path ∈ boundPaths request,
    (inventory.map CapsuleEntry.path).count path = 1 := by
  decide

theorem transfer_sound : Sound library (bridgeRoot transfer inventory)
    (manifest transfer inventory) request transfer :=
  (sound_iff library (bridgeReaders transfer inventory) (bridgeRoot transfer inventory) _ _ _ _
    (verify_bridge transfer_valid intact_inventory) readJson_manifest readJson_request
    readJson_workflow).mpr ⟨count_inventory, rfl⟩

/-- An empty inventory and a workflow without the layer are accepted. -/
theorem forged_accepted :
    (∃ v, verifyDesktopBridgeCapsule library (bridgeReaders workflow []) (bridgeRoot workflow []) =
        .ok v) ∧
      readJson (bridgeReaders workflow []).manifest (bridgeRoot workflow []) bridgePath =
        .ok (manifest workflow []) ∧
      readJson (bridgeReaders workflow []).request (bridgeRoot workflow []) requestPath =
        .ok request ∧
      readJson (bridgeReaders workflow []).workflow (bridgeRoot workflow []) workflowPath =
        .ok workflow ∧
      ¬ CoveredOnce library (bridgeRoot workflow []) (manifest workflow []) requestPath ∧
      ¬ List.Forall₂ (Agrees library (bridgeRoot workflow [])) workflow.inputContracts
        request.layers ∧
      ¬ Sound library (bridgeRoot workflow []) (manifest workflow []) request workflow := by
  have hcovered : ¬ CoveredOnce library (bridgeRoot workflow []) (manifest workflow [])
      requestPath := by
    intro h
    obtain ⟨entry, hentry, -⟩ := h
    exact absurd hentry.symm (cons_ne_nil _ _)
  refine ⟨⟨_, verify_bridge workflow_valid (fun _ h => absurd h not_mem_nil)⟩,
    readJson_manifest, readJson_request, readJson_workflow, hcovered, ?_, ?_⟩
  · intro h
    have hlength : ([] : List WorkflowInputContract).length = [layer].length := h.length_eq
    exact absurd hlength (by decide)
  · intro h
    exact hcovered (h.inventory requestPath mem_cons_self)

end Sample

end Capsule.Bridge
end GeneGIS
