/-
A frame is planned from the roots down: a tile with too large an error is replaced by its children.
Tiles of the frontier are selected, in order, as long as the budget lasts.
-/
import GeneGIS.Crs
import GeneGIS.Data.Each
import GeneGIS.Data.Forest
import GeneGIS.Data.Keyed
import GeneGIS.Data.Sorted
import GeneGIS.Runtime
import GeneGIS.Tile.Mvt

namespace GeneGIS

structure CityLayer where
  id : String
  format : String
  source : SourceSnapshot

structure CityTile where
  id : String
  layerId : String
  parentId : Option String
  geometricErrorM : F64
  cameraDistanceM : F64
  contentBytes : UInt64
  contentDigest : String
  featureIds : List String
  deriving DecidableEq

structure SharedSpatialViewState where
  crs : Crs
  cameraPosition : F64 × F64 × F64
  cameraTarget : F64 × F64 × F64
  fieldOfViewDegrees : F64
  viewportHeightPx : UInt32
  selectedFeatureIds : Std.ExtTreeSet String
  temporalCursor : Option String

structure CityStreamBudget where
  maximumTiles : UInt32
  maximumTransferBytes : UInt64
  maximumScreenSpaceError : F64

structure CitySceneManifest where
  schemaVersion : String
  layers : List CityLayer
  tiles : List CityTile

structure CitySceneFramePlan where
  schemaVersion : String
  view : SharedSpatialViewState
  budget : CityStreamBudget
  selectedTiles : List String
  deferredTiles : List String
  transferBytes : UInt64
  sources : List SourceSnapshot
  selectedFeaturesPresent : List String
  planDigest : String

inductive CityScenePlanError where
  | invalid (reason : String)
  | digest
  deriving DecidableEq

namespace CityScene

def optionText : Option String → Json
  | none => .null
  | some s => .str s

def number (x : F64) : Json := (Value.ofF64 x).json

def position (p : F64 × F64 × F64) : Json := .arr [number p.1, number p.2.1, number p.2.2]

def texts (l : List String) : Json := .arr (l.map .str)

/-- A source as it is written, its members in the order they are declared in. -/
def sourceJson (s : SourceSnapshot) : Json :=
  let member (key : String) (value : Option String) : List (String × Json) :=
    match value with
    | none => []
    | some v => [(key, .str v)]
  .obj (member "dataset_id" s.datasetId ++ [("uri", .str s.uri)] ++ member "license" s.license ++
    member "checksum" s.checksum ++ member "expected_checksum" s.expectedChecksum ++
    member "observed_checksum" s.observedChecksum ++ member "retrieved_at" s.retrievedAt ++
    member "source_version" s.sourceVersion ++ [("checksum_status", .str s.checksumStatus.asStr)])

def viewJson (v : SharedSpatialViewState) : Json :=
  .obj [("crs", v.crs.toJson.json), ("camera_position", position v.cameraPosition),
    ("camera_target", position v.cameraTarget),
    ("field_of_view_degrees", number v.fieldOfViewDegrees),
    ("viewport_height_px", .num (.int v.viewportHeightPx.toNat)),
    ("selected_feature_ids", texts v.selectedFeatureIds.toList),
    ("temporal_cursor", optionText v.temporalCursor)]

def budgetJson (b : CityStreamBudget) : Json :=
  .obj [("maximum_tiles", .num (.int b.maximumTiles.toNat)),
    ("maximum_transfer_bytes", .num (.int b.maximumTransferBytes.toNat)),
    ("maximum_screen_space_error", number b.maximumScreenSpaceError)]

def planJson (p : CitySceneFramePlan) : Json :=
  .obj [("schema_version", .str p.schemaVersion), ("view", viewJson p.view),
    ("budget", budgetJson p.budget), ("selected_tiles", texts p.selectedTiles),
    ("deferred_tiles", texts p.deferredTiles),
    ("transfer_bytes", .num (.int p.transferBytes.toNat)),
    ("sources", .arr (p.sources.map sourceJson)),
    ("selected_features_present", texts p.selectedFeaturesPresent),
    ("plan_digest", .str p.planDigest)]

abbrev Planning (α : Type) := Except CityScenePlanError α

def require (holds : Bool) (reason : String) : Planning Unit :=
  if holds then .ok () else .error (.invalid reason)

/-- The only failure of an unknown system is that it is not supported. -/
def requireKnown (crs : Crs) : Planning Unit :=
  require crs.definition.isSome ("unsupported CRS: " ++ crs.identifier)

def coordinates (view : SharedSpatialViewState) : List F64 :=
  [view.cameraPosition.1, view.cameraPosition.2.1, view.cameraPosition.2.2, view.cameraTarget.1,
    view.cameraTarget.2.1, view.cameraTarget.2.2]

variable (manifest : CitySceneManifest)

def checkScene (view : SharedSpatialViewState) (budget : CityStreamBudget) : Planning Unit :=
  require (!(manifest.schemaVersion != "0.1.0" || manifest.layers.isEmpty ||
      manifest.tiles.isEmpty || budget.maximumTiles == 0 || budget.maximumTransferBytes == 0 ||
      !budget.maximumScreenSpaceError.isFinite ||
      F64.le budget.maximumScreenSpaceError .zero || view.viewportHeightPx == 0 ||
      !view.fieldOfViewDegrees.isFinite ||
      !(F64.le (.ofNat 1) view.fieldOfViewDegrees && F64.le view.fieldOfViewDegrees (.ofNat 179)) ||
      (coordinates view).any fun v => !v.isFinite))
    "manifest, view, or budget is invalid"

def isVerified (source : SourceSnapshot) : Bool := source.checksumStatus == .verified

def checkLayers : Planning Unit :=
  require (!(((Std.ExtTreeSet.ofList (manifest.layers.map CityLayer.id)).size !=
      manifest.layers.length) || manifest.layers.any fun layer =>
        Text.isBlank layer.id || Text.isBlank layer.format || !isVerified layer.source))
    "layer identity, format, or source is invalid"

def tileIds : List String := manifest.tiles.map CityTile.id

def checkTiles : Planning Unit :=
  require (!(((Std.ExtTreeSet.ofList (tileIds manifest)).size != manifest.tiles.length) ||
      !manifest.tiles.any fun tile => tile.parentId.isNone))
    "tile identities must be unique and include a root"

variable (tile : CityTile)

def checkTile : Planning Unit :=
  require (!(Text.isBlank tile.id || !(manifest.layers.map CityLayer.id).contains tile.layerId ||
      tile.parentId.any (fun parent => !(tileIds manifest).contains parent) ||
      !tile.geometricErrorM.isFinite || F64.lt tile.geometricErrorM .zero ||
      !tile.cameraDistanceM.isFinite || F64.le tile.cameraDistanceM .zero ||
      tile.contentBytes == 0 || !Text.isSha256 tile.contentDigest))
    "tile hierarchy or content is invalid"

/-- The parent of the first tile with an identity. -/
def parentOf (id : String) : Option String :=
  (manifest.tiles.find? fun candidate => candidate.id == id).bind CityTile.parentId

/-- The walk from a tile to its parent, to the parent of this one and so on. -/
def ancestors : Forest.Climb String :=
  Forest.climbed (parentOf manifest) (manifest.tiles.length + 1) tile.id tile.parentId

def checkAncestors : Planning Unit :=
  require (!(ancestors manifest tile).cyclic) "tile hierarchy contains a cycle"

def validate (view : SharedSpatialViewState) (budget : CityStreamBudget) : Planning Unit := do
  requireKnown view.crs
  checkScene manifest view budget
  checkLayers manifest
  checkTiles manifest
  manifest.tiles.forM fun tile => do
    checkTile manifest tile
    checkAncestors manifest tile

/-! ## The frame -/

section Frame

variable (libm : Libm)

def screenError (view : SharedSpatialViewState) (tile : CityTile) : F64 :=
  let halfAngle := (view.fieldOfViewDegrees.mul (Mvt.pi.div (.ofNat 180))).div (.ofNat 2)
  ((tile.geometricErrorM.div tile.cameraDistanceM).mul
    (.ofNat view.viewportHeightPx.toNat)).div ((F64.ofNat 2).mul (libm.tan halfAngle))

/-- The tiles under a parent, in the order of the manifest. -/
def byParent (manifest : CitySceneManifest) (parent : Option String) : List CityTile :=
  manifest.tiles.filter fun tile => tile.parentId == parent

def children (manifest : CitySceneManifest) (tile : CityTile) : List CityTile :=
  byParent manifest (some tile.id)

/-- Whether a tile gives way to its children. -/
def refines (manifest : CitySceneManifest) (view : SharedSpatialViewState)
    (budget : CityStreamBudget) (tile : CityTile) : Bool :=
  F64.lt budget.maximumScreenSpaceError (screenError libm view tile) &&
    !(children manifest tile).isEmpty

/-- The traversal from the roots, after as many rounds as there are tiles. -/
def traversal (manifest : CitySceneManifest) (view : SharedSpatialViewState)
    (budget : CityStreamBudget) : Forest.Traversal CityTile :=
  Forest.traversed (refines libm manifest view budget) (children manifest) manifest.tiles.length
    (byParent manifest none)

/-- `slice::sort_by` on the identities. -/
def byId (tiles : List CityTile) : List CityTile := tiles.insertionSort fun a b => a.id ≤ b.id

structure Selection where
  selectedTiles : List String
  deferredTiles : List String
  transferBytes : UInt64
  selectedFeatures : Std.ExtTreeSet String
  selectedLayers : Std.ExtTreeSet String

def saturatingAdd (a b : UInt64) : UInt64 := if a.toNat + b.toNat < 2 ^ 64 then a + b else -1

/-- A sum of bytes beyond the range of the counter is admitted by the largest budget only. -/
def select (budget : CityStreamBudget) (s : Selection) (tile : CityTile) : Selection :=
  if s.selectedTiles.length < budget.maximumTiles.toNat &&
      decide (saturatingAdd s.transferBytes tile.contentBytes ≤ budget.maximumTransferBytes) then
    { selectedTiles := s.selectedTiles ++ [tile.id], deferredTiles := s.deferredTiles
      transferBytes := s.transferBytes + tile.contentBytes
      selectedFeatures := s.selectedFeatures.insertMany tile.featureIds
      selectedLayers := s.selectedLayers.insert tile.layerId }
  else { s with deferredTiles := s.deferredTiles ++ [tile.id] }

def selection (budget : CityStreamBudget) (frontier : List CityTile) : Selection :=
  frontier.foldl (select budget)
    { selectedTiles := [], deferredTiles := [], transferBytes := 0, selectedFeatures := ∅
      selectedLayers := ∅ }

variable (rt : Runtime)

def digest (plan : CitySceneFramePlan) : String :=
  rt.digestCompact (planJson { plan with planDigest := "" })

def verifyCitySceneFramePlan (plan : CitySceneFramePlan) : Planning Unit :=
  if plan.schemaVersion != "0.1.0" ||
      decide (plan.selectedTiles.length > plan.budget.maximumTiles.toNat) ||
      decide (plan.transferBytes > plan.budget.maximumTransferBytes) ||
      plan.sources.any (fun source => !isVerified source) ||
      digest rt plan != plan.planDigest then .error .digest
  else .ok ()

def framePlan (manifest : CitySceneManifest) (view : SharedSpatialViewState)
    (budget : CityStreamBudget) (frontier : List CityTile) : CitySceneFramePlan :=
  let s := selection budget frontier
  let plan : CitySceneFramePlan :=
    { schemaVersion := "0.1.0", view := view, budget := budget, selectedTiles := s.selectedTiles
      deferredTiles := s.deferredTiles, transferBytes := s.transferBytes
      sources := (manifest.layers.filter fun layer => s.selectedLayers.contains layer.id).map
        CityLayer.source
      selectedFeaturesPresent := view.selectedFeatureIds.toList.filter fun id =>
        s.selectedFeatures.contains id
      planDigest := "" }
  { plan with planDigest := digest rt plan }

def planCitySceneFrame (manifest : CitySceneManifest) (view : SharedSpatialViewState)
    (budget : CityStreamBudget) : Planning CitySceneFramePlan := do
  validate manifest view budget
  let plan := framePlan rt manifest view budget
    (byId (traversal libm manifest view budget).frontier)
  verifyCitySceneFramePlan rt plan
  return plan

end Frame

end CityScene
end GeneGIS

/-! ## What the validation of a city scene rejects and what its plan covers

The frontier has one tile of every way from a root to a leaf. -/

namespace GeneGIS.CityScene

open List Relation Keyed
open Bool hiding and_true not_and not_or not_true

variable {manifest : CitySceneManifest} {view : SharedSpatialViewState} {budget : CityStreamBudget}

theorem require_ok {holds : Bool} {reason : String} :
    require holds reason = .ok () ↔ holds = true := by
  rw [require]
  cases holds with
  | true => simp
  | false => simp

/-! ## Checks other than that for cycles -/

structure OtherChecks (manifest : CitySceneManifest) (view : SharedSpatialViewState)
    (budget : CityStreamBudget) : Prop where
  known : requireKnown view.crs = .ok ()
  scene : checkScene manifest view budget = .ok ()
  layers : checkLayers manifest = .ok ()
  tiles : checkTiles manifest = .ok ()
  tile : ∀ tile ∈ manifest.tiles, checkTile manifest tile = .ok ()

theorem validate_ok : validate manifest view budget = .ok () ↔ OtherChecks manifest view budget ∧
      ∀ tile ∈ manifest.tiles, (ancestors manifest tile).cyclic = false := by
  simp only [validate, Fallible.bind_iff, Unique.exists_iff, PUnit.default_eq_unit,
    Each.forM_ok, checkAncestors, require_ok, not_eq_true']
  constructor
  · intro h
    obtain ⟨hknown, hscene, hlayers, htiles, htile⟩ := h
    exact ⟨⟨hknown, hscene, hlayers, htiles, fun t ht => (htile t ht).1⟩,
      fun t ht => (htile t ht).2⟩
  · intro h
    obtain ⟨hchecks, hacyclic⟩ := h
    exact ⟨hchecks.known, hchecks.scene, hchecks.layers, hchecks.tiles,
      fun t ht => ⟨hchecks.tile t ht, hacyclic t ht⟩⟩

def cycleError : CityScenePlanError := .invalid "tile hierarchy contains a cycle"

theorem OtherChecks.validate_error (h : OtherChecks manifest view budget) :
    validate manifest view budget = .error cycleError ↔
      ∃ tile ∈ manifest.tiles, (ancestors manifest tile).cyclic = true := by
  have hfail : ∀ {e}, validate manifest view budget = .error e → e = cycleError := by
    intro e he
    rw [validate, h.known] at he
    change (checkScene manifest view budget >>= fun _ => _) = .error e at he
    rw [h.scene] at he
    change (checkLayers manifest >>= fun _ => _) = .error e at he
    rw [h.layers] at he
    change (checkTiles manifest >>= fun _ => _) = .error e at he
    rw [h.tiles] at he
    obtain ⟨t, ht, herror⟩ := Each.forM_error he
    rw [h.tile t ht] at herror
    change checkAncestors manifest t = .error e at herror
    rw [checkAncestors, require] at herror
    split_ifs at herror
    exact (Except.error.inj herror).symm
  constructor
  · intro herror
    by_contra hnone
    have hok := validate_ok.mpr ⟨h, fun t ht => by
      by_contra hcyclic
      exact hnone ⟨t, ht, eq_true_of_ne_false hcyclic⟩⟩
    rw [herror] at hok
    cases hok
  · intro hcyclic
    obtain ⟨t, ht, hcyclic⟩ := hcyclic
    cases hresult : validate manifest view budget with
    | error e => rw [hfail hresult]
    | ok u =>
      have hfalse := (validate_ok.mp hresult).2 t ht
      rw [hcyclic] at hfalse
      cases hfalse

theorem OtherChecks.nodup_ids (h : OtherChecks manifest view budget) :
    (tileIds manifest).Nodup := by
  have htiles := h.tiles
  rw [checkTiles, require_ok] at htiles
  simp only [not_eq_true', or_eq_false_iff, bne_eq_false_iff_eq] at htiles
  rw [← size_ofList, htiles.1, tileIds, length_map]

section Identities

variable (hids : (tileIds manifest).Nodup)

include hids

theorem nodup_tiles : manifest.tiles.Nodup := List.Nodup.of_map _ hids

theorem eq_of_id {a b : CityTile} (ha : a ∈ manifest.tiles) (hb : b ∈ manifest.tiles)
    (h : a.id = b.id) : a = b := inj_on_of_nodup_map hids ha hb h

theorem find_tile {tile : CityTile} (h : tile ∈ manifest.tiles) :
    (manifest.tiles.find? fun candidate => candidate.id == tile.id) = some tile := by
  cases hfind : manifest.tiles.find? fun candidate => candidate.id == tile.id with
  | none =>
    rw [find?_eq_none] at hfind
    exact absurd (beq_self_eq_true _) (hfind tile h)
  | some found =>
    have hid := find?_some hfind
    rw [eq_of_id hids (mem_of_find?_eq_some hfind) h (eq_of_beq hid)]

theorem parentOf_tile {tile : CityTile} (h : tile ∈ manifest.tiles) :
    parentOf manifest tile.id = tile.parentId := by
  rw [parentOf, find_tile hids h, Option.bind_some]

end Identities

/-- A tile and the tile that it names as its parent. -/
def IsParent (manifest : CitySceneManifest) (tile parent : CityTile) : Prop :=
  tile ∈ manifest.tiles ∧ parent ∈ manifest.tiles ∧ tile.parentId = some parent.id

theorem parentOf_some {id parent : String} (h : parentOf manifest id = some parent) :
    ∃ tile ∈ manifest.tiles, tile.id = id ∧ tile.parentId = some parent := by
  rw [parentOf, Option.bind_eq_some_iff] at h
  obtain ⟨tile, hfind, hparent⟩ := h
  have hid := find?_some hfind
  exact ⟨tile, mem_of_find?_eq_some hfind, eq_of_beq hid, hparent⟩

theorem ancestor_of_above {a b : String} (h : TransGen (Forest.Up (parentOf manifest)) a b) :
    ∃ tile ∈ manifest.tiles, tile.id = a ∧ ∀ above ∈ manifest.tiles, above.id = b →
      TransGen (IsParent manifest) tile above := by
  induction h with
  | single hup =>
    obtain ⟨tile, htile, hid, hparent⟩ := parentOf_some hup
    exact ⟨tile, htile, hid, fun above habove hb => .single ⟨htile, habove, hb ▸ hparent⟩⟩
  | tail _ hup ih =>
    obtain ⟨tile, htile, hid, habove⟩ := ih
    obtain ⟨middle, hmiddle, hid', hparent⟩ := parentOf_some hup
    refine ⟨tile, htile, hid, fun above hmem hb => ?_⟩
    exact (habove middle hmiddle hid').tail ⟨hmiddle, hmem, hb ▸ hparent⟩

theorem above_of_ancestor (hids : (tileIds manifest).Nodup) {a b : CityTile}
    (h : TransGen (IsParent manifest) a b) :
    TransGen (Forest.Up (parentOf manifest)) a.id b.id :=
  h.lift CityTile.id fun _ _ hparent => (parentOf_tile hids hparent.1).trans hparent.2.2

/-- The identities that are named as parents. -/
def parentIds (manifest : CitySceneManifest) : List String :=
  manifest.tiles.filterMap CityTile.parentId

theorem parentIds_length : (parentIds manifest).length < manifest.tiles.length + 1 :=
  Nat.lt_succ_of_le (length_filterMap_le _ _)

theorem mem_parentIds {tile : CityTile} (h : tile ∈ manifest.tiles) {id : String}
    (hid : tile.parentId = some id) : id ∈ parentIds manifest :=
  mem_filterMap.mpr ⟨tile, h, hid⟩

theorem parentOf_mem (a b : String) (h : parentOf manifest a = some b) :
    b ∈ parentIds manifest := by
  obtain ⟨tile, htile, -, hparent⟩ := parentOf_some h
  exact mem_parentIds htile hparent

theorem ancestors_end {tile : CityTile} (h : tile ∈ manifest.tiles) :
    Forest.climb (parentOf manifest) tile.id (ancestors manifest tile) = none :=
  Forest.climbed_ends parentOf_mem (fun _ hid => mem_parentIds h hid) parentIds_length

theorem cyclic_iff (hids : (tileIds manifest).Nodup) :
    (∃ tile ∈ manifest.tiles, (ancestors manifest tile).cyclic = true) ↔
      ∃ tile ∈ manifest.tiles, TransGen (IsParent manifest) tile tile := by
  constructor
  · intro h
    obtain ⟨tile, htile, hcyclic⟩ := h
    rw [ancestors, ← parentOf_tile hids htile] at hcyclic
    obtain ⟨id, hid⟩ := (Forest.climbing_climbed _).cyclic hcyclic
    obtain ⟨first, hfirst, hsame, habove⟩ := ancestor_of_above hid
    exact ⟨first, hfirst, habove first hfirst hsame⟩
  · intro h
    obtain ⟨tile, htile, hancestor⟩ := h
    refine ⟨tile, htile, ?_⟩
    by_contra hfalse
    rw [ancestors, ← parentOf_tile hids htile] at hfalse
    exact Forest.acyclic_of_climbed parentOf_mem parentIds_length (eq_false_of_ne_true hfalse)
      (above_of_ancestor hids hancestor)

theorem validate_ok_iff : validate manifest view budget = .ok () ↔
    OtherChecks manifest view budget ∧
      ∀ tile ∈ manifest.tiles, ¬ TransGen (IsParent manifest) tile tile := by
  rw [validate_ok]
  refine and_congr_right fun hchecks => ?_
  have hcyclic := not_congr (cyclic_iff hchecks.nodup_ids)
  simpa only [not_exists, not_and, not_eq_true] using hcyclic

theorem mem_byParent {parent : Option String} {tile : CityTile} :
    tile ∈ byParent manifest parent ↔ tile ∈ manifest.tiles ∧ tile.parentId = parent := by
  rw [byParent, mem_filter, beq_iff_eq]

theorem mem_children {parent tile : CityTile} :
    tile ∈ children manifest parent ↔ tile ∈ manifest.tiles ∧ tile.parentId = some parent.id :=
  mem_byParent

theorem isForest (hids : (tileIds manifest).Nodup) :
    Forest.IsForest manifest.tiles (byParent manifest none) (children manifest) where
  rootsNodup := (nodup_tiles hids).filter _
  rootsMem := fun _ h => (mem_byParent.mp h).1
  childrenNodup := fun _ _ => (nodup_tiles hids).filter _
  childrenMem := fun _ _ _ h => (mem_children.mp h).1
  rootless := by
    intro a _ b hb hroot
    have hparent := (mem_children.mp hb).2
    rw [(mem_byParent.mp hroot).2] at hparent
    cases hparent
  oneParent := by
    intro a ha b hb c hc hc'
    have hparent := (mem_children.mp hc).2.symm.trans (mem_children.mp hc').2
    exact eq_of_id hids ha hb (Option.some.inj hparent)

variable {libm : Libm}

/-- What is met on the way down from the roots and does not give way to its children. -/
def OnFrontier (libm : Libm) (manifest : CitySceneManifest) (view : SharedSpatialViewState)
    (budget : CityStreamBudget) (tile : CityTile) : Prop :=
  Forest.Reached (refines libm manifest view budget) (children manifest) (byParent manifest none)
    tile ∧ refines libm manifest view budget tile = false

theorem frontier_spec (libm : Libm) (view : SharedSpatialViewState) (budget : CityStreamBudget)
    (hids : (tileIds manifest).Nodup) :
    (traversal libm manifest view budget).queue = [] ∧
      (traversal libm manifest view budget).frontier.Nodup ∧
      ∀ tile, tile ∈ (traversal libm manifest view budget).frontier ↔
        OnFrontier libm manifest view budget tile :=
  Forest.traversed_frontier (isForest hids)

theorem mem_of_frontier (hids : (tileIds manifest).Nodup) {tile : CityTile}
    (h : OnFrontier libm manifest view budget tile) : tile ∈ manifest.tiles :=
  (isForest hids).mem_of_reached h.1

/-- The tiles of a path, from a root to a leaf. -/
structure RootToLeaf (manifest : CitySceneManifest) (path : List CityTile) : Prop where
  root : ∃ tile ∈ manifest.tiles, path.head? = some tile ∧ tile.parentId = none
  step : path.IsChain fun parent tile => IsParent manifest tile parent
  leaf : ∃ tile, path.getLast? = some tile ∧ ∀ other ∈ manifest.tiles,
    other.parentId ≠ some tile.id

variable {path : List CityTile}

theorem RootToLeaf.descends (h : RootToLeaf manifest path) :
    Forest.Descends (children manifest) path :=
  h.step.imp fun _ _ hparent => mem_children.mpr ⟨hparent.1, hparent.2.2⟩

theorem RootToLeaf.mem_tiles (hids : (tileIds manifest).Nodup)
    (h : RootToLeaf manifest path) : ∀ tile ∈ path, tile ∈ manifest.tiles := by
  obtain ⟨root, hroot, hhead, -⟩ := h.root
  exact (isForest hids).mem_of_descends hhead hroot h.descends

theorem exists_unique_frontier (hids : (tileIds manifest).Nodup) (h : RootToLeaf manifest path) :
    ∃! tile, tile ∈ path ∧ OnFrontier libm manifest view budget tile := by
  obtain ⟨root, hroot, hhead, hnone⟩ := h.root
  obtain ⟨last, hlast, hleaf⟩ := h.leaf
  have hclosed : refines libm manifest view budget last = false := by
    have hempty : children manifest last = [] := by
      rw [eq_nil_iff_forall_not_mem]
      intro tile htile
      exact hleaf tile (mem_children.mp htile).1 (mem_children.mp htile).2
    rw [refines, hempty, List.isEmpty_nil, Bool.not_true, Bool.and_false]
  exact (isForest hids).exists_unique_frontier hhead (mem_byParent.mpr ⟨hroot, hnone⟩) hlast
    hclosed h.descends

/-! ## The order of the tiles -/

section Order

variable {tiles : List CityTile}

theorem isParent_perm (h : tiles.Perm manifest.tiles) (tile parent : CityTile) :
    IsParent { manifest with tiles := tiles } tile parent ↔ IsParent manifest tile parent := by
  rw [IsParent, IsParent, h.mem_iff, h.mem_iff]

theorem checkTiles_perm (h : tiles.Perm manifest.tiles) (hchecks : checkTiles manifest = .ok ()) :
    checkTiles { manifest with tiles := tiles } = .ok () := by
  rw [checkTiles, require_ok] at hchecks ⊢
  simp only [not_eq_true', or_eq_false_iff, bne_eq_false_iff_eq] at hchecks ⊢
  have hnodup : (tileIds manifest).Nodup := by
    rw [← size_ofList, hchecks.1, tileIds, length_map]
  have hids : (tiles.map CityTile.id).Nodup := (h.map CityTile.id).nodup_iff.mpr hnodup
  refine ⟨?_, ?_⟩
  · rw [tileIds, size_ofList.mpr hids, length_map]
  · rw [h.any_eq]
    exact hchecks.2

theorem checkTile_perm (h : tiles.Perm manifest.tiles) (tile : CityTile) :
    checkTile { manifest with tiles := tiles } tile = checkTile manifest tile := by
  have hids : ∀ id, (tileIds { manifest with tiles := tiles }).contains id =
      (tileIds manifest).contains id := fun id => (h.map CityTile.id).contains_eq
  rw [checkTile, checkTile]
  simp only [hids]

theorem checkScene_perm (h : tiles.Perm manifest.tiles) :
    checkScene { manifest with tiles := tiles } view budget = checkScene manifest view budget := by
  rw [checkScene, checkScene]
  simp only [h.isEmpty_eq]

theorem validate_perm (h : tiles.Perm manifest.tiles)
    (hvalid : validate manifest view budget = .ok ()) :
    validate { manifest with tiles := tiles } view budget = .ok () := by
  rw [validate_ok_iff] at hvalid ⊢
  obtain ⟨hchecks, hacyclic⟩ := hvalid
  refine ⟨⟨hchecks.known, ?_, hchecks.layers, checkTiles_perm h hchecks.tiles, ?_⟩, ?_⟩
  · rw [checkScene_perm h]
    exact hchecks.scene
  · intro tile htile
    rw [checkTile_perm h]
    exact hchecks.tile tile (h.mem_iff.mp htile)
  · intro tile htile hancestor
    refine hacyclic tile (h.mem_iff.mp htile) (hancestor.lift id fun a b hparent => ?_)
    exact (isParent_perm h a b).mp hparent

theorem refines_perm (h : tiles.Perm manifest.tiles) :
    refines libm { manifest with tiles := tiles } view budget =
      refines libm manifest view budget := by
  funext tile
  have hperm : (children { manifest with tiles := tiles } tile).Perm (children manifest tile) :=
    h.filter _
  rw [refines, refines, hperm.isEmpty_eq]

theorem reached_perm (h : tiles.Perm manifest.tiles) {opens : CityTile → Bool} {tile : CityTile}
    (hreached : Forest.Reached opens (children { manifest with tiles := tiles })
      (byParent { manifest with tiles := tiles } none) tile) :
    Forest.Reached opens (children manifest) (byParent manifest none) tile := by
  induction hreached with
  | root hroot => exact .root ((h.filter _).mem_iff.mp hroot)
  | child _ hopens hchild ih => exact .child ih hopens ((h.filter _).mem_iff.mp hchild)

theorem onFrontier_perm (h : tiles.Perm manifest.tiles) (tile : CityTile) :
    OnFrontier libm { manifest with tiles := tiles } view budget tile ↔
      OnFrontier libm manifest view budget tile := by
  rw [OnFrontier, OnFrontier, refines_perm h]
  refine and_congr_left fun _ => ⟨reached_perm h, fun hreached => ?_⟩
  have hback : manifest.tiles.Perm ({ manifest with tiles := tiles } : CitySceneManifest).tiles :=
    h.symm
  exact reached_perm hback hreached

theorem byId_perm (h : tiles.Perm manifest.tiles) (hids : (tileIds manifest).Nodup) :
    byId (traversal libm { manifest with tiles := tiles } view budget).frontier =
      byId (traversal libm manifest view budget).frontier := by
  have hids' : (tileIds { manifest with tiles := tiles }).Nodup :=
    (h.map CityTile.id).nodup_iff.mpr hids
  obtain ⟨-, hnodup, hmem⟩ := frontier_spec libm view budget hids
  obtain ⟨-, hnodup', hmem'⟩ := frontier_spec libm view budget hids'
  have hperm : (traversal libm { manifest with tiles := tiles } view budget).frontier.Perm
      (traversal libm manifest view budget).frontier := by
    rw [perm_ext_iff_of_nodup hnodup' hnodup]
    intro tile
    rw [hmem, hmem', onFrontier_perm h]
  refine (Sorted.insertionSort_eq_of_perm _ (fun a ha b hb hab hba => ?_) hperm.symm).symm
  exact eq_of_id hids (mem_of_frontier hids ((hmem a).mp ha)) (mem_of_frontier hids ((hmem b).mp hb))
    (String.le_antisymm hab hba)

end Order

/-! ## The selection -/

/-- What the loop over the frontier keeps: every tile is selected or deferred, in the budget. -/
structure Kept (budget : CityStreamBudget) (done : List CityTile) (s : Selection) : Prop where
  covered : (s.selectedTiles ++ s.deferredTiles).Perm (done.map CityTile.id)
  tiles : s.selectedTiles.length ≤ budget.maximumTiles.toNat
  bytes : s.transferBytes ≤ budget.maximumTransferBytes

theorem add_le_of_saturatingAdd {a b bound : UInt64} (h : saturatingAdd a b ≤ bound) :
    a + b ≤ bound := by
  rw [saturatingAdd] at h
  by_cases hfits : a.toNat + b.toNat < 2 ^ 64
  · rwa [if_pos hfits] at h
  · rw [if_neg hfits, UInt64.le_iff_toNat_le] at h
    have hsum := UInt64.toNat_lt (a + b)
    have hmax : (-1 : UInt64).toNat = 2 ^ 64 - 1 := rfl
    rw [UInt64.le_iff_toNat_le]
    omega

theorem Kept.select {done : List CityTile} {s : Selection} (h : Kept budget done s)
    (tile : CityTile) : Kept budget (done ++ [tile]) (CityScene.select budget s tile) := by
  have hids : (done ++ [tile]).map CityTile.id = done.map CityTile.id ++ [tile.id] := by
    rw [map_append, map_singleton]
  rw [CityScene.select]
  split_ifs with hfits
  · simp only [and_eq_true, decide_eq_true_eq] at hfits
    refine ⟨?_, ?_, add_le_of_saturatingAdd hfits.2⟩
    · rw [hids]
      have hmoved : (s.selectedTiles ++ [tile.id] ++ s.deferredTiles).Perm
          (s.selectedTiles ++ s.deferredTiles ++ [tile.id]) := by
        rw [append_assoc, append_assoc]
        exact Perm.append_left _ perm_append_comm
      exact hmoved.trans (h.covered.append_right _)
    · rw [length_append, length_singleton]
      exact hfits.1
  · refine ⟨?_, h.tiles, h.bytes⟩
    rw [hids, ← append_assoc]
    exact h.covered.append_right _

theorem kept_foldl (rest : List CityTile) : ∀ {done : List CityTile} {s : Selection},
    Kept budget done s → Kept budget (done ++ rest) (rest.foldl (select budget) s) := by
  induction rest with
  | nil =>
    intro done s h
    rw [append_nil]
    exact h
  | cons tile rest ih =>
    intro done s h
    have hnext := ih (h.select tile)
    rwa [append_assoc, singleton_append] at hnext

theorem kept_selection (budget : CityStreamBudget) (frontier : List CityTile) :
    Kept budget frontier (selection budget frontier) := by
  have hstart : Kept budget [] ⟨[], [], 0, ∅, ∅⟩ :=
    ⟨Perm.refl _, Nat.zero_le _, UInt64.le_iff_toNat_le.mpr (Nat.zero_le _)⟩
  exact kept_foldl frontier hstart

variable {rt : Runtime}

theorem verify_framePlan (hlayers : checkLayers manifest = .ok ()) (frontier : List CityTile) :
    verifyCitySceneFramePlan rt (framePlan rt manifest view budget frontier) = .ok () := by
  have hkept := kept_selection budget frontier
  have hsealed : (framePlan rt manifest view budget frontier).planDigest =
      digest rt (framePlan rt manifest view budget frontier) := rfl
  have hsources : ∀ source ∈ (framePlan rt manifest view budget frontier).sources,
      isVerified source = true := by
    intro source hsource
    obtain ⟨layer, hlayer, rfl⟩ := mem_map.mp hsource
    rw [checkLayers, require_ok] at hlayers
    simp only [not_eq_true', or_eq_false_iff, any_eq_false] at hlayers
    have hverified := (not_eq_true _).mp (hlayers.2 layer (mem_filter.mp hlayer).1)
    simp only [or_eq_false_iff, not_eq_false'] at hverified
    exact hverified.2
  rw [verifyCitySceneFramePlan, ← hsealed]
  refine if_neg ?_
  simp only [or_eq_true, bne_iff_ne, ne_eq, decide_eq_true_eq, any_eq_true, not_or,
    not_exists, not_and, not_true, not_false_eq_true, and_true]
  refine ⟨⟨⟨not_not.mpr rfl, Nat.not_lt.mpr hkept.tiles⟩, ?_⟩, fun source hsource => ?_⟩
  · rw [gt_iff_lt, UInt64.not_lt]
    exact hkept.bytes
  · rw [hsources source hsource]
    simp

theorem planCitySceneFrame_ok (hvalid : validate manifest view budget = .ok ()) :
    planCitySceneFrame libm rt manifest view budget = .ok (framePlan rt manifest view budget
      (byId (traversal libm manifest view budget).frontier)) := by
  rw [planCitySceneFrame, hvalid]
  change (verifyCitySceneFramePlan rt _ >>= fun _ => _) = _
  rw [verify_framePlan (validate_ok.mp hvalid).1.layers]
  rfl

theorem planned_perm (libm : Libm) (rt : Runtime) (manifest : CitySceneManifest)
    (view : SharedSpatialViewState) (budget : CityStreamBudget) :
    ((framePlan rt manifest view budget
        (byId (traversal libm manifest view budget).frontier)).selectedTiles ++
      (framePlan rt manifest view budget
        (byId (traversal libm manifest view budget).frontier)).deferredTiles).Perm
      ((traversal libm manifest view budget).frontier.map CityTile.id) := by
  have hsorted : (byId (traversal libm manifest view budget).frontier).Perm
      (traversal libm manifest view budget).frontier := perm_insertionSort _ _
  exact (kept_selection budget _).covered.trans (hsorted.map CityTile.id)

theorem nodup_frontier_ids (hids : (tileIds manifest).Nodup) :
    ((traversal libm manifest view budget).frontier.map CityTile.id).Nodup := by
  obtain ⟨-, hnodup, hmem⟩ := frontier_spec libm view budget hids
  refine hnodup.map_on fun a ha b hb hab => ?_
  exact eq_of_id hids (mem_of_frontier hids ((hmem a).mp ha))
    (mem_of_frontier hids ((hmem b).mp hb)) hab

/-- A path from a root to a leaf has the identity of one tile on the frontier. -/
theorem exists_unique_id (hids : (tileIds manifest).Nodup) (h : RootToLeaf manifest path) :
    ∃! id, id ∈ path.map CityTile.id ∧
      id ∈ (traversal libm manifest view budget).frontier.map CityTile.id := by
  obtain ⟨-, -, hmem⟩ := frontier_spec libm view budget hids
  obtain ⟨tile, ⟨htile, hfrontier⟩, hunique⟩ := exists_unique_frontier hids h
  refine ⟨tile.id, ⟨mem_map_of_mem htile, mem_map_of_mem ((hmem tile).mpr hfrontier)⟩, ?_⟩
  intro id hid
  obtain ⟨a, ha, hid'⟩ := mem_map.mp hid.1
  obtain ⟨b, hb, rfl⟩ := mem_map.mp hid.2
  have hfrontier' := (hmem b).mp hb
  obtain rfl := eq_of_id hids (h.mem_tiles hids a ha) (mem_of_frontier hids hfrontier') hid'
  rw [hunique a ⟨ha, hfrontier'⟩]

/-- A scene is rejected as cyclic exactly when some tile is its own ancestor; the plan of any other
covers every path from a root to a leaf by one tile, in any order of the tiles. -/
theorem plan_covers (libm : Libm) (rt : Runtime) (manifest : CitySceneManifest)
    (view : SharedSpatialViewState) (budget : CityStreamBudget) :
    (OtherChecks manifest view budget → (validate manifest view budget = .error cycleError ↔
        ∃ tile ∈ manifest.tiles, TransGen (IsParent manifest) tile tile)) ∧
    (∀ tile ∈ manifest.tiles,
      Forest.climb (parentOf manifest) tile.id (ancestors manifest tile) = none) ∧
    (validate manifest view budget = .ok () → (traversal libm manifest view budget).queue = [] ∧
      ∃ plan, planCitySceneFrame libm rt manifest view budget = .ok plan ∧
        (plan.selectedTiles ++ plan.deferredTiles).Nodup ∧
        (∀ path, RootToLeaf manifest path →
          ∃! id, id ∈ path.map CityTile.id ∧ id ∈ plan.selectedTiles ++ plan.deferredTiles) ∧
        ∀ tiles : List CityTile, tiles.Perm manifest.tiles →
          planCitySceneFrame libm rt { manifest with tiles := tiles } view budget = .ok plan) := by
  refine ⟨fun hchecks => hchecks.validate_error.trans (cyclic_iff hchecks.nodup_ids),
    fun tile htile => ancestors_end htile, fun hvalid => ?_⟩
  have hids := (validate_ok.mp hvalid).1.nodup_ids
  have hplanned := planned_perm libm rt manifest view budget
  refine ⟨(frontier_spec libm view budget hids).1, _, planCitySceneFrame_ok hvalid,
    hplanned.nodup_iff.mpr (nodup_frontier_ids hids), fun path hpath => ?_, fun tiles htiles => ?_⟩
  · simp only [hplanned.mem_iff]
    exact exists_unique_id hids hpath
  · rw [planCitySceneFrame_ok (validate_perm htiles hvalid), byId_perm htiles hids]
    rfl

namespace Block

/-- The tangent of thirty degrees, half the angle of the camera. -/
def tangent : Libm where
  tan _ := ⟨0x3fe279a74590331c#64⟩
  cos x := x
  ln x := x

def source : SourceSnapshot :=
  { SourceMetadata.new "fixture://3dtiles" with checksumStatus := .verified }

def tile (id : String) (parentId : Option String) : CityTile :=
  { id := id, layerId := "buildings", parentId := parentId, geometricErrorM := .ofNat 4
    cameraDistanceM := .ofNat 1000, contentBytes := 100
    contentDigest := "sha256:" ++ String.ofList (replicate 64 'a'), featureIds := [id] }

def scene : CitySceneManifest :=
  { schemaVersion := "0.1.0"
    layers := [{ id := "buildings", format := "3dtiles-1.1", source := source }]
    tiles := [tile "wing" (some "block"), tile "block" none] }

def camera : SharedSpatialViewState :=
  { crs := Crs.nagoyaProjected, cameraPosition := (.zero, .zero, .ofNat 300)
    cameraTarget := (.zero, .zero, .zero), fieldOfViewDegrees := .ofNat 60
    viewportHeightPx := 1080, selectedFeatureIds := ∅, temporalCursor := none }

def limits : CityStreamBudget :=
  { maximumTiles := 5, maximumTransferBytes := 500, maximumScreenSpaceError := .ofNat 16 }

theorem validate_scene : validate scene camera limits = .ok () := by decide +kernel

end Block

theorem plan_covers_block :
    ∃ plan, planCitySceneFrame Block.tangent Runtime.reference Block.scene Block.camera
        Block.limits = .ok plan ∧
      (plan.selectedTiles ++ plan.deferredTiles).Nodup ∧
      planCitySceneFrame Block.tangent Runtime.reference
        { Block.scene with tiles := Block.scene.tiles.reverse } Block.camera Block.limits =
          .ok plan := by
  obtain ⟨-, -, haccepted⟩ := plan_covers Block.tangent Runtime.reference Block.scene Block.camera
    Block.limits
  obtain ⟨-, plan, hplan, hnodup, -, horder⟩ := haccepted Block.validate_scene
  exact ⟨plan, hplan, hnodup, horder _ (reverse_perm _)⟩

end GeneGIS.CityScene
