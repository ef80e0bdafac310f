/-
A piece has the attributes of both features.  An attribute of the overlay whose name is taken gets
a suffix; the suffixed name is not looked up again.
-/
import GeneGIS.Data.Each
import GeneGIS.Data.Keyed
import GeneGIS.Toolkit.Clip
import GeneGIS.Toolkit.Executor
import GeneGIS.Toolkit.GridIndex
import GeneGIS.Toolkit.Proj
import Mathlib.Data.String.Basic

namespace GeneGIS.Toolkit

open List Option Fallible Std.ExtTreeMap Keyed Std

/-- What the operations need of the geometry library beside the overlay, and of the platform. -/
structure Library extends Overlay where
  boundingRect : Geometry → Option (BoundingBox F64)
  isValid : Geometry → Bool
  unaryUnion : List MultiPolygon → MultiPolygon
  multiArea : MultiPolygon → F64
  transform : CrsInfo → CrsInfo → Geometry → Except ToolkitError Geometry
  floatText : F64 → String
  scientific : Nat → F64 → String

/-! ## Layers -/

namespace Operation

variable (geo : Library)

def isPolygonal : Geometry → Bool
  | .polygon _ => true
  | .multiPolygon _ => true
  | _ => false

def isInvalid (feature : Feature) : Bool :=
  feature.geometry.any fun g => isPolygonal g && !geo.isValid g

def invalidFeatureIds (layer : Layer) : List UInt64 :=
  (layer.features.filter (isInvalid geo)).map Feature.id

/-- A list as `{:?}` prints it. -/
def debugIds (ids : List UInt64) : String :=
  "[" ++ ", ".intercalate (ids.map fun id => id.toNat.repr) ++ "]"

def requireValid (op : String) (layer : Layer) : Except ToolkitError Unit :=
  match invalidFeatureIds geo layer with
  | [] => .ok ()
  | id :: rest => .error (.parameter op
    ("layer " ++ layer.id geo.floatText geo.outlines ++ " has " ++ (rest.length + 1).repr ++
      " invalid polygons (ids " ++ debugIds ((id :: rest).take 10) ++
      "); add a make_valid step before " ++ op))

def derived (name crs : String) : Layer where
  name := name
  crs := crs
  crsStatus := .derived

def unionAll : List MultiPolygon → MultiPolygon
  | [] => []
  | polys => geo.unaryUnion polys

def bboxOverlap (a b : BoundingBox F64) (pad : F64) : Bool :=
  F64.le a.minX (.add b.maxX pad) && F64.le b.minX (.add a.maxX pad) &&
    F64.le a.minY (.add b.maxY pad) && F64.le b.minY (.add a.maxY pad)

def moved (source target : CrsInfo) (feature : Feature) : Except ToolkitError Feature :=
  match feature.geometry with
  | none => .ok feature
  | some g => do return { feature with geometry := some (← geo.transform source target g) }

def movedAll (source target : CrsInfo) (features : List Feature) :
    Except ToolkitError (List Feature) :=
  if source.epsg = target.epsg then .ok features else features.mapM (moved geo source target)

def reprojected (layer : Layer) (target : CrsInfo) : Except ToolkitError Layer := do
  let source ← Proj.lookup layer.crs
  return { layer with crs := target.id, features := ← movedAll geo source target layer.features }

/-- The area of the polygons of a feature, none if it has no polygons. -/
def featureArea (feature : Feature) : Option F64 :=
  (feature.geometry.bind (Clip.polygonal geo.toOverlay)).map geo.multiArea

end Operation

namespace Intersect

open Operation

variable (geo : Library)

/-- An overlay feature with polygons. -/
structure OverlayPart where
  feature : Feature
  poly : MultiPolygon
  box : BoundingBox F64

def overlayPart (feature : Feature) : Option OverlayPart := do
  let g ← feature.geometry
  return { feature := feature, poly := ← Clip.polygonal geo.toOverlay g, box := ← geo.boundingRect g }

/-- What is left of a feature in the polygons of another. -/
structure Piece where
  source : Feature
  other : Feature
  geometry : Geometry

def pieceOf (feature : Feature) (geometry : Geometry) (box : BoundingBox F64) (part : OverlayPart) :
    Option Piece :=
  if bboxOverlap box part.box .zero then
    (Clip.clipGeometry geo.toOverlay part.poly false geometry).map fun piece =>
      { source := feature, other := part.feature, geometry := piece }
  else none

def piecesOf (parts : List OverlayPart) (feature : Feature) : List Piece :=
  match feature.geometry with
  | none => []
  | some geometry =>
    match geo.boundingRect geometry with
    | none => []
    | some box => parts.filterMap (pieceOf geo feature geometry box)

/-- The name of an attribute where the names that are there may be taken. -/
def freeName (properties : Properties) (key : String) : String :=
  if properties.contains key then key ++ "_2" else key

def addAttribute (properties : Properties) (entry : String × Value) : Properties :=
  properties.insert (freeName properties entry.1) entry.2

def merged (own other : Properties) : Properties := other.toList.foldl addAttribute own

def Piece.feature (piece : Piece) (id : Nat) : Feature where
  id := .ofNat id
  geometry := some piece.geometry
  properties := merged piece.source.properties piece.other.properties

variable (layer : Layer)

/-- Features without a box are left out of the area of the input. -/
def inputArea : F64 :=
  ((layer.features.filter fun f => (f.geometry.bind geo.boundingRect).isSome).filterMap
    (featureArea geo)).foldl F64.add .zero

variable (layer overlay : Layer)

/-- The features that the layer is cut with, in its reference system. -/
def overlayParts : Except ToolkitError (List OverlayPart) := do
  requireValid geo "intersect" layer
  requireValid geo "intersect" overlay
  let crs ← Proj.lookup layer.crs
  let overlay ← reprojected geo overlay crs
  match overlay.features.filterMap (overlayPart geo) with
  | [] => .error (.parameter "intersect" "overlay has no polygons")
  | part :: rest => .ok (part :: rest)

def pieces (parts : List OverlayPart) : List Piece := layer.features.flatMap (piecesOf geo parts)

def areaCheck (parts : List OverlayPart) (out : Layer) : Check :=
  let margin := F64.add (.ofNat 1) (.ofRatio 1 (10 ^ 9))
  let input := inputArea geo layer
  let output := F64.sum (out.features.filterMap (featureArea geo))
  let union := geo.multiArea (unionAll geo (parts.map OverlayPart.poly))
  let overlapping := F64.lt (F64.mul union margin)
    (F64.sum (parts.map fun part => geo.multiArea part.poly))
  { id := "piece_area_bounded_by_input"
    passed := overlapping || F64.le output (F64.add (F64.mul input margin) (.ofRatio 1 (10 ^ 12)))
    detail := if overlapping then "overlay polygons overlap; area bound not applicable"
      else "pieces " ++ geo.scientific 6 output ++ " ≤ input " ++ geo.scientific 6 input ++
        " (CRS units²)" }

def output (parts : List OverlayPart) : OpOutput :=
  let out := { derived (layer.name ++ "_x_" ++ overlay.name) layer.crs with
    fields := layer.fields
    features := (pieces geo layer parts).mapIdx fun i piece => piece.feature i }
  { layer := out, checks := [areaCheck geo layer parts out], notes := [] }

def intersect : Except ToolkitError OpOutput := do
  return output geo layer overlay (← overlayParts geo layer overlay)

/-! ## Names -/

variable {source other : Properties}

/-- The names that are taken when the attributes of the overlay are added in order. -/
inductive Taken (source other : Properties) : String → Prop where
  | own {key : String} : key ∈ source → Taken source other key
  | suffixed {key : String} : key ∈ other → Taken source other key →
      Taken source other (key ++ "_2")

/-- Both features have their attributes in the result, each under a name of its own. -/
structure KeepsBoth (source other result : Properties) : Prop where
  own : ∀ (key : String) (value : Value), source[key]? = some value → result[key]? = some value
  overlay : ∃ name : String → String,
    (∀ j ∈ other, ∀ k ∈ other, name j = name k → j = k) ∧
    ∀ key ∈ other, name key ∉ source ∧ result[name key]? = other[key]?
  size : result.size = source.size + other.size

/-- No suffixed name is the name of an attribute of the source. -/
def Separate (source other : Properties) : Prop :=
  ∀ key ∈ other, Taken source other key → key ++ "_2" ∉ source

theorem lt_suffixed (key : String) : key < key ++ "_2" := by
  rw [String.lt_iff_toList_lt, String.toList_append]
  induction key.toList with
  | nil => exact nil_lt_cons _ _
  | cons c rest ih => exact cons_lt_cons_self.mpr ih

theorem suffixed_inj {j k : String} (h : j ++ "_2" = k ++ "_2") : j = k := by
  rw [← String.toList_inj, String.toList_append, String.toList_append] at h
  exact String.toList_inj.mp (append_cancel_right h)

open Classical in
/-- The name under which an attribute of the overlay is added. -/
noncomputable def placed (source other : Properties) (key : String) : String :=
  if Taken source other key then key ++ "_2" else key

theorem placed_inj {j k : String} (hj : j ∈ other) (hk : k ∈ other)
    (h : placed source other j = placed source other k) : j = k := by
  rw [placed, placed] at h
  by_cases hjt : Taken source other j
  · by_cases hkt : Taken source other k
    · rw [if_pos hjt, if_pos hkt] at h
      exact suffixed_inj h
    · rw [if_pos hjt, if_neg hkt] at h
      rw [← h] at hkt
      exact absurd (Taken.suffixed hj hjt) hkt
  · by_cases hkt : Taken source other k
    · rw [if_neg hjt, if_pos hkt] at h
      rw [h] at hjt
      exact absurd (Taken.suffixed hk hkt) hjt
    · rw [if_neg hjt, if_neg hkt] at h
      exact h

/-- The attributes of the overlay with their new names. -/
noncomputable def placedEntries (source other : Properties) (entries : List (String × Value)) :
    List (String × Value) :=
  entries.map fun entry => (placed source other entry.1, entry.2)

def insertAll (entries : List (String × Value)) (properties : Properties) : Properties :=
  entries.foldl (fun m e => m.insert e.1 e.2) properties

theorem compare_lt {j k : String} : compare j k = .lt ↔ j < k := compareOfLessAndEq_eq_lt

theorem mem_of_entry {entry : String × Value} (h : entry ∈ other.toList) : entry.1 ∈ other := by
  rw [ExtTreeMap.mem_toList_iff_getElem?_eq_some] at h
  rw [mem_iff_isSome_getElem?, h]
  rfl

theorem exists_entry {key : String} (h : key ∈ other) : ∃ entry ∈ other.toList, entry.1 = key := by
  rw [mem_iff_isSome_getElem?] at h
  obtain ⟨value, hvalue⟩ := Option.isSome_iff_exists.mp h
  exact ⟨(key, value), ExtTreeMap.mem_toList_iff_getElem?_eq_some.mpr hvalue, rfl⟩

theorem nodup_placed : ((placedEntries source other other.toList).map Prod.fst).Nodup := by
  rw [placedEntries, List.map_map, List.Nodup, List.pairwise_map]
  refine List.Pairwise.imp_of_mem ?_ ExtTreeMap.distinct_keys_toList
  intro a b ha hb hne heq
  refine hne ?_
  rw [placed_inj (mem_of_entry ha) (mem_of_entry hb) heq]
  exact ReflCmp.compare_self

theorem mem_iff_taken {before after : List (String × Value)} {entry : String × Value}
    (h : other.toList = before ++ entry :: after) :
    entry.1 ∈ insertAll (placedEntries source other before) source ↔
      Taken source other entry.1 := by
  have hordered : (before ++ entry :: after).Pairwise fun a b => compare a.1 b.1 = .lt := by
    rw [← h]
    exact ordered_keys_toList
  obtain ⟨-, hafter, hbefore⟩ := pairwise_append.mp hordered
  have hearlier : ∀ e ∈ before, e.1 ∈ other ∧ e.1 < entry.1 := by
    intro e he
    refine ⟨mem_of_entry (h ▸ mem_append_left _ he), ?_⟩
    exact compare_lt.mp (hbefore e he entry mem_cons_self)
  rw [insertAll, mem_foldl_insert]
  constructor
  · intro hmem
    rcases hmem with hown | hplaced
    · exact Taken.own hown
    · obtain ⟨moved, hmoved, hkey⟩ := hplaced
      obtain ⟨e, he, rfl⟩ := mem_map.mp hmoved
      have hname : placed source other e.1 = entry.1 := hkey
      rw [placed] at hname
      by_cases htaken : Taken source other e.1
      · rw [if_pos htaken] at hname
        rw [← hname]
        exact Taken.suffixed (hearlier e he).1 htaken
      · rw [if_neg htaken] at hname
        have hlt := (hearlier e he).2
        rw [hname] at hlt
        exact absurd hlt (String.lt_irrefl _)
  · intro htaken
    generalize hkey : entry.1 = key at htaken
    cases htaken with
    | own hown => exact .inl hown
    | @suffixed j hj htaken =>
      refine .inr ?_
      obtain ⟨e, he, rfl⟩ := exists_entry hj
      have hlt : e.1 < entry.1 := by
        rw [hkey]
        exact lt_suffixed e.1
      have hmem : e ∈ before := by
        rw [h] at he
        rcases mem_append.mp he with he | he
        · exact he
        · rcases mem_cons.mp he with rfl | he
          · exact absurd hlt (String.lt_irrefl _)
          · have hgt := compare_lt.mp ((pairwise_cons.mp hafter).1 e he)
            exact absurd hgt (String.lt_asymm hlt)
      refine ⟨_, mem_map_of_mem hmem, ?_⟩
      show placed source other e.1 = e.1 ++ "_2"
      rw [placed, if_pos htaken]

theorem merged_eq : merged source other =
    insertAll (placedEntries source other other.toList) source := by
  have hrun : ∀ after before : List (String × Value), other.toList = before ++ after →
      after.foldl addAttribute (insertAll (placedEntries source other before) source) =
        insertAll (placedEntries source other other.toList) source := by
    intro after
    induction after with
    | nil =>
      intro before h
      rw [h, append_nil]
      rfl
    | cons entry after ih =>
      intro before h
      have hlast : insertAll (placedEntries source other (before ++ [entry])) source =
          (insertAll (placedEntries source other before) source).insert
            (placed source other entry.1) entry.2 := by
        rw [placedEntries, map_append, insertAll, foldl_append]
        rfl
      rw [← ih (before ++ [entry]) (by rw [h, append_assoc]; rfl), foldl_cons, hlast,
        addAttribute, freeName, placed]
      congr 2
      by_cases htaken : Taken source other entry.1
      · rw [if_pos htaken, if_pos (mem_iff_contains.mp ((mem_iff_taken h).mpr htaken))]
      · rw [if_neg htaken, if_neg fun hmem =>
          htaken ((mem_iff_taken h).mp (mem_iff_contains.mpr hmem))]
  exact hrun other.toList [] rfl

theorem size_merged : (merged source other).size = source.size +
    (placedEntries source other other.toList).countP fun e => !source.contains e.1 := by
  rw [merged_eq]
  exact size_foldl_insert nodup_placed

theorem length_placed : (placedEntries source other other.toList).length = other.size := by
  rw [placedEntries, List.length_map, ExtTreeMap.length_toList]

theorem placed_not_mem {key : String} (hseparate : Separate source other) (h : key ∈ other) :
    placed source other key ∉ source := by
  rw [placed]
  by_cases htaken : Taken source other key
  · rw [if_pos htaken]
    exact hseparate key h htaken
  · rw [if_neg htaken]
    exact fun hown => htaken (Taken.own hown)

theorem keepsBoth_merged : KeepsBoth source other (merged source other) ↔ Separate source other := by
  constructor
  · intro h key hkey htaken hmem
    have hsize := h.size
    rw [size_merged, ← @length_placed source other] at hsize
    have hall := countP_eq_length.mp (Nat.add_left_cancel hsize)
    obtain ⟨entry, hentry, rfl⟩ := exists_entry hkey
    have hnew := hall _ (mem_map_of_mem hentry)
    have hplaced : placed source other entry.1 = entry.1 ++ "_2" := by rw [placed, if_pos htaken]
    rw [hplaced, mem_iff_contains.mp hmem] at hnew
    cases hnew
  · intro h
    have hnew : ∀ e ∈ placedEntries source other other.toList, e.1 ∉ source := by
      intro e he
      obtain ⟨entry, hentry, rfl⟩ := mem_map.mp he
      exact placed_not_mem h (mem_of_entry hentry)
    refine ⟨?_, ⟨placed source other, fun j hj k hk => placed_inj hj hk, ?_⟩, ?_⟩
    · intro key value hvalue
      have hnone : (placedEntries source other other.toList).filter (fun e => e.1 = key) = [] := by
        rw [filter_eq_nil_iff]
        intro e he hkey
        refine hnew e he ?_
        rw [of_decide_eq_true hkey, mem_iff_isSome_getElem?, hvalue]
        rfl
      rw [merged_eq, insertAll, getElem?_foldl_insert, hnone]
      exact hvalue
    · intro key hkey
      obtain ⟨entry, hentry, rfl⟩ := exists_entry hkey
      refine ⟨placed_not_mem h hkey, ?_⟩
      have hfound := (found_foldl_insert_iff (m := source)
        (l := placedEntries source other other.toList)).mpr
        fun e he f hf hname => by rw [eq_of_mem nodup_placed he hf hname]
      rw [merged_eq, ExtTreeMap.mem_toList_iff_getElem?_eq_some.mp hentry]
      exact hfound _ (mem_map_of_mem hentry)
    · rw [size_merged, ← @length_placed source other, Nat.add_left_cancel_iff, countP_eq_length]
      intro e he
      rw [Bool.not_eq_true', ← Bool.not_eq_true, ← mem_iff_contains]
      exact hnew e he

/-! ## Pieces -/

section Pieces

variable {geo} {layer overlay : Layer} {parts : List OverlayPart}

/-- Both features of a piece are those of the layers, but for the geometry of the second. -/
structure FromBoth (layer overlay : Layer) (piece : Piece) : Prop where
  source : piece.source ∈ layer.features
  other : ∃ f ∈ overlay.features, f.id = piece.other.id ∧ f.properties = piece.other.properties

/-- Every feature of the output is a piece with the attributes of both features. -/
def PiecesKeepBoth (pieces : List Piece) (out : Layer) : Prop :=
  List.Forall₂ (fun piece feature => feature.geometry = some piece.geometry ∧
    KeepsBoth piece.source.properties piece.other.properties feature.properties)
    pieces out.features

/-- Wherever a feature is cut, no suffixed name is one of its own. -/
def SeparateWhereCut (geo : Library) (layer : Layer) (parts : List OverlayPart) : Prop :=
  ∀ feature ∈ layer.features, ∀ part ∈ parts, piecesOf geo [part] feature ≠ [] →
    Separate feature.properties part.feature.properties

theorem intersect_ok (h : overlayParts geo layer overlay = .ok parts) :
    intersect geo layer overlay = .ok (output geo layer overlay parts) := by
  rw [intersect, h]
  rfl

variable {feature : Feature}

theorem mem_piecesOf {piece : Piece} (h : piece ∈ piecesOf geo parts feature) :
    piece.source = feature ∧ ∃ part ∈ parts, piece.other = part.feature ∧
      piecesOf geo [part] feature ≠ [] := by
  rw [piecesOf] at h
  cases hgeometry : feature.geometry with
  | none => simp [hgeometry] at h
  | some geometry =>
    cases hbox : geo.boundingRect geometry with
    | none => simp [hgeometry, hbox] at h
    | some box =>
      simp only [hgeometry, hbox] at h
      obtain ⟨part, hpart, hpiece⟩ := mem_filterMap.mp h
      have hone : piecesOf geo [part] feature = [piece] := by
        rw [piecesOf]
        simp only [hgeometry, hbox]
        rw [filterMap_cons_some hpiece, filterMap_nil]
      rw [pieceOf] at hpiece
      by_cases hoverlap : bboxOverlap box part.box .zero = true
      · rw [if_pos hoverlap, map_eq_some_iff] at hpiece
        obtain ⟨g, -, rfl⟩ := hpiece
        exact ⟨rfl, part, hpart, rfl, by rw [hone]; exact cons_ne_nil _ _⟩
      · rw [if_neg hoverlap] at hpiece
        cases hpiece

variable {part : OverlayPart}

theorem piecesOf_ne_nil {g piece : Geometry} {box : BoundingBox F64}
    (hg : feature.geometry = some g) (hbox : geo.boundingRect g = some box)
    (hoverlap : bboxOverlap box part.box .zero = true)
    (hclip : Clip.clipGeometry geo.toOverlay part.poly false g = some piece) :
    piecesOf geo [part] feature ≠ [] := by
  have hpiece : pieceOf geo feature g box part = some ⟨feature, part.feature, piece⟩ := by
    rw [pieceOf, if_pos hoverlap, hclip]
    rfl
  rw [piecesOf]
  simp only [hg, hbox]
  rw [filterMap_cons_some hpiece]
  exact cons_ne_nil _ _

theorem exists_piece (hpart : part ∈ parts) (h : piecesOf geo [part] feature ≠ []) :
    ∃ piece ∈ piecesOf geo parts feature, piece.source = feature ∧ piece.other = part.feature := by
  obtain ⟨piece, hpiece⟩ := exists_mem_of_ne_nil _ h
  obtain ⟨hsource, part', hpart', hother, -⟩ := mem_piecesOf hpiece
  rw [mem_singleton.mp hpart'] at hother
  refine ⟨piece, ?_, hsource, hother⟩
  rw [piecesOf] at hpiece ⊢
  cases hgeometry : feature.geometry with
  | none => simp [hgeometry] at hpiece
  | some geometry =>
    cases hbox : geo.boundingRect geometry with
    | none => simp [hgeometry, hbox] at hpiece
    | some box =>
      simp only [hgeometry, hbox] at hpiece ⊢
      obtain ⟨p, hp, hsome⟩ := mem_filterMap.mp hpiece
      rw [mem_singleton.mp hp] at hsome
      exact mem_filterMap.mpr ⟨part, hpart, hsome⟩

theorem moved_properties {source target : CrsInfo} {feature result : Feature}
    (h : moved geo source target feature = .ok result) :
    feature.id = result.id ∧ feature.properties = result.properties := by
  rw [moved] at h
  cases hgeometry : feature.geometry with
  | none =>
    rw [hgeometry] at h
    rw [← Except.ok.inj h]
    exact ⟨rfl, rfl⟩
  | some g =>
    rw [hgeometry] at h
    obtain ⟨_, -, hresult⟩ := bind_iff.mp h
    rw [← Except.ok.inj hresult]
    exact ⟨rfl, rfl⟩

theorem mem_reprojected {target : CrsInfo} {other : Layer}
    (h : reprojected geo overlay target = .ok other)
    (hmem : feature ∈ other.features) :
    ∃ f ∈ overlay.features, f.id = feature.id ∧ f.properties = feature.properties := by
  obtain ⟨source, -, h⟩ := bind_iff.mp h
  obtain ⟨features, hfeatures, h⟩ := bind_iff.mp h
  rw [← Except.ok.inj h] at hmem
  rw [movedAll] at hfeatures
  by_cases hsame : source.epsg = target.epsg
  · rw [if_pos hsame] at hfeatures
    rw [← Except.ok.inj hfeatures] at hmem
    exact ⟨feature, hmem, rfl, rfl⟩
  · rw [if_neg hsame, Each.mapM_ok] at hfeatures
    obtain ⟨f, hf, hmoved⟩ := Each.forall₂_right hfeatures hmem
    exact ⟨f, hf, moved_properties hmoved⟩

theorem reprojected_same {source target : CrsInfo} (h : Proj.lookup layer.crs = .ok source)
    (hsame : source.epsg = target.epsg) :
    reprojected geo layer target = .ok { layer with crs := target.id } := by
  have hmoved : movedAll geo source target layer.features = .ok layer.features := if_pos hsame
  rw [reprojected, except_bind_of_ok h, hmoved]
  rfl

theorem overlayPart_some {g : Geometry} {poly : MultiPolygon}
    {box : BoundingBox F64} (hg : feature.geometry = some g)
    (hpoly : Clip.polygonal geo.toOverlay g = some poly) (hbox : geo.boundingRect g = some box) :
    overlayPart geo feature = some ⟨feature, poly, box⟩ := by
  rw [overlayPart, hg, bind_eq_bind, bind_some, hpoly, hbox]
  rfl

theorem overlayPart_feature (h : overlayPart geo feature = some part) : part.feature = feature := by
  obtain ⟨g, -, h⟩ := bind_eq_some_iff.mp h
  obtain ⟨poly, -, h⟩ := bind_eq_some_iff.mp h
  obtain ⟨box, -, h⟩ := bind_eq_some_iff.mp h
  rw [← Option.some.inj h]

theorem overlayParts_ok {crs : CrsInfo} {other : Layer}
    {rest : List OverlayPart} (hlayer : requireValid geo "intersect" layer = .ok ())
    (hoverlay : requireValid geo "intersect" overlay = .ok ())
    (hcrs : Proj.lookup layer.crs = .ok crs) (hother : reprojected geo overlay crs = .ok other)
    (hparts : other.features.filterMap (overlayPart geo) = part :: rest) :
    overlayParts geo layer overlay = .ok (part :: rest) := by
  rw [overlayParts, except_bind_of_ok hlayer, except_bind_of_ok hoverlay,
    except_bind_of_ok hcrs, except_bind_of_ok hother, hparts]

theorem mem_overlayParts (h : overlayParts geo layer overlay = .ok parts)
    (hpart : part ∈ parts) : ∃ f ∈ overlay.features, f.id = part.feature.id ∧
      f.properties = part.feature.properties := by
  obtain ⟨_, -, h⟩ := bind_iff.mp h
  obtain ⟨_, -, h⟩ := bind_iff.mp h
  obtain ⟨crs, -, h⟩ := bind_iff.mp h
  obtain ⟨other, hother, h⟩ := bind_iff.mp h
  cases hlist : other.features.filterMap (overlayPart geo) with
  | nil =>
    rw [hlist] at h
    cases h
  | cons first rest =>
    rw [hlist] at h
    rw [← Except.ok.inj h, ← hlist] at hpart
    obtain ⟨feature, hfeature, hsome⟩ := mem_filterMap.mp hpart
    rw [overlayPart_feature hsome]
    exact mem_reprojected hother hfeature

theorem fromBoth (h : overlayParts geo layer overlay = .ok parts) :
    ∀ piece ∈ pieces geo layer parts, FromBoth layer overlay piece := by
  intro piece hpiece
  obtain ⟨feature, hfeature, hmem⟩ := mem_flatMap.mp hpiece
  obtain ⟨hsource, part, hpart, hother, -⟩ := mem_piecesOf hmem
  refine ⟨?_, ?_⟩
  · rw [hsource]
    exact hfeature
  · rw [hother]
    exact mem_overlayParts h hpart

theorem forall₂_mapIdx {α β : Type} {R : α → β → Prop} {P : α → Prop} {f : Nat → α → β}
    (hR : ∀ i a, R a (f i a) ↔ P a) (l : List α) :
    List.Forall₂ R l (l.mapIdx f) ↔ ∀ a ∈ l, P a := by
  induction l generalizing f with
  | nil => simp
  | cons a rest ih =>
    rw [mapIdx_cons, forall₂_cons, hR, ih fun i => hR (i + 1), forall_mem_cons]

theorem piecesKeepBoth_iff : PiecesKeepBoth (pieces geo layer parts)
    (output geo layer overlay parts).layer ↔ SeparateWhereCut geo layer parts := by
  have hpieces : PiecesKeepBoth (pieces geo layer parts) (output geo layer overlay parts).layer ↔
      ∀ piece ∈ pieces geo layer parts,
        Separate piece.source.properties piece.other.properties := by
    refine forall₂_mapIdx (fun i piece => ?_) _
    rw [← keepsBoth_merged]
    exact and_iff_right rfl
  rw [hpieces]
  constructor
  · intro h feature hfeature part hpart hcut
    obtain ⟨piece, hpiece, hsource, hother⟩ := exists_piece hpart hcut
    have hseparate := h piece (mem_flatMap.mpr ⟨feature, hfeature, hpiece⟩)
    rw [hsource, hother] at hseparate
    exact hseparate
  · intro h piece hpiece
    obtain ⟨feature, hfeature, hmem⟩ := mem_flatMap.mp hpiece
    obtain ⟨hsource, part, hpart, hother, hcut⟩ := mem_piecesOf hmem
    rw [hsource, hother]
    exact h feature hfeature part hpart hcut

end Pieces

/-- The pieces keep the attributes of both features exactly if no suffixed name is taken. -/
theorem intersect_keepsBoth {layer overlay : Layer} {out : OpOutput}
    (h : intersect geo layer overlay = .ok out) :
    ∃ parts, overlayParts geo layer overlay = .ok parts ∧
      (∀ piece ∈ pieces geo layer parts, FromBoth layer overlay piece) ∧
      (PiecesKeepBoth (pieces geo layer parts) out.layer ↔ SeparateWhereCut geo layer parts) := by
  cases hparts : overlayParts geo layer overlay with
  | error e =>
    rw [intersect, hparts] at h
    cases h
  | ok parts =>
    rw [intersect_ok hparts] at h
    cases h
    exact ⟨parts, rfl, fromBoth hparts, piecesKeepBoth_iff⟩

/-! ## A park in a ward -/

namespace Ward

open Clip

def boxOf : Geometry → Option (BoundingBox F64)
  | .polygon p =>
    match p.exterior.coords with
    | a :: _ :: c :: _ => some ⟨a.x, a.y, c.x, c.y⟩
    | _ => none
  | _ => none

def library : Library where
  toOverlay := Town.overlay
  boundingRect := boxOf
  isValid _ := true
  unaryUnion polys := polys.flatten
  multiArea m := .ofNat m.length
  transform _ _ g := .ok g
  floatText _ := ""
  scientific _ _ := ""

def lot (size : Nat) : Geometry := .polygon (Town.lot 0 0 size)

variable (size : Nat)

def lotLine : LineString :=
  [Town.at_ 0 0, Town.at_ (0 + size) 0, Town.at_ (0 + size) (0 + size), Town.at_ 0 (0 + size),
    Town.at_ 0 0]

variable (properties : Properties)

def featureOf : Feature := ⟨0, some (lot size), properties⟩

def layerOf (name : String) (size : Nat) (properties : Properties) : Layer where
  name := name
  crs := "EPSG:6677"
  crsStatus := .declared
  features := [featureOf size properties]

def named : Properties := .ofList [("name", .str "pond")] compare

def namedTwice : Properties := .ofList [("name", .str "pond"), ("name_2", .str "east")] compare

def wardName : Properties := .ofList [("name", .str "north")] compare

def textAt (key : String) : Option String := properties[key]?.bind Expression.asStr

def parks (properties : Properties) : Layer := layerOf "parks" 4 properties

def wards (properties : Properties) : Layer := layerOf "wards" 5 properties

def box : BoundingBox F64 := ⟨.ofNat 0, .ofNat 0, .ofNat (0 + size), .ofNat (0 + size)⟩

def partOf : OverlayPart where
  feature := featureOf size properties
  poly := [Town.lot 0 0 size]
  box := box size

theorem lookup_crs : Proj.lookup "EPSG:6677" = .ok (Proj.info 6677 .metres) := by rfl

theorem boxOf_lot : boxOf (lot size) = some (box size) := by
  have hzero : (Town.at_ 0 0).isNan = false := by decide +kernel
  have hclosed : LineString.isClosed (lotLine size) = true := by
    show Coord.eq (Town.at_ 0 0) (Town.at_ 0 0) = true
    rw [Coord.eq_self, hzero]
    rfl
  have hcoords : LineString.close (lotLine size) = lotLine size := if_pos hclosed
  show boxOf (.polygon ⟨⟨LineString.close (lotLine size), _⟩, []⟩) = _
  simp only [boxOf, hcoords]
  rfl

theorem polygonal_polygon (p : Polygon) : polygonal library.toOverlay (.polygon p) = some [p] := rfl

theorem boundingRect_library : library.boundingRect = boxOf := rfl

theorem boundingRect_lot : library.boundingRect (lot size) = some (box size) := by
  rw [boundingRect_library, boxOf_lot]

theorem polygonal_lot :
    polygonal library.toOverlay (lot size) = some [Town.lot 0 0 size] := polygonal_polygon _

theorem overlayPart_featureOf :
    overlayPart library (featureOf size properties) = some (partOf size properties) :=
  overlayPart_some rfl (polygonal_lot size) (boundingRect_lot size)

theorem overlayParts_layerOf (name : String) (own other : Properties) :
    overlayParts library (parks own) (layerOf name size other) = .ok [partOf size other] :=
  overlayParts_ok rfl rfl lookup_crs (reprojected_same lookup_crs rfl)
    (filterMap_cons_some (overlayPart_featureOf size other))

theorem clip_lot :
    Clip.clipGeometry library.toOverlay [Town.lot 0 0 5] false (lot size) = some (lot size) := by
  have hmask : Town.covered [Town.lot 0 0 5] = true := Town.covered_mask
  have hpoly : polygonal Town.overlay (lot size) = some [Town.lot 0 0 size] := polygonal_lot size
  show Clip.clipGeometry Town.overlay _ false _ = _
  rw [clip_polygonal hpoly, Town.overlaid_overlay, hmask, if_neg Bool.noConfusion, fromPolygons,
    filter_cons_of_pos (Town.hasArea_overlay _)]
  rfl

theorem overlap : bboxOverlap (box 4) (box 5) .zero = true := by decide +kernel

theorem cuts (own other : Properties) : piecesOf library [partOf 5 other] (featureOf 4 own) ≠ [] :=
  piecesOf_ne_nil rfl (boundingRect_lot 4) overlap (clip_lot 4)

theorem separateWhereCut_iff (own other : Properties) :
    SeparateWhereCut library (parks own) [partOf 5 other] ↔ Separate own other := by
  constructor
  · intro h
    exact h (featureOf 4 own) mem_cons_self (partOf 5 other) mem_cons_self (cuts own other)
  · intro h feature hfeature part hpart _
    rw [mem_singleton.mp hfeature, mem_singleton.mp hpart]
    exact h

theorem mem_wardName {key : String} (h : key ∈ wardName) : key = "name" := by
  rw [wardName, mem_ofList] at h
  simpa using h

end Ward

theorem intersect_keepsBoth_parks : ∃ out,
    intersect Ward.library (Ward.parks Ward.named) (Ward.wards Ward.wardName) = .ok out ∧
    PiecesKeepBoth (pieces Ward.library (Ward.parks Ward.named) [Ward.partOf 5 Ward.wardName])
      out.layer := by
  have hparts := Ward.overlayParts_layerOf 5 "wards" Ward.named Ward.wardName
  refine ⟨_, intersect_ok hparts, ?_⟩
  obtain ⟨parts, hknown, -, hkeeps⟩ := intersect_keepsBoth Ward.library (intersect_ok hparts)
  have hsame : [Ward.partOf 5 Ward.wardName] = parts := Except.ok.inj (hparts.symm.trans hknown)
  rw [← hsame] at hkeeps
  refine hkeeps.mpr ((Ward.separateWhereCut_iff _ _).mpr ?_)
  intro key hkey _ hmem
  rw [Ward.mem_wardName hkey] at hmem
  exact absurd hmem (by decide)

/-- The suffixed name of the overlay takes the place of the attribute that has it already. -/
theorem intersect_overwrites : ∃ out,
    intersect Ward.library (Ward.parks Ward.namedTwice) (Ward.wards Ward.wardName) = .ok out ∧
    ¬ PiecesKeepBoth
      (pieces Ward.library (Ward.parks Ward.namedTwice) [Ward.partOf 5 Ward.wardName]) out.layer ∧
    Ward.textAt Ward.namedTwice "name_2" = some "east" ∧
    Ward.textAt (merged Ward.namedTwice Ward.wardName) "name_2" = some "north" ∧
    (merged Ward.namedTwice Ward.wardName).size = 2 := by
  have hparts := Ward.overlayParts_layerOf 5 "wards" Ward.namedTwice Ward.wardName
  refine ⟨_, intersect_ok hparts, ?_, by decide, by decide, by decide⟩
  rw [piecesKeepBoth_iff, Ward.separateWhereCut_iff]
  intro h
  exact h "name" (by decide) (Taken.own (by decide)) (by decide)

end Intersect
end GeneGIS.Toolkit
