/-
A geometry is clipped as polygons, as lines or as points, and a collection part by part.  The
overlay of the library is known by the regions that polygons cover.
-/
import GeneGIS.Toolkit.Geometry
import Mathlib.Order.BooleanAlgebra.Basic

namespace GeneGIS.Toolkit

open List Option

abbrev MultiPolygon := List Polygon

/-- The operations of the geometry library. -/
structure Overlay where
  outlines : Outlines
  orient : MultiPolygon → MultiPolygon
  intersection : MultiPolygon → MultiPolygon → MultiPolygon
  difference : MultiPolygon → MultiPolygon → MultiPolygon
  clip : MultiPolygon → List LineString → Bool → List LineString
  intersects : MultiPolygon → Coord → Bool
  unsignedArea : Polygon → F64

namespace Clip

variable (geo : Overlay)

/-! ## Parts of a geometry -/

mutual

def polygonalRaw : Geometry → Option MultiPolygon
  | .polygon p => some [p]
  | .multiPolygon m => some m
  | .rect r => some [geo.outlines.ofRect r]
  | .triangle t => some [geo.outlines.ofTriangle t]
  | .collection parts =>
    match polygonsOf parts with
    | [] => none
    | p :: rest => some (p :: rest)
  | _ => none

/-- The polygons of the parts that have some, one after the other. -/
def polygonsOf : List Geometry → MultiPolygon
  | [] => []
  | g :: rest => (polygonalRaw g).getD [] ++ polygonsOf rest

end

def polygonal (g : Geometry) : Option MultiPolygon := (polygonalRaw geo g).map geo.orient

def lineal : Geometry → Option (List LineString)
  | .line start stop => some [[start, stop]]
  | .lineString l => some [l]
  | .multiLineString m => some m
  | _ => none

def puntal : Geometry → Option (List Coord)
  | .point p => some [p]
  | .multiPoint m => some m
  | _ => none

def hasArea (p : Polygon) : Bool := F64.lt .zero (geo.unsignedArea p)

def fromPolygons (m : MultiPolygon) : Option Geometry :=
  match m.filter (hasArea geo) with
  | [] => none
  | [p] => some (.polygon p)
  | polys => some (.multiPolygon polys)

def isLine (l : LineString) : Bool := 2 ≤ l.length

def fromLines (m : List LineString) : Option Geometry :=
  match m.filter isLine with
  | [] => none
  | [l] => some (.lineString l)
  | lines => some (.multiLineString lines)

def fromPoints : List Coord → Option Geometry
  | [] => none
  | [p] => some (.point p)
  | points => some (.multiPoint points)

def fromParts : List Geometry → Option Geometry
  | [] => none
  | parts => some (.collection parts)

def overlaid (mask : MultiPolygon) (invert : Bool) (poly : MultiPolygon) : MultiPolygon :=
  if invert then geo.difference poly mask else geo.intersection poly mask

def keeps (mask : MultiPolygon) (invert : Bool) (p : Coord) : Bool := geo.intersects mask p != invert

mutual

def clipGeometry (mask : MultiPolygon) (invert : Bool) (g : Geometry) : Option Geometry :=
  match polygonal geo g with
  | some poly => fromPolygons geo (overlaid geo mask invert poly)
  | none =>
    match lineal g with
    | some lines => fromLines (geo.clip mask lines invert)
    | none =>
      match puntal g with
      | some points => fromPoints (points.filter (keeps geo mask invert))
      | none =>
        match g with
        | .collection parts => fromParts (clipAll mask invert parts)
        | _ => none

def clipAll (mask : MultiPolygon) (invert : Bool) : List Geometry → List Geometry
  | [] => []
  | g :: rest => (clipGeometry mask invert g).toList ++ clipAll mask invert rest

end

mutual

def pointsOf : Geometry → List Coord
  | .point p => [p]
  | .multiPoint m => m
  | .collection parts => pointsOfAll parts
  | _ => []

def pointsOfAll : List Geometry → List Coord
  | [] => []
  | g :: rest => pointsOf g ++ pointsOfAll rest

end

mutual

/-- The line parts, each with the lines that are clipped together. -/
def linesOf : Geometry → List (List LineString)
  | .line start stop => [[[start, stop]]]
  | .lineString l => [[l]]
  | .multiLineString m => [m]
  | .collection parts => linesOfAll parts
  | _ => []

def linesOfAll : List Geometry → List (List LineString)
  | [] => []
  | g :: rest => linesOf g ++ linesOfAll rest

end

def polygonParts (g : Geometry) : MultiPolygon := (polygonalRaw geo g).getD []

def clippedLines (mask : MultiPolygon) (invert : Bool) (lines : List LineString) : List LineString :=
  (geo.clip mask lines invert).filter isLine

/-- What the overlay of the library means: polygons cover a region, and regions are overlaid. -/
structure Covers {R : Type} [BooleanAlgebra R] (region : MultiPolygon → R) : Prop where
  nil : region [] = ⊥
  append : ∀ a b, region (a ++ b) = region a ⊔ region b
  orient : ∀ a, region (geo.orient a) = region a
  intersection : ∀ a mask, region (geo.intersection a mask) = region a ⊓ region mask
  difference : ∀ a mask, region (geo.difference a mask) = region a \ region mask
  flat : ∀ a, region (a.filter (hasArea geo)) = region a

/-- The result has the image of every point, line and polygon part, and nothing else. -/
structure Distributes {R : Type} [BooleanAlgebra R] (region : MultiPolygon → R)
    (mask : MultiPolygon) (invert : Bool) (g : Geometry) (result : Option Geometry) : Prop where
  points : result.toList.flatMap pointsOf = (pointsOf g).filter (keeps geo mask invert)
  lines : (result.toList.flatMap linesOf).flatten =
    (linesOf g).flatMap (clippedLines geo mask invert)
  polygons : region (result.toList.flatMap (polygonParts geo)) =
    if invert then region (polygonParts geo g) \ region mask
    else region (polygonParts geo g) ⊓ region mask

/-- Polygons go with no other part that an image is left of. -/
def Unmixed (mask : MultiPolygon) (invert : Bool) (g : Geometry) : Prop :=
  polygonParts geo g = [] ∨ (pointsOf g).filter (keeps geo mask invert) = [] ∧
    (linesOf g).flatMap (clippedLines geo mask invert) = []

section Results

variable {geo} (parts : List Geometry)

theorem pointsOfAll_eq : pointsOfAll parts = parts.flatMap pointsOf := by
  induction parts with
  | nil => rfl
  | cons g rest ih => rw [pointsOfAll, ih, flatMap_cons]

theorem linesOfAll_eq : linesOfAll parts = parts.flatMap linesOf := by
  induction parts with
  | nil => rfl
  | cons g rest ih => rw [linesOfAll, ih, flatMap_cons]

theorem polygonsOf_eq : polygonsOf geo parts = parts.flatMap (polygonParts geo) := by
  induction parts with
  | nil => rw [polygonsOf, flatMap_nil]
  | cons g rest ih => rw [polygonsOf, ih, flatMap_cons, polygonParts]

theorem polygonParts_collection :
    polygonParts geo (.collection parts) = parts.flatMap (polygonParts geo) := by
  rw [polygonParts, polygonalRaw, ← polygonsOf_eq]
  cases polygonsOf geo parts with
  | nil => rfl
  | cons p rest => rfl

theorem clipAll_eq (mask : MultiPolygon) (invert : Bool) (parts : List Geometry) :
    clipAll geo mask invert parts =
      parts.flatMap fun g => (clipGeometry geo mask invert g).toList := by
  induction parts with
  | nil => rw [clipAll, flatMap_nil]
  | cons g rest ih => rw [clipAll, ih, flatMap_cons]

/-- The points, the lines and the polygons of a result. -/
structure Consists (geo : Overlay) (result : Option Geometry) (points : List Coord)
    (lines : List LineString) (polygons : MultiPolygon) : Prop where
  points : result.toList.flatMap pointsOf = points
  lines : (result.toList.flatMap linesOf).flatten = lines
  polygons : result.toList.flatMap (polygonParts geo) = polygons

theorem consists_polygons (m : MultiPolygon) :
    Consists geo (fromPolygons geo m) [] [] (m.filter (hasArea geo)) := by
  rw [fromPolygons]
  split <;> rename_i h
  · exact ⟨rfl, rfl, h.symm⟩
  · exact ⟨rfl, rfl, by rw [h]; rfl⟩
  · refine ⟨rfl, rfl, ?_⟩
    show m.filter (hasArea geo) ++ [] = _
    rw [append_nil]

theorem consists_lines (m : List LineString) :
    Consists geo (fromLines m) [] (m.filter isLine) [] := by
  rw [fromLines]
  split <;> rename_i h
  · exact ⟨rfl, h.symm, rfl⟩
  · exact ⟨rfl, by rw [h]; rfl, rfl⟩
  · refine ⟨rfl, ?_, rfl⟩
    show m.filter isLine ++ [] = _
    rw [append_nil]

theorem consists_points (l : List Coord) : Consists geo (fromPoints l) l [] [] := by
  unfold fromPoints
  split
  · exact ⟨rfl, rfl, rfl⟩
  · exact ⟨rfl, rfl, rfl⟩
  · exact ⟨append_nil _, rfl, rfl⟩

theorem consists_parts : Consists geo (fromParts parts)
    (parts.flatMap pointsOf) (parts.flatMap linesOf).flatten
    (parts.flatMap (polygonParts geo)) := by
  unfold fromParts
  split
  · exact ⟨rfl, rfl, rfl⟩
  · refine ⟨?_, ?_, ?_⟩
    · rw [toList_some, flatMap_singleton, pointsOf, pointsOfAll_eq]
    · rw [toList_some, flatMap_singleton, linesOf, linesOfAll_eq]
    · rw [toList_some, flatMap_singleton, polygonParts_collection]

end Results

/-! ## Distribution -/

section Distribution

variable {geo} {R : Type} [BooleanAlgebra R] {region : MultiPolygon → R} {mask : MultiPolygon}
  {invert : Bool}

theorem Covers.overlaid (h : Covers geo region) (poly : MultiPolygon) :
    region (overlaid geo mask invert poly) =
      if invert then region poly \ region mask else region poly ⊓ region mask := by
  cases invert with
  | true => exact h.difference poly mask
  | false => exact h.intersection poly mask

variable {g : Geometry}

theorem polygonParts_of_none (h : polygonal geo g = none) : polygonParts geo g = [] := by
  rw [polygonal, map_eq_none_iff] at h
  rw [polygonParts, h]
  rfl

theorem polygonal_of_parts (h : polygonParts geo g ≠ []) :
    polygonal geo g = some (geo.orient (polygonParts geo g)) := by
  rw [polygonParts] at h ⊢
  rw [polygonal]
  cases hraw : polygonalRaw geo g with
  | none =>
    rw [hraw] at h
    exact absurd rfl h
  | some m => rfl

theorem clip_polygonal {poly : MultiPolygon} (h : polygonal geo g = some poly) :
    clipGeometry geo mask invert g = fromPolygons geo (overlaid geo mask invert poly) := by
  unfold clipGeometry
  rw [h]

theorem distributes_polygonal_iff (hcovers : Covers geo region) (h : polygonal geo g ≠ none) :
    Distributes geo region mask invert g (clipGeometry geo mask invert g) ↔
      (pointsOf g).filter (keeps geo mask invert) = [] ∧
        (linesOf g).flatMap (clippedLines geo mask invert) = [] := by
  obtain ⟨poly, hpoly⟩ := ne_none_iff_exists'.mp h
  have hraw : polygonalRaw geo g = some (polygonParts geo g) ∧
      poly = geo.orient (polygonParts geo g) := by
    rw [polygonal, map_eq_some_iff] at hpoly
    obtain ⟨m, hm, hpoly⟩ := hpoly
    rw [polygonParts, hm]
    exact ⟨rfl, hpoly.symm⟩
  have hconsists := @consists_polygons geo (overlaid geo mask invert poly)
  rw [clip_polygonal hpoly]
  constructor
  · intro hdistributes
    exact ⟨by rw [← hdistributes.points, hconsists.points],
      by rw [← hdistributes.lines, hconsists.lines]⟩
  · intro hempty
    refine ⟨?_, ?_, ?_⟩
    · rw [hconsists.points, hempty.1]
    · rw [hconsists.lines, hempty.2]
    · rw [hconsists.polygons, hcovers.flat, hcovers.overlaid, hraw.2, hcovers.orient]

variable {parts : List Geometry}

theorem region_flatMap_bot (hcovers : Covers geo region)
    (h : ∀ g ∈ parts, region ((clipGeometry geo mask invert g).toList.flatMap
      (polygonParts geo)) = ⊥) :
    region ((clipAll geo mask invert parts).flatMap (polygonParts geo)) = ⊥ := by
  induction parts with
  | nil => exact hcovers.nil
  | cons g rest ih =>
    have hfirst := h g mem_cons_self
    have hrest := ih fun g' hg' => h g' (mem_cons_of_mem g hg')
    rw [clipAll, flatMap_append, hcovers.append, hfirst, hrest, bot_sup_eq]

theorem Consists.distributes (hcovers : Covers geo region) {result : Option Geometry}
    (h : Consists geo result ((pointsOf g).filter (keeps geo mask invert))
      ((linesOf g).flatMap (clippedLines geo mask invert)) [])
    (hnone : polygonParts geo g = []) : Distributes geo region mask invert g result := by
  refine ⟨h.points, h.lines, ?_⟩
  rw [h.polygons, hnone, hcovers.nil, bot_sdiff, bot_inf_eq, ite_self]

theorem clip_lineal {lines : List LineString} (hpoly : polygonal geo g = none)
    (h : lineal g = some lines) : clipGeometry geo mask invert g =
      fromLines (geo.clip mask lines invert) := by
  unfold clipGeometry
  rw [hpoly, h]

theorem distributes_lineal (hcovers : Covers geo region) {lines : List LineString}
    (hpoly : polygonal geo g = none) (h : lineal g = some lines) (hpoints : pointsOf g = [])
    (hlines : linesOf g = [lines]) :
    Distributes geo region mask invert g (clipGeometry geo mask invert g) := by
  have hconsists := @consists_lines geo (geo.clip mask lines invert)
  rw [clip_lineal hpoly h]
  refine Consists.distributes hcovers ?_ (polygonParts_of_none hpoly)
  rw [hpoints, hlines, flatMap_cons, flatMap_nil, append_nil]
  exact hconsists

theorem clip_puntal {points : List Coord} (hpoly : polygonal geo g = none)
    (hline : lineal g = none) (h : puntal g = some points) : clipGeometry geo mask invert g =
      fromPoints (points.filter (keeps geo mask invert)) := by
  unfold clipGeometry
  rw [hpoly, hline, h]

theorem clip_collection (hpoly : polygonal geo (.collection parts) = none) :
    clipGeometry geo mask invert (.collection parts) =
      fromParts (clipAll geo mask invert parts) := by
  rw [clipGeometry, hpoly]
  rfl

theorem distributes_collection (hcovers : Covers geo region)
    (hpoly : polygonal geo (.collection parts) = none)
    (h : ∀ g ∈ parts, Distributes geo region mask invert g (clipGeometry geo mask invert g)) :
    Distributes geo region mask invert (.collection parts)
      (clipGeometry geo mask invert (.collection parts)) := by
  have hnone := polygonParts_of_none hpoly
  have hconsists := @consists_parts geo (clipAll geo mask invert parts)
  rw [clip_collection hpoly]
  refine ⟨?_, ?_, ?_⟩
  · rw [hconsists.points, clipAll_eq, flatMap_assoc, pointsOf, pointsOfAll_eq, filter_flatMap]
    exact flatMap_congr fun g hg => (h g hg).points
  · rw [hconsists.lines, clipAll_eq, flatMap_assoc, linesOf, linesOfAll_eq, flatMap_assoc,
      ← flatMap_id, flatMap_assoc]
    refine flatMap_congr fun g hg => ?_
    rw [flatMap_id]
    exact (h g hg).lines
  · rw [hconsists.polygons, hnone, hcovers.nil, bot_sdiff, bot_inf_eq, ite_self]
    refine region_flatMap_bot hcovers fun g hg => ?_
    have hpart : polygonParts geo g = [] := by
      rw [polygonParts_collection, flatMap_eq_nil_iff] at hnone
      exact hnone g hg
    rw [(h g hg).polygons, hpart, hcovers.nil, bot_sdiff, bot_inf_eq, ite_self]

theorem polygonal_none_of_parts
    (h : polygonParts geo (.collection parts) = []) : polygonal geo (.collection parts) = none := by
  rw [polygonal, map_eq_none_iff, polygonalRaw]
  rw [polygonParts, polygonalRaw] at h
  cases hparts : polygonsOf geo parts with
  | nil => rfl
  | cons p rest =>
    rw [hparts] at h
    cases h

mutual

theorem distributes_of_no_polygons (hcovers : Covers geo region) : ∀ g : Geometry,
    polygonParts geo g = [] → Distributes geo region mask invert g (clipGeometry geo mask invert g)
  | .point p, h => by
    rw [clip_puntal rfl rfl rfl]
    exact (consists_points _).distributes hcovers h
  | .multiPoint m, h => by
    rw [clip_puntal rfl rfl rfl]
    exact (consists_points _).distributes hcovers h
  | .line start stop, _ => distributes_lineal hcovers rfl rfl rfl rfl
  | .lineString l, _ => distributes_lineal hcovers rfl rfl rfl rfl
  | .multiLineString m, _ => distributes_lineal hcovers rfl rfl rfl rfl
  | .polygon p, h => (by cases h)
  | .rect r, h => (by cases h)
  | .triangle t, h => (by cases h)
  | .multiPolygon m, _ => (distributes_polygonal_iff hcovers (by simp [polygonal, polygonalRaw])).mpr
      ⟨rfl, rfl⟩
  | .collection parts, h => by
    refine distributes_collection hcovers (polygonal_none_of_parts h) ?_
    rw [polygonParts_collection, flatMap_eq_nil_iff] at h
    exact distributes_all hcovers parts h

theorem distributes_all (hcovers : Covers geo region) : ∀ parts : List Geometry,
    (∀ g ∈ parts, polygonParts geo g = []) →
    ∀ g ∈ parts, Distributes geo region mask invert g (clipGeometry geo mask invert g)
  | [], _, _, hg => (by cases hg)
  | part :: rest, h, g, hg => by
    rcases mem_cons.mp hg with heq | hg
    · rw [heq]
      exact distributes_of_no_polygons hcovers part (h part mem_cons_self)
    · exact distributes_all hcovers rest (fun g hg => h g (mem_cons_of_mem part hg)) g hg

end

/-- The points that are clipped and those that are erased are the points. -/
def SplitsPoints (geo : Overlay) (mask : MultiPolygon) (g : Geometry) : Prop :=
  ((clipGeometry geo mask false g).toList.flatMap pointsOf ++
    (clipGeometry geo mask true g).toList.flatMap pointsOf).Perm (pointsOf g)

theorem keeps_not (mask : MultiPolygon) (p : Coord) :
    keeps geo mask true p = !keeps geo mask false p := by
  rw [keeps, keeps]
  cases geo.intersects mask p with
  | true => rfl
  | false => rfl

theorem splitsPoints_iff (hcovers : Covers geo region) (g : Geometry) :
    SplitsPoints geo mask g ↔ polygonParts geo g = [] ∨ pointsOf g = [] := by
  have hsplit : ((pointsOf g).filter (keeps geo mask false) ++
      (pointsOf g).filter (keeps geo mask true)).Perm (pointsOf g) := by
    have hnot : keeps geo mask true = fun p => !keeps geo mask false p :=
      funext fun p => keeps_not mask p
    rw [hnot]
    exact filter_append_perm _ _
  by_cases hparts : polygonParts geo g = []
  · have hpoints : ∀ invert, (clipGeometry geo mask invert g).toList.flatMap pointsOf =
        (pointsOf g).filter (keeps geo mask invert) := fun invert =>
      (distributes_of_no_polygons hcovers g hparts).points
    rw [SplitsPoints, hpoints, hpoints]
    exact iff_of_true hsplit (.inl hparts)
  · have hpoints : ∀ invert, (clipGeometry geo mask invert g).toList.flatMap pointsOf = [] := by
      intro invert
      rw [clip_polygonal (polygonal_of_parts hparts)]
      exact (consists_polygons _).points
    rw [SplitsPoints, hpoints, hpoints]
    constructor
    · exact fun hperm => .inr hperm.nil_eq.symm
    · intro h
      rw [h.resolve_left hparts]
      exact List.Perm.refl _

end Distribution

/-- Clipping keeps every part, and splits the points, unless polygons go with other parts. -/
theorem clipGeometry_distributes {R : Type} [BooleanAlgebra R] {region : MultiPolygon → R}
    (hcovers : Covers geo region) (mask : MultiPolygon) (g : Geometry) :
    (∀ invert, Distributes geo region mask invert g (clipGeometry geo mask invert g) ↔
      Unmixed geo mask invert g) ∧
    (SplitsPoints geo mask g ↔ polygonParts geo g = [] ∨ pointsOf g = []) := by
  refine ⟨fun invert => ?_, splitsPoints_iff hcovers g⟩
  by_cases hparts : polygonParts geo g = []
  · exact iff_of_true (distributes_of_no_polygons hcovers g hparts) (.inl hparts)
  · have hpoly : polygonal geo g ≠ none := by
      rw [polygonal_of_parts hparts]
      exact some_ne_none _
    rw [distributes_polygonal_iff hcovers hpoly, Unmixed, or_iff_right hparts]

/-! ## A town and its park -/

namespace Town

def at_ (x y : Nat) : Coord := ⟨.ofNat x, .ofNat y⟩

def lot (x y size : Nat) : Polygon :=
  .new [at_ x y, at_ (x + size) y, at_ (x + size) (y + size), at_ x (y + size), at_ x y] []

/-- Whether a point lies in the box of the corners of a lot. -/
def inLot (c : Coord) (p : Polygon) : Bool :=
  p.exterior.coords.any (fun a => F64.le a.x c.x && F64.le a.y c.y) &&
    p.exterior.coords.any fun a => F64.le c.x a.x && F64.le c.y a.y

def centre : Coord := at_ 1 1

def covered (m : MultiPolygon) : Bool := m.any (inLot centre)

/-- The overlay of lots, as it is seen from the centre. -/
def overlay : Overlay where
  outlines := ⟨fun _ => lot 0 0 1, fun _ => lot 0 0 1⟩
  orient m := m
  intersection a mask := if covered mask then a else []
  difference a mask := if covered mask then [] else a
  clip mask lines invert := if covered mask != invert then lines else []
  intersects mask c := mask.any (inLot c)
  unsignedArea _ := .ofNat 1

theorem hasArea_overlay (p : Polygon) : hasArea overlay p = true := by
  show F64.lt .zero (.ofNat 1) = true
  decide +kernel

theorem intersects_centre (m : MultiPolygon) : overlay.intersects m centre = covered m := rfl

theorem overlaid_overlay (m a : MultiPolygon) (invert : Bool) : overlaid overlay m invert a =
    if covered m = invert then [] else a := by
  cases hm : covered m with
  | true =>
    cases invert with
    | true => exact if_pos hm
    | false => exact if_pos hm
  | false =>
    have hm' : ¬ covered m = true := by simp [hm]
    cases invert with
    | true => exact if_neg hm'
    | false => exact if_neg hm'

theorem covers : Covers overlay fun m => covered m = true where
  nil := by simp [covered]
  append a b := by simp [covered]
  orient _ := rfl
  intersection a mask := by
    show (covered (if covered mask then a else []) = true) = (covered a = true ∧ covered mask = true)
    cases hmask : covered mask with
    | true => simp
    | false => simp [covered]
  difference a mask := by
    show (covered (if covered mask then [] else a) = true) =
      (covered a = true ∧ ¬ covered mask = true)
    cases hmask : covered mask with
    | true => simp [covered]
    | false => simp
  flat a := by
    have harea : hasArea overlay = fun _ => true := funext hasArea_overlay
    rw [harea, filter_true]

def trees : Geometry := .collection [.point (at_ 1 1), .collection [.point (at_ 9 9)]]

/-- A collection of a polygon and a point within it. -/
def park : Geometry := .collection [.polygon (lot 0 0 4), .point (at_ 1 1)]

def mask : MultiPolygon := [lot 0 0 5]

end Town

theorem clipGeometry_distributes_trees :
    Distributes Town.overlay (fun m => Town.covered m = true) Town.mask false Town.trees
      (clipGeometry Town.overlay Town.mask false Town.trees) ∧
    SplitsPoints Town.overlay Town.mask Town.trees := by
  obtain ⟨hclip, hsplit⟩ := clipGeometry_distributes Town.overlay Town.covers Town.mask Town.trees
  exact ⟨(hclip false).mpr (.inl rfl), hsplit.mpr (.inl rfl)⟩

namespace Town

theorem covered_mask : covered mask = true := by decide +kernel

theorem keeps_centre : keeps overlay mask false centre = true := by
  rw [keeps, intersects_centre, covered_mask]
  rfl

theorem polygonal_park : polygonal overlay park = some [lot 0 0 4] := rfl

theorem clip_park : clipGeometry overlay mask false park = some (.polygon (lot 0 0 4)) := by
  rw [clip_polygonal polygonal_park, overlaid_overlay, covered_mask, if_neg Bool.noConfusion,
    fromPolygons, filter_cons_of_pos (hasArea_overlay _)]
  rfl

theorem erase_park : clipGeometry overlay mask true park = none := by
  rw [clip_polygonal polygonal_park, overlaid_overlay, covered_mask, if_pos rfl]
  rfl

end Town

/-- The point of a park is neither in its clipped image nor in its erased one. -/
theorem clipGeometry_loses_point : pointsOf Town.park = [Town.centre] ∧
    keeps Town.overlay Town.mask false Town.centre = true ∧
    clipGeometry Town.overlay Town.mask false Town.park = some (.polygon (Town.lot 0 0 4)) ∧
    clipGeometry Town.overlay Town.mask true Town.park = none ∧
    ¬ Distributes Town.overlay (fun m => Town.covered m = true) Town.mask false Town.park
      (clipGeometry Town.overlay Town.mask false Town.park) ∧
    ¬ SplitsPoints Town.overlay Town.mask Town.park := by
  refine ⟨rfl, Town.keeps_centre, Town.clip_park, Town.erase_park, ?_, ?_⟩
  · intro h
    have hpoints := h.points
    rw [Town.clip_park, show pointsOf Town.park = [Town.centre] from rfl,
      filter_cons_of_pos Town.keeps_centre] at hpoints
    cases hpoints
  · intro h
    rw [SplitsPoints, Town.clip_park, Town.erase_park] at h
    have hlength := h.length_eq
    cases hlength

end Clip
end GeneGIS.Toolkit
