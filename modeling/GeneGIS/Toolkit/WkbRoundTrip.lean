/-
The reader takes exactly the bytes that were written and gives the normal geometry with every ring
closed again.
-/
import GeneGIS.Toolkit.Wkb

namespace GeneGIS.Toolkit

open Fallible List Bytes

def Polygon.Counted (polygon : Polygon) : Prop :=
  1 + polygon.interiors.length < 2 ^ 32 ∧ polygon.exterior.coords.length < 2 ^ 32 ∧
    ∀ r ∈ polygon.interiors, r.coords.length < 2 ^ 32

namespace Wkb

variable (outlines : Outlines)

mutual
def Counted : Geometry → Prop
  | .point _ | .line _ _ => True
  | .lineString l => l.length < 2 ^ 32
  | .polygon p => p.Counted
  | .rect r => (outlines.ofRect r).Counted
  | .triangle t => (outlines.ofTriangle t).Counted
  | .multiPoint points => points.length < 2 ^ 32
  | .multiLineString lines => lines.length < 2 ^ 32 ∧ ∀ l ∈ lines, l.length < 2 ^ 32
  | .multiPolygon polygons => polygons.length < 2 ^ 32 ∧ ∀ p ∈ polygons, p.Counted
  | .collection parts => parts.length < 2 ^ 32 ∧ CountedAll parts

def CountedAll : List Geometry → Prop
  | [] => True
  | part :: rest => Counted part ∧ CountedAll rest
end

variable {outlines : Outlines} {total depth : Nat}

@[simp] theorem length_coord (c : Coord) : (coord c).length = 16 := by
  rw [coord, length_append, float, float, length_ofNat, length_ofNat]

theorem length_ring (line : LineString) : (ring line).length = 4 + 16 * line.length := by
  have hcoords : (line.flatMap coord).length = 16 * line.length := by
    induction line with
    | nil => rfl
    | cons c rest ih =>
      rw [flatMap_cons, length_append, length_coord, ih, length_cons]
      omega
  rw [ring, length_append, count, length_ofNat, hcoords]

theorem reads_take {n : Nat} {bytes : Bytes} (h : bytes.length = n) :
    ReadsAll (take n) bytes bytes := by
  intro rest _
  rw [take, if_pos (by rw [length_append]; omega), take_left' h, drop_left' h]

theorem reads_u32 {n : Nat} (h : n < 2 ^ 32) : ReadsAll (u32 true) (count n) n := by
  have hnumber : number true (count n) = n := toNat_ofNat_of_lt h
  have hread : ReadsAll (u32 true) (count n) (number true (count n)) :=
    Reads.map (reads_take (length_ofNat 4 n))
  rw [hnumber] at hread
  exact hread

theorem reads_f64 (x : F64) : ReadsAll (f64 true) (float x) x := by
  have hnumber : number true (float x) = x.bits.toNat := toNat_ofNat_of_lt x.bits.isLt
  have hvalue : (⟨BitVec.ofNat 64 (number true (float x))⟩ : F64) = x := by
    rw [hnumber, BitVec.ofNat_toNat, BitVec.setWidth_eq]
  have hread : ReadsAll (f64 true) (float x) ⟨BitVec.ofNat 64 (number true (float x))⟩ :=
    Reads.map (reads_take (length_ofNat 8 _))
  rw [hvalue] at hread
  exact hread

theorem reads_coord (c : Coord) : ReadsAll (readCoord true 2) (coord c) c := by
  have hy : ReadsAll (do
      let y ← f64 true
      let _ ← repeated (f64 true) (2 - 2)
      return ({ x := c.x, y := y } : Coord)) (float c.y ++ []) c :=
    (reads_f64 c.y).then_ (.pure _ _)
  rw [append_nil] at hy
  exact (reads_f64 c.x).then_ hy

theorem reads_coords (line : LineString) :
    ReadsAll (repeated (readCoord true 2) line.length) (line.flatMap coord) line := by
  have hread := Reads.repeated fun c (_ : c ∈ line) => reads_coord c
  rw [map_id'] at hread
  exact hread

theorem reads_line {line : LineString} (hcount : line.length < 2 ^ 32)
    (htotal : (ring line).length ≤ total) :
    ReadsAll (readLine total true 2) (ring line) line := by
  rw [length_ring] at htotal
  refine (reads_u32 hcount).then_ (.check ?_ (reads_coords line))
  rw [decide_eq_true_eq]
  omega

theorem length_polygonBody (p : Polygon) : (polygonBody p).length =
    4 + ((ring p.exterior.coords).length +
      (p.interiors.flatMap fun r => ring r.coords).length) := by
  rw [polygonBody, length_append, length_append, count, length_ofNat]

variable {α : Type}

theorem length_le_flatMap (write : α → Bytes) {l : List α} {a : α} (h : a ∈ l) :
    (write a).length ≤ (l.flatMap write).length := by
  induction l with
  | nil => cases h
  | cons b rest ih =>
    rw [flatMap_cons, length_append]
    rcases mem_cons.mp h with h | h
    · rw [h]
      omega
    · have hrest := ih h
      omega

theorem reads_polygon {p : Polygon} (hcount : p.Counted) (htotal : (polygonBody p).length ≤ total) :
    ReadsAll (readPolygon total true 2) (polygonBody p) p.again := by
  obtain ⟨hrings, hexterior, hinteriors⟩ := hcount
  rw [length_polygonBody] at htotal
  refine (reads_u32 hrings).then_ ?_
  rw [if_neg (by omega), Nat.add_sub_cancel_left]
  refine (reads_line hexterior (by omega)).then_ ?_
  have hread : ReadsAll (repeated (readLine total true 2) p.interiors.length)
      (p.interiors.flatMap fun r => ring r.coords) (p.interiors.map Ring.coords) := by
    refine Reads.repeated fun r hr => reads_line (hinteriors r hr) ?_
    have hlength := length_le_flatMap (fun r => ring r.coords) hr
    omega
  rw [← Polygon.new_coords]
  exact hread.map

/-! ## Geometries -/

theorem reads_header {kind : Nat} {bytes : Bytes} {g : Geometry} (hkind : kind < 8)
    (h : ReadsAll (body total (geometryTo total depth) true 2 kind) bytes g) :
    ReadsAll (geometryTo total (depth + 1)) (header kind ++ bytes) g := by
  have hcode : kind.testBit 29 = false ∧ dimensions kind = 2 ∧ kind % 2 ^ 28 % 1000 = kind := by
    have hall : ∀ kind, kind < 8 → kind.testBit 29 = false ∧ dimensions kind = 2 ∧
        kind % 2 ^ 28 % 1000 = kind := by decide +kernel
    exact hall kind hkind
  have hfirst : ReadsAll (take 1) [1] [1] := reads_take rfl
  have hbody : ReadsAll (do
      let raw ← u32 true
      if raw.testBit 29 then
        let _ ← u32 true
        body total (geometryTo total depth) true (dimensions raw) (raw % 2 ^ 28 % 1000)
      else
        body total (geometryTo total depth) true (dimensions raw) (raw % 2 ^ 28 % 1000))
      (count kind ++ bytes) g := by
    refine (reads_u32 (by omega)).then_ ?_
    rw [if_neg (by rw [hcode.1]; exact Bool.false_ne_true), hcode.2.1, hcode.2.2]
    exact h
  have hread := hfirst.then_ (f := fun order => do
      let little ← Fallible.lift (byteOrder (Bytes.toNat order))
      let raw ← u32 little
      if raw.testBit 29 then
        let _ ← u32 little
        body total (geometryTo total depth) little (dimensions raw) (raw % 2 ^ 28 % 1000)
      else
        body total (geometryTo total depth) little (dimensions raw) (raw % 2 ^ 28 % 1000)) hbody
  exact hread

theorem reads_child {kind : Geometry → Option α} {bytes : Bytes} {g : Geometry} {a : α}
    (h : ReadsAll (geometryTo total depth) bytes g) (hkind : kind g = some a) :
    ReadsAll (child (geometryTo total depth) kind) bytes a := by
  intro rest hrest
  rw [child, bind_apply, h rest hrest]
  dsimp only
  rw [hkind]
  rfl

theorem reads_point (p : Coord) :
    ReadsAll (geometryTo total (depth + 1)) (header 1 ++ coord p) (.point p) :=
  reads_header (by omega) (reads_coord p).map

theorem length_header (kind : Nat) : (header kind).length = 5 := by
  rw [header, length_cons, length_ofNat]

theorem reads_lineString {l : LineString} (hcount : l.length < 2 ^ 32)
    (htotal : (ring l).length ≤ total) :
    ReadsAll (geometryTo total (depth + 1)) (header 2 ++ ring l) (.lineString l) :=
  reads_header (by omega) (reads_line hcount htotal).map

theorem reads_polygonGeometry {p : Polygon} (hcount : p.Counted)
    (htotal : (polygonBody p).length ≤ total) :
    ReadsAll (geometryTo total (depth + 1)) (header 3 ++ polygonBody p) (.polygon p.again) :=
  reads_header (by omega) (reads_polygon hcount htotal).map

/-- The readers of the three kinds with many members differ in the reader of a member. -/
theorem reads_many {β : Type} (member : Geometry → Option β) (many : List β → Geometry)
    {kind : Nat} {write : α → Bytes} {again : α → β} {l : List α} (hkind : kind < 8)
    (hbody : ∀ geometry : Reader Geometry, body total geometry true 2 kind = (do
      let n ← u32 true
      let members ← repeated (child geometry member) n
      return many members))
    (hcount : l.length < 2 ^ 32)
    (hread : ∀ a ∈ l, ∀ inner, (write a).length ≤ total →
      ReadsAll (child (geometryTo total (inner + 1)) member) (write a) (again a))
    (hdepth : (header kind ++ (count l.length ++ l.flatMap write)).length ≤ depth + 1)
    (htotal : (header kind ++ (count l.length ++ l.flatMap write)).length ≤ total) :
    ReadsAll (geometryTo total (depth + 1)) (header kind ++ (count l.length ++ l.flatMap write))
      (many (l.map again)) := by
  rw [length_append, length_append, length_header, count, length_ofNat] at hdepth htotal
  obtain ⟨inner, rfl⟩ : ∃ inner, depth = inner + 1 := ⟨depth - 1, by omega⟩
  have hmembers : ReadsAll (repeated (child (geometryTo total (inner + 1)) member) l.length)
      (l.flatMap write) (l.map again) := by
    refine Reads.repeated fun a ha => hread a ha inner ?_
    have hlength := length_le_flatMap write ha
    omega
  refine reads_header hkind ?_
  rw [hbody]
  exact (reads_u32 hcount).then_ hmembers.map

theorem length_pos (g : Geometry) : 5 ≤ (writeGeometry outlines g).length := by
  cases g <;> rw [writeGeometry, length_append, length_header] <;> omega

mutual
theorem reads_geometry : ∀ (g : Geometry) (depth : Nat), Counted outlines g →
    (writeGeometry outlines g).length ≤ depth → (writeGeometry outlines g).length ≤ total →
      ReadsAll (geometryTo total depth) (writeGeometry outlines g) (g.normalise outlines).again
  | g, 0, _, hdepth, _ => by
    have hpos := @length_pos outlines g
    omega
  | .point p, depth + 1, _, _, _ => by
    rw [writeGeometry]
    exact reads_point p
  | .lineString l, depth + 1, hcount, _, htotal => by
    rw [writeGeometry] at htotal ⊢
    rw [length_append] at htotal
    exact reads_lineString hcount (by omega)
  | .line start stop, depth + 1, _, _, htotal => by
    rw [writeGeometry] at htotal ⊢
    have hring : count 2 ++ (coord start ++ coord stop) = ring [start, stop] := by
      simp [ring]
    rw [hring, length_append] at htotal
    rw [hring]
    exact reads_lineString (by simp) (by omega)
  | .polygon p, depth + 1, hcount, _, htotal => by
    rw [writeGeometry] at htotal ⊢
    rw [length_append] at htotal
    exact reads_polygonGeometry hcount (by omega)
  | .rect r, depth + 1, hcount, _, htotal => by
    rw [writeGeometry] at htotal ⊢
    rw [length_append] at htotal
    exact reads_polygonGeometry hcount (by omega)
  | .triangle t, depth + 1, hcount, _, htotal => by
    rw [writeGeometry] at htotal ⊢
    rw [length_append] at htotal
    exact reads_polygonGeometry hcount (by omega)
  | .multiPoint points, depth + 1, hcount, hdepth, htotal => by
    rw [writeGeometry] at hdepth htotal ⊢
    have hread := reads_many asPoint .multiPoint (by omega) (fun _ => rfl) hcount
      (fun p _ inner _ => reads_child (reads_point p) rfl) hdepth htotal
    rw [map_id'] at hread
    exact hread
  | .multiLineString lines, depth + 1, hcount, hdepth, htotal => by
    rw [writeGeometry] at hdepth htotal ⊢
    have hread := reads_many asLine .multiLineString (by omega) (fun _ => rfl) hcount.1
      (fun l hl inner hlength => reads_child (reads_lineString (hcount.2 l hl)
        (by rw [length_append] at hlength; omega)) rfl) hdepth htotal
    rw [map_id'] at hread
    exact hread
  | .multiPolygon polygons, depth + 1, hcount, hdepth, htotal => by
    rw [writeGeometry] at hdepth htotal ⊢
    exact reads_many asPolygon .multiPolygon (by omega) (fun _ => rfl) hcount.1
      (fun p hp inner hlength => reads_child (reads_polygonGeometry (hcount.2 p hp)
        (by rw [length_append] at hlength; omega)) rfl) hdepth htotal
  | .collection parts, depth + 1, hcount, hdepth, htotal => by
    rw [writeGeometry] at hdepth htotal ⊢
    rw [length_append, length_append, length_header] at hdepth htotal
    have hread := reads_parts parts depth hcount.2 (by omega) (by omega)
    exact reads_header (by omega) ((reads_u32 hcount.1).then_ hread.map)

theorem reads_parts : ∀ (parts : List Geometry) (depth : Nat), CountedAll outlines parts →
    (writeParts outlines parts).length ≤ depth → (writeParts outlines parts).length ≤ total →
      ReadsAll (repeated (geometryTo total depth) parts.length) (writeParts outlines parts)
        (Geometry.againAll (Geometry.normaliseAll outlines parts))
  | [], _, _, _, _ => .pure _ _
  | part :: rest, depth, hcount, hdepth, htotal => by
    rw [writeParts, length_append] at hdepth htotal
    have hfirst := reads_geometry part depth hcount.1 (by omega) (by omega)
    have hrest := reads_parts rest depth hcount.2 (by omega) (by omega)
    exact hfirst.then_ hrest.map
end

/-! ## Counts -/

theorem length_members {f : α → Bytes} {l : List α} (h : ∀ a ∈ l, 0 < (f a).length) :
    l.length ≤ (l.flatMap f).length := by
  induction l with
  | nil => exact Nat.le_refl _
  | cons a rest ih =>
    rw [forall_mem_cons] at h
    have hrest := ih h.2
    rw [flatMap_cons, length_append, length_cons]
    omega

theorem polygon_counted {p : Polygon} (h : (polygonBody p).length < 2 ^ 32) : p.Counted := by
  rw [polygonBody, length_append, length_append, count, length_ofNat, length_ring] at h
  have hpos : ∀ r ∈ p.interiors, 0 < (ring r.coords).length := by
    intro r _
    rw [length_ring]
    omega
  have hmembers := length_members hpos
  refine ⟨by omega, by omega, fun r hr => ?_⟩
  have hmember := length_le_flatMap (fun r : Ring => ring r.coords) hr
  rw [length_ring] at hmember
  omega

mutual
theorem counted_of_length : ∀ g : Geometry, (writeGeometry outlines g).length < 2 ^ 32 →
    Counted outlines g
  | .point _, _ => trivial
  | .line _ _, _ => trivial
  | .lineString l, h => by
    rw [writeGeometry, length_append, length_header, length_ring] at h
    rw [Counted]
    omega
  | .polygon p, h => by
    rw [writeGeometry, length_append, length_header] at h
    exact polygon_counted (by omega)
  | .rect r, h => by
    rw [writeGeometry, length_append, length_header] at h
    exact polygon_counted (by omega)
  | .triangle t, h => by
    rw [writeGeometry, length_append, length_header] at h
    exact polygon_counted (by omega)
  | .multiPoint points, h => by
    rw [writeGeometry, length_append, length_append, length_header] at h
    have hmembers := @length_members _ (fun p => header 1 ++ coord p) points
      fun p _ => by simp [header]
    rw [Counted]
    omega
  | .multiLineString lines, h => by
    rw [writeGeometry, length_append, length_append, length_header] at h
    have hmembers := @length_members _ (fun l => header 2 ++ ring l) lines
      fun l _ => by simp [header]
    refine ⟨by omega, fun l hl => ?_⟩
    have hmember := length_le_flatMap (fun l => header 2 ++ ring l) hl
    rw [length_append, length_ring] at hmember
    omega
  | .multiPolygon polygons, h => by
    rw [writeGeometry, length_append, length_append, length_header] at h
    have hmembers := @length_members _ (fun p => header 3 ++ polygonBody p) polygons
      fun p _ => by simp [header]
    refine ⟨by omega, fun p hp => polygon_counted ?_⟩
    have hmember := length_le_flatMap (fun p => header 3 ++ polygonBody p) hp
    rw [length_append] at hmember
    omega
  | .collection parts, h => by
    rw [writeGeometry, length_append, length_append, length_header] at h
    have hparts := countedAll_of_length parts (by omega)
    exact ⟨by omega, hparts.1⟩

theorem countedAll_of_length : ∀ parts : List Geometry,
    (writeParts outlines parts).length < 2 ^ 32 →
      CountedAll outlines parts ∧ parts.length ≤ (writeParts outlines parts).length
  | [], _ => ⟨trivial, Nat.le_refl _⟩
  | part :: rest, h => by
    rw [writeParts, length_append] at h ⊢
    have hpos := @length_pos outlines part
    have hrest := countedAll_of_length rest (by omega)
    rw [length_cons]
    exact ⟨⟨counted_of_length part (by omega), hrest.1⟩, by omega⟩
end

theorem geometry_write {g : Geometry} (h : Counted outlines g) (suffix : Bytes) :
    geometry (writeGeometry outlines g ++ suffix) = .ok (g.normalise outlines).again suffix := by
  have hlength : (writeGeometry outlines g).length ≤
      (writeGeometry outlines g ++ suffix).length := by
    rw [length_append]
    omega
  exact reads_geometry g _ h hlength hlength suffix trivial

theorem writeGeometry_prefixFree {g g' : Geometry} {s t : Bytes} (hg : Counted outlines g)
    (hg' : Counted outlines g')
    (h : writeGeometry outlines g ++ s = writeGeometry outlines g' ++ t) :
    g.normalise outlines = g'.normalise outlines ∧ s = t := by
  have hread := geometry_write hg s
  rw [h, geometry_write hg' t, EStateM.Result.ok.injEq] at hread
  exact ⟨(Geometry.again_inj hread.1).symm, hread.2.symm⟩

/-- A ring that starts at a NaN is closed once more when it is read; every other geometry comes back
as it is. -/
theorem wkb_faithful (outlines : Outlines) (g : Geometry) (h : Counted outlines g) :
    (∀ suffix, geometry (writeGeometry outlines g ++ suffix) =
      .ok (g.normalise outlines).again suffix) ∧
    ((g.normalise outlines).again = g.normalise outlines ↔
      (g.normalise outlines).startsAtNumbers = true) ∧
    ∀ g' s t, Counted outlines g' → writeGeometry outlines g ++ s = writeGeometry outlines g' ++ t →
        g.normalise outlines = g'.normalise outlines ∧ s = t :=
  ⟨geometry_write h, Geometry.again_eq_self_iff, fun _ _ _ h' => writeGeometry_prefixFree h h'⟩

namespace Sample

def corners : Outlines where
  ofRect r := .new [r.min, ⟨r.min.x, r.max.y⟩, r.max, ⟨r.max.x, r.min.y⟩] []
  ofTriangle t := .new [t.a, t.b, t.c] []

def one : F64 := .ofNat 1

def survey : Geometry :=
  .collection [.line ⟨.zero, .zero⟩ ⟨one, .zero⟩, .rect ⟨⟨.zero, .zero⟩, ⟨one, one⟩⟩]

theorem survey_read : Counted corners survey ∧
    geometry (writeGeometry corners survey ++ [7]) = .ok (survey.normalise corners) [7] := by
  have hcount : Counted corners survey := by
    refine ⟨by decide, trivial, ?_, trivial⟩
    refine ⟨by decide, by decide +kernel, fun r hr => by cases hr⟩
  have hfaithful := wkb_faithful corners survey hcount
  refine ⟨hcount, ?_⟩
  rw [hfaithful.1, hfaithful.2.1.mpr (by decide +kernel)]

/-- A triangle whose first corner has no position. -/
def lost : Geometry := .polygon (.new [⟨.nan, .zero⟩, ⟨one, .zero⟩, ⟨one, one⟩] [])

theorem lost_closed_again : ¬ ∀ (g : Geometry) (suffix : Bytes), Counted corners g →
    geometry (writeGeometry corners g ++ suffix) = .ok (g.normalise corners) suffix := by
  intro h
  have hcount : Counted corners lost := ⟨by decide, by decide +kernel, fun r hr => by cases hr⟩
  have hread := h lost [] hcount
  rw [geometry_write hcount, EStateM.Result.ok.injEq] at hread
  have hstart := Geometry.again_eq_self_iff.mp hread.1
  have hnan : (lost.normalise corners).startsAtNumbers = false := by rfl
  rw [hnan] at hstart
  exact Bool.false_ne_true hstart

end Sample
end Wkb
end GeneGIS.Toolkit
