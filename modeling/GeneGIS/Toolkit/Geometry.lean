/-
A ring that does not end where it starts gets its first coordinate once more.  Coordinates are
compared as numbers, so a ring that starts at a NaN is never closed.
-/
import GeneGIS.Data.Binary64

namespace GeneGIS.Toolkit

open List

structure Coord where
  x : F64
  y : F64

/-- `==`, which compares numbers and not their bits. -/
def Coord.eq (a b : Coord) : Bool := F64.eq a.x b.x && F64.eq a.y b.y

def Coord.isNan (c : Coord) : Bool := c.x.isNan || c.y.isNan

abbrev LineString := List Coord

namespace LineString

def isClosed (line : LineString) : Bool :=
  match line.head?, line.getLast? with
  | some first, some last => Coord.eq first last
  | _, _ => true

def close (line : LineString) : LineString :=
  if isClosed line then line else line ++ line.head?.toList

end LineString

/-- What closing a line gives. -/
structure Ring where
  coords : LineString
  closed : ∃ line, LineString.close line = coords

namespace Ring

def ofLine (line : LineString) : Ring := ⟨LineString.close line, line, rfl⟩

def again (ring : Ring) : Ring := ofLine ring.coords

@[ext] theorem ext {a b : Ring} (h : a.coords = b.coords) : a = b := by
  cases a
  cases b
  cases h
  rfl

end Ring

structure Polygon where
  exterior : Ring
  interiors : List Ring

def Polygon.new (exterior : LineString) (interiors : List LineString) : Polygon where
  exterior := .ofLine exterior
  interiors := interiors.map .ofLine

structure Rect where
  min : Coord
  max : Coord

structure Triangle where
  a : Coord
  b : Coord
  c : Coord

inductive Geometry where
  | point (p : Coord)
  | line (start stop : Coord)
  | lineString (line : LineString)
  | polygon (polygon : Polygon)
  | multiPoint (points : List Coord)
  | multiLineString (lines : List LineString)
  | multiPolygon (polygons : List Polygon)
  | collection (parts : List Geometry)
  | rect (rect : Rect)
  | triangle (triangle : Triangle)

/-- `Rect::to_polygon` and `Triangle::to_polygon`. -/
structure Outlines where
  ofRect : Rect → Polygon
  ofTriangle : Triangle → Polygon

/-! ## Closing -/

theorem Coord.eq_self (c : Coord) : Coord.eq c c = !c.isNan := by
  simp [Coord.eq, Coord.isNan, F64.eq]

namespace LineString

theorem isClosed_append {line : LineString} {first : Coord} (h : line.head? = some first)
    (hnan : first.isNan = false) : isClosed (line ++ [first]) = true := by
  rw [isClosed, List.getLast?_concat, List.head?_append, h]
  show Coord.eq first first = true
  rw [Coord.eq_self, hnan]
  rfl

theorem close_close {line : LineString} (h : ∀ c, line.head? = some c → c.isNan = false) :
    close (close line) = close line := by
  by_cases hclosed : isClosed line = true
  · have hclose : close line = line := if_pos hclosed
    rw [hclose, hclose]
  · have hclose : close line = line ++ line.head?.toList := if_neg hclosed
    cases hhead : line.head? with
    | none =>
      rw [head?_eq_none_iff] at hhead
      rw [hhead]
      rfl
    | some first =>
      rw [hclose, hhead, Option.toList_some, close, if_pos]
      exact isClosed_append hhead (h first hhead)

theorem head?_close (line : LineString) : (close line).head? = line.head? := by
  by_cases hclosed : isClosed line = true
  · rw [close, if_pos hclosed]
  · rw [close, if_neg hclosed, List.head?_append]
    cases line.head? <;> rfl

end LineString

namespace Ring

/-- The ring does not start at a NaN. -/
def startsAtNumber (ring : Ring) : Bool := ring.coords.head?.all fun c => !c.isNan

theorem again_eq_self {ring : Ring} (h : ring.startsAtNumber = true) : ring.again = ring := by
  obtain ⟨line, hline⟩ := ring.closed
  have hnumber : ∀ c, line.head? = some c → c.isNan = false := by
    intro c hc
    rw [startsAtNumber, ← hline, LineString.head?_close, hc] at h
    simpa using h
  refine Ring.ext ?_
  show LineString.close ring.coords = ring.coords
  rw [← hline, LineString.close_close hnumber]

theorem coords_again (ring : Ring) : ring.again.coords =
    if ring.startsAtNumber then ring.coords else ring.coords ++ ring.coords.head?.toList := by
  by_cases h : ring.startsAtNumber = true
  · rw [if_pos h, again_eq_self h]
  · rw [if_neg h]
    rw [startsAtNumber] at h
    cases hhead : ring.coords.head? with
    | none =>
      rw [hhead] at h
      exact absurd rfl h
    | some first =>
      rw [hhead, Option.all_some, Bool.not_eq_true', Bool.not_eq_false] at h
      have hopen : LineString.isClosed ring.coords = false := by
        rw [LineString.isClosed, hhead]
        cases hlast : ring.coords.getLast? with
        | none =>
          rw [List.getLast?_eq_none_iff.mp hlast] at hhead
          cases hhead
        | some last =>
          show Coord.eq first last = false
          rw [Coord.isNan, Bool.or_eq_true] at h
          rw [Coord.eq, F64.eq, F64.eq]
          rcases h with h | h
          · rw [h]
            rfl
          · rw [h, Bool.not_true, Bool.false_and, Bool.false_and, Bool.and_false]
      show LineString.close ring.coords = _
      rw [LineString.close, if_neg (by rw [hopen]; exact Bool.false_ne_true), hhead]

theorem again_eq_self_iff {ring : Ring} : ring.again = ring ↔ ring.startsAtNumber = true := by
  refine ⟨fun h => ?_, again_eq_self⟩
  have hcoords : ring.again.coords = ring.coords := by rw [h]
  rw [coords_again] at hcoords
  by_cases hstart : ring.startsAtNumber = true
  · exact hstart
  · rw [if_neg hstart, List.append_right_eq_self] at hcoords
    rw [startsAtNumber, Option.toList_eq_nil_iff.mp hcoords]
    rfl

theorem again_inj {a b : Ring} (h : a.again = b.again) : a = b := by
  have hcoords : a.again.coords = b.again.coords := by rw [h]
  have hhead : a.coords.head? = b.coords.head? := by
    have hsame := congrArg List.head? hcoords
    rw [again, again, ofLine, ofLine, LineString.head?_close, LineString.head?_close] at hsame
    exact hsame
  have hstart : a.startsAtNumber = b.startsAtNumber := by
    rw [startsAtNumber, startsAtNumber, hhead]
  rw [coords_again, coords_again, hstart, hhead] at hcoords
  refine Ring.ext ?_
  by_cases hb : b.startsAtNumber = true
  · rw [if_pos hb, if_pos hb] at hcoords
    exact hcoords
  · rw [if_neg hb, if_neg hb] at hcoords
    exact append_cancel_right hcoords

end Ring

/-! ## Normal geometries -/

def Polygon.again (polygon : Polygon) : Polygon where
  exterior := polygon.exterior.again
  interiors := polygon.interiors.map Ring.again

theorem Polygon.again_inj {a b : Polygon} (h : a.again = b.again) : a = b := by
  cases a
  cases b
  rw [Polygon.again, Polygon.again, Polygon.mk.injEq] at h
  rw [Polygon.mk.injEq]
  exact ⟨Ring.again_inj h.1, map_injective_iff.mpr (fun _ _ => Ring.again_inj) h.2⟩

/-- No ring starts at a NaN. -/
def Polygon.startsAtNumbers (polygon : Polygon) : Bool :=
  polygon.exterior.startsAtNumber && polygon.interiors.all Ring.startsAtNumber

theorem map_eq_self_iff {α : Type} {f : α → α} {l : List α} : l.map f = l ↔ ∀ a ∈ l, f a = a := by
  have hid := List.map_inj_left (l := l) (f := f) (g := id)
  rw [List.map_id] at hid
  exact hid

theorem Polygon.again_eq_self_iff {polygon : Polygon} :
    polygon.again = polygon ↔ polygon.startsAtNumbers = true := by
  rw [startsAtNumbers, Bool.and_eq_true, List.all_eq_true, ← Ring.again_eq_self_iff]
  cases polygon
  rw [Polygon.again, Polygon.mk.injEq, map_eq_self_iff]
  simp only [Ring.again_eq_self_iff]

theorem Polygon.new_coords (polygon : Polygon) :
    Polygon.new polygon.exterior.coords (polygon.interiors.map Ring.coords) = polygon.again := by
  rw [Polygon.new, Polygon.again, List.map_map]
  rfl

namespace Geometry

variable (outlines : Outlines)

mutual
/-- A line as a line string, a rectangle and a triangle as polygons. -/
def normalise : Geometry → Geometry
  | .line start stop => .lineString [start, stop]
  | .rect r => .polygon (outlines.ofRect r)
  | .triangle t => .polygon (outlines.ofTriangle t)
  | .collection parts => .collection (normaliseAll parts)
  | .point p => .point p
  | .lineString l => .lineString l
  | .polygon p => .polygon p
  | .multiPoint points => .multiPoint points
  | .multiLineString lines => .multiLineString lines
  | .multiPolygon polygons => .multiPolygon polygons

def normaliseAll : List Geometry → List Geometry
  | [] => []
  | part :: rest => normalise part :: normaliseAll rest
end

theorem normaliseAll_eq_map (parts : List Geometry) :
    normaliseAll outlines parts = parts.map (normalise outlines) := by
  induction parts with
  | nil => rfl
  | cons part rest ih => rw [normaliseAll, ih, List.map_cons]

mutual
def again : Geometry → Geometry
  | .polygon p => .polygon p.again
  | .multiPolygon polygons => .multiPolygon (polygons.map Polygon.again)
  | .collection parts => .collection (againAll parts)
  | .point p => .point p
  | .line start stop => .line start stop
  | .lineString l => .lineString l
  | .multiPoint points => .multiPoint points
  | .multiLineString lines => .multiLineString lines
  | .rect r => .rect r
  | .triangle t => .triangle t

def againAll : List Geometry → List Geometry
  | [] => []
  | part :: rest => again part :: againAll rest
end

theorem againAll_eq_map (parts : List Geometry) : againAll parts = parts.map again := by
  induction parts with
  | nil => rfl
  | cons part rest ih => rw [againAll, ih, List.map_cons]

mutual
/-- No ring of a polygon starts at a NaN. -/
def startsAtNumbers : Geometry → Bool
  | .polygon p => p.startsAtNumbers
  | .multiPolygon polygons => polygons.all Polygon.startsAtNumbers
  | .collection parts => startsAllAtNumbers parts
  | .point _ | .line _ _ | .lineString _ | .multiPoint _ | .multiLineString _ | .rect _
  | .triangle _ => true

def startsAllAtNumbers : List Geometry → Bool
  | [] => true
  | part :: rest => startsAtNumbers part && startsAllAtNumbers rest
end

mutual
theorem again_eq_self_iff : ∀ {g : Geometry}, again g = g ↔ startsAtNumbers g = true
  | .polygon _ => by rw [again, startsAtNumbers, polygon.injEq, Polygon.again_eq_self_iff]
  | .multiPolygon _ => by
    rw [again, startsAtNumbers, multiPolygon.injEq, map_eq_self_iff, List.all_eq_true]
    simp only [Polygon.again_eq_self_iff]
  | .collection _ => by rw [again, startsAtNumbers, collection.injEq, againAll_eq_self_iff]
  | .point _ => by simp [again, startsAtNumbers]
  | .line _ _ => by simp [again, startsAtNumbers]
  | .lineString _ => by simp [again, startsAtNumbers]
  | .multiPoint _ => by simp [again, startsAtNumbers]
  | .multiLineString _ => by simp [again, startsAtNumbers]
  | .rect _ => by simp [again, startsAtNumbers]
  | .triangle _ => by simp [again, startsAtNumbers]

theorem againAll_eq_self_iff : ∀ {parts : List Geometry},
    againAll parts = parts ↔ startsAllAtNumbers parts = true
  | [] => by simp [againAll, startsAllAtNumbers]
  | _ :: _ => by
    rw [againAll, startsAllAtNumbers, cons.injEq, Bool.and_eq_true, again_eq_self_iff,
      againAll_eq_self_iff]
end

mutual
theorem again_inj : ∀ {a b : Geometry}, again a = again b → a = b
  | .polygon _, b, h => by
    cases b <;> simp only [again, reduceCtorEq, polygon.injEq] at h
    rw [Polygon.again_inj h]
  | .multiPolygon _, b, h => by
    cases b <;> simp only [again, reduceCtorEq, multiPolygon.injEq] at h
    rw [map_injective_iff.mpr (fun _ _ => Polygon.again_inj) h]
  | .collection _, b, h => by
    cases b <;> simp only [again, reduceCtorEq, collection.injEq] at h
    rw [againAll_inj h]
  | .point _, b, h => by cases b <;> simp only [again, reduceCtorEq] at h; exact h
  | .line _ _, b, h => by cases b <;> simp only [again, reduceCtorEq] at h; exact h
  | .lineString _, b, h => by cases b <;> simp only [again, reduceCtorEq] at h; exact h
  | .multiPoint _, b, h => by cases b <;> simp only [again, reduceCtorEq] at h; exact h
  | .multiLineString _, b, h => by cases b <;> simp only [again, reduceCtorEq] at h; exact h
  | .rect _, b, h => by cases b <;> simp only [again, reduceCtorEq] at h; exact h
  | .triangle _, b, h => by cases b <;> simp only [again, reduceCtorEq] at h; exact h

theorem againAll_inj : ∀ {a b : List Geometry}, againAll a = againAll b → a = b
  | [], [], _ => rfl
  | [], _ :: _, h => by simp [againAll] at h
  | _ :: _, [], h => by simp [againAll] at h
  | _ :: _, _ :: _, h => by
    rw [againAll, againAll, cons.injEq] at h
    rw [again_inj h.1, againAll_inj h.2]
end

end Geometry
end GeneGIS.Toolkit
