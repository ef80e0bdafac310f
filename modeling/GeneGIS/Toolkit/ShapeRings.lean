/-
Exteriors run clockwise.  A hole is given to the first exterior that its first point lies in, and
one that lies in none is taken as an exterior.
-/
import GeneGIS.Data.Nesting
import GeneGIS.Toolkit.Geometry

namespace GeneGIS.Toolkit.Shapefile

open Nesting List Nat
open LineString (close)

def signedArea (ring : LineString) : F64 :=
  let terms := (ring.zip ring.tail).map fun w =>
    F64.sub (F64.mul w.1.x w.2.y) (F64.mul w.2.x w.1.y)
  F64.div (F64.sum terms) (.ofNat 2)

/-- Whether a ray to the right of the point crosses the edge between two coordinates. -/
def crosses (point i j : Coord) : Bool := (F64.lt point.y i.y != F64.lt point.y j.y) &&
    F64.lt point.x (F64.add (F64.div (F64.mul (F64.sub j.x i.x) (F64.sub point.y i.y))
      (F64.sub j.y i.y)) i.x)

/-- `genegis_point_in_ring`; the coordinate before the first one is the last one. -/
def pointInRing (point : Coord) (ring : LineString) : Bool :=
  let before := ring.getLast?.toList ++ ring.dropLast
  (ring.zip before).foldl
    (fun inside edge => if crosses point edge.1 edge.2 then !inside else inside) false

/-- A ring of three points at least. -/
structure ShapeRing where
  coords : LineString
  long : 3 ≤ coords.length

namespace ShapeRing

def ofLine? (line : LineString) : Option ShapeRing :=
  if h : 3 ≤ line.length then
    some ⟨close line, by
      rw [close]
      split
      · exact h
      · rw [length_append]
        exact le_add_right_of_le h⟩
  else none

def first (ring : ShapeRing) : Coord :=
  ring.coords.head (ne_nil_of_length_pos (lt_of_lt_of_le (by decide) ring.long))

def reverse (ring : ShapeRing) : ShapeRing :=
  ⟨ring.coords.reverse, by rw [length_reverse]; exact ring.long⟩

def isExterior (ring : ShapeRing) : Bool := F64.le (signedArea ring.coords) .zero

def inside (ring outer : ShapeRing) : Bool := pointInRing ring.first outer.coords

end ShapeRing

/-- An exterior with its holes. -/
structure Assembly where
  exterior : ShapeRing
  interiors : List ShapeRing := []

namespace Assembly

def polygon (assembly : Assembly) : Polygon :=
  .new assembly.exterior.coords (assembly.interiors.map ShapeRing.coords)

def rings (assembly : Assembly) : List ShapeRing := assembly.exterior :: assembly.interiors

end Assembly

/-- The first exterior around the hole gets it. -/
def attach : List Assembly → ShapeRing → List Assembly
  | [], hole => [{ exterior := hole.reverse }]
  | assembly :: rest, hole =>
    if hole.inside assembly.exterior then
      { assembly with interiors := assembly.interiors ++ [hole] } :: rest
    else assembly :: attach rest hole

def readRings (rings : List LineString) : List ShapeRing := rings.filterMap ShapeRing.ofLine?

def exteriors (rings : List LineString) : List ShapeRing :=
  (readRings rings).filter ShapeRing.isExterior

def holes (rings : List LineString) : List ShapeRing :=
  (readRings rings).filter fun ring => !ring.isExterior

def assemblies (rings : List LineString) : List Assembly :=
  (holes rings).foldl attach ((exteriors rings).map fun ring => { exterior := ring })

def assemblePolygons (rings : List LineString) : Except String Geometry :=
  match (assemblies rings).map Assembly.polygon with
  | [] => .error "polygon has no valid rings"
  | [polygon] => .ok (.polygon polygon)
  | polygons => .ok (.multiPolygon polygons)

def polygonsOf : Except String Geometry → List Polygon
  | .ok (.polygon polygon) => [polygon]
  | .ok (.multiPolygon polygons) => polygons
  | _ => []

def ringsOf (polygon : Polygon) : List LineString :=
  polygon.exterior.coords :: polygon.interiors.map Ring.coords

/-! ## One hole -/

variable {state : List Assembly} {hole : ShapeRing} {rings : List LineString}

theorem attach_getElem? (hole : ShapeRing) : ∀ {state : List Assembly} {i : Nat} {exterior : ShapeRing}
    {interiors : List ShapeRing}, state[i]? = some ⟨exterior, interiors⟩ →
    ((hole.inside exterior = true ∧
        ∀ j < i, ∀ assembly, state[j]? = some assembly → hole.inside assembly.exterior = false) →
      (attach state hole)[i]? = some ⟨exterior, interiors ++ [hole]⟩) ∧
    (¬ (hole.inside exterior = true ∧
        ∀ j < i, ∀ assembly, state[j]? = some assembly → hole.inside assembly.exterior = false) →
      (attach state hole)[i]? = some ⟨exterior, interiors⟩) := by
  intro state
  induction state with
  | nil =>
    intro i exterior interiors h
    cases h
  | cons assembly rest ih =>
    intro i exterior interiors h
    obtain ⟨e, holes⟩ := assembly
    cases i with
    | zero =>
      obtain ⟨rfl, rfl⟩ := Assembly.mk.inj (Option.some.inj h)
      constructor
      · intro hfirst
        rw [attach, if_pos hfirst.1]
        rfl
      · intro hnot
        have hout : ¬ hole.inside e = true := by
          intro hin
          exact hnot ⟨hin, fun j hj => absurd hj (not_lt_zero j)⟩
        rw [attach, if_neg hout]
        rfl
    | succ i =>
      rw [getElem?_cons_succ] at h
      by_cases hin : hole.inside e = true
      · rw [attach, if_pos hin]
        constructor
        · intro hfirst
          have hout := hfirst.2 0 (zero_lt_succ i) _ rfl
          rw [hin] at hout
          cases hout
        · intro _
          rw [getElem?_cons_succ]
          exact h
      · rw [attach, if_neg hin, getElem?_cons_succ]
        have hbefore : (∀ j < i + 1, ∀ assembly, ((⟨e, holes⟩ : Assembly) :: rest)[j]? = some assembly →
            hole.inside assembly.exterior = false) ↔
            ∀ j < i, ∀ assembly, rest[j]? = some assembly → hole.inside assembly.exterior = false := by
          constructor
          · intro hall j hj assembly hget
            exact hall (j + 1) (succ_lt_succ hj) assembly hget
          · intro hall j hj assembly hget
            cases j with
            | zero =>
              cases hget
              exact Bool.not_eq_true _ ▸ hin
            | succ j => exact hall j (lt_of_succ_lt_succ hj) assembly hget
        rw [hbefore]
        exact ih h

/-- What `state` holds at the positions of the exteriors. -/
def Holds (outer : List ShapeRing) (given : Fin outer.length → List ShapeRing)
    (state : List Assembly) : Prop :=
  ∀ i : Fin outer.length, state[i.val]? = some ⟨outer[i], given i⟩

theorem holds_attach {outer : List ShapeRing} {given : Fin outer.length → List ShapeRing}
    (h : Holds outer given state) (hole : ShapeRing) :
    Holds outer (fun i => given i ++ [hole].filter fun r => First ShapeRing.inside outer r i)
      (attach state hole) := by
  intro i
  have hfirst : (hole.inside outer[i] = true ∧
      ∀ j < i.val, ∀ assembly, state[j]? = some assembly → hole.inside assembly.exterior = false) ↔
      First ShapeRing.inside outer hole i := by
    constructor
    · intro hall
      exact ⟨hall.1, fun j hj => hall.2 j.val hj _ (h j)⟩
    · intro hall
      refine ⟨hall.1, ?_⟩
      intro j hj assembly hget
      have hj' := h ⟨j, lt_trans hj i.isLt⟩
      rw [hj'] at hget
      rw [← Option.some.inj hget]
      exact hall.2 ⟨j, lt_trans hj i.isLt⟩ hj
  have hstep := attach_getElem? hole (h i)
  rw [hfirst] at hstep
  by_cases hf : First ShapeRing.inside outer hole i
  · rw [hstep.1 hf]
    simp [hf]
  · rw [hstep.2 hf]
    simp [hf]

theorem holds_foldl {outer : List ShapeRing} (list : List ShapeRing) :
    ∀ {given : Fin outer.length → List ShapeRing} {state : List Assembly}, Holds outer given state →
      Holds outer (fun i => given i ++ list.filter fun r => First ShapeRing.inside outer r i)
        (list.foldl attach state) := by
  induction list with
  | nil =>
    intro given state h i
    dsimp only
    rw [filter_nil, append_nil]
    exact h i
  | cons hole rest ih =>
    intro given state h i
    have hrest := ih (holds_attach h hole) i
    dsimp only at hrest ⊢
    rw [foldl_cons, hrest, append_assoc, ← filter_append, singleton_append]

/-- The interiors of an exterior are the holes that it is the first exterior around. -/
theorem assemblies_holds (rings : List LineString) : Holds (exteriors rings)
      (fun i => (holes rings).filter fun r => First ShapeRing.inside (exteriors rings) r i)
      (assemblies rings) := by
  have hstart : Holds (exteriors rings) (fun _ => [])
      ((exteriors rings).map fun ring => { exterior := ring }) := by
    intro i
    rw [getElem?_map, getElem?_eq_getElem i.isLt]
    rfl
  exact holds_foldl (holes rings) hstart

/-! ## Every ring is kept -/

/-- A hole is kept as it is, or turned round when it lies in none of the exteriors. -/
def Turned (outer : List ShapeRing) (ring kept : ShapeRing) : Prop := kept = ring ∨
    ring.isExterior = false ∧ (∀ e ∈ outer, ring.inside e = false) ∧ kept = ring.reverse

theorem attach_perm : ∀ (state : List Assembly) (hole : ShapeRing),
    ((attach state hole).flatMap Assembly.rings).Perm (hole :: state.flatMap Assembly.rings) ∨
    (∀ assembly ∈ state, hole.inside assembly.exterior = false) ∧
      ((attach state hole).flatMap Assembly.rings).Perm
        (hole.reverse :: state.flatMap Assembly.rings) := by
  intro state hole
  induction state with
  | nil => exact .inr ⟨fun assembly h => (by cases h), Perm.refl _⟩
  | cons assembly rest ih =>
    obtain ⟨e, interiors⟩ := assembly
    by_cases hin : hole.inside e = true
    · left
      rw [attach, if_pos hin]
      show ((e :: (interiors ++ [hole])) ++ rest.flatMap Assembly.rings).Perm
        (hole :: ((e :: interiors) ++ rest.flatMap Assembly.rings))
      have hlast : (e :: (interiors ++ [hole])).Perm (hole :: (e :: interiors)) :=
        perm_append_singleton hole (e :: interiors)
      exact hlast.append_right _
    · rw [attach, if_neg hin]
      have hfront : ∀ ring : ShapeRing,
          ((attach rest hole).flatMap Assembly.rings).Perm (ring :: rest.flatMap Assembly.rings) →
          ((⟨e, interiors⟩ :: attach rest hole).flatMap Assembly.rings).Perm
            (ring :: (⟨e, interiors⟩ :: rest).flatMap Assembly.rings) := by
        intro ring h
        rw [flatMap_cons, flatMap_cons]
        exact (h.append_left _).trans perm_middle
      rcases ih with h | ⟨hout, h⟩
      · exact .inl (hfront hole h)
      · refine .inr ⟨?_, hfront hole.reverse h⟩
        intro assembly hassembly
        rcases mem_cons.mp hassembly with rfl | hrest
        · exact Bool.not_eq_true _ ▸ hin
        · exact hout assembly hrest

theorem mem_firsts_attach {e : ShapeRing} (h : ∃ assembly ∈ state, assembly.exterior = e)
    (hole : ShapeRing) : ∃ assembly ∈ attach state hole, assembly.exterior = e := by
  induction state with
  | nil =>
    obtain ⟨assembly, hassembly, -⟩ := h
    cases hassembly
  | cons first rest ih =>
    obtain ⟨assembly, hassembly, he⟩ := h
    obtain ⟨f, interiors⟩ := first
    by_cases hin : hole.inside f = true
    · rw [attach, if_pos hin]
      rcases mem_cons.mp hassembly with rfl | hrest
      · exact ⟨_, mem_cons_self, he⟩
      · exact ⟨assembly, mem_cons_of_mem _ hrest, he⟩
    · rw [attach, if_neg hin]
      rcases mem_cons.mp hassembly with rfl | hrest
      · exact ⟨_, mem_cons_self, he⟩
      · obtain ⟨kept, hkept, hkeptFirst⟩ := ih ⟨assembly, hrest, he⟩
        exact ⟨kept, mem_cons_of_mem _ hkept, hkeptFirst⟩

theorem foldl_attach_perm (outer list : List ShapeRing) :
    ∀ state : List Assembly, (∀ hole ∈ list, hole.isExterior = false) →
      (∀ e ∈ outer, ∃ assembly ∈ state, assembly.exterior = e) →
      ∃ kept, Forall₂ (Turned outer) list kept ∧
        ((list.foldl attach state).flatMap Assembly.rings).Perm
          (kept ++ state.flatMap Assembly.rings) := by
  induction list with
  | nil =>
    intro state _ _
    exact ⟨[], .nil, Perm.refl _⟩
  | cons hole rest ih =>
    intro state hlist hstate
    obtain ⟨kept, hkept, hperm⟩ := ih (attach state hole)
      (fun r hr => hlist r (mem_cons_of_mem hole hr))
      fun e he => mem_firsts_attach (hstate e he) hole
    have hone : ∃ ring, Turned outer hole ring ∧ ((attach state hole).flatMap Assembly.rings).Perm
          (ring :: state.flatMap Assembly.rings) := by
      rcases attach_perm state hole with h | ⟨hout, h⟩
      · exact ⟨hole, .inl rfl, h⟩
      · refine ⟨hole.reverse, .inr ⟨hlist hole mem_cons_self, ?_, rfl⟩, h⟩
        intro e he
        obtain ⟨assembly, hassembly, heq⟩ := hstate e he
        rw [← heq]
        exact hout assembly hassembly
    obtain ⟨ring, hring, hattach⟩ := hone
    refine ⟨ring :: kept, .cons hring hkept, ?_⟩
    rw [foldl_cons]
    exact hperm.trans ((hattach.append_left kept).trans perm_middle)

theorem assemblies_perm (rings : List LineString) :
    ∃ kept, Forall₂ (Turned (exteriors rings)) (holes rings) kept ∧
      ((assemblies rings).flatMap Assembly.rings).Perm (kept ++ exteriors rings) := by
  obtain ⟨kept, hkept, hperm⟩ := foldl_attach_perm (exteriors rings) (holes rings)
    ((exteriors rings).map fun ring => { exterior := ring })
    (fun r hr => by simpa using (mem_filter.mp hr).2)
    fun e he => ⟨{ exterior := e }, mem_map_of_mem he, rfl⟩
  refine ⟨kept, hkept, ?_⟩
  have hflat : ((exteriors rings).map fun ring => ({ exterior := ring } : Assembly)).flatMap
      Assembly.rings = exteriors rings := by
    rw [flatMap_map]
    exact flatMap_singleton' _
  rw [hflat] at hperm
  exact hperm

/-! ## The polygons -/

theorem polygonsOf_assemblePolygons (rings : List LineString) :
    polygonsOf (assemblePolygons rings) = (assemblies rings).map Assembly.polygon := by
  rw [assemblePolygons]
  match (assemblies rings).map Assembly.polygon with
  | [] => rfl
  | [polygon] => rfl
  | _ :: _ :: _ => rfl

/-- A ring among the rings of the polygons: closed, and turned round if it was taken for a hole
that lies in no exterior. -/
def Keeps (rings : List LineString) (ring : ShapeRing) (kept : LineString) : Prop :=
  kept = close ring.coords ∨
    ring.isExterior = false ∧ (∀ e ∈ exteriors rings, ring.inside e = false) ∧
      kept = close ring.coords.reverse

/-- Every ring of three points at least is one ring of one polygon. -/
def EachKept (rings : List LineString) (polygons : List Polygon) : Prop :=
  ∃ order kept, order.Perm (readRings rings) ∧ Forall₂ (Keeps rings) order kept ∧
    kept.Perm (polygons.flatMap ringsOf)

/-- The interiors of every exterior are the holes that it is the innermost exterior around. -/
def InnermostGiven (rings : List LineString) (polygons : List Polygon) : Prop :=
  ∀ i : Fin (exteriors rings).length, polygons[i.val]? =
    some (.new (exteriors rings)[i].coords (((holes rings).filter fun hole =>
      Innermost ShapeRing.inside (exteriors rings) hole i).map ShapeRing.coords))

theorem assembly_rings (assembly : Assembly) : ringsOf assembly.polygon =
    assembly.rings.map fun ring => close ring.coords := by
  rw [Assembly.polygon, ringsOf, Polygon.new, Assembly.rings, map_cons, map_map, map_map]
  rfl

theorem eachKept (rings : List LineString) :
    EachKept rings (polygonsOf (assemblePolygons rings)) := by
  obtain ⟨kept, hkept, hperm⟩ := assemblies_perm rings
  refine ⟨holes rings ++ exteriors rings,
    (kept ++ exteriors rings).map fun ring => close ring.coords, ?_, ?_, ?_⟩
  · exact perm_append_comm.trans (filter_append_perm _ _)
  · rw [map_append]
    refine rel_append ?_ ?_
    · rw [forall₂_map_right_iff]
      refine Forall₂.imp ?_ hkept
      intro ring kept hturned
      rcases hturned with rfl | ⟨hhole, hout, rfl⟩
      · exact .inl rfl
      · exact .inr ⟨hhole, hout, rfl⟩
    · rw [forall₂_map_right_iff, forall₂_same]
      exact fun ring _ => .inl rfl
  · rw [polygonsOf_assemblePolygons, flatMap_map]
    have hrings : (assemblies rings).flatMap (fun a => ringsOf a.polygon) =
        ((assemblies rings).flatMap Assembly.rings).map fun ring =>
          close ring.coords := by
      rw [map_flatMap]
      exact flatMap_congr fun a _ => assembly_rings a
    rw [hrings]
    exact (hperm.map _).symm

theorem holes_ring_inj {r t : ShapeRing} (hr : r ∈ holes rings) (ht : t ∈ holes rings)
    (h : Ring.ofLine r.coords = Ring.ofLine t.coords) : r = t := by
  have hclosed : ∀ ring ∈ holes rings, ∃ line, close line = ring.coords := by
    intro ring hring
    obtain ⟨line, -, hline⟩ := mem_filterMap.mp (mem_filter.mp hring).1
    rw [ShapeRing.ofLine?] at hline
    split at hline
    · exact ⟨line, congrArg ShapeRing.coords (Option.some.inj hline)⟩
    · cases hline
  have hcoords : (⟨r.coords, hclosed r hr⟩ : Ring) = ⟨t.coords, hclosed t ht⟩ := Ring.again_inj h
  cases r
  cases t
  cases congrArg Ring.coords hcoords
  rfl

theorem innermostGiven_iff (rings : List LineString) :
    InnermostGiven rings (polygonsOf (assemblePolygons rings)) ↔
      ∀ hole ∈ holes rings, ∀ i, First ShapeRing.inside (exteriors rings) hole i ↔
        Innermost ShapeRing.inside (exteriors rings) hole i := by
  have hget : ∀ i : Fin (exteriors rings).length, (polygonsOf (assemblePolygons rings))[i.val]? =
        some (.new (exteriors rings)[i].coords (((holes rings).filter fun hole =>
          First ShapeRing.inside (exteriors rings) hole i).map ShapeRing.coords)) := by
    intro i
    rw [polygonsOf_assemblePolygons, getElem?_map, assemblies_holds rings i]
    rfl
  have hmem : ∀ {p : ShapeRing → Prop} [DecidablePred p], ∀ hole ∈ holes rings,
      (Ring.ofLine hole.coords ∈
        (((holes rings).filter fun r => p r).map ShapeRing.coords).map Ring.ofLine ↔ p hole) := by
    intro p _ hole hhole
    rw [map_map, mem_map]
    constructor
    · intro h
      obtain ⟨r, hr, heq⟩ := h
      obtain ⟨hr, hpr⟩ := mem_filter.mp hr
      rw [← holes_ring_inj hr hhole heq]
      exact of_decide_eq_true hpr
    · intro hp
      exact ⟨hole, mem_filter.mpr ⟨hhole, decide_eq_true hp⟩, rfl⟩
  constructor
  · intro h hole hhole i
    have hsame := h i
    rw [hget i, Option.some.injEq, Polygon.new, Polygon.new, Polygon.mk.injEq] at hsame
    rw [← hmem (p := fun r => First ShapeRing.inside (exteriors rings) r i) hole hhole, hsame.2,
      hmem (p := fun r => Innermost ShapeRing.inside (exteriors rings) r i) hole hhole]
  · intro h i
    rw [hget i]
    have hfilter : (holes rings).filter (fun hole =>
        First ShapeRing.inside (exteriors rings) hole i) = (holes rings).filter fun hole =>
        Innermost ShapeRing.inside (exteriors rings) hole i := by
      refine filter_congr ?_
      intro hole hhole
      exact decide_eq_decide.mpr (h hole hhole i)
    rw [hfilter]

/-- Every ring is kept, and nested holes are given to the innermost exteriors exactly when no other
one around a hole stands before it. -/
theorem assemblePolygons_innermost (rings : List LineString) :
    (EachKept rings (polygonsOf (assemblePolygons rings)) ∧
      (Nested ShapeRing.inside (exteriors rings) (holes rings) →
        InnermostGiven rings (polygonsOf (assemblePolygons rings)))) ↔
    (Nested ShapeRing.inside (exteriors rings) (holes rings) →
      InnermostFirst ShapeRing.inside (exteriors rings) (holes rings)) := by
  rw [and_iff_right (eachKept rings)]
  constructor
  · intro h hnested
    rw [← first_iff_innermost hnested, ← innermostGiven_iff]
    exact h hnested
  · intro h hnested
    rw [innermostGiven_iff, first_iff_innermost hnested]
    exact h hnested

def squareRing (a b : Nat) : LineString :=
  [⟨.ofNat a, .ofNat a⟩, ⟨.ofNat a, .ofNat b⟩, ⟨.ofNat b, .ofNat b⟩, ⟨.ofNat b, .ofNat a⟩]

/-- A square with a hole, an island in the hole and a hole in the island. -/
def islandRings : List LineString :=
  [squareRing 0 9, (squareRing 1 8).reverse, squareRing 2 7, (squareRing 3 6).reverse]

theorem islandRings_nested : Nested ShapeRing.inside (exteriors islandRings) (holes islandRings) :=
  ⟨by decide +kernel, by decide +kernel⟩

theorem islandRings_outer : ∃ hole ∈ holes islandRings, ∃ i,
    First ShapeRing.inside (exteriors islandRings) hole i ∧
      ¬ Innermost ShapeRing.inside (exteriors islandRings) hole i := by
  decide +kernel

theorem assemblePolygons_outermost :
    ¬ (EachKept islandRings (polygonsOf (assemblePolygons islandRings)) ∧
      (Nested ShapeRing.inside (exteriors islandRings) (holes islandRings) →
        InnermostGiven islandRings (polygonsOf (assemblePolygons islandRings)))) := by
  intro h
  obtain ⟨hole, hhole, i, hfirst, hinner⟩ := islandRings_outer
  have hgiven := (innermostGiven_iff islandRings).mp (h.2 islandRings_nested)
  exact hinner ((hgiven hole hhole i).mp hfirst)

end GeneGIS.Toolkit.Shapefile
