/-
Coordinates that round to the same millionths of a degree are one node, at the place of the first.
An edge costs its share of the declared walking time, or its length by the speed.
-/
import GeneGIS.Analysis.Receipt
import GeneGIS.Data.Intern
import GeneGIS.Network.Graph
import GeneGIS.Toolkit.Arithmetic

namespace GeneGIS.Network

abbrev LonLat := F64 × F64

namespace Loader

/-- `as_f64`; a whole number that fits neither `i64` nor `u64` is read as a float. -/
def asF64? : Json → Option F64
  | .num (.int n) =>
    if -(2 ^ 63) ≤ n ∧ n < 2 ^ 64 then
      some (if n < 0 then .neg (.ofNat n.natAbs) else .ofNat n.natAbs)
    else none
  | .num (.float x _) => some x
  | _ => none

def reject {α : Type} (reason : String) : Except (NetworkError F64) α := .error (.invalid reason)

def require {α : Type} (reason : String) : Option α → Except (NetworkError F64) α
  | some a => .ok a
  | none => reject reason

def readCoord (coord : Json) : Except (NetworkError F64) LonLat := do
  let values ← require "coordinate pair expected" coord.asArray?
  let lon ← require "longitude missing" ((values[0]?).bind asF64?)
  let lat ← require "latitude missing" ((values[1]?).bind asF64?)
  return (lon, lat)

/-- What a feature says of its line. -/
structure Line where
  coords : List LonLat
  walkMin : Option F64

/-- Features that are no lines are passed over. -/
def readFeature (feature : Json) : Except (NetworkError F64) (Option Line) := do
  let geometry ← require "feature without geometry" (feature.get? "geometry")
  if (geometry.get? "type").bind Json.asStr? ≠ some "LineString" then
    return none
  else
    let coords ← require "LineString without coordinates"
      ((geometry.get? "coordinates").bind Json.asArray?)
    let coords ← coords.mapM readCoord
    return some ⟨coords, ((feature.get? "properties").bind (·.get? "walk_min")).bind asF64?⟩

section Lengths

-- `to_radians().cos()` of a latitude.
variable (cosine : F64 → F64)

def metersPerDegLat : F64 := .ofNat 111320

def metersPerDegLon (lat : F64) : F64 := metersPerDegLat.mul (cosine lat)

def segmentLengthM (start target : LonLat) : F64 :=
  let dlon := (target.1.sub start.1).abs.mul
    (metersPerDegLon cosine ((start.2.add target.2).div (.ofNat 2)))
  let dlat := (target.2.sub start.2).abs.mul metersPerDegLat
  ((dlon.mul dlon).add (dlat.mul dlat)).sqrt

/-! ## Laying the edges -/

def quantize (value : F64) : Int := (value.mul (.ofNat 1000000)).roundHalfAway.toI64

def sameKey (a b : LonLat) : Bool := quantize a.1 == quantize b.1 && quantize a.2 == quantize b.2

def share (total : F64) (segments : Nat) : F64 := total.div ((F64.ofNat segments).max (.ofNat 1))

/-- The nodes and edges so far, and the last node of the line. -/
structure Laying where
  nodes : List LonLat
  edges : List (WalkGraph.Edge F64)
  total : F64
  previous : Option Nat
  inRange : WalkGraph.InRange nodes.length edges
  known : ∀ i, previous = some i → i < nodes.length

def Laying.start : Laying where
  nodes := []
  edges := []
  total := .ofNat 0
  previous := none
  inRange := fun _ h => (by cases h)
  known := fun _ h => (by cases h)

theorem inRange_grow {nodes nodes' : List LonLat} {edges : List (WalkGraph.Edge F64)}
    (h : WalkGraph.InRange nodes.length edges) (hgrown : nodes <+: nodes') :
    WalkGraph.InRange nodes'.length edges := fun edge hedge =>
  ⟨(h edge hedge).1.trans_le hgrown.length_le, (h edge hedge).2.trans_le hgrown.length_le⟩

theorem intern_lt {nodes : List LonLat} {coord : LonLat} :
    (Intern.intern sameKey nodes coord).1 < (Intern.intern sameKey nodes coord).2.length := by
  obtain ⟨b, hb, -⟩ := Intern.intern_entry sameKey nodes coord
  exact (List.getElem?_eq_some_iff.mp hb).1

/-- One coordinate of a line: its node, and the edge from the last one. -/
def Laying.visit (speed : F64) (walkMin : Option F64) (segments : Nat) (s : Laying)
    (coord : LonLat) : Laying :=
  let index := (Intern.intern sameKey s.nodes coord).1
  let nodes := (Intern.intern sameKey s.nodes coord).2
  have hgrown : s.nodes <+: nodes := Intern.prefix_intern sameKey s.nodes coord
  have hindex : index < nodes.length := intern_lt
  match hprevious : s.previous with
  | none =>
    { nodes := nodes, edges := s.edges, total := s.total, previous := some index
      inRange := inRange_grow s.inRange hgrown
      known := fun i hi => (by cases hi; exact hindex) }
  | some start =>
    let length := segmentLengthM cosine (nodes.getD start (.zero, .zero))
      (nodes.getD index (.zero, .zero))
    let cost := match walkMin with
      | some total => share total segments
      | none => length.div speed
    { nodes := nodes, edges := s.edges ++ [((start, index), cost)], total := s.total.add length
      previous := some index
      inRange := by
        intro edge hedge
        rcases List.mem_append.mp hedge with hedge | hedge
        · exact inRange_grow s.inRange hgrown edge hedge
        · rw [List.mem_singleton.mp hedge]
          exact ⟨(s.known start hprevious).trans_le hgrown.length_le, hindex⟩
      known := fun i hi => (by cases hi; exact hindex) }

def Laying.lay (speed : F64) (s : Laying) (line : Line) : Laying :=
  line.coords.foldl (Laying.visit cosine speed line.walkMin (line.coords.length - 1))
    { s with previous := none, known := fun _ h => (by cases h) }

end Lengths

end Loader

open Loader

section Load

-- `serde_json::from_str`, and `to_radians().cos()` of a latitude.
variable (parse : String → Except String Json) (cosine : F64 → F64)

/-- The walking speed, and the lines of the features. -/
def readNetwork (text : String) : Except (NetworkError F64) (F64 × List Line) := do
  let parsed ← (parse text).mapError .invalid
  if (parsed.get? "type").bind Json.asStr? ≠ some "FeatureCollection" then
    reject "expected a FeatureCollection of LineString features"
  let walkSpeed := ((parsed.get? "walk_speed_m_per_min").bind asF64?).getD (.ofNat 80)
  if F64.le walkSpeed (.ofNat 0) then
    reject "non-positive walk speed"
  let features ← require "missing features array" ((parsed.get? "features").bind Json.asArray?)
  let lines ← features.mapM readFeature
  return (walkSpeed, lines.filterMap id)

/-- Reading stops at the first error, and laying the edges has none. -/
def fromGeojsonStr (text : String) : Except (NetworkError F64) (WalkGraph F64) := do
  let (walkSpeed, lines) ← readNetwork parse text
  let laid := lines.foldl (Laying.lay cosine walkSpeed) .start
  if laid.nodes.isEmpty || laid.edges.isEmpty then
    reject "network produced no routable nodes or edges"
  return WalkGraph.ofEdges laid.nodes laid.edges laid.total walkSpeed laid.inRange

end Load

end GeneGIS.Network

/-! ## The costs that are laid

The costs are those of the consecutive coordinates of each line. -/

namespace GeneGIS.Network.Loader

open List Option

theorem sameKey_iff {a b : LonLat} :
    sameKey a b = true ↔ quantize a.1 = quantize b.1 ∧ quantize a.2 = quantize b.2 := by
  rw [sameKey, Bool.and_eq_true, beq_iff_eq, beq_iff_eq]

theorem sameKey_self (a : LonLat) : sameKey a a = true := sameKey_iff.mpr ⟨rfl, rfl⟩

def tableOf (coords : List LonLat) : List LonLat :=
  coords.foldl (fun table coord => (Intern.intern sameKey table coord).2) []

/-- The first of the coordinates with the same key. -/
def place (coords : List LonLat) (coord : LonLat) : LonLat :=
  (coords.find? fun other => sameKey other coord).getD coord

theorem tableOf_concat (coords : List LonLat) (coord : LonLat) :
    tableOf (coords ++ [coord]) = (Intern.intern sameKey (tableOf coords) coord).2 := by
  rw [tableOf, foldl_append]
  rfl

theorem find?_tableOf (coord : LonLat) (coords : List LonLat) :
    (tableOf coords).find? (fun other => sameKey other coord) =
      coords.find? fun other => sameKey other coord := by
  induction coords using List.reverseRecOn with
  | nil => rfl
  | append_singleton front last ih =>
    rw [tableOf_concat, find?_append, ← ih]
    rcases Intern.intern_cases sameKey (tableOf front) last with ⟨i, hfind, h⟩ | ⟨-, h⟩
    · rw [h]
      by_cases hlast : sameKey last coord = true
      · -- the key is there already
        obtain ⟨hi, hsame, -⟩ := findIdx?_eq_some_iff_getElem.mp hfind
        have hentry : sameKey (tableOf front)[i] coord = true := by
          obtain ⟨h1, h2⟩ := sameKey_iff.mp hsame
          obtain ⟨h3, h4⟩ := sameKey_iff.mp hlast
          exact sameKey_iff.mpr ⟨h1.trans h3, h2.trans h4⟩
        have hsome : ((tableOf front).find? fun other => sameKey other coord).isSome = true :=
          find?_isSome.mpr ⟨_, getElem_mem hi, hentry⟩
        rw [or_of_isSome hsome]
      · rw [find?_singleton, if_neg hlast, or_none]
    · rw [h, find?_append]

variable {coords : List LonLat}

theorem exists_find?_of_mem {coord : LonLat} (h : coord ∈ coords) :
    ∃ p, (coords.find? fun other => sameKey other coord) = some p := by
  have hsome : (coords.find? fun other => sameKey other coord).isSome = true :=
    find?_isSome.mpr ⟨coord, h, sameKey_self coord⟩
  exact isSome_iff_exists.mp hsome

theorem place_append {coord : LonLat} (h : coord ∈ coords)
    (more : List LonLat) : place (coords ++ more) coord = place coords coord := by
  obtain ⟨p, hp⟩ := exists_find?_of_mem h
  rw [place, place, find?_append, hp, some_or]

theorem place_mem {coord : LonLat} (h : coord ∈ coords) : place coords coord ∈ coords := by
  obtain ⟨p, hp⟩ := exists_find?_of_mem h
  rw [place, hp]
  exact mem_of_find?_eq_some hp

theorem getElem?_intern (coords : List LonLat) (coord : LonLat) :
    (tableOf (coords ++ [coord]))[(Intern.intern sameKey (tableOf coords) coord).1]? =
      some (place (coords ++ [coord]) coord) := by
  have hfirst := @Intern.intern_first _ sameKey (tableOf coords) coord (sameKey_self coord)
  rw [← tableOf_concat] at hfirst
  obtain ⟨hi, hsame, hbefore⟩ := findIdx?_eq_some_iff_getElem.mp hfirst
  have hfind : (tableOf (coords ++ [coord])).find? (fun other => sameKey other coord) =
      some (tableOf (coords ++ [coord]))[(Intern.intern sameKey (tableOf coords) coord).1] := by
    rw [find?_eq_some_iff_getElem]
    exact ⟨hsame, _, hi, rfl, fun j hj => by simpa using hbefore j hj⟩
  rw [getElem?_eq_getElem hi, place, ← find?_tableOf, hfind]
  rfl

/-! ## Costs -/

section Costs

variable (cosine : F64 → F64) (speed : F64)

def edgeCost (walkMin : Option F64) (segments : Nat) (p q : LonLat) : F64 :=
  match walkMin with
  | some total => share total segments
  | none => (segmentLengthM cosine p q).div speed

/-- The costs along a line, when nodes are looked up among all coordinates. -/
def lineCosts (coords : List LonLat) (line : Line) : List F64 :=
  (line.coords.zip line.coords.tail).map fun pair =>
    edgeCost cosine speed line.walkMin (line.coords.length - 1) (place coords pair.1)
      (place coords pair.2)

/-- The table is that of the coordinates so far, and the last node is that of the last one. -/
structure Visited (coords : List LonLat) (last : Option LonLat) (s : Laying) : Prop where
  nodes : s.nodes = tableOf coords
  mem : ∀ c, last = some c → c ∈ coords
  fresh : last = none → s.previous = none
  current : ∀ c, last = some c → ∃ i, s.previous = some i ∧ s.nodes[i]? = some (place coords c)

variable {cosine speed} {coords : List LonLat} {s : Laying} {walkMin : Option F64} {segments : Nat}
variable (coord : LonLat)

theorem visit_nodes :
    (s.visit cosine speed walkMin segments coord).nodes = (Intern.intern sameKey s.nodes coord).2 ∧
      (s.visit cosine speed walkMin segments coord).previous =
        some (Intern.intern sameKey s.nodes coord).1 := by
  rw [Laying.visit]
  split
  · exact ⟨rfl, rfl⟩
  · exact ⟨rfl, rfl⟩

theorem visit_edges_none (h : s.previous = none) :
    (s.visit cosine speed walkMin segments coord).edges = s.edges := by
  rw [Laying.visit]
  split
  · rfl
  · rename_i start hstart
    rw [h] at hstart
    cases hstart

theorem visit_edges_some {i : Nat} (h : s.previous = some i) :
    (s.visit cosine speed walkMin segments coord).edges = s.edges ++
      [((i, (Intern.intern sameKey s.nodes coord).1), edgeCost cosine speed walkMin segments
        ((Intern.intern sameKey s.nodes coord).2.getD i (.zero, .zero))
        ((Intern.intern sameKey s.nodes coord).2.getD
          (Intern.intern sameKey s.nodes coord).1 (.zero, .zero)))] := by
  rw [Laying.visit]
  split
  · rename_i hnone
    rw [h] at hnone
    cases hnone
  · rename_i start hstart
    rw [h] at hstart
    cases hstart
    rfl

theorem Visited.visit {last : Option LonLat} (h : Visited coords last s) (coord : LonLat) :
    Visited (coords ++ [coord]) (some coord) (s.visit cosine speed walkMin segments coord) ∧
      (s.visit cosine speed walkMin segments coord).edges.map Prod.snd =
        s.edges.map Prod.snd ++ (last.toList.map fun c =>
          edgeCost cosine speed walkMin segments (place (coords ++ [coord]) c)
            (place (coords ++ [coord]) coord)) := by
  obtain ⟨hnodes, hprevious⟩ := @visit_nodes cosine speed s walkMin segments coord
  have htable : (Intern.intern sameKey s.nodes coord).2 = tableOf (coords ++ [coord]) := by
    rw [tableOf_concat, h.nodes]
  have hindex : (tableOf (coords ++ [coord]))[(Intern.intern sameKey s.nodes coord).1]? =
      some (place (coords ++ [coord]) coord) := by
    rw [h.nodes]
    exact getElem?_intern coords coord
  refine ⟨⟨hnodes.trans htable, ?_, ?_, ?_⟩, ?_⟩
  · intro c hc
    cases hc
    exact mem_append_right _ (mem_singleton_self _)
  · nofun
  · intro c hc
    cases hc
    refine ⟨_, hprevious, ?_⟩
    rw [hnodes, htable]
    exact hindex
  · cases hlast : last with
    | none => rw [visit_edges_none coord (h.fresh hlast), toList_none, map_nil, append_nil]
    | some c =>
      obtain ⟨i, hi, hplace⟩ := h.current c hlast
      have hgrown : (Intern.intern sameKey s.nodes coord).2[i]? = some (place coords c) :=
        Intern.getElem?_extend (Intern.prefix_intern sameKey s.nodes coord) hplace
      rw [visit_edges_some coord hi, map_append, toList_some, map_singleton,
        map_singleton, getD_eq_getElem?_getD, getD_eq_getElem?_getD, hgrown, htable,
        hindex, place_append (h.mem c hlast)]
      rfl

/-- The costs between consecutive coordinates, once all of them are known. -/
def costsFrom (cosine : F64 → F64) (speed : F64) (walkMin : Option F64) (segments : Nat)
    (coords : List LonLat) (path : List LonLat) : List F64 :=
  (path.zip path.tail).map fun pair =>
    edgeCost cosine speed walkMin segments (place coords pair.1) (place coords pair.2)

theorem Visited.visits : ∀ (rest : List LonLat) {coords : List LonLat} {last : Option LonLat}
    {s : Laying}, Visited coords last s → ∀ more : List LonLat,
      (rest.foldl (Laying.visit cosine speed walkMin segments) s).nodes = tableOf (coords ++ rest) ∧
      (rest.foldl (Laying.visit cosine speed walkMin segments) s).edges.map Prod.snd =
        s.edges.map Prod.snd ++ costsFrom cosine speed walkMin segments (coords ++ rest ++ more)
          (last.toList ++ rest)
  | [], coords, last, s, h, more => by
    have hnone : costsFrom cosine speed walkMin segments (coords ++ [] ++ more)
        (last.toList ++ []) = [] := by
      cases last with
      | none => rfl
      | some c => rfl
    rw [hnone, append_nil, append_nil]
    exact ⟨h.nodes, rfl⟩
  | coord :: rest, coords, last, s, h, more => by
    obtain ⟨hvisited, hedges⟩ := @Visited.visit cosine speed coords s walkMin segments last h coord
    have hsplit : coords ++ coord :: rest = coords ++ [coord] ++ rest := by simp
    obtain ⟨hnodes, hcosts⟩ := Visited.visits rest hvisited more
    rw [foldl_cons, hsplit]
    refine ⟨hnodes, ?_⟩
    rw [hcosts, hedges, append_assoc]
    refine congrArg (s.edges.map Prod.snd ++ ·) ?_
    have hcoord : coord ∈ coords ++ [coord] := mem_append_right _ (mem_singleton_self _)
    cases hlast : last with
    | none => rfl
    | some c =>
      have hc : c ∈ coords ++ [coord] := mem_append_left _ (h.mem c hlast)
      have hplace : ∀ x ∈ coords ++ [coord],
          place (coords ++ [coord] ++ rest ++ more) x = place (coords ++ [coord]) x := by
        intro x hx
        rw [append_assoc, place_append hx]
      rw [toList_some, map_singleton, ← hplace c hc, ← hplace coord hcoord]
      rfl

end Costs

def coordsOf (lines : List Line) : List LonLat := lines.flatMap Line.coords

section Lines

variable {cosine : F64 → F64} {speed : F64}

theorem lay_line {coords : List LonLat} {s : Laying} (h : s.nodes = tableOf coords) (line : Line)
    (more : List LonLat) :
    (s.lay cosine speed line).nodes = tableOf (coords ++ line.coords) ∧
      (s.lay cosine speed line).edges.map Prod.snd = s.edges.map Prod.snd ++
        lineCosts cosine speed (coords ++ line.coords ++ more) line := by
  have hfresh : Visited coords none
      { s with previous := none, known := fun _ h => (by cases h) } :=
    ⟨h, fun _ hc => (by cases hc), fun _ => rfl, fun _ hc => (by cases hc)⟩
  exact hfresh.visits line.coords more

theorem lay_lines : ∀ (lines : List Line) {coords : List LonLat} {s : Laying},
    s.nodes = tableOf coords →
      (lines.foldl (Laying.lay cosine speed) s).edges.map Prod.snd = s.edges.map Prod.snd ++
        lines.flatMap (lineCosts cosine speed (coords ++ coordsOf lines))
  | [], _, s, _ => by simp
  | line :: rest, coords, s, h => by
    obtain ⟨hnodes, hcosts⟩ := @lay_line cosine speed coords s h line (coordsOf rest)
    have hall : coords ++ coordsOf (line :: rest) = coords ++ line.coords ++ coordsOf rest := by
      rw [coordsOf, flatMap_cons, ← coordsOf, append_assoc]
    rw [foldl_cons, lay_lines rest hnodes, hcosts, append_assoc, flatMap_cons, hall]

theorem costs_laid (lines : List Line) :
    (lines.foldl (Laying.lay cosine speed) .start).edges.map Prod.snd =
      lines.flatMap (lineCosts cosine speed (coordsOf lines)) := by
  have h := @lay_lines cosine speed lines [] .start rfl
  rw [nil_append] at h
  exact h

end Lines

end GeneGIS.Network.Loader
