/-
A corridor declares one in-vehicle time, and every ride that is made from it gets the whole of it.
Coordinates that are no positions are passed over.
-/
import GeneGIS.Network.Loader
import GeneGIS.Network.Transit

namespace GeneGIS
namespace Network

open Loader List

section Model

-- `to_radians().cos()` of a latitude.
variable (cosine : F64 → F64)

/-- The nearest node so far, with its squared distance. -/
def nearer (scale px py : F64) (best : Option Nat × F64) (node : LonLat × Nat) : Option Nat × F64 :=
  let dx := (node.1.1.mul scale).sub px
  let dy := (node.1.2.mul metersPerDegLat).sub py
  let distance := (dx.mul dx).add (dy.mul dy)
  if distance.lt best.2 then (some node.2, distance) else best

def snapNode (walk : WalkGraph F64) (point : LonLat) : Except (NetworkError F64) Nat :=
  let scale := (metersPerDegLon cosine point.2).max (.ofRatio 1 (10 ^ 9))
  match (walk.nodes.zipIdx.foldl (nearer scale (point.1.mul scale) (point.2.mul metersPerDegLat))
      (none, .infinity false)).1 with
  | some index => .ok index
  | none => .error (.routing "graph has no nodes")

def readPosition (value : Json) : Option LonLat := do
  let values ← value.asArray?
  let lon ← (values[0]?).bind asF64?
  let lat ← (values[1]?).bind asF64?
  return (lon, lat)

/-- What a feature says of its corridor. -/
structure Corridor where
  coords : List Json
  line : String
  waitMinutes : F64
  rideMinutes : Option F64

variable (walk : WalkGraph F64)

/-- The ride between two stops, unless they are one. -/
def Corridor.ride (corridor : Corridor) (pair : LonLat × LonLat) :
    Except (NetworkError F64) (List (RideEdge F64)) := do
  let start ← snapNode cosine walk pair.1
  let target ← snapNode cosine walk pair.2
  if start = target then
    return []
  else
    return [{ fromWalkNode := start, toWalkNode := target, line := corridor.line
              rideMinutes := corridor.rideMinutes.getD
                ((segmentLengthM cosine pair.1 pair.2).div (.ofNat 500))
              waitMinutes := corridor.waitMinutes }]

def Corridor.rides (corridor : Corridor) : Except (NetworkError F64) (List (RideEdge F64)) := do
  let points := corridor.coords.filterMap readPosition
  if points.length < 2 then
    reject "corridor needs at least two coordinates"
  else
    let rides ← (points.zip points.tail).mapM (corridor.ride cosine walk)
    return rides.flatten

def textOf (key : String) (props : Json) : String := ((props.get? key).bind Json.asStr?).getD ""

/-- The corridor of a feature, if it is one. -/
def readCorridor (props geometry : Json) : Except (NetworkError F64) (Option Corridor) :=
  let mode := textOf "mode" props
  if textOf "type" geometry = "LineString" ∧ (mode = "rail" ∨ mode = "bus") then do
    let coords ← require "corridor without coordinates"
      ((geometry.get? "coordinates").bind Json.asArray?)
    return some ⟨coords, ((props.get? "line").bind Json.asStr?).getD mode,
      ((props.get? "wait_minutes").bind asF64?).getD (.ofNat 5),
      (props.get? "ride_minutes").bind asF64?⟩
  else return none

/-- The stop of a feature, if it is one. -/
def readStop (props geometry : Json) : Except (NetworkError F64) (Option TransitStop) :=
  if textOf "type" geometry = "Point" ∧ (props.get? "kind").bind Json.asStr? = some "stop" then do
    let coords ← require "stop Point without coordinates"
      ((geometry.get? "coordinates").bind Json.asArray?)
    let lon ← require "stop longitude missing" ((coords[0]?).bind asF64?)
    let lat ← require "stop latitude missing" ((coords[1]?).bind asF64?)
    let walkNode ← snapNode cosine walk (lon, lat)
    return some ⟨((props.get? "id").bind Json.asStr?).getD "stop", walkNode,
      (((textOf "lines" props).toList.splitOn ',').map String.ofList).filter (· ≠ "")⟩
  else return none

def readTransit (feature : Json) :
    Except (NetworkError F64) (List TransitStop × List (RideEdge F64)) := do
  let props := (feature.get? "properties").getD (.obj [])
  let geometry ← require "transit feature without geometry" (feature.get? "geometry")
  match ← readStop cosine walk props geometry with
  | some stop => return ([stop], [])
  | none =>
    match ← readCorridor props geometry with
    | some corridor => return ([], ← corridor.rides cosine walk)
    | none => return ([], [])

/-- What `load_transit_corridors` makes of a document. -/
def loadTransitCorridors (parsed : Json) :
    Except (NetworkError F64) (List TransitStop × List (RideEdge F64)) :=
  if (parsed.get? "type").bind Json.asStr? ≠ some "FeatureCollection" then
    reject "transit fixture must be a FeatureCollection"
  else do
    let features ← require "transit fixture lacks features"
      ((parsed.get? "features").bind Json.asArray?)
    let parts ← features.mapM (readTransit cosine walk)
    if (parts.flatMap Prod.snd).isEmpty then
      reject "no transit ride corridors parsed from the transit fixture"
    else
      return (parts.flatMap Prod.fst, parts.flatMap Prod.snd)

/-! ## The rides of one corridor -/

/-- From node to node, without the steps that stay. -/
def moves (nodes : List Nat) : List (Nat × Nat) :=
  (nodes.zip nodes.tail).filter fun step => step.1 ≠ step.2

/-- Every coordinate is a stop, the rides join the stops in order, and their times add up to that of
the corridor. -/
def Corridor.Timed (corridor : Corridor) (total : F64) (rides : List (RideEdge F64)) : Prop :=
  ∃ (points : List LonLat) (nodes : List Nat), corridor.coords.map readPosition = points.map some ∧
    points.mapM (snapNode cosine walk) = .ok nodes ∧
    rides.map (fun ride => (ride.fromWalkNode, ride.toWalkNode)) = moves nodes ∧
    (rides.map fun ride => ride.rideMinutes.rank).sum = total.rank

/-- Every coordinate is a position, and one step alone leads from a node to another. -/
def Corridor.Single (corridor : Corridor) (total : F64) : Prop :=
  ∃ (points : List LonLat) (nodes : List Nat), corridor.coords.map readPosition = points.map some ∧
    points.mapM (snapNode cosine walk) = .ok nodes ∧
    ((moves nodes).length = 1 ∨ total.rank = 0)

def Corridor.Of (feature : Json) (corridor : Corridor) : Prop :=
  ∃ geometry, feature.get? "geometry" = some geometry ∧
    readCorridor ((feature.get? "properties").getD (.obj [])) geometry = .ok (some corridor)

open Fallible

variable {cosine walk} {corridor : Corridor} {total : F64}

theorem ride_ok {pair : LonLat × LonLat} {rides : List (RideEdge F64)}
    (h : corridor.ride cosine walk pair = .ok rides) : ∃ start target,
      snapNode cosine walk pair.1 = .ok start ∧ snapNode cosine walk pair.2 = .ok target ∧
      rides.map (fun ride => (ride.fromWalkNode, ride.toWalkNode)) =
        ([(start, target)].filter fun step => step.1 ≠ step.2) ∧
      ∀ ride ∈ rides, ∀ total, corridor.rideMinutes = some total → ride.rideMinutes = total := by
  obtain ⟨start, hstart, h⟩ := bind_iff.mp h
  obtain ⟨target, htarget, h⟩ := bind_iff.mp h
  refine ⟨start, target, hstart, htarget, ?_⟩
  by_cases hsame : start = target
  · rw [if_pos hsame] at h
    cases h
    simp [hsame]
  · rw [if_neg hsame] at h
    cases h
    refine ⟨by simp [hsame], fun ride hride total htotal => ?_⟩
    rw [mem_singleton.mp hride, htotal]
    rfl

/-- The rides between consecutive points lead from stop to stop. -/
theorem rides_moves {point : LonLat} {rest : List LonLat} {made : List (List (RideEdge F64))}
    (hne : rest ≠ [])
    (h : ((point :: rest).zip rest).mapM (corridor.ride cosine walk) = .ok made) :
    ∃ nodes, (point :: rest).mapM (snapNode cosine walk) = .ok nodes ∧
      made.flatten.map (fun ride => (ride.fromWalkNode, ride.toWalkNode)) = moves nodes ∧
      ∀ ride ∈ made.flatten, ∀ total, corridor.rideMinutes = some total →
        ride.rideMinutes = total := by
  induction rest generalizing point made with
  | nil => exact absurd rfl hne
  | cons next rest ih =>
    rw [zip_cons_cons, mapM_cons] at h
    obtain ⟨first, hfirst, h⟩ := bind_iff.mp h
    obtain ⟨others, hothers, h⟩ := bind_iff.mp h
    cases h
    obtain ⟨start, target, hstart, htarget, hends, htimes⟩ := ride_ok hfirst
    have hrest : ∃ nodes, (next :: rest).mapM (snapNode cosine walk) = .ok (target :: nodes) ∧
        others.flatten.map (fun ride => (ride.fromWalkNode, ride.toWalkNode)) =
          moves (target :: nodes) ∧
        ∀ ride ∈ others.flatten, ∀ total, corridor.rideMinutes = some total →
          ride.rideMinutes = total := by
      cases rest with
      | nil =>
        obtain rfl : others = [] := (Except.ok.inj hothers).symm
        refine ⟨[], ?_, rfl, by simp⟩
        rw [mapM_cons, htarget]
        rfl
      | cons after rest =>
        obtain ⟨nodes, hnodes, hmoves, hall⟩ := ih (cons_ne_nil _ _) hothers
        have hsnap := hnodes
        rw [mapM_cons, htarget] at hsnap
        obtain ⟨_, hsame, hsnap⟩ := bind_iff.mp hsnap
        cases hsame
        obtain ⟨more, -, hmore⟩ := bind_iff.mp hsnap
        cases hmore
        exact ⟨more, hnodes, hmoves, hall⟩
    obtain ⟨nodes, hnodes, hmoves, hall⟩ := hrest
    refine ⟨start :: target :: nodes, ?_, ?_, ?_⟩
    · rw [mapM_cons, hstart, hnodes]
      rfl
    · have hstep : moves (start :: target :: nodes) =
          ([(start, target)].filter fun step => step.1 ≠ step.2) ++ moves (target :: nodes) := by
        rw [moves, moves, tail_cons, zip_cons_cons, filter_cons]
        by_cases hsame : start = target <;> simp [hsame]
      rw [flatten_cons, map_append, hends, hmoves, hstep]
    · intro ride hride
      rw [flatten_cons, mem_append] at hride
      exact hride.elim (htimes ride) (hall ride)

theorem corridor_timed_iff {rides : List (RideEdge F64)}
    (h : corridor.rides cosine walk = .ok rides) (htotal : corridor.rideMinutes = some total) :
    corridor.Timed cosine walk total rides ↔ corridor.Single cosine walk total := by
  rw [Corridor.rides] at h
  split_ifs at h with hshort
  · cases h
  obtain ⟨made, hmade, h⟩ := bind_iff.mp h
  cases h
  have hmoves : ∃ nodes,
      (corridor.coords.filterMap readPosition).mapM (snapNode cosine walk) = .ok nodes ∧
      made.flatten.map (fun ride => (ride.fromWalkNode, ride.toWalkNode)) = moves nodes ∧
      ∀ ride ∈ made.flatten, ride.rideMinutes = total := by
    match hpoints : corridor.coords.filterMap readPosition with
    | [] => simp [hpoints] at hshort
    | [_] => simp [hpoints] at hshort
    | point :: next :: rest =>
      rw [hpoints] at hmade
      obtain ⟨nodes, hnodes, hends, htimes⟩ := rides_moves (cons_ne_nil _ _) hmade
      exact ⟨nodes, hnodes, hends, fun ride hride => htimes ride hride total htotal⟩
  obtain ⟨nodes, hnodes, hends, htimes⟩ := hmoves
  have hread : ∀ points : List LonLat, corridor.coords.map readPosition = points.map some →
      corridor.coords.filterMap readPosition = points := by
    intro points hpoints
    calc corridor.coords.filterMap readPosition
        = (corridor.coords.map readPosition).filterMap id := by rw [filterMap_map]; rfl
      _ = points := by rw [hpoints, filterMap_map]; simp
  have hsum : (made.flatten.map fun ride => ride.rideMinutes.rank).sum =
      (moves nodes).length * total.rank := by
    have hconst : made.flatten.map (fun ride => ride.rideMinutes.rank) =
        replicate made.flatten.length total.rank :=
      map_eq_replicate_iff.mpr fun ride hride => by rw [htimes ride hride]
    rw [hconst, sum_replicate, ← hends, length_map, nsmul_eq_mul]
  refine exists_congr fun points => exists_congr fun nodes' => and_congr_right fun hpoints =>
    and_congr_right fun hnodes' => ?_
  rw [hread points hpoints, hnodes'] at hnodes
  cases hnodes
  rw [and_iff_right hends, hsum, mul_left_eq_self₀, Nat.cast_eq_one]

theorem readTransit_corridor {feature : Json} {part : List TransitStop × List (RideEdge F64)}
    (h : readTransit cosine walk feature = .ok part) (hof : Corridor.Of feature corridor) :
    corridor.rides cosine walk = .ok part.2 := by
  obtain ⟨geometry, hgeometry, hcorridor⟩ := hof
  have hline : textOf "type" geometry = "LineString" := by
    rw [readCorridor] at hcorridor
    split_ifs at hcorridor with hline
    · exact hline.1
    · cases hcorridor
  have hstop : readStop cosine walk ((feature.get? "properties").getD (.obj [])) geometry =
      .ok none := by
    rw [readStop, if_neg fun hpoint => absurd (hline.symm.trans hpoint.1) (by decide)]
    rfl
  obtain ⟨geometry', hgeometry', h⟩ := bind_iff.mp h
  rw [hgeometry] at hgeometry'
  cases hgeometry'
  rw [hstop] at h
  obtain ⟨_, hnone, h⟩ := bind_iff.mp h
  cases hnone
  obtain ⟨found, hfound, h⟩ := bind_iff.mp h
  rw [hcorridor] at hfound
  cases hfound
  obtain ⟨rides, hrides, h⟩ := bind_iff.mp h
  cases h
  exact hrides

end Model

/-- The rides come feature by feature, and those of a corridor take its declared time exactly when
its coordinates are positions and one step of it is a ride. -/
theorem loadTransitCorridors_timed_iff (cosine : F64 → F64) (walk : WalkGraph F64) (parsed : Json)
    (stops : List TransitStop) (rides : List (RideEdge F64))
    (h : loadTransitCorridors cosine walk parsed = .ok (stops, rides)) :
    ∃ features made, (parsed.get? "features").bind Json.asArray? = some features ∧
      rides = made.flatten ∧
      Forall₂ (fun feature rides => ∀ corridor, Corridor.Of feature corridor →
        corridor.rides cosine walk = .ok rides ∧
        ∀ total, corridor.rideMinutes = some total →
          (corridor.Timed cosine walk total rides ↔ corridor.Single cosine walk total))
        features made := by
  rw [loadTransitCorridors] at h
  split_ifs at h
  · cases h
  obtain ⟨features, hfeatures, h⟩ := Fallible.bind_iff.mp h
  obtain ⟨parts, hparts, h⟩ := Fallible.bind_iff.mp h
  split_ifs at h
  · cases h
  have hrides : parts.flatMap Prod.snd = rides := congrArg Prod.snd (Except.ok.inj h)
  refine ⟨features, parts.map Prod.snd, ?_, hrides.symm, ?_⟩
  · cases hread : (parsed.get? "features").bind Json.asArray? with
    | none => rw [hread] at hfeatures; cases hfeatures
    | some found => rw [hread] at hfeatures; exact congrArg some (Except.ok.inj hfeatures)
  · refine forall₂_map_right_iff.mpr ((Each.mapM_ok.mp hparts).imp ?_)
    intro feature part hpart corridor hof
    have hmade := readTransit_corridor hpart hof
    exact ⟨hmade, fun total htotal => corridor_timed_iff hmade htotal⟩

/-- A rail of three stops, which takes twice the ten minutes that it declares. -/
def threeStops : Json := .obj [("type", .str "FeatureCollection"), ("features", .arr [.obj [
    ("properties", .obj [("mode", .str "rail"), ("ride_minutes", .num (.int 10))]),
    ("geometry", .obj [("type", .str "LineString"), ("coordinates", .arr
      [.arr [.num (.int 0), .num (.int 0)], .arr [.num (.int 1), .num (.int 0)],
        .arr [.num (.int 2), .num (.int 0)]])])]])]

def threeNodes : WalkGraph F64 :=
  { nodes := [(.ofNat 0, .ofNat 0), (.ofNat 1, .ofNat 0), (.ofNat 2, .ofNat 0)]
    adjacency := [[], [], []], edgeCount := 0, totalLengthM := .ofNat 0
    walkSpeedMPerMin := .ofNat 80, rows := rfl, closed := by simp }

theorem threeStops_ok : ∃ stops rides,
    loadTransitCorridors (fun _ => .ofNat 1) threeNodes threeStops = .ok (stops, rides) := by
  cases h : loadTransitCorridors (fun _ => .ofNat 1) threeNodes threeStops with
  | ok loaded => exact ⟨loaded.1, loaded.2, rfl⟩
  | error e =>
    have hok : (loadTransitCorridors (fun _ => .ofNat 1) threeNodes threeStops).toOption.isSome =
        true := by decide +kernel
    rw [h] at hok
    cases hok

theorem loadTransitCorridors_timed_iff_threeStops : ∃ rides features made, rides = made.flatten ∧
    Forall₂ (fun feature rides => ∀ corridor, Corridor.Of feature corridor →
      corridor.rides (fun _ => .ofNat 1) threeNodes = .ok rides ∧
      ∀ total, corridor.rideMinutes = some total →
        (corridor.Timed (fun _ => .ofNat 1) threeNodes total rides ↔
          corridor.Single (fun _ => .ofNat 1) threeNodes total)) features made := by
  obtain ⟨stops, rides, h⟩ := threeStops_ok
  obtain ⟨features, made, -, hrides, hall⟩ :=
    loadTransitCorridors_timed_iff _ threeNodes threeStops stops rides h
  exact ⟨rides, features, made, hrides, hall⟩

theorem loadTransitCorridors_doubled : ∃ stops rides,
    loadTransitCorridors (fun _ => .ofNat 1) threeNodes threeStops = .ok (stops, rides) ∧
    rides.map (fun ride => (ride.fromWalkNode, ride.toWalkNode)) = [(0, 1), (1, 2)] ∧
    (rides.map fun ride => ride.rideMinutes.rank).sum ≠ (F64.ofNat 10).rank := by
  obtain ⟨stops, rides, h⟩ := threeStops_ok
  have hends : (loadTransitCorridors (fun _ => .ofNat 1) threeNodes threeStops).toOption.map
      (fun loaded => loaded.2.map fun ride => (ride.fromWalkNode, ride.toWalkNode)) =
        some [(0, 1), (1, 2)] := by decide +kernel
  have hsum : (loadTransitCorridors (fun _ => .ofNat 1) threeNodes threeStops).toOption.map
      (fun loaded => (loaded.2.map fun ride => ride.rideMinutes.rank).sum) ≠
        some (F64.ofNat 10).rank := by decide +kernel
  rw [h] at hends hsum
  exact ⟨stops, rides, h, Option.some.inj hends, fun heq => hsum (congrArg some heq)⟩

end Network
end GeneGIS
