/-
Boarding a line costs the wait, and the transfer penalty when another line is left for it.  The
search keeps one time for each node, whatever line it was reached on.
-/
import GeneGIS.Data.Each
import GeneGIS.Data.LabelSearch
import GeneGIS.Network.TravelTimes

namespace GeneGIS.Network

open Quantity LabelSearch List

inductive TransitError where
  | storage (reason : String)
  | invalid (reason : String)
  | routing (reason : String)

structure TransitStop where
  id : String
  walkNode : Nat
  lines : List String

structure RideEdge (F : Type) where
  fromWalkNode : Nat
  toWalkNode : Nat
  line : String
  rideMinutes : F
  /-- Expected wait at the boarding stop. -/
  waitMinutes : F

/-- Where a ride boarded at a node leads. -/
def RideEdge.alightNode {F : Type} (ride : RideEdge F) (boardNode : Nat) : Nat :=
  if ride.fromWalkNode = boardNode then ride.toWalkNode else ride.fromWalkNode

structure TransitGraph (F : Type) where
  walk : WalkGraph F
  stops : List TransitStop
  rides : List (RideEdge F)
  transferPenaltyMinutes : F

namespace TransitGraph

section Model

variable {F : Type} [Quantity F]

def checkStop (nodeCount : Nat) (stop : TransitStop) : Except TransitError Unit :=
  if (Text.trim stop.id).isEmpty || stop.lines.isEmpty then
    .error (.invalid ("stop " ++ stop.id ++ " has no id or no lines"))
  else if nodeCount ≤ stop.walkNode then
    .error (.invalid ("stop " ++ stop.id ++ " snaps outside the walk graph"))
  else .ok ()

def checkRide (nodeCount : Nat) (ride : RideEdge F) : Except TransitError Unit :=
  if !isFinite ride.rideMinutes || lt ride.rideMinutes (ofNat 0) then
    .error (.invalid ("ride " ++ ride.line ++ " has an invalid ride time"))
  else if !(isFinite ride.waitMinutes && le (ofNat 0) ride.waitMinutes) then
    .error (.invalid ("ride " ++ ride.line ++ " has an invalid wait time"))
  else if nodeCount ≤ ride.fromWalkNode ∨ nodeCount ≤ ride.toWalkNode then
    .error (.invalid ("ride " ++ ride.line ++ " references a node outside the walk graph"))
  else .ok ()

def new (walk : WalkGraph F) (stops : List TransitStop) (rides : List (RideEdge F))
    (transferPenaltyMinutes : F) : Except TransitError (TransitGraph F) := do
  if !(le (ofNat 0) transferPenaltyMinutes && isFinite transferPenaltyMinutes) then
    .error (.invalid "transfer penalty must be finite and non-negative")
  else
    stops.forM (checkStop walk.nodes.length)
    rides.forM (checkRide walk.nodes.length)
    return ⟨walk, stops, rides, transferPenaltyMinutes⟩

/-- The line of an entry is the one it was reached on. -/
abbrev Entry (F : Type) := Arrival F (Option String)

/-- The cheapest entry is the greatest; of equal ones it is that of the last node. -/
def Entry.cmp (a b : Entry F) : Ordering :=
  (WalkGraph.costOrder b.cost a.cost).then (compare a.node b.node)

variable (graph : TransitGraph F) (node : Nat)

def ridesByNode : List (RideEdge F) := graph.rides.flatMap fun ride =>
    (if ride.fromWalkNode = node then [ride] else []) ++
      if ride.toWalkNode = node then [ride] else []

variable (entry : Entry F)

def walkNext (slot : Slot F) : Entry F :=
  { cost := add entry.cost slot.2, node := slot.1, via := none }

def rideNext (ride : RideEdge F) : Entry F :=
  let isNewLine := entry.via != some ride.line
  let wait := if isNewLine then ride.waitMinutes else ofNat 0
  let transfer := if isNewLine && entry.via.isSome then graph.transferPenaltyMinutes else ofNat 0
  { cost := add (add (add entry.cost wait) transfer) ride.rideMinutes
    node := ride.alightNode entry.node
    via := some ride.line }

/-- The walk edges of a node, and then its rides. -/
def successors : List (Entry F) := (graph.walk.row entry.node).map (walkNext entry) ++
    (graph.ridesByNode entry.node).map (graph.rideNext entry)

def improves (next known : F) : Bool := lt next (sub known slack)

def stale (cost known : F) : Bool := lt (add known slack) cost

def origin : Entry F := { cost := ofNat 0, node := node, via := none }

def degree : Nat := (graph.walk.row node).length + (graph.ridesByNode node).length

/-- As many rounds as there are ways on, and one more. -/
def rounds : Nat := ((List.range graph.walk.nodes.length).map graph.degree).sum + 1

def searched : Search F (Option String) :=
  search Entry.cmp improves stale graph.successors graph.walk.nodes.length graph.rounds (origin node)

def travelTimesFrom : List (Option F) := (graph.searched node).distances

end Model

/-! ## Itineraries -/

section Exact

variable {K : Type} [Field K] [LinearOrder K] {graph : TransitGraph K}

/-- What boarding a ride costs someone who arrives on a line, or on foot. -/
def boarding (graph : TransitGraph K) (line : Option String) (ride : RideEdge K) : K :=
  if line = some ride.line then 0
  else ride.waitMinutes + if line.isSome then graph.transferPenaltyMinutes else 0

/-- Walks and rides one after the other: the line of the last ride, the node and the cost. -/
inductive Itinerary (graph : TransitGraph K) (start : Nat) : Option String → Nat → K → Prop where
  | start : Itinerary graph start none start 0
  | walk {line : Option String} {node other : Nat} {cost minutes : K}
      (h : Itinerary graph start line node cost) (hedge : graph.walk.edge node other minutes) :
      Itinerary graph start none other (cost + minutes)
  | ride {line : Option String} {node other : Nat} {cost : K} {ride : RideEdge K}
      (h : Itinerary graph start line node cost) (hride : ride ∈ graph.rides)
      (hends : ride.fromWalkNode = node ∧ ride.toWalkNode = other ∨
        ride.toWalkNode = node ∧ ride.fromWalkNode = other) :
      Itinerary graph start (some ride.line) other
        (cost + graph.boarding line ride + ride.rideMinutes)

variable {ride : RideEdge K}

omit [Field K] [LinearOrder K] in
theorem mem_ridesByNode {node : Nat} : ride ∈ graph.ridesByNode node ↔
    ride ∈ graph.rides ∧ (ride.fromWalkNode = node ∨ ride.toWalkNode = node) := by
  rw [ridesByNode, mem_flatMap]
  constructor
  · intro h
    obtain ⟨given, hgiven, hmem⟩ := h
    rcases mem_append.mp hmem with hmem | hmem
    · split_ifs at hmem with hnode
      · rw [mem_singleton.mp hmem]
        exact ⟨hgiven, .inl hnode⟩
      · cases hmem
    · split_ifs at hmem with hnode
      · rw [mem_singleton.mp hmem]
        exact ⟨hgiven, .inr hnode⟩
      · cases hmem
  · intro h
    obtain ⟨hride, hnode⟩ := h
    refine ⟨ride, hride, mem_append.mpr ?_⟩
    rcases hnode with hnode | hnode
    · exact Or.inl (by rw [if_pos hnode]; exact mem_singleton_self _)
    · exact Or.inr (by rw [if_pos hnode]; exact mem_singleton_self _)

omit [Field K] [LinearOrder K] in
theorem alightNode_ends {node : Nat} (h : ride.fromWalkNode = node ∨ ride.toWalkNode = node) :
    ride.fromWalkNode = node ∧ ride.toWalkNode = ride.alightNode node ∨
      ride.toWalkNode = node ∧ ride.fromWalkNode = ride.alightNode node := by
  rw [RideEdge.alightNode]
  by_cases hfrom : ride.fromWalkNode = node
  · rw [if_pos hfrom]
    exact Or.inl ⟨hfrom, rfl⟩
  · rw [if_neg hfrom]
    exact Or.inr ⟨h.resolve_left hfrom, rfl⟩

omit [Field K] [LinearOrder K] in
theorem alightNode_of_ends {node other : Nat}
    (h : ride.fromWalkNode = node ∧ ride.toWalkNode = other ∨
      ride.toWalkNode = node ∧ ride.fromWalkNode = other) : ride.alightNode node = other := by
  rw [RideEdge.alightNode]
  rcases h with ⟨hfrom, hto⟩ | ⟨hto, hfrom⟩
  · rw [if_pos hfrom, hto]
  · by_cases hloop : ride.fromWalkNode = node
    · rw [if_pos hloop, hto, ← hfrom, hloop]
    · rw [if_neg hloop, hfrom]

theorem rideNext_cost (entry : Entry K) (ride : RideEdge K) : (graph.rideNext entry ride).cost =
      entry.cost + graph.boarding entry.via ride + ride.rideMinutes := by
  have hzero : (ofNat 0 : K) = 0 := Nat.cast_zero
  have hcost : (graph.rideNext entry ride).cost =
      entry.cost + (if (entry.via != some ride.line) = true then ride.waitMinutes else ofNat 0) +
        (if (entry.via != some ride.line && entry.via.isSome) = true then
          graph.transferPenaltyMinutes else ofNat 0) + ride.rideMinutes := rfl
  rw [hcost, boarding, hzero]
  by_cases hsame : entry.via = some ride.line
  · have hnot : (entry.via != some ride.line) = false := by rw [hsame, bne_self_eq_false]
    rw [hnot, if_pos hsame, Bool.false_and, if_neg Bool.false_ne_true, if_neg Bool.false_ne_true,
      add_zero]
  · have hnew : (entry.via != some ride.line) = true := bne_iff_ne.mpr hsame
    rw [hnew, if_neg hsame, Bool.true_and, if_pos rfl, add_assoc entry.cost]

theorem possible_iff {start : Nat} {entry : Entry K} :
    Possible graph.successors (origin start) entry ↔
      Itinerary graph start entry.via entry.node entry.cost := by
  have hzero : (ofNat 0 : K) = 0 := Nat.cast_zero
  constructor
  · intro h
    obtain ⟨n, h⟩ := h
    induction h with
    | start =>
      show Itinerary graph start none start (ofNat 0)
      rw [hzero]
      exact .start
    | next _ _ hnext ih =>
      rcases mem_append.mp hnext with hnext | hnext
      · obtain ⟨slot, hslot, rfl⟩ := mem_map.mp hnext
        exact .walk ih hslot
      · obtain ⟨ride, hride, rfl⟩ := mem_map.mp hnext
        obtain ⟨hride, hnode⟩ := mem_ridesByNode.mp hride
        rw [rideNext_cost]
        exact .ride ih hride (alightNode_ends hnode)
  · intro h
    obtain ⟨cost, node, via⟩ := entry
    dsimp only at h
    induction h with
    | start =>
      rw [← hzero]
      exact ⟨0, .start⟩
    | @walk line node other cost minutes _ hedge ih =>
      obtain ⟨n, ih⟩ := ih
      refine ⟨n + 1, .next ih trivial (mem_append_left _ (mem_map.mpr ?_))⟩
      exact ⟨(other, minutes), hedge, rfl⟩
    | @ride line node other cost ride _ hride hends ih =>
      obtain ⟨n, ih⟩ := ih
      have hnode : ride.fromWalkNode = node ∨ ride.toWalkNode = node := by
        rcases hends with hends | hends
        · exact .inl hends.1
        · exact .inr hends.1
      refine ⟨n + 1, .next ih trivial (mem_append_right _ (mem_map.mpr ?_))⟩
      refine ⟨ride, mem_ridesByNode.mpr ⟨hride, hnode⟩, ?_⟩
      have hcost := @rideNext_cost K _ _ graph ⟨cost, node, line⟩ ride
      rw [← hcost, ← alightNode_of_ends hends]
      rfl

/-- What `new` checks, apart from the stops. -/
structure Accepted (graph : TransitGraph K) : Prop where
  transfer : 0 ≤ graph.transferPenaltyMinutes
  minutes : ∀ ride ∈ graph.rides, 0 ≤ ride.rideMinutes ∧ 0 ≤ ride.waitMinutes
  inside : ∀ ride ∈ graph.rides, ride.fromWalkNode < graph.walk.nodes.length ∧
    ride.toWalkNode < graph.walk.nodes.length

theorem checkRide_ok {count : Nat} (h : checkRide count ride = .ok ()) :
    (0 ≤ ride.rideMinutes ∧ 0 ≤ ride.waitMinutes) ∧
      ride.fromWalkNode < count ∧ ride.toWalkNode < count := by
  have hzero : (ofNat 0 : K) = 0 := Nat.cast_zero
  rw [checkRide, hzero] at h
  split_ifs at h with hminutes hwait hnodes
  have hminutes : ¬ (decide (ride.rideMinutes < 0)) = true := hminutes
  have hwait : ¬ (!decide (0 ≤ ride.waitMinutes)) = true := hwait
  rw [decide_eq_true_eq, not_lt] at hminutes
  rw [Bool.not_eq_true, Bool.not_eq_false', decide_eq_true_eq] at hwait
  rw [not_or, Nat.not_le, Nat.not_le] at hnodes
  exact ⟨⟨hminutes, hwait⟩, hnodes⟩

theorem new_accepted {walk : WalkGraph K} {stops : List TransitStop} {rides : List (RideEdge K)}
    {penalty : K} (h : new walk stops rides penalty = .ok graph) :
    graph.walk = walk ∧ graph.Accepted := by
  have hzero : (ofNat 0 : K) = 0 := Nat.cast_zero
  rw [new, hzero] at h
  split_ifs at h with hpenalty
  obtain ⟨_, -, h⟩ := Fallible.bind_iff.mp h
  obtain ⟨_, hrides, h⟩ := Fallible.bind_iff.mp h
  cases h
  have hpenalty : ¬ (!(decide (0 ≤ penalty) && true)) = true := hpenalty
  rw [Bool.and_true, Bool.not_eq_true, Bool.not_eq_false', decide_eq_true_eq] at hpenalty
  have hall := Each.forM_ok.mp hrides
  exact ⟨rfl, hpenalty, fun ride hride => (checkRide_ok (hall ride hride)).1,
    fun ride hride => (checkRide_ok (hall ride hride)).2⟩

/-! ## One label for each node -/

section Labels

variable [IsStrictOrderedRing K]

theorem slack_nonneg : (0 : K) ≤ slack := by
  show (0 : K) ≤ 1 / 10 ^ 12
  positivity

theorem boarding_nonneg (h : graph.Accepted) {ride : RideEdge K} (hride : ride ∈ graph.rides)
    (line : Option String) : 0 ≤ graph.boarding line ride := by
  have hwait := (h.minutes ride hride).2
  rw [boarding]
  split_ifs
  · exact le_refl 0
  · exact add_nonneg hwait h.transfer
  · exact add_nonneg hwait (le_refl 0)

theorem rules (h : graph.Accepted) (hcosts : graph.walk.NonNegative) :
    Rules Entry.cmp improves stale graph.successors (slack : K) graph.walk.nodes.length
      graph.degree where
  cheaper a b hless := by
    by_contra hlt
    rw [not_le] at hlt
    have hnot : lt b.cost a.cost = false := decide_eq_false (not_lt_of_gt hlt)
    have hgreater : WalkGraph.costOrder b.cost a.cost = .gt := by
      rw [WalkGraph.costOrder, hnot, if_neg Bool.false_ne_true]
      exact if_pos (decide_eq_true hlt)
    rw [Entry.cmp, hgreater] at hless
    cases hless
  dearer a b hnot := by
    by_contra hlt
    rw [not_le] at hlt
    have hless : WalkGraph.costOrder b.cost a.cost = .lt := if_pos (decide_eq_true hlt)
    rw [Entry.cmp, hless] at hnot
    exact hnot rfl
  improves_iff next known := by
    show decide (next < known - slack) = true ↔ _
    rw [decide_eq_true_eq, lt_sub_iff_add_lt]
  stale_iff cost known := decide_eq_true_iff
  nonneg := slack_nonneg
  rises e next hnext := by
    rcases mem_append.mp hnext with hnext | hnext
    · obtain ⟨slot, hslot, rfl⟩ := mem_map.mp hnext
      exact le_add_of_nonneg_right (hcosts e.node slot hslot)
    · obtain ⟨ride, hride, rfl⟩ := mem_map.mp hnext
      have hride := (mem_ridesByNode.mp hride).1
      have hboarding := boarding_nonneg h hride e.via
      rw [rideNext_cost, add_assoc]
      exact le_add_of_nonneg_right (add_nonneg hboarding (h.minutes ride hride).1)
  inside e next hnext := by
    rcases mem_append.mp hnext with hnext | hnext
    · obtain ⟨slot, hslot, rfl⟩ := mem_map.mp hnext
      exact graph.walk.row_closed hslot
    · obtain ⟨ride, hride, rfl⟩ := mem_map.mp hnext
      obtain ⟨hfrom, hto⟩ := h.inside ride (mem_ridesByNode.mp hride).1
      show ride.alightNode e.node < graph.walk.nodes.length
      rw [RideEdge.alightNode]
      split_ifs
      · exact hto
      · exact hfrom
  bounded e := by
    rw [successors, length_append, length_map, length_map]
    exact le_refl _

/-- The minimum cost over all itineraries at every node, up to the slack for every node. -/
def Minimal (graph : TransitGraph K) (start : Nat) : Prop := ∀ v < graph.walk.nodes.length,
    ((graph.travelTimesFrom start)[v]? = some none ∧
      ∀ line cost, ¬ Itinerary graph start line v cost) ∨
    ∃ minutes, (graph.travelTimesFrom start)[v]? = some (some minutes) ∧
      (∃ line, Itinerary graph start line v minutes) ∧
      ∀ line cost, Itinerary graph start line v cost →
        minutes ≤ cost + graph.walk.nodes.length * slack

/-- For every itinerary there is one to the same node that is short and not dearer, on which
everyone who arrives hardly later can go on for at most the same. -/
def Interchangeable (graph : TransitGraph K) (start : Nat) : Prop :=
  Robust graph.successors (origin start) (slack : K) graph.walk.nodes.length

/-- No node is reached at the least cost, up to the slack, on two different lines. -/
def Distinguished (graph : TransitGraph K) (start : Nat) : Prop :=
  Untied graph.successors (origin start) (slack : K) graph.walk.nodes.length

variable (h : graph.Accepted) (hcosts : graph.walk.NonNegative) {start : Nat}
  (hstart : start < graph.walk.nodes.length)
include h hcosts hstart

theorem labels_searched :
    LabelSearch.step Entry.cmp improves stale graph.successors (graph.searched start) = none ∧
      (graph.travelTimesFrom start).length = graph.walk.nodes.length ∧
      Labels graph.successors (origin start) (slack : K) graph.walk.nodes.length
        (graph.searched start).known :=
  labels_search (rules h hcosts) hstart (le_refl _)

theorem getElem?_travelTimesFrom {v : Nat} (hv : v < graph.walk.nodes.length) :
    (graph.travelTimesFrom start)[v]? = some ((graph.searched start).known v) := by
  have hlength := (labels_searched h hcosts hstart).2.1
  rw [Search.known, getD_eq_getElem?_getD]
  have hin : v < (graph.travelTimesFrom start).length := hlength.symm ▸ hv
  rw [travelTimesFrom] at hin ⊢
  rw [getElem?_eq_getElem hin]
  rfl

theorem minimal_iff : graph.Minimal start ↔
    Least graph.successors (origin start) (slack : K) graph.walk.nodes.length
      (graph.searched start).known := by
  have hcount : graph.walk.nodes.length • (slack : K) = graph.walk.nodes.length * slack :=
    nsmul_eq_mul _ _
  have hbeyond : ∀ e, Possible graph.successors (origin start) e →
      e.node < graph.walk.nodes.length := by
    intro e he
    obtain ⟨n, he⟩ := he
    cases he with
    | start => exact hstart
    | next _ _ hnext => exact (rules h hcosts).inside _ _ hnext
  constructor
  · intro hminimal v
    by_cases hv : v < graph.walk.nodes.length
    · rcases hminimal v hv with ⟨hnone, hno⟩ | ⟨minutes, hsome, ⟨line, hline⟩, hle⟩
      · rw [getElem?_travelTimesFrom h hcosts hstart hv, Option.some.injEq] at hnone
        refine Or.inl ⟨hnone, fun e he hnode => ?_⟩
        exact hno e.via e.cost (hnode ▸ possible_iff.mp he)
      · rw [getElem?_travelTimesFrom h hcosts hstart hv, Option.some.injEq] at hsome
        refine .inr ⟨minutes, hsome, ⟨⟨minutes, v, line⟩, possible_iff.mpr hline, rfl, rfl⟩, ?_⟩
        intro e he hnode
        rw [hcount]
        exact hle e.via e.cost (hnode ▸ possible_iff.mp he)
    · refine Or.inl ⟨?_, fun e he hnode => hv (hnode ▸ hbeyond e he)⟩
      have hlength : (graph.searched start).distances.length = graph.walk.nodes.length :=
        (labels_searched h hcosts hstart).2.1
      rw [Search.known, getD_eq_getElem?_getD, getElem?_eq_none (by omega)]
      rfl
  · intro hleast v hv
    rw [getElem?_travelTimesFrom h hcosts hstart hv]
    rcases hleast v with ⟨hnone, hno⟩ | ⟨minutes, hsome, ⟨e, he, hnode, hcost⟩, hle⟩
    · refine Or.inl ⟨by rw [hnone], fun line cost hline => ?_⟩
      exact hno ⟨cost, v, line⟩ (possible_iff.mpr hline) rfl
    · refine .inr ⟨minutes, by rw [hsome], ⟨e.via, ?_⟩, fun line cost hline => ?_⟩
      · rw [← hnode, ← hcost]
        exact possible_iff.mp he
      · rw [← hcount]
        exact hle ⟨cost, v, line⟩ (possible_iff.mpr hline) rfl

end Labels

/-- The search ends, and its times are minimum costs where the lines on which a node is reached are
interchangeable. -/
theorem travelTimesFrom_minimal [IsStrictOrderedRing K] {walk : WalkGraph K}
    {stops : List TransitStop} {rides : List (RideEdge K)} {penalty : K}
    (h : new walk stops rides penalty = .ok graph) (hcosts : walk.NonNegative) {start : Nat}
    (hstart : start < walk.nodes.length) :
    LabelSearch.step Entry.cmp improves stale graph.successors (graph.searched start) = none ∧
      (graph.Interchangeable start → graph.Minimal start) ∧
      (graph.Distinguished start → (graph.Minimal start ↔ graph.Interchangeable start)) := by
  obtain ⟨rfl, haccepted⟩ := new_accepted h
  obtain ⟨hends, -, hlabels⟩ := labels_searched haccepted hcosts hstart
  have hiff := minimal_iff haccepted hcosts hstart
  have henough : graph.Interchangeable start → graph.Minimal start := fun hrobust =>
    hiff.mpr (hlabels.least slack_nonneg hrobust)
  refine ⟨hends, henough, fun huntied => ⟨fun hminimal => ?_, henough⟩⟩
  exact hlabels.robust slack_nonneg huntied (hiff.mp hminimal)

end Exact

/-! ## A ferry -/

theorem shoreWalk_inRange : WalkGraph.InRange 2 [(((0 : Nat), (1 : Nat)), (10 : ℚ))] := by
  simp [WalkGraph.InRange]

def shoreWalk : WalkGraph ℚ := .ofEdges [(0, 0), (1, 0)] [((0, 1), 10)] 10 1 shoreWalk_inRange

def ferryRide : RideEdge ℚ where
  fromWalkNode := 0
  toWalkNode := 1
  line := "ferry"
  rideMinutes := 1
  waitMinutes := 1

def ferry : TransitGraph ℚ := ⟨shoreWalk, [⟨"pier", 0, ["ferry"]⟩], [ferryRide], 3⟩

theorem new_ferry : new shoreWalk [⟨"pier", 0, ["ferry"]⟩] [ferryRide] 3 = .ok ferry := rfl

theorem shoreWalk_nonNegative : shoreWalk.NonNegative := by
  refine WalkGraph.nonNegative_ofEdges fun edge hedge => ?_
  rw [mem_singleton.mp hedge]
  norm_num

theorem ferry_itinerary {line : Option String} {node : Nat} {cost : ℚ}
    (h : Itinerary ferry 0 line node cost) :
    node = 0 ∧ (line = none ∧ cost = 0 ∨ 2 ≤ cost) ∨ node = 1 ∧ 2 ≤ cost := by
  have hboarding : ∀ line : Option String, 0 ≤ ferry.boarding line ferryRide := by
    intro line
    exact boarding_nonneg (new_accepted new_ferry).2 (mem_singleton_self _) line
  have hfirst : ferry.boarding none ferryRide = 1 := by decide +kernel
  have hminutes : ferryRide.rideMinutes = 1 := rfl
  induction h with
  | start => exact .inl ⟨rfl, .inl ⟨rfl, rfl⟩⟩
  | @walk line node other cost minutes _ hedge ih =>
    have hslot := (@WalkGraph.edge_ofEdges ℚ _ [(0, 0), (1, 0)] 10 1 shoreWalk_inRange node other
      minutes).mp hedge
    have hpositive : 0 ≤ cost := by
      rcases ih with ⟨-, ⟨-, hzero⟩ | hle⟩ | ⟨-, hle⟩ <;> linarith
    rcases hslot with hslot | hslot
    · obtain ⟨hends, rfl⟩ := Prod.mk.inj (mem_singleton.mp hslot)
      exact .inr ⟨(Prod.mk.inj hends).2, by linarith⟩
    · obtain ⟨hends, rfl⟩ := Prod.mk.inj (mem_singleton.mp hslot)
      exact .inl ⟨(Prod.mk.inj hends).1, .inr (by linarith)⟩
  | @ride line node other cost ride _ hride hends ih =>
    obtain rfl := mem_singleton.mp hride
    have hcharge := hboarding line
    rw [hminutes]
    rcases ih with ⟨rfl, hcase⟩ | ⟨rfl, hle⟩
    · have hother : other = 1 := by
        rcases hends with ⟨-, hto⟩ | ⟨hto, -⟩
        · exact hto.symm
        · cases hto
      refine .inr ⟨hother, ?_⟩
      rcases hcase with ⟨rfl, rfl⟩ | hle
      · rw [hfirst]
        norm_num
      · linarith
    · have hother : other = 0 := by
        rcases hends with ⟨hfrom, -⟩ | ⟨-, hfrom⟩
        · cases hfrom
        · exact hfrom.symm
      exact .inl ⟨hother, .inr (by linarith)⟩

theorem ferry_interchangeable : ferry.Interchangeable 0 := by
  have hslack : ferry.walk.nodes.length • (slack : ℚ) < 2 := by
    show 2 • (1 / 10 ^ 12 : ℚ) < 2
    norm_num
  have hzero : (origin 0 : Entry ℚ).cost = 0 := Nat.cast_zero
  have hmem : ferry.rideNext (origin 0) ferryRide ∈ ferry.successors (origin 0) :=
    mem_append_right _ (mem_singleton_self _)
  have hcost : (ferry.rideNext (origin 0) ferryRide).cost = 2 := by decide +kernel
  intro e he
  rcases ferry_itinerary (possible_iff.mp he) with ⟨hnode, hcase⟩ | ⟨hnode, hle⟩
  · refine ⟨origin 0, 0, hnode.symm, ?_, Nat.zero_le _, .start⟩
    rw [hzero]
    rcases hcase with ⟨-, hcase⟩ | hcase
    · exact hcase.ge
    · linarith
  · refine ⟨_, 1, hnode.symm, hcost.trans_le hle, by decide, .next .start ?_ hmem⟩
    -- nobody else is on the first shore before a ride there and back
    intro other hother hsame hclose
    rw [hzero, zero_add] at hclose
    rcases ferry_itinerary (possible_iff.mp hother) with ⟨-, ⟨hline, hfree⟩ | hlate⟩ | ⟨hfar, -⟩
    · have hself : other = origin 0 := by
        obtain ⟨cost, node, via⟩ := other
        exact congr (congr (congrArg Arrival.mk (hfree.trans hzero.symm)) hsame) hline
      rw [hself]
      exact ⟨_, hmem, rfl, le_refl _⟩
    · exact absurd (hlate.trans hclose) (not_le_of_gt hslack)
    · rw [hsame] at hfar
      cases hfar

theorem travelTimesFrom_minimal_ferry : ferry.Minimal 0 :=
  (travelTimesFrom_minimal new_ferry shoreWalk_nonNegative (by decide)).2.1 ferry_interchangeable

def twoLinesWalk : WalkGraph ℚ :=
  .ofEdges [(0, 0), (1, 0), (2, 0)] [((0, 1), 100), ((1, 2), 100)] 200 1 (by simp [WalkGraph.InRange])

def slowRide : RideEdge ℚ := ⟨0, 1, "b", 2, 0⟩

def onwardRide : RideEdge ℚ := ⟨1, 2, "b", 1, 10⟩

def twoLinesRides : List (RideEdge ℚ) := [⟨0, 1, "a", 1, 0⟩, slowRide, onwardRide]

def twoLines : TransitGraph ℚ := ⟨twoLinesWalk, [], twoLinesRides, 0⟩

/-- Line `a` is faster to the second place, so line `b` has to be waited for there. -/
theorem travelTimesFrom_not_minimal : new twoLinesWalk [] twoLinesRides 0 = .ok twoLines ∧
    twoLinesWalk.NonNegative ∧ ¬ twoLines.Minimal 0 := by
  have htimes : twoLines.travelTimesFrom 0 = [some 0, some 1, some 12] := by decide +kernel
  refine ⟨rfl, ?_, fun hminimal => ?_⟩
  · refine WalkGraph.nonNegative_ofEdges fun edge hedge => ?_
    simp only [List.mem_cons, List.not_mem_nil, or_false] at hedge
    rcases hedge with rfl | rfl
    · norm_num
    · norm_num
  · have hslow : twoLines.Itinerary 0 (some "b") 1 (0 + twoLines.boarding none slowRide + 2) :=
      @Itinerary.ride ℚ _ twoLines 0 none 0 1 0 slowRide .start
        (mem_cons_of_mem _ mem_cons_self) (.inl ⟨rfl, rfl⟩)
    have hway : twoLines.Itinerary 0 (some "b") 2 (0 + twoLines.boarding none slowRide + 2 +
        twoLines.boarding (some "b") onwardRide + 1) :=
      @Itinerary.ride ℚ _ twoLines 0 (some "b") 1 2 _ onwardRide hslow
        (mem_cons_of_mem _ (mem_cons_of_mem _ mem_cons_self)) (.inl ⟨rfl, rfl⟩)
    have hcost : (0 + twoLines.boarding none slowRide + 2 +
        twoLines.boarding (some "b") onwardRide + 1 : ℚ) = 3 := by decide +kernel
    rw [hcost] at hway
    rcases hminimal 2 (by decide) with ⟨hnone, -⟩ | ⟨minutes, hsome, -, hle⟩
    · rw [htimes] at hnone
      cases hnone
    · rw [htimes] at hsome
      have hminutes : (12 : ℚ) = minutes := Option.some.inj (Option.some.inj hsome)
      have hbound : minutes ≤ 3 + 3 * (1 / 10 ^ 12) := hle _ _ hway
      rw [← hminutes] at hbound
      norm_num at hbound

end TransitGraph
end GeneGIS.Network
