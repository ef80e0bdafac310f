/-
A street is stored at both of its ends.  The heap of the search is not cleaned up: an entry dearer
than its node by now is passed over.
-/
import GeneGIS.Data.F64Order
import GeneGIS.Data.Loop
import Mathlib.Algebra.Order.Field.Basic
import Mathlib.Data.List.GetD

namespace GeneGIS

open List

/-- The numbers of the network code, over binary64 and over exact numbers. -/
class Quantity (F : Type) where
  ofNat : Nat → F
  /-- `1e-12`. -/
  slack : F
  add : F → F → F
  sub : F → F → F
  mul : F → F → F
  div : F → F → F
  abs : F → F
  lt : F → F → Bool
  le : F → F → Bool
  isFinite : F → Bool

instance : Quantity F64 where
  ofNat := F64.ofNat
  slack := F64.ofRatio 1 (10 ^ 12)
  add := F64.add
  sub := F64.sub
  mul := F64.mul
  div := F64.div
  abs := F64.abs
  lt := F64.lt
  le := F64.le
  isFinite := F64.isFinite

instance (priority := low) exactQuantity {K : Type} [Field K] [LinearOrder K] : Quantity K where
  ofNat n := n
  slack := 1 / 10 ^ 12
  add x y := x + y
  sub x y := x - y
  mul x y := x * y
  div x y := x / y
  abs x := max x (-x)
  lt x y := decide (x < y)
  le x y := decide (x ≤ y)
  isFinite _ := true

namespace Network

open Quantity

/-- A neighbour and the cost of getting there. -/
abbrev Slot (F : Type) := Nat × F

structure WalkGraph (F : Type) where
  nodes : List (F × F)
  adjacency : List (List (Slot F))
  edgeCount : Nat
  totalLengthM : F
  walkSpeedMPerMin : F
  rows : adjacency.length = nodes.length
  closed : ∀ row ∈ adjacency, ∀ slot ∈ row, slot.1 < nodes.length

inductive NetworkError (F : Type) where
  | invalid (reason : String)
  | routing (reason : String)
  /-- "edge cost factor must be finite and non-negative, got {got}" -/
  | factor (got : F)
  /-- "isochrone threshold must be positive and finite, got {got}" -/
  | threshold (got : F)

namespace WalkGraph

variable {F : Type} (graph : WalkGraph F)

def row (node : Nat) : List (Slot F) := graph.adjacency.getD node []

theorem row_closed {node : Nat} {slot : Slot F} (h : slot ∈ graph.row node) :
    slot.1 < graph.nodes.length := by
  rw [row, getD_eq_getElem?_getD] at h
  cases hrow : graph.adjacency[node]? with
  | none =>
    rw [hrow] at h
    cases h
  | some row =>
    rw [hrow] at h
    exact graph.closed row (mem_of_getElem? hrow) slot h

/-! ## Construction -/

abbrev Edge (F : Type) := (Nat × Nat) × F

def push (adjacency : List (List (Slot F))) (node : Nat) (slot : Slot F) :
    List (List (Slot F)) := adjacency.modify node fun row => row ++ [slot]

/-- Every edge is stored at both of its ends. -/
def adjacencyOf (count : Nat) (edges : List (Edge F)) : List (List (Slot F)) :=
  edges.foldl (fun adjacency edge =>
    push (push adjacency edge.1.1 (edge.1.2, edge.2)) edge.1.2 (edge.1.1, edge.2))
    (List.replicate count [])

def InRange (count : Nat) (edges : List (Edge F)) : Prop :=
  ∀ edge ∈ edges, edge.1.1 < count ∧ edge.1.2 < count

@[simp] theorem length_push (adjacency : List (List (Slot F))) (node : Nat) (slot : Slot F) :
    (push adjacency node slot).length = adjacency.length := length_modify _ _ _

theorem getD_push (adjacency : List (List (Slot F))) {node : Nat} (slot : Slot F)
    (h : node < adjacency.length) (other : Nat) :
    (push adjacency node slot).getD other [] =
      if other = node then adjacency.getD other [] ++ [slot] else adjacency.getD other [] := by
  rw [push, getD_eq_getElem?_getD, getD_eq_getElem?_getD, getElem?_modify]
  by_cases hother : other = node
  · rw [if_pos hother, hother, getElem?_eq_getElem h]
    simp
  · have hne : ¬ node = other := fun heq => hother heq.symm
    rw [if_neg hother]
    simp [hne]

/-- The slots of a node, edge by edge; an edge from the node to itself has two. -/
def slotsAt (node : Nat) (edge : Edge F) : List (Slot F) :=
  (if node = edge.1.1 then [(edge.1.2, edge.2)] else []) ++
    if node = edge.1.2 then [(edge.1.1, edge.2)] else []

theorem adjacencyOf_foldl {count : Nat} (edges : List (Edge F)) :
    ∀ adjacency : List (List (Slot F)), adjacency.length = count → InRange count edges →
      (edges.foldl (fun adjacency edge =>
        push (push adjacency edge.1.1 (edge.1.2, edge.2)) edge.1.2 (edge.1.1, edge.2))
        adjacency).length = count ∧
      ∀ node, (edges.foldl (fun adjacency edge =>
        push (push adjacency edge.1.1 (edge.1.2, edge.2)) edge.1.2 (edge.1.1, edge.2))
        adjacency).getD node [] = adjacency.getD node [] ++ edges.flatMap (slotsAt node) := by
  induction edges with
  | nil =>
    intro adjacency hlength _
    exact ⟨hlength, fun node => (append_nil _).symm⟩
  | cons edge rest ih =>
    intro adjacency hlength hrange
    obtain ⟨hfrom, hto⟩ := hrange edge mem_cons_self
    have hnext : (push (push adjacency edge.1.1 (edge.1.2, edge.2)) edge.1.2
        (edge.1.1, edge.2)).length = count := by
      rw [length_push, length_push, hlength]
    obtain ⟨hsame, hrow⟩ := ih _ hnext fun e he => hrange e (mem_cons_of_mem _ he)
    refine ⟨hsame, fun node => ?_⟩
    rw [foldl_cons, hrow, getD_push _ _ (by rw [length_push, hlength]; exact hto),
      getD_push _ _ (by rw [hlength]; exact hfrom), flatMap_cons, slotsAt]
    by_cases h1 : node = edge.1.1
    · by_cases h2 : node = edge.1.2
      · simp [h1, ← h2]
      · simp [h1, h1 ▸ h2]
    · by_cases h2 : node = edge.1.2
      · simp [h2, h2 ▸ h1]
      · simp [h1, h2]

variable {edges : List (Edge F)}

theorem length_adjacencyOf {count : Nat} (h : InRange count edges) :
    (adjacencyOf count edges).length = count :=
  (adjacencyOf_foldl edges _ length_replicate h).1

theorem getD_adjacencyOf {count : Nat} (h : InRange count edges)
    (node : Nat) : (adjacencyOf count edges).getD node [] = edges.flatMap (slotsAt node) := by
  have hempty : (List.replicate count ([] : List (Slot F))).getD node [] = [] := by
    rw [getD_eq_getElem?_getD, getElem?_replicate]
    split_ifs
    · rfl
    · rfl
  rw [adjacencyOf, (adjacencyOf_foldl edges _ length_replicate h).2, hempty, nil_append]

theorem mem_slotsAt {node : Nat} {edge : Edge F} {slot : Slot F} : slot ∈ slotsAt node edge ↔
    edge = ((node, slot.1), slot.2) ∨ edge = ((slot.1, node), slot.2) := by
  obtain ⟨⟨a, b⟩, cost⟩ := edge
  obtain ⟨other, w⟩ := slot
  rw [slotsAt, mem_append, mem_ite_nil_right, mem_ite_nil_right, mem_singleton, mem_singleton]
  simp only [Prod.mk.injEq]
  constructor
  · intro h
    rcases h with ⟨rfl, rfl, rfl⟩ | ⟨rfl, rfl, rfl⟩
    · exact .inl ⟨⟨rfl, rfl⟩, rfl⟩
    · exact .inr ⟨⟨rfl, rfl⟩, rfl⟩
  · intro h
    rcases h with ⟨⟨rfl, rfl⟩, rfl⟩ | ⟨⟨rfl, rfl⟩, rfl⟩
    · exact .inl ⟨rfl, rfl, rfl⟩
    · exact Or.inr ⟨rfl, rfl, rfl⟩

def ofEdges (nodes : List (F × F)) (edges : List (Edge F)) (totalLengthM walkSpeed : F)
    (h : InRange nodes.length edges) : WalkGraph F where
  nodes := nodes
  adjacency := adjacencyOf nodes.length edges
  edgeCount := edges.length
  totalLengthM := totalLengthM
  walkSpeedMPerMin := walkSpeed
  rows := length_adjacencyOf h
  closed := by
    intro row hrow slot hslot
    obtain ⟨node, hnode, rfl⟩ := mem_iff_getElem.mp hrow
    rw [← getD_eq_getElem _ [] hnode, getD_adjacencyOf h, mem_flatMap] at hslot
    obtain ⟨edge, hedge, hslot⟩ := hslot
    obtain ⟨hfrom, hto⟩ := h edge hedge
    rcases mem_slotsAt.mp hslot with rfl | rfl
    · exact hto
    · exact hfrom

def edge (u v : Nat) (w : F) : Prop := (v, w) ∈ graph.row u

theorem edge_ofEdges {nodes : List (F × F)} {length speed : F}
    {h : InRange nodes.length edges} {u v : Nat} {w : F} :
    (ofEdges nodes edges length speed h).edge u v w ↔
      ((u, v), w) ∈ edges ∨ ((v, u), w) ∈ edges := by
  rw [edge, row, ofEdges, getD_adjacencyOf h, mem_flatMap]
  constructor
  · intro hslot
    obtain ⟨e, he, hslot⟩ := hslot
    rcases mem_slotsAt.mp hslot with rfl | rfl
    · exact .inl he
    · exact .inr he
  · intro hedge
    rcases hedge with he | he
    · exact ⟨_, he, mem_slotsAt.mpr (.inl rfl)⟩
    · exact ⟨_, he, mem_slotsAt.mpr (Or.inr rfl)⟩

theorem edge_ofEdges_symm {nodes : List (F × F)} {length speed : F}
    {h : InRange nodes.length edges} (u v : Nat) (w : F) :
    (ofEdges nodes edges length speed h).edge u v w →
      (ofEdges nodes edges length speed h).edge v u w := by
  rw [edge_ofEdges, edge_ofEdges]
  exact Or.symm

section TravelTimes

variable [Quantity F]

structure QueueEntry (F : Type) where
  cost : F
  node : Nat

/-- `partial_cmp`, with numbers that cannot be compared taken as equal. -/
def costOrder (x y : F) : Ordering := if lt x y then .lt else if lt y x then .gt else .eq

/-- The cheapest entry is the greatest; of equal ones it is that of the last node. -/
def QueueEntry.cmp (a b : QueueEntry F) : Ordering :=
  (costOrder b.cost a.cost).then (compare a.node b.node)

/-- `BinaryHeap::pop`: a greatest entry and the others. -/
def popGreatest : List (QueueEntry F) → Option (QueueEntry F × List (QueueEntry F))
  | [] => none
  | entry :: rest =>
    match popGreatest rest with
    | none => some (entry, [])
    | some (greatest, others) =>
      if entry.cmp greatest = .lt then some (greatest, entry :: others)
      else some (entry, greatest :: others)

structure Search (F : Type) where
  distances : List (Option F)
  heap : List (QueueEntry F)

def Search.known (s : Search F) (node : Nat) : Option F := s.distances.getD node none

def Search.relax (cost : F) (s : Search F) (slot : Slot F) : Search F :=
  let next := add cost slot.2
  if (s.known slot.1).all fun known => lt next known then
    { distances := s.distances.set slot.1 (some next), heap := ⟨next, slot.1⟩ :: s.heap }
  else s

variable (graph : WalkGraph F)

/-- One round of the loop over the heap. -/
def searchStep (s : Search F) : Option (Search F) :=
  match popGreatest s.heap with
  | none => none
  | some (entry, rest) =>
    let s := { s with heap := rest }
    if (s.known entry.node).any fun known => lt known entry.cost then some s
    else some ((graph.row entry.node).foldl (Search.relax entry.cost) s)

def searchStart (origin : Nat) : Search F where
  distances := (List.replicate graph.nodes.length none).set origin (some (ofNat 0))
  heap := [⟨ofNat 0, origin⟩]

/-- As many rounds as there are slots, and one more. -/
def rounds : Nat := (graph.adjacency.map List.length).sum + 1

def searched (origin : Nat) : Search F :=
  Loop.run graph.searchStep graph.rounds (graph.searchStart origin)

def travelTimesFrom (origin : Nat) : List (Option F) := (graph.searched origin).distances

def routeMinutes (origin target : Nat) : Except (NetworkError F) F :=
  match ((graph.travelTimesFrom origin)[target]?).join with
  | some minutes => .ok minutes
  | none => .error (.routing ("node " ++ toString target ++ " is unreachable from " ++
      toString origin))

end TravelTimes

section Scaling

variable [Quantity F]

/-- The slots of a node one after the other, up to the first factor that is refused. -/
def scaleRow (factor : Nat → F) (node : Nat) :
    List (Slot F) → Nat → Except (NetworkError F) Nat × List (Slot F)
  | [], scaled => (.ok scaled, [])
  | slot :: rest, scaled =>
    if !isFinite (factor slot.1) || lt (factor slot.1) (ofNat 0) then
      (.error (.factor (factor slot.1)), slot :: rest)
    else
      let exceeds := lt (add (ofNat 1) slack) (factor slot.1) && decide (node < slot.1)
      let (result, others) := scaleRow factor node rest (if exceeds then scaled + 1 else scaled)
      (result, (slot.1, mul slot.2 (factor slot.1)) :: others)

def scaleRows (factor : Nat → Nat → F) :
    Nat → List (List (Slot F)) → Nat → Except (NetworkError F) Nat × List (List (Slot F))
  | _, [], scaled => (.ok scaled, [])
  | node, row :: rest, scaled =>
    match scaleRow (factor node) node row scaled with
    | (.error e, row) => (.error e, row :: rest)
    | (.ok scaled, row) =>
      let (result, others) := scaleRows factor (node + 1) rest scaled
      (result, row :: others)

theorem scaleRow_nodes (factor : Nat → F) (node : Nat) : ∀ (row : List (Slot F)) (scaled : Nat),
    (scaleRow factor node row scaled).2.map Prod.fst = row.map Prod.fst
  | [], _ => rfl
  | slot :: rest, scaled => by
    rw [scaleRow]
    split_ifs
    · rfl
    · exact congrArg (slot.1 :: ·) (scaleRow_nodes factor node rest _)

theorem scaleRows_nodes (factor : Nat → Nat → F) : ∀ (node : Nat) (rows : List (List (Slot F)))
    (scaled : Nat), (scaleRows factor node rows scaled).2.map (List.map Prod.fst) =
      rows.map (List.map Prod.fst)
  | _, [], _ => rfl
  | node, row :: rest, scaled => by
    have hrow := scaleRow_nodes (factor node) node row scaled
    rw [scaleRows]
    cases hscaled : scaleRow (factor node) node row scaled with
    | mk result row' =>
      rw [hscaled] at hrow
      cases result with
      | error e =>
        show row'.map Prod.fst :: rest.map (List.map Prod.fst) = _
        rw [hrow]
        rfl
      | ok scaled' =>
        show row'.map Prod.fst :: (scaleRows factor (node + 1) rest scaled').2.map
          (List.map Prod.fst) = _
        rw [hrow, scaleRows_nodes factor (node + 1) rest scaled']
        rfl

variable (graph : WalkGraph F)

/-- A graph with other costs on the same slots. -/
def withAdjacency (adjacency : List (List (Slot F)))
    (h : adjacency.map (List.map Prod.fst) = graph.adjacency.map (List.map Prod.fst)) :
    WalkGraph F where
  nodes := graph.nodes
  adjacency := adjacency
  edgeCount := graph.edgeCount
  totalLengthM := graph.totalLengthM
  walkSpeedMPerMin := graph.walkSpeedMPerMin
  rows := by
    have hlength := congrArg List.length h
    rw [length_map, length_map, graph.rows] at hlength
    exact hlength
  closed := by
    intro row hrow slot hslot
    have hmem : row.map Prod.fst ∈ graph.adjacency.map (List.map Prod.fst) :=
      h ▸ mem_map_of_mem hrow
    obtain ⟨row', hrow', hsame⟩ := mem_map.mp hmem
    have hnode : slot.1 ∈ row'.map Prod.fst := hsame ▸ mem_map_of_mem hslot
    obtain ⟨slot', hslot', heq⟩ := mem_map.mp hnode
    rw [← heq]
    exact graph.closed row' hrow' slot' hslot'

def place (node : Nat) : F × F := graph.nodes.getD node (ofNat 0, ofNat 0)

/-- `factor` sees the ends of a slot, by place and by number. -/
def factors (factor : F × F → F × F → Nat → Nat → F) (node other : Nat) : F :=
  factor (graph.place node) (graph.place other) node other

def scaleEdgeCosts (factor : F × F → F × F → Nat → Nat → F) :
    Except (NetworkError F) Nat × WalkGraph F :=
  ((scaleRows (graph.factors factor) 0 graph.adjacency 0).1,
    graph.withAdjacency (scaleRows (graph.factors factor) 0 graph.adjacency 0).2
      (scaleRows_nodes (graph.factors factor) 0 graph.adjacency 0))

end Scaling

end WalkGraph
end Network
end GeneGIS
