/-
What `scale_edge_costs` says of the streets.

The count looks at the end with the smaller number, so a street from a node to itself is never
counted.  An error leaves what came before it multiplied.
-/
import GeneGIS.Network.Scaling

namespace GeneGIS.Network.WalkGraph

open Quantity List Nat

variable {F : Type}

/-! ## Slots and streets -/

/-- The streets that a graph was built of; its costs may have changed since. -/
structure Laid (graph : WalkGraph F) (edges : List (Edge F)) : Prop where
  inRange : InRange graph.nodes.length edges
  edgeCount : graph.edgeCount = edges.length
  targets : graph.adjacency.map (List.map Prod.fst) =
    (adjacencyOf graph.nodes.length edges).map (List.map Prod.fst)

variable {edges : List (Edge F)}

theorem laid_ofEdges {nodes : List (F × F)} {length speed : F}
    (h : InRange nodes.length edges) : (ofEdges nodes edges length speed h).Laid edges :=
  ⟨h, rfl, rfl⟩

theorem slotsFrom_ends : ∀ {node : Nat} {rows rows' : List (List (Slot F))},
    rows.map (List.map Prod.fst) = rows'.map (List.map Prod.fst) →
      (slotsFrom node rows).map (fun located => (located.1, located.2.1)) =
        (slotsFrom node rows').map fun located => (located.1, located.2.1)
  | _, [], [], _ => rfl
  | _, [], _ :: _, h => by cases h
  | _, _ :: _, [], h => by cases h
  | node, row :: rest, row' :: rest', h => by
    rw [map_cons, map_cons, cons.injEq] at h
    obtain ⟨hrow, hrest⟩ := h
    have hends : ∀ r : List (Slot F), (r.map fun slot => (node, slot)).map
        (fun located => (located.1, located.2.1)) = (r.map Prod.fst).map fun v => (node, v) := by
      intro r
      rw [map_map, map_map]
      rfl
    rw [slotsFrom, slotsFrom, map_append, map_append, hends, hends, hrow, slotsFrom_ends hrest]

variable (q : Nat → Nat → Bool)

theorem countP_ends {node : Nat} {rows rows' : List (List (Slot F))}
    (h : rows.map (List.map Prod.fst) = rows'.map (List.map Prod.fst)) :
    (slotsFrom node rows).countP (fun located => q located.1 located.2.1) =
      (slotsFrom node rows').countP fun located => q located.1 located.2.1 := by
  have hcount : ∀ l : List (Located F), l.countP (fun located => q located.1 located.2.1) =
      (l.map fun located => (located.1, located.2.1)).countP fun ends => q ends.1 ends.2 := by
    intro l
    rw [countP_map]
    rfl
  rw [hcount, hcount, slotsFrom_ends h]

theorem countP_push (q : Nat → Nat → Bool) (slot : Slot F) :
    ∀ {first node : Nat} {rows : List (List (Slot F))}, node < rows.length →
      (slotsFrom first (push rows node slot)).countP (fun located => q located.1 located.2.1) =
        (slotsFrom first rows).countP (fun located => q located.1 located.2.1) +
          if q (first + node) slot.1 then 1 else 0
  | _, _, [], h => absurd h (not_lt_zero _)
  | first, 0, row :: rest, _ => by
    rw [push, modify_zero_cons, slotsFrom, slotsFrom, map_append, countP_append,
      countP_append, countP_append, map_singleton, countP_singleton]
    exact add_right_comm _ _ _
  | first, node + 1, row :: rest, h => by
    have hplace : first + 1 + node = first + (node + 1) := by omega
    rw [push, modify_succ_cons, slotsFrom, slotsFrom, countP_append, countP_append,
      ← push, countP_push q slot (lt_of_succ_lt_succ h), hplace, add_assoc]

theorem countP_empty (count : Nat) : ∀ first : Nat,
    (slotsFrom first (replicate count ([] : List (Slot F)))).countP
      (fun located => q located.1 located.2.1) = 0 := by
  induction count with
  | zero => exact fun _ => rfl
  | succ count ih =>
    intro first
    rw [replicate_succ, slotsFrom]
    exact ih (first + 1)

theorem countP_adjacencyOf {count : Nat} (h : InRange count edges) :
    (slotsFrom 0 (adjacencyOf count edges)).countP (fun located => q located.1 located.2.1) =
      edges.countP (fun edge => q edge.1.1 edge.1.2) +
        edges.countP fun edge => q edge.1.2 edge.1.1 := by
  have hlaid : ∀ (edges : List (Edge F)) (rows : List (List (Slot F))), rows.length = count →
      InRange count edges →
      (slotsFrom 0 (edges.foldl (fun adjacency edge =>
        push (push adjacency edge.1.1 (edge.1.2, edge.2)) edge.1.2 (edge.1.1, edge.2))
        rows)).countP (fun located => q located.1 located.2.1) =
      (slotsFrom 0 rows).countP (fun located => q located.1 located.2.1) +
        (edges.countP (fun edge => q edge.1.1 edge.1.2) +
          edges.countP fun edge => q edge.1.2 edge.1.1) := by
    intro edges
    induction edges with
    | nil => exact fun rows _ _ => rfl
    | cons edge rest ih =>
      intro rows hrows hrange
      obtain ⟨hfrom, hto⟩ := hrange edge mem_cons_self
      rw [foldl_cons, ih _ (by rw [length_push, length_push, hrows])
        fun e he => hrange e (mem_cons_of_mem _ he),
        countP_push q _ (by rw [length_push, hrows]; exact hto),
        countP_push q _ (by rw [hrows]; exact hfrom), countP_cons, countP_cons,
        zero_add, zero_add]
      dsimp only
      omega
  rw [adjacencyOf, hlaid edges _ length_replicate h, countP_empty, zero_add]

theorem Laid.countP {graph : WalkGraph F} (h : graph.Laid edges) (q : Nat → Nat → Bool) :
    graph.slots.countP (fun located => q located.1 located.2.1) =
      edges.countP (fun edge => q edge.1.1 edge.1.2) +
        edges.countP fun edge => q edge.1.2 edge.1.1 := by
  rw [slots, countP_ends q h.targets, countP_adjacencyOf q h.inRange]

/-! ## Changed costs -/

theorem slotsFrom_injective : ∀ {node : Nat} {rows rows' : List (List (Slot F))},
    rows.map (List.map Prod.fst) = rows'.map (List.map Prod.fst) →
      slotsFrom node rows = slotsFrom node rows' → rows = rows'
  | _, [], [], _, _ => rfl
  | _, [], _ :: _, h, _ => by cases h
  | _, _ :: _, [], h, _ => by cases h
  | node, row :: rest, row' :: rest', h, hslots => by
    rw [map_cons, map_cons, cons.injEq] at h
    obtain ⟨hrow, hrest⟩ := h
    have hlength : row.length = row'.length := by
      have h := congrArg List.length hrow
      rwa [length_map, length_map] at h
    rw [slotsFrom, slotsFrom] at hslots
    obtain ⟨hhead, htail⟩ := append_inj hslots (by
      rw [length_map, length_map, hlength])
    have hsame : row = row' := map_injective_iff.mpr (fun _ _ h => (Prod.mk.inj h).2) hhead
    rw [hsame, slotsFrom_injective hrest htail]

section Scaled

variable [Quantity F] {graph : WalkGraph F} {edges : List (Edge F)} {factor : Nat → Nat → F}
  {given : F × F → F × F → Nat → Nat → F}

theorem partlyScaled_eq : ∀ {l : List (Located F)}, partlyScaled factor l = l ↔
    ∀ located ∈ l.takeWhile (acceptedAt factor), scaledAt factor located = located
  | [] => by simp [partlyScaled]
  | located :: rest => by
    rw [partlyScaled, takeWhile_cons]
    by_cases h : acceptedAt factor located = true
    · rw [if_pos h, if_pos h, cons.injEq, partlyScaled_eq, forall_mem_cons]
    · rw [if_neg h, if_neg h]
      simp

theorem scaledAt_eq {located : Located F} : scaledAt factor located = located ↔
    mul located.2.2 (factor located.1 located.2.1) = located.2.2 := by
  obtain ⟨u, v, w⟩ := located
  rw [scaledAt, scaledSlot, Prod.mk.injEq, Prod.mk.injEq]
  exact ⟨fun h => h.2.2, fun h => ⟨rfl, rfl, h⟩⟩

theorem adjacency_scaled_eq : (graph.scaleEdgeCosts given).2.adjacency = graph.adjacency ↔
      ∀ located ∈ graph.slots.takeWhile (acceptedAt (graph.factors given)),
        mul located.2.2 (graph.factors given located.1 located.2.1) = located.2.2 := by
  have hslots : (graph.scaleEdgeCosts given).2.adjacency = graph.adjacency ↔
      (graph.scaleEdgeCosts given).2.slots = graph.slots :=
    ⟨fun h => congrArg (slotsFrom 0) h, fun h => slotsFrom_injective
      (scaleRows_nodes (graph.factors given) 0 graph.adjacency 0) h⟩
  rw [hslots, (scaleEdgeCosts_spec graph given).2, partlyScaled_eq]
  exact forall₂_congr fun _ _ => scaledAt_eq

theorem error_iff : (∃ e, (graph.scaleEdgeCosts given).1 = .error e) ↔ ¬ graph.Accepts given := by
  rw [(scaleEdgeCosts_spec graph given).1, Accepts, ← firstRefused_none]
  cases firstRefused (graph.factors given) graph.slots with
  | none => simp [outcomeAt]
  | some located => simp [outcomeAt]

theorem ok_iff {n : Nat} : (graph.scaleEdgeCosts given).1 = .ok n ↔ graph.Accepts given ∧
    n = graph.slots.countP (countedAt (graph.factors given)) := by
  constructor
  · intro h
    by_cases haccepts : graph.Accepts given
    · rw [haccepts.result, Except.ok.injEq] at h
      exact ⟨haccepts, h.symm⟩
    · obtain ⟨e, he⟩ := error_iff.mpr haccepts
      rw [he] at h
      cases h
  · intro h
    rw [h.1.result, h.2]

def Symmetric (given : F × F → F × F → Nat → Nat → F) : Prop :=
  ∀ p q u v, given p q u v = given q p v u

/-- The number of streets whose factor exceeds 1. -/
def exceeding (graph : WalkGraph F) (given : F × F → F × F → Nat → Nat → F)
    (edges : List (Edge F)) : Nat :=
  edges.countP fun edge => lt (ofNat 1) (graph.factors given edge.1.1 edge.1.2)

/-- An error leaves the costs as they were; otherwise both slots of a street are multiplied by one
factor, and factors above 1 are counted. -/
structure ScaledAsSaid (graph : WalkGraph F) (edges : List (Edge F))
    (given : F × F → F × F → Nat → Nat → F) : Prop where
  unchanged : ∀ e, (graph.scaleEdgeCosts given).1 = .error e →
    (graph.scaleEdgeCosts given).2.adjacency = graph.adjacency
  alike : ∀ n, (graph.scaleEdgeCosts given).1 = .ok n → Symmetric given →
    ∃ factor : Nat → Nat → F, (∀ u v, factor u v = factor v u) ∧
      (graph.scaleEdgeCosts given).2.slots = graph.slots.map (scaledAt factor)
  counts : ∀ n, (graph.scaleEdgeCosts given).1 = .ok n → Symmetric given →
    n = graph.exceeding given edges

theorem factors_symmetric (h : Symmetric given) (u v : Nat) :
    graph.factors given u v = graph.factors given v u := h _ _ _ _

/-- A street is counted when it is not one from a node to itself and its factor is beyond the
slack. -/
def countsEdge (graph : WalkGraph F) (given : F × F → F × F → Nat → Nat → F) (edge : Edge F) :
    Bool :=
  lt (add (ofNat 1) slack) (graph.factors given edge.1.1 edge.1.2) &&
    decide (edge.1.1 ≠ edge.1.2)

theorem countP_split {α : Type} {p q r : α → Bool}
    (h : ∀ x, (if p x then 1 else 0) + (if q x then 1 else 0) = if r x then 1 else 0)
    (l : List α) : l.countP p + l.countP q = l.countP r := by
  induction l with
  | nil => rfl
  | cons x rest ih =>
    have hx := h x
    rw [countP_cons, countP_cons, countP_cons]
    omega

theorem countP_counted (hlaid : graph.Laid edges) (h : Symmetric given) :
    graph.slots.countP (countedAt (graph.factors given)) =
      edges.countP (graph.countsEdge given) := by
  refine (hlaid.countP fun u v =>
    lt (add (ofNat 1) slack) (graph.factors given u v) && decide (u < v)).trans
    (countP_split (fun edge => ?_) edges)
  rw [countsEdge, factors_symmetric h edge.1.2 edge.1.1]
  cases lt (add (ofNat 1) slack) (graph.factors given edge.1.1 edge.1.2) with
  | false => rfl
  | true =>
    rw [Bool.true_and, Bool.true_and, Bool.true_and]
    rcases lt_trichotomy edge.1.1 edge.1.2 with hlt | heq | hgt
    · simp [hlt, Nat.lt_asymm hlt, Nat.ne_of_lt hlt]
    · simp [heq]
    · simp [hgt, Nat.lt_asymm hgt, ne_of_gt hgt]

theorem alike_accepted (haccepts : graph.Accepts given) (h : Symmetric given) :
    ∃ factor : Nat → Nat → F, (∀ u v, factor u v = factor v u) ∧
      (graph.scaleEdgeCosts given).2.slots = graph.slots.map (scaledAt factor) :=
  ⟨graph.factors given, factors_symmetric h, haccepts.slots⟩

end Scaled

/-! ## Over binary64 -/

theorem countP_eq_iff {α : Type} {p q : α → Bool} {l : List α} (h : ∀ x, p x = true → q x = true) :
    l.countP p = l.countP q ↔ ∀ x ∈ l, q x = true → p x = true := by
  induction l with
  | nil => simp
  | cons x rest ih =>
    have hle : rest.countP p ≤ rest.countP q := countP_mono_left fun y _ => h y
    rw [countP_cons, countP_cons, forall_mem_cons, ← ih]
    by_cases hp : p x = true
    · rw [if_pos hp, if_pos (h x hp), add_right_cancel_iff]
      exact ⟨fun heq => ⟨fun _ => hp, heq⟩, fun heq => heq.2⟩
    · rw [if_neg hp]
      by_cases hq : q x = true
      · rw [if_pos hq]
        exact ⟨fun heq => by omega, fun heq => absurd (heq.1 hq) hp⟩
      · rw [if_neg hq]
        exact ⟨fun heq => ⟨fun hx => absurd hx hq, heq⟩, fun heq => heq.2⟩

theorem exceeds_of_slack {factor : F64} (h : lt (add (ofNat 1) slack) factor = true) :
    lt (ofNat 1 : F64) factor = true := by
  have hslack : F64.le (ofNat 1) (add (ofNat 1) slack) = true := by decide +kernel
  obtain ⟨hone, -, hle⟩ := F64.le_iff.mp hslack
  obtain ⟨-, hfactor, hlt⟩ := F64.lt_iff.mp h
  exact F64.lt_iff.mpr ⟨hone, hfactor, lt_of_le_of_lt hle hlt⟩

section Binary64

variable {graph : WalkGraph F64} {edges : List (Edge F64)}
  {given : F64 × F64 → F64 × F64 → Nat → Nat → F64}

theorem exceeds_of_countsEdge {edge : Edge F64} (h : graph.countsEdge given edge = true) :
    lt (ofNat 1) (graph.factors given edge.1.1 edge.1.2) = true := by
  rw [countsEdge, Bool.and_eq_true] at h
  exact exceeds_of_slack h.1

theorem counts_iff (hlaid : graph.Laid edges) (h : Symmetric given) :
    graph.slots.countP (countedAt (graph.factors given)) = graph.exceeding given edges ↔
      ∀ edge ∈ edges, lt (ofNat 1) (graph.factors given edge.1.1 edge.1.2) = true →
        lt (add (ofNat 1) slack) (graph.factors given edge.1.1 edge.1.2) = true ∧
          edge.1.1 ≠ edge.1.2 := by
  rw [countP_counted hlaid h, exceeding, countP_eq_iff fun edge => exceeds_of_countsEdge]
  refine forall₂_congr fun edge _ => imp_congr_right fun _ => ?_
  rw [countsEdge, Bool.and_eq_true, decide_eq_true_eq]

/-- The function does what it says when nothing is changed before a refused factor, and no factor
above 1 is that of a loop or within the slack. -/
theorem scaleEdgeCosts_said (graph : WalkGraph F64) (edges : List (Edge F64))
    (given : F64 × F64 → F64 × F64 → Nat → Nat → F64) (hlaid : graph.Laid edges) :
    graph.ScaledAsSaid edges given ↔ (¬ graph.Accepts given →
        ∀ located ∈ graph.slots.takeWhile (acceptedAt (graph.factors given)),
          mul located.2.2 (graph.factors given located.1 located.2.1) = located.2.2) ∧
      (graph.Accepts given → Symmetric given →
        ∀ edge ∈ edges, lt (ofNat 1) (graph.factors given edge.1.1 edge.1.2) = true →
          lt (add (ofNat 1) slack) (graph.factors given edge.1.1 edge.1.2) = true ∧
            edge.1.1 ≠ edge.1.2) := by
  constructor
  · intro hsaid
    refine ⟨fun hrefused => ?_, fun haccepts hsymm => ?_⟩
    · obtain ⟨e, he⟩ := error_iff.mpr hrefused
      exact adjacency_scaled_eq.mp (hsaid.unchanged e he)
    · exact (counts_iff hlaid hsymm).mp (hsaid.counts _ haccepts.result hsymm)
  · intro h
    obtain ⟨hrefused, haccepted⟩ := h
    refine ⟨fun e he => ?_, fun n hn hsymm => ?_, fun n hn hsymm => ?_⟩
    · exact adjacency_scaled_eq.mpr (hrefused (error_iff.mp ⟨e, he⟩))
    · exact alike_accepted (ok_iff.mp hn).1 hsymm
    · obtain ⟨haccepts, hcount⟩ := ok_iff.mp hn
      exact hcount.trans ((counts_iff hlaid hsymm).mpr (haccepted haccepts hsymm))

end Binary64

def bendEdges : List (Edge F64) := [((0, 1), ofNat 1), ((1, 2), ofNat 1)]

/-- A street between two corners, and one to a third. -/
def bend : WalkGraph F64 :=
  ofEdges [(ofNat 0, ofNat 0), (ofNat 1, ofNat 0), (ofNat 1, ofNat 1)] bendEdges (ofNat 2) (ofNat 1)
    (by simp [InRange, bendEdges])

/-- The same factor on both streets. -/
theorem scaleEdgeCosts_said_bend : bend.ScaledAsSaid bendEdges fun _ _ _ _ => ofNat 2 := by
  refine (scaleEdgeCosts_said bend bendEdges _ (laid_ofEdges _)).mpr
    ⟨fun hrefused => ?_, fun _ _ edge hedge _ => ⟨?_, ?_⟩⟩
  · refine absurd (fun located _ => ?_) hrefused
    show accepted (ofNat 2 : F64) = true
    decide +kernel
  · show lt (add (ofNat 1) slack) (ofNat 2 : F64) = true
    decide +kernel
  · rcases List.mem_cons.mp hedge with rfl | hedge
    · decide
    · rw [mem_singleton.mp hedge]
      decide

/-- The first street is doubled, and the factor of the second one is refused. -/
def refusing (_ _ : F64 × F64) (u v : Nat) : F64 :=
  if u + v = 1 then ofNat 2 else F64.neg (ofNat 1)

def stayEdges : List (Edge F64) := [((0, 0), ofNat 0), ((0, 1), ofNat 1)]

/-- A street that begins with the same place twice. -/
def stay : WalkGraph F64 :=
  ofEdges [(ofNat 0, ofNat 0), (ofNat 1, ofNat 0)] stayEdges (ofNat 1) (ofNat 1)
    (by simp [InRange, stayEdges])

theorem scaleEdgeCosts_unsaid : (bend.Laid bendEdges ∧ ¬ bend.ScaledAsSaid bendEdges refusing) ∧
    (stay.Laid stayEdges ∧ ¬ stay.ScaledAsSaid stayEdges fun _ _ _ _ => ofNat 2) := by
  refine ⟨⟨laid_ofEdges _, fun hsaid => ?_⟩, ⟨laid_ofEdges _, fun hsaid => ?_⟩⟩
  · have hrefused : ¬ bend.Accepts refusing := by
      intro haccepts
      have hlast : acceptedAt (bend.factors refusing) (1, (2, ofNat 1)) = false := by
        decide +kernel
      have hmem : (1, (2, ofNat 1)) ∈ bend.slots := by decide +kernel
      rw [haccepts _ hmem] at hlast
      cases hlast
    obtain ⟨e, he⟩ := error_iff.mpr hrefused
    have hdoubled : (bend.scaleEdgeCosts refusing).2.adjacency ≠ bend.adjacency := by
      decide +kernel
    exact hdoubled (hsaid.unchanged e he)
  · have haccepts : stay.Accepts fun _ _ _ _ => ofNat 2 := by
      intro located _
      show accepted (ofNat 2 : F64) = true
      decide +kernel
    have hcounted : stay.slots.countP (countedAt (stay.factors fun _ _ _ _ => ofNat 2)) ≠
        stay.exceeding (fun _ _ _ _ => ofNat 2) stayEdges := by
      decide +kernel
    exact hcounted (hsaid.counts _ haccepts.result fun _ _ _ _ => rfl)

end GeneGIS.Network.WalkGraph
