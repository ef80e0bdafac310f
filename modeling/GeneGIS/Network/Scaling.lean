/-
The slots whose factor is beyond the slack and that lead to a later node are counted.  When a
factor is refused, the slots before it have been multiplied.
-/
import GeneGIS.Network.TravelTimes

namespace GeneGIS.Network.WalkGraph

open Quantity ShortestPath List Nat

section Rows

variable {F : Type} [Quantity F]

/-- A factor that is not refused. -/
def accepted (factor : F) : Bool := isFinite factor && !lt factor (ofNat 0)

def scaledSlot (factor : Nat → F) (slot : Slot F) : Slot F := (slot.1, mul slot.2 (factor slot.1))

def counted (factor : Nat → F) (node : Nat) (slot : Slot F) : Bool :=
  lt (add (ofNat 1) slack) (factor slot.1) && decide (node < slot.1)

theorem refused_eq (factor : F) : (!isFinite factor || lt factor (ofNat 0)) = !accepted factor := by
  rw [accepted, Bool.not_and, Bool.not_not]

theorem scaleRow_accepted {factor : Nat → F} {node : Nat} {slot : Slot F}
    (h : accepted (factor slot.1) = true) (rest : List (Slot F)) (scaled : Nat) :
    scaleRow factor node (slot :: rest) scaled =
      ((scaleRow factor node rest (scaled + if counted factor node slot then 1 else 0)).1,
        scaledSlot factor slot ::
          (scaleRow factor node rest (scaled + if counted factor node slot then 1 else 0)).2) := by
  have hscaled : (if counted factor node slot then scaled + 1 else scaled) =
      scaled + if counted factor node slot then 1 else 0 := by
    split_ifs
    · rfl
    · rfl
  rw [← hscaled, scaleRow, refused_eq, h]
  rfl

theorem scaleRow_refused {factor : Nat → F} {node : Nat} {slot : Slot F}
    (h : accepted (factor slot.1) = false) (rest : List (Slot F)) (scaled : Nat) :
    scaleRow factor node (slot :: rest) scaled =
      (.error (.factor (factor slot.1)), slot :: rest) := by
  rw [scaleRow, refused_eq, h]
  rfl

/-! ## All slots in order -/

abbrev Located (F : Type) := Nat × Slot F

def slotsFrom : Nat → List (List (Slot F)) → List (Located F)
  | _, [] => []
  | node, row :: rest => row.map (fun slot => (node, slot)) ++ slotsFrom (node + 1) rest

variable (factor : Nat → Nat → F) (located : Located F)

def acceptedAt : Bool := accepted (factor located.1 located.2.1)

def scaledAt : Located F := (located.1, scaledSlot (factor located.1) located.2)

def countedAt : Bool := counted (factor located.1) located.1 located.2

def firstRefused (slots : List (Located F)) : Option (Located F) :=
  slots.find? fun located => !acceptedAt factor located

def outcomeAt (refused : Option (Located F)) (scaled : Nat) : Except (NetworkError F) Nat :=
  match refused with
  | none => .ok scaled
  | some located => .error (.factor (factor located.1 located.2.1))

/-- The slots before the first whose factor is refused are scaled, and the others are not. -/
def partlyScaled : List (Located F) → List (Located F)
  | [] => []
  | located :: rest =>
    if acceptedAt factor located then scaledAt factor located :: partlyScaled rest
    else located :: rest

variable {factor}

theorem firstRefused_cons {located : Located F} {rest : List (Located F)} :
    firstRefused factor (located :: rest) =
      if acceptedAt factor located then firstRefused factor rest else some located := by
  rw [firstRefused, find?_cons]
  cases acceptedAt factor located with
  | true => rfl
  | false => rfl

theorem firstRefused_append (l m : List (Located F)) :
    firstRefused factor (l ++ m) = (firstRefused factor l).or (firstRefused factor m) :=
  find?_append

theorem firstRefused_none {l : List (Located F)} :
    firstRefused factor l = none ↔ ∀ located ∈ l, acceptedAt factor located = true := by
  rw [firstRefused, find?_eq_none]
  simp

theorem partlyScaled_append (l m : List (Located F)) :
    partlyScaled factor (l ++ m) = partlyScaled factor l ++
      if (firstRefused factor l).isSome then m else partlyScaled factor m := by
  induction l with
  | nil => rfl
  | cons located rest ih =>
    rw [cons_append, partlyScaled, partlyScaled, firstRefused_cons]
    by_cases h : acceptedAt factor located = true
    · rw [if_pos h, if_pos h, if_pos h, ih]
      rfl
    · rw [if_neg h, if_neg h, if_neg h]
      rfl

theorem partlyScaled_accepted {l : List (Located F)}
    (h : ∀ located ∈ l, acceptedAt factor located = true) :
    partlyScaled factor l = l.map (scaledAt factor) := by
  induction l with
  | nil => rfl
  | cons located rest ih =>
    rw [partlyScaled, if_pos (h located mem_cons_self), ih fun x hx => h x (mem_cons_of_mem _ hx)]
    rfl

theorem scaleRow_spec (node : Nat) : ∀ (row : List (Slot F)) (scaled : Nat),
    (scaleRow (factor node) node row scaled).1 =
        outcomeAt factor (firstRefused factor (row.map fun slot => (node, slot)))
          (scaled + (row.map fun slot => (node, slot)).countP (countedAt factor)) ∧
      (scaleRow (factor node) node row scaled).2.map (fun slot => (node, slot)) =
        partlyScaled factor (row.map fun slot => (node, slot))
  | [], scaled => ⟨rfl, rfl⟩
  | slot :: rest, scaled => by
    rw [map_cons, firstRefused_cons, partlyScaled]
    by_cases h : acceptedAt factor (node, slot) = true
    · obtain ⟨hresult, hslots⟩ := scaleRow_spec node rest
        (scaled + if counted (factor node) node slot then 1 else 0)
      have hcount : scaled + (if counted (factor node) node slot then 1 else 0) +
          (rest.map fun slot => (node, slot)).countP (countedAt factor) =
            scaled + ((node, slot) :: rest.map fun slot => (node, slot)).countP
              (countedAt factor) := by
        have hone : countedAt factor (node, slot) = counted (factor node) node slot := rfl
        rw [countP_cons, hone, add_assoc, add_comm (List.countP _ _)]
      rw [scaleRow_accepted h, if_pos h, if_pos h, map_cons, hslots, ← hcount]
      exact ⟨hresult, rfl⟩
    · rw [scaleRow_refused (eq_false_of_ne_true h), if_neg h, if_neg h]
      exact ⟨rfl, rfl⟩

theorem scaleRows_spec : ∀ (node : Nat) (rows : List (List (Slot F))) (scaled : Nat),
    (scaleRows factor node rows scaled).1 =
        outcomeAt factor (firstRefused factor (slotsFrom node rows))
          (scaled + (slotsFrom node rows).countP (countedAt factor)) ∧
      slotsFrom node (scaleRows factor node rows scaled).2 =
        partlyScaled factor (slotsFrom node rows)
  | node, [], scaled => ⟨rfl, rfl⟩
  | node, row :: rest, scaled => by
    obtain ⟨hresult, hslots⟩ := @scaleRow_spec F _ factor node row scaled
    rw [scaleRows, slotsFrom, firstRefused_append, partlyScaled_append]
    cases hrow : scaleRow (factor node) node row scaled with
    | mk result slots =>
      rw [hrow] at hresult hslots
      cases hrefused : firstRefused factor (row.map fun slot => (node, slot)) with
      | some located =>
        rw [hrefused] at hresult
        cases hresult
        refine ⟨rfl, ?_⟩
        rw [slotsFrom, ← hslots]
        rfl
      | none =>
        rw [hrefused] at hresult
        cases hresult
        obtain ⟨hresult', hslots'⟩ := scaleRows_spec (node + 1) rest
          (scaled + (row.map fun slot => (node, slot)).countP (countedAt factor))
        refine ⟨?_, ?_⟩
        · rw [countP_append, ← add_assoc]
          exact hresult'
        · rw [slotsFrom, hslots, ← hslots']
          rfl

omit [Quantity F] in
theorem mem_slotsFrom {located : Located F} : ∀ {node : Nat} {rows : List (List (Slot F))},
    located ∈ slotsFrom node rows ↔ node ≤ located.1 ∧ located.2 ∈ rows.getD (located.1 - node) []
  | node, [] => by simp [slotsFrom]
  | node, row :: rest => by
    rw [slotsFrom, mem_append, mem_slotsFrom, mem_map]
    constructor
    · intro h
      rcases h with ⟨slot, hslot, rfl⟩ | ⟨hle, hmem⟩
      · exact ⟨le_refl _, by rw [Nat.sub_self]; exact hslot⟩
      · have hindex : located.1 - node = located.1 - (node + 1) + 1 := by omega
        rw [hindex]
        exact ⟨by omega, hmem⟩
    · intro h
      obtain ⟨hle, hmem⟩ := h
      rcases eq_or_lt_of_le hle with heq | hlt
      · rw [heq, Nat.sub_self] at hmem
        exact .inl ⟨located.2, hmem, by rw [heq]⟩
      · have hindex : located.1 - node = located.1 - (node + 1) + 1 := by omega
        rw [hindex] at hmem
        exact .inr ⟨by omega, hmem⟩

variable (graph : WalkGraph F)

def slots : List (Located F) := slotsFrom 0 graph.adjacency

omit [Quantity F] in
theorem mem_slots {graph : WalkGraph F} {u v : Nat} {w : F} :
    (u, (v, w)) ∈ graph.slots ↔ graph.edge u v w := by
  rw [slots, mem_slotsFrom, Nat.sub_zero]
  exact and_iff_right (zero_le _)

theorem scaleEdgeCosts_spec (factor : F × F → F × F → Nat → Nat → F) :
    (graph.scaleEdgeCosts factor).1 = outcomeAt (graph.factors factor)
        (firstRefused (graph.factors factor) graph.slots)
        (graph.slots.countP (countedAt (graph.factors factor))) ∧
      (graph.scaleEdgeCosts factor).2.slots = partlyScaled (graph.factors factor) graph.slots := by
  have h := @scaleRows_spec F _ (graph.factors factor) 0 graph.adjacency 0
  rw [zero_add] at h
  exact h

def Accepts (factor : F × F → F × F → Nat → Nat → F) : Prop :=
  ∀ located ∈ graph.slots, acceptedAt (graph.factors factor) located = true

variable {graph : WalkGraph F} {given : F × F → F × F → Nat → Nat → F}

theorem Accepts.result (h : graph.Accepts given) : (graph.scaleEdgeCosts given).1 =
    .ok (graph.slots.countP (countedAt (graph.factors given))) := by
  rw [(scaleEdgeCosts_spec graph given).1, firstRefused_none.mpr h]
  rfl

theorem Accepts.slots (h : graph.Accepts given) : (graph.scaleEdgeCosts given).2.slots =
    graph.slots.map (scaledAt (graph.factors given)) := by
  rw [(scaleEdgeCosts_spec graph given).2, partlyScaled_accepted h]

theorem Accepts.edge (h : graph.Accepts given) {u v : Nat} {w : F} :
    (graph.scaleEdgeCosts given).2.edge u v w ↔
      ∃ w', graph.edge u v w' ∧ mul w' (graph.factors given u v) = w := by
  rw [← mem_slots, h.slots, mem_map]
  constructor
  · intro hmem
    obtain ⟨⟨a, b, w'⟩, hslot, heq⟩ := hmem
    simp only [scaledAt, scaledSlot, Prod.mk.injEq] at heq
    obtain ⟨rfl, rfl, hw⟩ := heq
    exact ⟨w', mem_slots.mp hslot, hw⟩
  · intro hmem
    obtain ⟨w', hedge, hw⟩ := hmem
    exact ⟨(u, v, w'), mem_slots.mpr hedge, by rw [← hw]; rfl⟩

end Rows

/-! ## Travel times -/

section Exact

variable {K : Type} [Field K] [LinearOrder K] {graph : WalkGraph K}
  {factor : K × K → K × K → Nat → Nat → K}

theorem accepts_of_nonneg (h : ∀ p q u v, 0 ≤ factor p q u v) : graph.Accepts factor := by
  intro located _
  have hzero : (ofNat 0 : K) = 0 := cast_zero
  have hnot : lt (graph.factors factor located.1 located.2.1) (ofNat 0 : K) = false := by
    rw [hzero]
    exact decide_eq_false (not_lt.mpr (h _ _ _ _))
  rw [acceptedAt, accepted, hnot]
  rfl

variable [IsStrictOrderedRing K]

theorem nonNegative_scaled (hcosts : graph.NonNegative) (h : ∀ p q u v, 0 ≤ factor p q u v) :
    (graph.scaleEdgeCosts factor).2.NonNegative := by
  intro v slot hslot
  obtain ⟨w, hedge, hw⟩ := (accepts_of_nonneg h).edge.mp hslot
  rw [← hw]
  exact mul_nonneg (hcosts v _ hedge) (h _ _ _ _)

section Dearer

variable (hcosts : graph.NonNegative) (hfactor : ∀ p q u v, 1 ≤ factor p q u v)

include hcosts hfactor

theorem edge_dearer {u v : Nat} {w : K} (hedge : graph.edge u v w) :
    ∃ w', (graph.scaleEdgeCosts factor).2.edge u v w' ∧ w ≤ w' :=
  ⟨_, (accepts_of_nonneg fun p q u v => zero_le_one.trans (hfactor p q u v)).edge.mpr
    ⟨w, hedge, rfl⟩, le_mul_of_one_le_right (hcosts u _ hedge) (hfactor _ _ _ _)⟩

theorem edge_cheaper {u v : Nat} {w : K} (hedge : (graph.scaleEdgeCosts factor).2.edge u v w) :
    ∃ w', graph.edge u v w' ∧ w' ≤ w := by
  have haccepts : graph.Accepts factor :=
    accepts_of_nonneg fun p q u v => zero_le_one.trans (hfactor p q u v)
  obtain ⟨w', hedge', rfl⟩ := haccepts.edge.mp hedge
  exact ⟨w', hedge', le_mul_of_one_le_right (hcosts u _ hedge') (hfactor _ _ _ _)⟩

theorem travelTimesFrom_dearer {a b : Nat} (ha : a < graph.nodes.length)
    (hb : b < graph.nodes.length) :
    (((graph.scaleEdgeCosts factor).2.travelTimesFrom a)[b]? = some none ↔
      (graph.travelTimesFrom a)[b]? = some none) ∧
    ∀ x y, (graph.travelTimesFrom a)[b]? = some (some x) →
      ((graph.scaleEdgeCosts factor).2.travelTimesFrom a)[b]? = some (some y) → x ≤ y := by
  have hcosts' : (graph.scaleEdgeCosts factor).2.NonNegative :=
    nonNegative_scaled hcosts fun p q u v => zero_le_one.trans (hfactor p q u v)
  refine ⟨?_, fun x y hx hy => ?_⟩
  · rw [travelTimesFrom_none hcosts' ha hb, travelTimesFrom_none hcosts ha hb, not_iff_not]
    constructor
    · intro hwalk
      obtain ⟨c, walk⟩ := hwalk
      obtain ⟨c', walk', -⟩ := walk.cheaper fun _ _ _ h => edge_cheaper hcosts hfactor h
      exact ⟨c', walk'⟩
    · intro hwalk
      obtain ⟨c, walk⟩ := hwalk
      obtain ⟨c', walk', -⟩ := walk.dearer fun _ _ _ h => edge_dearer hcosts hfactor h
      exact ⟨c', walk'⟩
  · have hleast := (travelTimesFrom_some hcosts ha hb).mp hx
    have hleast' := (travelTimesFrom_some hcosts' ha hb).mp hy
    obtain ⟨c, walk, hle⟩ := hleast'.1.cheaper fun _ _ _ h => edge_cheaper hcosts hfactor h
    exact (hleast.2 walk).trans hle

end Dearer

theorem travelTimesFrom_constant (hcosts : graph.NonNegative) {c : K} (hc : 0 ≤ c) {a b : Nat}
    (ha : a < graph.nodes.length) (hb : b < graph.nodes.length) :
    ((graph.scaleEdgeCosts fun _ _ _ _ => c).2.travelTimesFrom a)[b]? =
      (graph.travelTimesFrom a)[b]?.map fun minutes => minutes.map (· * c) := by
  have haccepts : graph.Accepts fun _ _ _ _ => c := accepts_of_nonneg fun _ _ _ _ => hc
  have hcosts' : (graph.scaleEdgeCosts fun _ _ _ _ => c).2.NonNegative :=
    nonNegative_scaled hcosts fun _ _ _ _ => hc
  have hto : ∀ u v w, graph.edge u v w →
      (graph.scaleEdgeCosts fun _ _ _ _ => c).2.edge u v (w * c) := fun u v w h =>
    haccepts.edge.mpr ⟨w, h, rfl⟩
  have hback : ∀ u v w, (graph.scaleEdgeCosts fun _ _ _ _ => c).2.edge u v w →
      ∃ w', graph.edge u v w' ∧ w' * c = w := fun u v w h => haccepts.edge.mp h
  rw [getElem?_travelTimesFrom hcosts ha hb]
  cases hlabel : (graph.searched a).known b with
  | none =>
    have hnone : ¬ ∃ d, Walk graph.edge a b d := (settled_searched hcosts ha).eq_none.mp hlabel
    refine (travelTimesFrom_none hcosts' ha hb).mpr fun hwalk => hnone ?_
    obtain ⟨d, walk⟩ := hwalk
    obtain ⟨d', walk', -⟩ := walk.unscale hback
    exact ⟨d', walk'⟩
  | some d =>
    have hleast := (settled_searched hcosts ha).isLeast.mp hlabel
    refine (travelTimesFrom_some hcosts' ha hb).mpr ⟨hleast.1.scale hto, fun d' walk => ?_⟩
    obtain ⟨e, walk', he⟩ := Walk.unscale hback walk
    rw [← he]
    exact mul_le_mul_of_nonneg_right (hleast.2 walk') hc

/-- Factors of at least one make no node nearer and cut none off, and one constant factor
multiplies every travel time. -/
theorem scaleEdgeCosts_travelTimes (graph : WalkGraph K) (hcosts : graph.NonNegative) :
    (∀ factor : K × K → K × K → Nat → Nat → K, (∀ p q u v, 1 ≤ factor p q u v) →
      ∃ scaled, (graph.scaleEdgeCosts factor).1 = .ok scaled ∧
        ∀ a < graph.nodes.length, ∀ b < graph.nodes.length,
          (((graph.scaleEdgeCosts factor).2.travelTimesFrom a)[b]? = some none ↔
            (graph.travelTimesFrom a)[b]? = some none) ∧
          ∀ x y, (graph.travelTimesFrom a)[b]? = some (some x) →
            ((graph.scaleEdgeCosts factor).2.travelTimesFrom a)[b]? = some (some y) → x ≤ y) ∧
    ∀ c : K, 0 ≤ c → ∃ scaled, (graph.scaleEdgeCosts fun _ _ _ _ => c).1 = .ok scaled ∧
        ∀ a < graph.nodes.length, ∀ b < graph.nodes.length,
          ((graph.scaleEdgeCosts fun _ _ _ _ => c).2.travelTimesFrom a)[b]? =
            (graph.travelTimesFrom a)[b]?.map fun minutes => minutes.map (· * c) := by
  refine ⟨fun factor hfactor => ?_, fun c hc => ?_⟩
  · have haccepts : graph.Accepts factor :=
      accepts_of_nonneg fun p q u v => zero_le_one.trans (hfactor p q u v)
    exact ⟨_, haccepts.result, fun a ha b hb => travelTimesFrom_dearer hcosts hfactor ha hb⟩
  · have haccepts : graph.Accepts fun _ _ _ _ => c := accepts_of_nonneg fun _ _ _ _ => hc
    exact ⟨_, haccepts.result, fun a ha b hb => travelTimesFrom_constant hcosts hc ha hb⟩

/-- The street between the first two corners becomes dear, so the way around is taken. -/
theorem scaleEdgeCosts_travelTimes_corners :
    (∃ scaled, (corners.scaleEdgeCosts fun _ _ u v => if u + v = 1 then 10 else 1).1 = .ok scaled) ∧
      ((corners.scaleEdgeCosts fun _ _ _ _ => 3).2.travelTimesFrom 0)[2]? =
        (corners.travelTimesFrom 0)[2]?.map fun minutes => minutes.map (· * 3) := by
  obtain ⟨hdearer, hconstant⟩ := scaleEdgeCosts_travelTimes corners corners_nonNegative
  obtain ⟨scaled, hscaled, -⟩ := hdearer (fun _ _ u v => if u + v = 1 then 10 else 1) (by
    intro p q u v
    split_ifs
    · norm_num
    · exact le_refl _)
  obtain ⟨_, -, htimes⟩ := hconstant 3 (by norm_num)
  exact ⟨⟨scaled, hscaled⟩, htimes 0 (by decide) 2 (by decide)⟩

end Exact

end GeneGIS.Network.WalkGraph
