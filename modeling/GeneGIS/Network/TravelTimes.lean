/-
The node of a label waits in the heap with this cost or has handed it on along all of its slots, so
with an empty heap no label can be improved.
-/
import GeneGIS.Data.ShortestPath
import GeneGIS.Network.Search

namespace GeneGIS.Network.WalkGraph

open Quantity ShortestPath List

section Changes

variable {F : Type} [Quantity F] {s : Search F} {cost : F}

/-- A label that is not the old one is a sum, and waits in the heap. -/
structure Changed (cost : F) (slots : List (Slot F)) (s s' : Search F) : Prop where
  length : s'.distances.length = s.distances.length
  waiting : ∀ e ∈ s.heap, e ∈ s'.heap
  label : ∀ v c, s'.known v = some c → s.known v = some c ∨
    (∃ slot ∈ slots, v = slot.1 ∧ c = add cost slot.2) ∧ ⟨c, v⟩ ∈ s'.heap

theorem changed_relax {slot : Slot F} (h : slot.1 < s.distances.length) :
    Changed cost [slot] s (s.relax cost slot) := by
  rw [Search.relax]
  split_ifs
  · refine ⟨length_set, fun e he => mem_cons_of_mem _ he, fun v c hc => ?_⟩
    rw [Search.known_set h] at hc
    by_cases hv : v = slot.1
    · rw [if_pos hv, Option.some.injEq] at hc
      refine .inr ⟨⟨slot, mem_singleton_self _, hv, hc.symm⟩, ?_⟩
      rw [← hc, hv]
      exact mem_cons_self
    · rw [if_neg hv] at hc
      exact .inl hc
  · exact ⟨rfl, fun e he => he, fun v c hc => .inl hc⟩

theorem changed_foldl : ∀ (slots : List (Slot F)) {s : Search F},
    (∀ slot ∈ slots, slot.1 < s.distances.length) →
      Changed cost slots s (slots.foldl (Search.relax cost) s)
  | [], s, _ => ⟨rfl, fun e he => he, fun v c hc => .inl hc⟩
  | slot :: slots, s, h => by
    have hone : Changed cost [slot] s (s.relax cost slot) := changed_relax (h slot mem_cons_self)
    have hrest : Changed cost slots (s.relax cost slot)
        (slots.foldl (Search.relax cost) (s.relax cost slot)) :=
      changed_foldl slots fun other hother => by
        rw [hone.length]
        exact h other (mem_cons_of_mem _ hother)
    rw [foldl_cons]
    refine ⟨hrest.length.trans hone.length, fun e he => hrest.waiting e (hone.waiting e he), ?_⟩
    intro v c hc
    rcases hrest.label v c hc with hc | ⟨⟨other, hother, hsum⟩, hwaits⟩
    · rcases hone.label v c hc with hc | ⟨⟨other, hother, hsum⟩, hwaits⟩
      · exact .inl hc
      · rw [mem_singleton] at hother
        exact .inr ⟨⟨slot, mem_cons_self, hother ▸ hsum⟩, hrest.waiting _ hwaits⟩
    · exact .inr ⟨⟨other, mem_cons_of_mem _ hother, hsum⟩, hwaits⟩

end Changes

/-! ## Exact costs -/

variable {K : Type} [Field K] [LinearOrder K] {graph : WalkGraph K} {origin : Nat}

def NonNegative (graph : WalkGraph K) : Prop := ∀ v, ∀ slot ∈ graph.row v, 0 ≤ slot.2

theorem nonNegative_ofEdges {nodes : List (K × K)} {edges : List (Edge K)} {length speed : K}
    {h : InRange nodes.length edges} (hedges : ∀ edge ∈ edges, 0 ≤ edge.2) :
    (ofEdges nodes edges length speed h).NonNegative := by
  intro v slot hslot
  rcases edge_ofEdges.mp hslot with hmem | hmem
  · exact hedges _ hmem
  · exact hedges _ hmem

/-- The labels of a search, and the nodes that still have to hand theirs on. -/
structure Labelled (graph : WalkGraph K) (origin : Nat) (s : Search K) : Prop where
  start : ∃ c, s.known origin = some c ∧ c ≤ 0
  sound : ∀ v c, s.known v = some c → Walk graph.edge origin v c
  pending : ∀ v c, s.known v = some c → ⟨c, v⟩ ∈ s.heap ∨
    ∀ slot ∈ graph.row v, ∃ c', s.known slot.1 = some c' ∧ c' ≤ c + slot.2

theorem labelled_start (horigin : origin < graph.nodes.length) :
    Labelled graph origin (graph.searchStart origin) := by
  have hzero : (ofNat 0 : K) = 0 := Nat.cast_zero
  have hlabel : ∀ v c, (graph.searchStart origin).known v = some c → v = origin ∧ c = 0 := by
    intro v c hc
    rw [known_searchStart horigin] at hc
    split_ifs at hc with hv
    exact ⟨hv, (Option.some.inj hc).symm.trans hzero⟩
  refine ⟨⟨0, ?_, le_refl 0⟩, ?_, ?_⟩
  · rw [known_searchStart horigin, if_pos rfl, hzero]
  · intro v c hc
    obtain ⟨rfl, rfl⟩ := hlabel v c hc
    exact .nil
  · intro v c hc
    obtain ⟨rfl, rfl⟩ := hlabel v c hc
    refine .inl (mem_singleton.mpr ?_)
    rw [hzero]

theorem Labelled.pass {s : Search K} (h : Labelled graph origin s) {entry : QueueEntry K}
    {rest : List (QueueEntry K)} (hperm : s.heap.Perm (entry :: rest)) {c : K}
    (hlabel : s.known entry.node = some c) (hlt : c < entry.cost) :
    Labelled graph origin { s with heap := rest } := by
  refine ⟨h.start, h.sound, fun v d hd => ?_⟩
  rcases h.pending v d hd with hwaits | hdone
  · rcases mem_cons.mp (hperm.mem_iff.mp hwaits) with heq | hwaits
    · have hd' : s.known entry.node = some d := by rw [← heq]; exact hd
      cases hlabel.symm.trans hd'
      rw [← heq] at hlt
      exact absurd hlt (lt_irrefl _)
    · exact .inl hwaits
  · exact .inr hdone

theorem Labelled.expand {s : Search K} (h : Labelled graph origin s) {entry : QueueEntry K}
    {rest : List (QueueEntry K)} (hperm : s.heap.Perm (entry :: rest))
    (hlabel : s.known entry.node = some entry.cost) {settled : Finset Nat} {s' : Search K}
    (hchanged : Changed entry.cost (graph.row entry.node) { s with heap := rest } s')
    (hrelaxes : Relaxes id entry.cost settled { s with heap := rest } s' (graph.row entry.node)) :
    Labelled graph origin s' := by
  refine ⟨?_, ?_, ?_⟩
  · obtain ⟨c, hc, hle⟩ := h.start
    obtain ⟨c', hc', hle'⟩ := hrelaxes.lowered origin c hc
    exact ⟨c', hc', hle'.trans hle⟩
  · intro v c hc
    rcases hchanged.label v c hc with hc | ⟨⟨slot, hslot, rfl, rfl⟩, -⟩
    · exact h.sound v c hc
    · exact (h.sound _ _ hlabel).snoc hslot
  · intro v c hc
    rcases hchanged.label v c hc with hold | ⟨-, hwaits⟩
    · rcases h.pending v c hold with hwaits | hdone
      · rcases mem_cons.mp (hperm.mem_iff.mp hwaits) with heq | hwaits
        · refine .inr fun slot hslot => ?_
          rw [← heq] at hrelaxes
          exact hrelaxes.reached slot hslot
        · exact .inl (hchanged.waiting _ hwaits)
      · refine .inr fun slot hslot => ?_
        obtain ⟨c', hc', hle⟩ := hdone slot hslot
        obtain ⟨c'', hc'', hle'⟩ := hrelaxes.lowered _ c' hc'
        exact ⟨c'', hc'', le_trans hle' hle⟩
    · exact .inl hwaits

variable [IsStrictOrderedRing K]

theorem ranked_exact : Ranked (id : K → K) (fun _ => True) (fun w => 0 ≤ w) where
  lt_iff := fun _ _ _ _ => decide_eq_true_iff
  zero := trivial
  add := fun _ _ _ _ => trivial
  le_add := fun _ _ _ hw => le_add_of_nonneg_right hw

theorem walk_nonneg (hcosts : graph.NonNegative) {a b : Nat} {c : K}
    (walk : Walk graph.edge a b c) : 0 ≤ c := by
  induction walk with
  | nil => exact le_refl 0
  | snoc _ next ih => exact add_nonneg ih (hcosts _ _ next)

theorem searchStep_labelled (hcosts : graph.NonNegative) {settled : Finset Nat} {s s' : Search K}
    (hsearching : Searching id (fun _ => True) graph settled s) (h : Labelled graph origin s)
    (hstep : graph.searchStep s = some s') : Labelled graph origin s' := by
  obtain ⟨entry, rest, c, hperm, hlabel, hleast, hcase⟩ :=
    searchStep_cases ranked_exact hsearching hstep
  rcases hcase with ⟨hlt, rfl⟩ | ⟨hsame, -, rfl⟩
  · exact h.pass hperm hlabel hlt
  · have hmem : entry ∈ s.heap := hperm.mem_iff.mpr mem_cons_self
    have hlabel' : s.known entry.node = some entry.cost := by
      rw [hlabel, show c = entry.cost from hsame]
    have hinside : ∀ slot ∈ graph.row entry.node, slot.1 < s.distances.length := by
      intro slot hslot
      rw [hsearching.length]
      exact graph.row_closed hslot
    have hlow : ∀ v ∈ insert entry.node settled, ∃ d,
        ({ s with heap := rest } : Search K).known v = some d ∧ id d ≤ id entry.cost := by
      intro v hv
      rcases Finset.mem_insert.mp hv with rfl | hv
      · exact ⟨c, hlabel, hsame.le⟩
      · obtain ⟨d, hd, hle⟩ := hsearching.low v hv
        exact ⟨d, hd, hle entry hmem⟩
    obtain ⟨-, hrelaxes, -⟩ := searching_foldl ranked_exact (graph.row entry.node)
      (hsearching.settle hperm hleast hlabel hsame) trivial hlow
      fun slot hslot => ⟨graph.row_closed hslot, hcosts _ slot hslot⟩
    exact h.expand hperm hlabel' (changed_foldl _ hinside) hrelaxes

theorem labelled_searched (hcosts : graph.NonNegative) (horigin : origin < graph.nodes.length) :
    Labelled graph origin (graph.searched origin) := by
  have hrun := Loop.run_invariant
    (P := fun s => (∃ settled, Searching id (fun _ => True) graph settled s) ∧
      Labelled graph origin s)
    (fun s s' hs (hstep : graph.searchStep s = some s') => by
      obtain ⟨⟨settled, hsearching⟩, hlabelled⟩ := hs
      obtain ⟨settled', hsearching', -⟩ := searchStep_searching ranked_exact hcosts hsearching hstep
      exact ⟨⟨settled', hsearching'⟩, searchStep_labelled hcosts hsearching hlabelled hstep⟩)
    graph.rounds (graph.searchStart origin)
    ⟨⟨∅, searching_start ranked_exact horigin⟩, labelled_start horigin⟩
  exact hrun.2

theorem settled_searched (hcosts : graph.NonNegative) (horigin : origin < graph.nodes.length) :
    Settled graph.edge origin (graph.searched origin).known := by
  have hlabelled := labelled_searched hcosts horigin
  have hempty : (graph.searched origin).heap = [] := by
    have hends := (searched_ends ranked_exact hcosts horigin).1
    rw [searchStep] at hends
    cases hpop : popGreatest (graph.searched origin).heap with
    | none => exact popGreatest_eq_none hpop
    | some popped =>
      rw [hpop] at hends
      dsimp only at hends
      split_ifs at hends
  refine ⟨?_, hlabelled.sound, fun u v c w hc hedge => ?_⟩
  · obtain ⟨c, hc, hle⟩ := hlabelled.start
    have hzero : c = 0 := le_antisymm hle (walk_nonneg hcosts (hlabelled.sound _ _ hc))
    rw [hc, hzero]
  · rcases hlabelled.pending u c hc with hwaits | hdone
    · rw [hempty] at hwaits
      cases hwaits
    · exact hdone (v, w) hedge

/-! ## Travel times -/

theorem length_travelTimesFrom (hcosts : graph.NonNegative)
    (horigin : origin < graph.nodes.length) :
    (graph.travelTimesFrom origin).length = graph.nodes.length := by
  obtain ⟨-, settled, hsearching⟩ := searched_ends ranked_exact hcosts horigin
  exact hsearching.length

theorem getElem?_travelTimesFrom (hcosts : graph.NonNegative)
    (horigin : origin < graph.nodes.length) {v : Nat} (hv : v < graph.nodes.length) :
    (graph.travelTimesFrom origin)[v]? = some ((graph.searched origin).known v) := by
  have hlength := length_travelTimesFrom hcosts horigin
  rw [Search.known, ← travelTimesFrom, getD_eq_getElem _ _ (hlength ▸ hv), getElem?_eq_getElem]

theorem travelTimesFrom_some (hcosts : graph.NonNegative) (horigin : origin < graph.nodes.length)
    {v : Nat} (hv : v < graph.nodes.length) {c : K} :
    (graph.travelTimesFrom origin)[v]? = some (some c) ↔ IsLeast (costs graph.edge origin v) c := by
  rw [getElem?_travelTimesFrom hcosts horigin hv, Option.some.injEq]
  exact (settled_searched hcosts horigin).isLeast

theorem travelTimesFrom_none (hcosts : graph.NonNegative) (horigin : origin < graph.nodes.length)
    {v : Nat} (hv : v < graph.nodes.length) :
    (graph.travelTimesFrom origin)[v]? = some none ↔ ¬ ∃ c, Walk graph.edge origin v c := by
  rw [getElem?_travelTimesFrom hcosts horigin hv, Option.some.injEq]
  exact (settled_searched hcosts horigin).eq_none

/-- The search ends and its labels are the least costs of walks; on a graph as it is built they are
symmetric and satisfy the triangle inequality. -/
theorem travelTimesFrom_least (graph : WalkGraph K) (hcosts : graph.NonNegative) :
    (∀ origin < graph.nodes.length, graph.searchStep (graph.searched origin) = none ∧
      (graph.travelTimesFrom origin).length = graph.nodes.length ∧
      ∀ v < graph.nodes.length, (∀ c, (graph.travelTimesFrom origin)[v]? = some (some c) ↔
          IsLeast (costs graph.edge origin v) c) ∧
        ((graph.travelTimesFrom origin)[v]? = some none ↔ ¬ ∃ c, Walk graph.edge origin v c)) ∧
    ∀ nodes edges length speed h, graph = ofEdges nodes edges length speed h →
      ∀ a < nodes.length, ∀ b < nodes.length,
        (graph.travelTimesFrom a)[b]? = (graph.travelTimesFrom b)[a]? ∧
        ∀ d < nodes.length, ∀ x y, (graph.travelTimesFrom a)[b]? = some (some x) →
          (graph.travelTimesFrom b)[d]? = some (some y) →
          ∃ z, (graph.travelTimesFrom a)[d]? = some (some z) ∧ z ≤ x + y := by
  refine ⟨fun origin horigin => ⟨(searched_ends ranked_exact hcosts horigin).1,
    length_travelTimesFrom hcosts horigin, fun v hv => ⟨fun c =>
      travelTimesFrom_some hcosts horigin hv, travelTimesFrom_none hcosts horigin hv⟩⟩, ?_⟩
  intro nodes edges length speed h hgraph a ha b hb
  have hn : graph.nodes.length = nodes.length := by rw [hgraph]; rfl
  have hsymm : ∀ u v w, graph.edge u v w → graph.edge v u w := by
    rw [hgraph]
    exact edge_ofEdges_symm
  rw [← hn] at ha hb
  refine ⟨?_, fun d hd x y hx hy => ?_⟩
  · rw [getElem?_travelTimesFrom hcosts ha hb, getElem?_travelTimesFrom hcosts hb ha]
    congr 1
    refine Option.ext fun c => ?_
    rw [(settled_searched hcosts ha).isLeast, (settled_searched hcosts hb).isLeast,
      costs_symm hsymm]
  · rw [← hn] at hd
    have hab := (travelTimesFrom_some hcosts ha hb).mp hx
    have hbd := (travelTimesFrom_some hcosts hb hd).mp hy
    obtain ⟨z, hz, -⟩ := (settled_searched hcosts ha).le (hab.1.append hbd.1)
    rw [← Option.some.injEq, ← getElem?_travelTimesFrom hcosts ha hd] at hz
    exact ⟨z, hz, least_triangle hab hbd ((travelTimesFrom_some hcosts ha hd).mp hz)⟩

/-- Two short streets, and a long one between their ends. -/
def corners : WalkGraph ℚ :=
  ofEdges [(0, 0), (1, 0), (1, 1)] [((0, 1), 1), ((1, 2), 2), ((0, 2), 4)] 7 1 (by simp [InRange])

theorem corners_nonNegative : corners.NonNegative := by
  refine nonNegative_ofEdges fun edge hedge => ?_
  simp only [mem_cons, not_mem_nil, or_false] at hedge
  rcases hedge with rfl | rfl | rfl
  · norm_num
  · norm_num
  · norm_num

theorem travelTimesFrom_least_corners : corners.searchStep (corners.searched 0) = none ∧
      (corners.travelTimesFrom 0).length = 3 ∧
      (corners.travelTimesFrom 0)[2]? = (corners.travelTimesFrom 2)[0]? := by
  obtain ⟨hends, hbuilt⟩ := travelTimesFrom_least corners corners_nonNegative
  obtain ⟨hdone, hlength, -⟩ := hends 0 (by decide)
  obtain ⟨hsymm, -⟩ := hbuilt _ _ _ _ _ rfl 0 (by decide) 2 (by decide)
  exact ⟨hdone, hlength, hsymm⟩

example : corners.travelTimesFrom 0 = [some 0, some 1, some 3] := by decide +kernel

end GeneGIS.Network.WalkGraph
