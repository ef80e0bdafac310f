/-
Sums do not fall when a cost is added, so a node that was expanded is settled and none is expanded
twice.
-/
import GeneGIS.Network.Graph
import Mathlib.Algebra.BigOperators.Group.Finset.Basic
import Mathlib.Algebra.Order.BigOperators.Group.List

namespace GeneGIS.Network

open Quantity Option
open List hiding mem_range mem_singleton mem_singleton_self sum_range_succ'
open Finset hiding mem_range mem_singleton mem_singleton_self sum_range_succ'

variable {F L : Type} [Quantity F] [LinearOrder L] {rank : F → L} {Sum Cost : F → Prop}

/-- The order of sums, and what adding a cost does to it. -/
structure Ranked (rank : F → L) (Sum Cost : F → Prop) : Prop where
  lt_iff : ∀ x y, Sum x → Sum y → (lt x y = true ↔ rank x < rank y)
  zero : Sum (ofNat 0)
  add : ∀ c w, Sum c → Cost w → Sum (add c w)
  le_add : ∀ c w, Sum c → Cost w → rank c ≤ rank (Quantity.add c w)

namespace WalkGraph

theorem perm_of_popGreatest : ∀ {heap others : List (QueueEntry F)} {entry : QueueEntry F},
    popGreatest heap = some (entry, others) → heap.Perm (entry :: others)
  | [], _, _, h => by cases h
  | first :: rest, others, entry, h => by
    rw [popGreatest] at h
    cases hrest : popGreatest rest with
    | none =>
      rw [hrest] at h
      cases rest with
      | nil =>
        cases h
        exact Perm.refl _
      | cons second rest =>
        rw [popGreatest] at hrest
        cases hsecond : popGreatest rest with
        | none =>
          rw [hsecond] at hrest
          cases hrest
        | some popped =>
          rw [hsecond] at hrest
          dsimp only at hrest
          split_ifs at hrest
    | some popped =>
      obtain ⟨greatest, remaining⟩ := popped
      have hperm := perm_of_popGreatest hrest
      rw [hrest] at h
      dsimp only at h
      split_ifs at h with hless
      · cases h
        exact (hperm.cons first).trans (Perm.swap _ _ _)
      · cases h
        exact hperm.cons first

theorem popGreatest_eq_none {heap : List (QueueEntry F)} (h : popGreatest heap = none) :
    heap = [] := by
  cases heap with
  | nil => rfl
  | cons first rest =>
    rw [popGreatest] at h
    cases hrest : popGreatest rest with
    | none =>
      rw [hrest] at h
      cases h
    | some popped =>
      rw [hrest] at h
      dsimp only at h
      split_ifs at h

section Order

variable (hranked : Ranked rank Sum Cost)

include hranked

theorem cost_le_of_cmp {a b : QueueEntry F} (ha : Sum a.cost) (hb : Sum b.cost)
    (h : a.cmp b = .lt) : rank b.cost ≤ rank a.cost := by
  by_contra hlt
  have hless := (hranked.lt_iff _ _ ha hb).mpr (not_le.mp hlt)
  have hnot : lt b.cost a.cost = false := by
    rw [Bool.eq_false_iff, ne_eq, hranked.lt_iff _ _ hb ha]
    exact not_lt_of_gt (not_le.mp hlt)
  rw [QueueEntry.cmp, costOrder, hnot, hless] at h
  cases h

theorem cost_le_of_not_cmp {a b : QueueEntry F} (ha : Sum a.cost) (hb : Sum b.cost)
    (h : a.cmp b ≠ .lt) : rank a.cost ≤ rank b.cost := by
  by_contra hlt
  have hless := (hranked.lt_iff _ _ hb ha).mpr (not_le.mp hlt)
  refine h ?_
  rw [QueueEntry.cmp, costOrder, hless]
  rfl

theorem popGreatest_least : ∀ {heap others : List (QueueEntry F)} {entry : QueueEntry F},
    (∀ e ∈ heap, Sum e.cost) → popGreatest heap = some (entry, others) →
      ∀ e ∈ others, rank entry.cost ≤ rank e.cost
  | [], _, _, _, h => by cases h
  | first :: rest, others, entry, hsums, h => by
    rw [popGreatest] at h
    cases hrest : popGreatest rest with
    | none =>
      rw [hrest] at h
      cases h
      intro e he
      cases he
    | some popped =>
      obtain ⟨greatest, remaining⟩ := popped
      have hsums' : ∀ e ∈ rest, Sum e.cost := fun e he => hsums e (mem_cons_of_mem _ he)
      have hleast := popGreatest_least hsums' hrest
      have hgreatest : Sum greatest.cost :=
        hsums' greatest ((perm_of_popGreatest hrest).mem_iff.mpr mem_cons_self)
      have hfirst := hsums first mem_cons_self
      rw [hrest] at h
      dsimp only at h
      split_ifs at h with hless
      · cases h
        intro e he
        rcases mem_cons.mp he with rfl | he
        · exact cost_le_of_cmp hranked hfirst hgreatest hless
        · exact hleast e he
      · cases h
        have hle := cost_le_of_not_cmp hranked hfirst hgreatest hless
        intro e he
        rcases mem_cons.mp he with rfl | he
        · exact hle
        · exact hle.trans (hleast e he)

end Order

/-! ## Labels -/

omit [Quantity F] in
theorem Search.known_set {s : Search F} {node : Nat} (h : node < s.distances.length)
    (value : Option F) (heap : List (QueueEntry F)) (other : Nat) :
    ({ distances := s.distances.set node value, heap := heap } : Search F).known other =
      if other = node then value else s.known other :=
  Loop.getD_set h value none other

/-- What holds between two rounds, when the nodes of `settled` have been expanded. -/
structure Searching (rank : F → L) (Sum : F → Prop) (graph : WalkGraph F) (settled : Finset Nat)
    (s : Search F) : Prop where
  length : s.distances.length = graph.nodes.length
  sums : ∀ v c, s.known v = some c → Sum c
  inside : ∀ e ∈ s.heap, e.node < graph.nodes.length
  entries : ∀ e ∈ s.heap, Sum e.cost ∧ ∃ c, s.known e.node = some c ∧ rank c ≤ rank e.cost
  apart : s.heap.Pairwise fun a b => a.node = b.node → rank a.cost ≠ rank b.cost
  low : ∀ v ∈ settled, ∃ c, s.known v = some c ∧ ∀ e ∈ s.heap, rank c ≤ rank e.cost
  stale : ∀ e ∈ s.heap, e.node ∈ settled → ∀ c, s.known e.node = some c → rank c < rank e.cost

/-- What a slot does to the labels: none is raised, and that of its end is not above the sum. -/
structure Relaxes (rank : F → L) (cost : F) (settled : Finset Nat) (s s' : Search F)
    (slots : List (Slot F)) : Prop where
  lowered : ∀ v c, s.known v = some c → ∃ c', s'.known v = some c' ∧ rank c' ≤ rank c
  kept : ∀ v ∈ settled, s'.known v = s.known v
  reached : ∀ slot ∈ slots, ∃ c, s'.known slot.1 = some c ∧ rank c ≤ rank (add cost slot.2)

section Relax

variable (hranked : Ranked rank Sum Cost) {graph : WalkGraph F} {settled : Finset Nat}
  {s : Search F} {cost : F}

include hranked

theorem searching_relax (h : Searching rank Sum graph settled s) (hcost : Sum cost)
    (hlow : ∀ v ∈ settled, ∃ c, s.known v = some c ∧ rank c ≤ rank cost) {slot : Slot F}
    (hslot : slot.1 < graph.nodes.length) (hedge : Cost slot.2) :
    Searching rank Sum graph settled (s.relax cost slot) ∧
      Relaxes rank cost settled s (s.relax cost slot) [slot] ∧
      (s.relax cost slot).heap.length ≤ s.heap.length + 1 := by
  have hnext := hranked.add cost slot.2 hcost hedge
  have hrise := hranked.le_add cost slot.2 hcost hedge
  rw [Search.relax]
  by_cases himproves : ((s.known slot.1).all fun known => lt (add cost slot.2) known) = true
  · rw [if_pos himproves]
    have hknown := Search.known_set (h.length ▸ hslot) (some (add cost slot.2))
      (⟨add cost slot.2, slot.1⟩ :: s.heap)
    have hbelow : ∀ c, s.known slot.1 = some c → rank (add cost slot.2) < rank c := by
      intro c hc
      rw [hc, all_some, hranked.lt_iff _ _ hnext (h.sums _ _ hc)] at himproves
      exact himproves
    -- a settled node is not improved, its label is not above any sum that is still formed
    have hfresh : slot.1 ∉ settled := by
      intro hmem
      obtain ⟨c, hc, hle⟩ := hlow slot.1 hmem
      exact absurd (hbelow c hc) (not_lt_of_ge (hle.trans hrise))
    have hlowered : ∀ v c, s.known v = some c → ∃ c',
        ({ distances := s.distances.set slot.1 (some (add cost slot.2))
           heap := ⟨add cost slot.2, slot.1⟩ :: s.heap } : Search F).known v = some c' ∧
          rank c' ≤ rank c := by
      intro v c hc
      rw [hknown]
      by_cases hv : v = slot.1
      · rw [if_pos hv]
        exact ⟨_, rfl, (hbelow c (hv ▸ hc)).le⟩
      · rw [if_neg hv]
        exact ⟨c, hc, le_refl _⟩
    have hkept : ∀ v ∈ settled, ({ distances := s.distances.set slot.1 (some (add cost slot.2))
                                   heap := ⟨add cost slot.2, slot.1⟩ :: s.heap } :
        Search F).known v = s.known v := by
      intro v hv
      rw [hknown, if_neg fun heq : v = slot.1 => hfresh (heq ▸ hv)]
    refine ⟨⟨?_, ?_, ?_, ?_, ?_, ?_, ?_⟩, ⟨hlowered, hkept, ?_⟩, by simp⟩
    · rw [length_set, h.length]
    · intro v c hc
      rw [hknown] at hc
      by_cases hv : v = slot.1
      · rw [if_pos hv, Option.some.injEq] at hc
        exact hc ▸ hnext
      · rw [if_neg hv] at hc
        exact h.sums v c hc
    · intro e he
      rcases mem_cons.mp he with rfl | he
      · exact hslot
      · exact h.inside e he
    · intro e he
      rcases mem_cons.mp he with rfl | he
      · refine ⟨hnext, _, ?_, le_refl _⟩
        rw [hknown, if_pos rfl]
      · obtain ⟨hsum, c, hc, hle⟩ := h.entries e he
        obtain ⟨c', hc', hle'⟩ := hlowered _ _ hc
        exact ⟨hsum, c', hc', hle'.trans hle⟩
    · refine pairwise_cons.mpr ⟨fun e he heq hsame => ?_, h.apart⟩
      obtain ⟨-, c, hc, hle⟩ := h.entries e he
      have hlt := hbelow c (by rw [show slot.1 = e.node from heq]; exact hc)
      exact absurd (hlt.trans_le hle) (not_lt_of_ge (le_of_eq hsame.symm))
    · intro v hv
      obtain ⟨c, hc, hle⟩ := h.low v hv
      obtain ⟨d, hd, hle'⟩ := hlow v hv
      cases hc.symm.trans hd
      refine ⟨c, (hkept v hv).trans hc, fun e he => ?_⟩
      rcases mem_cons.mp he with rfl | he
      · exact hle'.trans hrise
      · exact hle e he
    · intro e he hsettled c hc
      rw [hkept _ hsettled] at hc
      rcases mem_cons.mp he with rfl | he
      · exact absurd hsettled hfresh
      · exact h.stale e he hsettled c hc
    · intro other hother
      rw [List.mem_singleton.mp hother, hknown, if_pos rfl]
      exact ⟨_, rfl, le_refl _⟩
  · rw [if_neg himproves]
    refine ⟨h, ⟨fun v c hc => ⟨c, hc, le_refl _⟩, fun v _ => rfl, ?_⟩, Nat.le_succ _⟩
    intro other hother
    rw [List.mem_singleton.mp hother]
    cases hlabel : s.known slot.1 with
    | none =>
      rw [hlabel] at himproves
      exact absurd rfl himproves
    | some c =>
      rw [hlabel, all_some, hranked.lt_iff _ _ hnext (h.sums _ _ hlabel), not_lt]
        at himproves
      exact ⟨c, rfl, himproves⟩

theorem searching_foldl : ∀ (slots : List (Slot F)) {s : Search F},
    Searching rank Sum graph settled s → Sum cost →
      (∀ v ∈ settled, ∃ c, s.known v = some c ∧ rank c ≤ rank cost) →
      (∀ slot ∈ slots, slot.1 < graph.nodes.length ∧ Cost slot.2) →
      Searching rank Sum graph settled (slots.foldl (Search.relax cost) s) ∧
        Relaxes rank cost settled s (slots.foldl (Search.relax cost) s) slots ∧
        (slots.foldl (Search.relax cost) s).heap.length ≤ s.heap.length + slots.length
  | [], s, h, _, _, _ => by
    refine ⟨h, ⟨fun v c hc => ⟨c, hc, le_refl _⟩, fun v _ => rfl, ?_⟩, le_refl _⟩
    intro slot hslot
    cases hslot
  | slot :: slots, s, h, hcost, hlow, hslots => by
    obtain ⟨hinside, hedge⟩ := hslots slot mem_cons_self
    obtain ⟨hone, hrelaxes, hgrown⟩ := searching_relax hranked h hcost hlow hinside hedge
    have hlow' : ∀ v ∈ settled, ∃ c, (s.relax cost slot).known v = some c ∧ rank c ≤ rank cost := by
      intro v hv
      rw [hrelaxes.kept v hv]
      exact hlow v hv
    obtain ⟨hall, hrest, hgrown'⟩ := searching_foldl slots hone hcost hlow' fun other hother =>
      hslots other (mem_cons_of_mem _ hother)
    rw [foldl_cons]
    refine ⟨hall, ⟨?_, ?_, ?_⟩, ?_⟩
    · intro v c hc
      obtain ⟨c', hc', hle⟩ := hrelaxes.lowered v c hc
      obtain ⟨c'', hc'', hle'⟩ := hrest.lowered v c' hc'
      exact ⟨c'', hc'', hle'.trans hle⟩
    · intro v hv
      rw [hrest.kept v hv, hrelaxes.kept v hv]
    · intro other hother
      rcases mem_cons.mp hother with rfl | hother
      · obtain ⟨c, hc, hle⟩ := hrelaxes.reached _ (List.mem_singleton_self _)
        obtain ⟨c', hc', hle'⟩ := hrest.lowered _ c hc
        exact ⟨c', hc', hle'.trans hle⟩
      · exact hrest.reached other hother
    · rw [List.length_cons]
      omega

end Relax

/-! ## Rounds -/

section Rounds

variable (hranked : Ranked rank Sum Cost) {graph : WalkGraph F} {settled : Finset Nat}
  {s s' : Search F}

omit [Quantity F] in
theorem Searching.withHeap (h : Searching rank Sum graph settled s) {entry : QueueEntry F}
    {rest : List (QueueEntry F)} (hperm : s.heap.Perm (entry :: rest)) :
    Searching rank Sum graph settled { s with heap := rest } := by
  have hmem : ∀ e ∈ rest, e ∈ s.heap := fun e he =>
    hperm.mem_iff.mpr (mem_cons_of_mem _ he)
  refine ⟨h.length, h.sums, fun e he => h.inside e (hmem e he), fun e he => h.entries e (hmem e he),
    ?_, ?_, fun e he => h.stale e (hmem e he)⟩
  · have hapart := (hperm.pairwise_iff fun {a b} hab heq hsame => hab heq.symm hsame.symm).mp h.apart
    exact (pairwise_cons.mp hapart).2
  · intro v hv
    obtain ⟨c, hc, hle⟩ := h.low v hv
    exact ⟨c, hc, fun e he => hle e (hmem e he)⟩

omit [Quantity F] in
/-- A node whose entry is a cheapest one and is not dearer than its label is settled. -/
theorem Searching.settle (h : Searching rank Sum graph settled s) {entry : QueueEntry F}
    {rest : List (QueueEntry F)} (hperm : s.heap.Perm (entry :: rest))
    (hleast : ∀ e ∈ rest, rank entry.cost ≤ rank e.cost) {c : F}
    (hlabel : s.known entry.node = some c) (hsame : rank c = rank entry.cost) :
    Searching rank Sum graph (insert entry.node settled) { s with heap := rest } := by
  have hmem : ∀ e ∈ rest, e ∈ s.heap := fun e he =>
    hperm.mem_iff.mpr (mem_cons_of_mem _ he)
  have hrest := h.withHeap hperm
  refine ⟨hrest.length, hrest.sums, hrest.inside, hrest.entries, hrest.apart, ?_, ?_⟩
  · intro v hv
    rcases mem_insert.mp hv with rfl | hv
    · exact ⟨c, hlabel, fun e he => hsame.trans_le (hleast e he)⟩
    · exact hrest.low v hv
  · intro e he hsettled d hd
    rcases mem_insert.mp hsettled with hnode | hsettled
    · have hapart := (hperm.pairwise_iff fun {a b} hab heq hsame => hab heq.symm hsame.symm).mp
        h.apart
      have hne := (pairwise_cons.mp hapart).1 e he hnode.symm
      have hd' : s.known entry.node = some d := hnode ▸ hd
      cases hlabel.symm.trans hd'
      rw [hsame]
      exact lt_of_le_of_ne (hleast e he) hne
    · exact hrest.stale e he hsettled d hd

include hranked

theorem searchStep_cases (h : Searching rank Sum graph settled s)
    (hstep : graph.searchStep s = some s') :
    ∃ entry rest c, s.heap.Perm (entry :: rest) ∧ s.known entry.node = some c ∧
      (∀ e ∈ rest, rank entry.cost ≤ rank e.cost) ∧
      ((rank c < rank entry.cost ∧ s' = { s with heap := rest }) ∨
        (rank c = rank entry.cost ∧ entry.node ∉ settled ∧
          s' = (graph.row entry.node).foldl (Search.relax entry.cost) { s with heap := rest })) := by
  rw [searchStep] at hstep
  cases hpop : popGreatest s.heap with
  | none =>
    rw [hpop] at hstep
    cases hstep
  | some popped =>
    obtain ⟨entry, rest⟩ := popped
    rw [hpop] at hstep
    dsimp only at hstep
    have hperm := perm_of_popGreatest hpop
    have hmem : entry ∈ s.heap := hperm.mem_iff.mpr mem_cons_self
    have hleast := popGreatest_least hranked (fun e he => (h.entries e he).1) hpop
    obtain ⟨hsum, c, hlabel, hle⟩ := h.entries entry hmem
    have hlabel' : ({ s with heap := rest } : Search F).known entry.node = some c := hlabel
    refine ⟨entry, rest, c, hperm, hlabel, hleast, ?_⟩
    rw [hlabel', any_some] at hstep
    by_cases hpassed : lt c entry.cost = true
    · rw [if_pos hpassed, Option.some.injEq] at hstep
      exact .inl ⟨(hranked.lt_iff _ _ (h.sums _ _ hlabel) hsum).mp hpassed, hstep.symm⟩
    · rw [if_neg hpassed, Option.some.injEq] at hstep
      rw [hranked.lt_iff _ _ (h.sums _ _ hlabel) hsum, not_lt] at hpassed
      have hsame := le_antisymm hle hpassed
      refine .inr ⟨hsame, fun hsettled => ?_, hstep.symm⟩
      exact absurd (h.stale entry hmem hsettled c hlabel) (not_lt_of_ge hsame.ge)

/-- The slots that may still be expanded, and the entries. -/
def work (graph : WalkGraph F) (settled : Finset Nat) (s : Search F) : Nat :=
  ∑ v ∈ Finset.range graph.nodes.length \ settled, (graph.row v).length + s.heap.length

theorem searchStep_searching (hcosts : ∀ v, ∀ slot ∈ graph.row v, Cost slot.2)
    (h : Searching rank Sum graph settled s) (hstep : graph.searchStep s = some s') :
    ∃ settled', Searching rank Sum graph settled' s' ∧
      work graph settled' s' < work graph settled s := by
  obtain ⟨entry, rest, c, hperm, hlabel, hleast, hcase⟩ := searchStep_cases hranked h hstep
  have hlength := hperm.length_eq
  rw [List.length_cons] at hlength
  have hmem : entry ∈ s.heap := hperm.mem_iff.mpr mem_cons_self
  rcases hcase with ⟨-, rfl⟩ | ⟨hsame, hfresh, rfl⟩
  · refine ⟨settled, h.withHeap hperm, ?_⟩
    simp only [work]
    omega
  · have hsettle := h.settle hperm hleast hlabel hsame
    have hlow : ∀ v ∈ insert entry.node settled, ∃ d,
        ({ s with heap := rest } : Search F).known v = some d ∧ rank d ≤ rank entry.cost := by
      intro v hv
      rcases mem_insert.mp hv with rfl | hv
      · exact ⟨c, hlabel, hsame.le⟩
      · obtain ⟨d, hd, hle⟩ := h.low v hv
        exact ⟨d, hd, hle entry hmem⟩
    obtain ⟨hsearching, -, hgrown⟩ := searching_foldl hranked (graph.row entry.node) hsettle
      (h.entries entry hmem).1 hlow fun slot hslot => ⟨graph.row_closed hslot, hcosts _ slot hslot⟩
    refine ⟨insert entry.node settled, hsearching, ?_⟩
    have hinside : entry.node ∈ Finset.range graph.nodes.length \ settled :=
      Finset.mem_sdiff.mpr ⟨Finset.mem_range.mpr (h.inside entry hmem), hfresh⟩
    have hsum := add_sum_erase _ (fun v => (graph.row v).length) hinside
    have herase : Finset.range graph.nodes.length \ insert entry.node settled =
        (Finset.range graph.nodes.length \ settled).erase entry.node :=
      sdiff_insert _ _ _
    simp only [work]
    rw [herase]
    dsimp only at hgrown hsum
    omega

variable {origin : Nat}

omit hranked [LinearOrder L] in
theorem known_searchStart (horigin : origin < graph.nodes.length) (v : Nat) :
    (graph.searchStart origin).known v = if v = origin then some (ofNat 0) else none := by
  have hinside : origin < (replicate graph.nodes.length (none : Option F)).length := by
    rw [length_replicate]
    exact horigin
  have hnone : ({ distances := replicate graph.nodes.length none, heap := [] } :
      Search F).known v = none := by
    rw [Search.known, getD_eq_getElem?_getD, getElem?_replicate]
    split_ifs
    · rfl
    · rfl
  have hset := Search.known_set
    (s := { distances := replicate graph.nodes.length (none : Option F), heap := [] })
    hinside (some (ofNat 0)) [⟨ofNat 0, origin⟩] v
  rw [hnone] at hset
  exact hset

theorem searching_start (horigin : origin < graph.nodes.length) :
    Searching rank Sum graph ∅ (graph.searchStart origin) := by
  have hknown := fun v => @known_searchStart _ _ graph _ horigin v
  refine ⟨?_, ?_, ?_, ?_, pairwise_singleton _ _, ?_, ?_⟩
  · rw [searchStart, length_set, length_replicate]
  · intro v c hc
    rw [hknown] at hc
    split_ifs at hc
    exact Option.some.inj hc ▸ hranked.zero
  · intro e he
    rw [List.mem_singleton.mp he]
    exact horigin
  · intro e he
    rw [List.mem_singleton.mp he]
    exact ⟨hranked.zero, ofNat 0, by rw [hknown, if_pos rfl], le_refl _⟩
  · intro v hv
    cases hv
  · intro e _ hsettled
    cases hsettled

omit hranked [LinearOrder L] in
theorem work_start (graph : WalkGraph F) (origin : Nat) :
    work graph ∅ (graph.searchStart origin) ≤ graph.rounds := by
  have hsum : ∀ rows : List (List (Slot F)),
      ∑ v ∈ Finset.range rows.length, (rows.getD v []).length = (rows.map List.length).sum := by
    intro rows
    induction rows with
    | nil => rfl
    | cons row rest ih =>
      rw [List.length_cons, Finset.sum_range_succ', List.map_cons, List.sum_cons, ← ih, add_comm]
      rfl
  rw [work, sdiff_empty, rounds, ← hsum, graph.rows]
  exact le_refl _

theorem searched_ends (hcosts : ∀ v, ∀ slot ∈ graph.row v, Cost slot.2)
    (horigin : origin < graph.nodes.length) :
    graph.searchStep (graph.searched origin) = none ∧
      ∃ settled, Searching rank Sum graph settled (graph.searched origin) :=
  Loop.run_ends_beside (work graph)
    (fun _ _ _ h hstep => searchStep_searching hranked hcosts h hstep) _ _ _
    (searching_start hranked horigin) (work_start graph origin)

end Rounds

end WalkGraph
end GeneGIS.Network
