/-
The cheapest arrival is taken, passed over when its node has a lower label by now, and otherwise
all arrivals that follow it are offered.  There is one label for a node, however it was reached.
-/
import GeneGIS.Data.Loop
import Mathlib.Algebra.Order.BigOperators.Group.Finset
import Mathlib.Algebra.Order.Group.Basic

namespace GeneGIS.LabelSearch

open List Option Finset Prod

/-- A node, what it cost to get there, and the last thing on the way. -/
structure Arrival (F P : Type) where
  cost : F
  node : Nat
  via : P

/-- `BinaryHeap::pop`: a greatest entry and the others. -/
def popGreatest {α : Type} (cmp : α → α → Ordering) : List α → Option (α × List α)
  | [] => none
  | entry :: rest =>
    match popGreatest cmp rest with
    | none => some (entry, [])
    | some (greatest, others) =>
      if cmp entry greatest = .lt then some (greatest, entry :: others)
      else some (entry, greatest :: others)

structure Search (F P : Type) where
  distances : List (Option F)
  heap : List (Arrival F P)

section Executable

variable {F P : Type} (cmp : Arrival F P → Arrival F P → Ordering) (improves stale : F → F → Bool)
  (successors : Arrival F P → List (Arrival F P))

variable (s : Search F P)

def Search.known (node : Nat) : Option F := s.distances.getD node none

def Search.relax (next : Arrival F P) : Search F P :=
  if (s.known next.node).all fun known => improves next.cost known then
    { distances := s.distances.set next.node (some next.cost), heap := next :: s.heap }
  else s

/-- One round of the loop over the heap. -/
def step : Option (Search F P) :=
  match popGreatest cmp s.heap with
  | none => none
  | some (entry, rest) =>
    let s := { s with heap := rest }
    if (s.known entry.node).any fun known => stale entry.cost known then some s
    else some ((successors entry).foldl (Search.relax improves) s)

def begin (count : Nat) (start : Arrival F P) : Search F P where
  distances := (replicate count none).set start.node (some start.cost)
  heap := [start]

def search (count bound : Nat) (start : Arrival F P) : Search F P :=
  Loop.run (step cmp improves stale successors) bound (begin count start)

end Executable

/-! ## The heap -/

section Heap

variable {α : Type} {cmp : α → α → Ordering}

theorem perm_of_popGreatest : ∀ {heap others : List α} {entry : α},
    popGreatest cmp heap = some (entry, others) → heap.Perm (entry :: others)
  | [], _, _, h => by cases h
  | first :: rest, others, entry, h => by
    rw [popGreatest] at h
    cases hrest : popGreatest cmp rest with
    | none =>
      rw [hrest] at h
      cases h
      cases rest with
      | nil => exact Perm.refl _
      | cons b rest =>
        rw [popGreatest] at hrest
        split at hrest
        · cases hrest
        · split_ifs at hrest
    | some found =>
      obtain ⟨greatest, left⟩ := found
      have hperm := perm_of_popGreatest hrest
      rw [hrest] at h
      dsimp only at h
      split_ifs at h
      · cases h
        exact (hperm.cons first).trans (Perm.swap _ _ _)
      · cases h
        exact hperm.cons first

theorem popGreatest_eq_none {heap : List α} (h : popGreatest cmp heap = none) : heap = [] := by
  cases heap with
  | nil => rfl
  | cons first rest =>
    rw [popGreatest] at h
    split at h
    · cases h
    · split_ifs at h

end Heap

section Exact

variable {K P : Type} [AddCommGroup K] [LinearOrder K] [IsOrderedAddMonoid K]

/-- The exact meaning of what a search compares, and what may follow an arrival. -/
structure Rules (cmp : Arrival K P → Arrival K P → Ordering) (improves stale : K → K → Bool)
    (successors : Arrival K P → List (Arrival K P)) (slack : K) (count : Nat)
    (degree : Nat → Nat) : Prop where
  cheaper : ∀ a b, cmp a b = .lt → b.cost ≤ a.cost
  dearer : ∀ a b, cmp a b ≠ .lt → a.cost ≤ b.cost
  improves_iff : ∀ next known, improves next known = true ↔ next + slack < known
  stale_iff : ∀ cost known, stale cost known = true ↔ known + slack < cost
  nonneg : 0 ≤ slack
  rises : ∀ e, ∀ next ∈ successors e, e.cost ≤ next.cost
  inside : ∀ e, ∀ next ∈ successors e, next.node < count
  bounded : ∀ e, (successors e).length ≤ degree e.node

variable {cmp : Arrival K P → Arrival K P → Ordering} {improves stale : K → K → Bool}
  {successors : Arrival K P → List (Arrival K P)} {slack : K} {count : Nat} {degree : Nat → Nat}

omit [IsOrderedAddMonoid K] in
theorem popGreatest_least (hrules : Rules cmp improves stale successors slack count degree) :
    ∀ {heap others : List (Arrival K P)} {entry : Arrival K P},
      popGreatest cmp heap = some (entry, others) → ∀ e ∈ others, entry.cost ≤ e.cost
  | [], _, _, h => by cases h
  | first :: rest, others, entry, h => by
    rw [popGreatest] at h
    cases hrest : popGreatest cmp rest with
    | none =>
      rw [hrest] at h
      cases h
      intro e he
      cases he
    | some found =>
      obtain ⟨greatest, left⟩ := found
      have hleast := popGreatest_least hrules hrest
      rw [hrest] at h
      dsimp only at h
      split_ifs at h with hless
      · cases h
        intro e he
        rcases mem_cons.mp he with rfl | he
        · exact hrules.cheaper _ _ hless
        · exact hleast e he
      · cases h
        have hfirst := hrules.dearer _ _ hless
        intro e he
        rcases mem_cons.mp he with rfl | he
        · exact hfirst
        · exact hfirst.trans (hleast e he)

/-- The arrivals that follow a first one step by step, when every step is allowed. -/
inductive Reached (successors : Arrival K P → List (Arrival K P)) (start : Arrival K P)
    (allowed : Arrival K P → Arrival K P → Prop) : Arrival K P → Nat → Prop where
  | start : Reached successors start allowed start 0
  | next {e next : Arrival K P} {n : Nat} (h : Reached successors start allowed e n)
      (hallowed : allowed e next) (hnext : next ∈ successors e) :
      Reached successors start allowed next (n + 1)

omit [AddCommGroup K] [LinearOrder K] [IsOrderedAddMonoid K] in
theorem Reached.mono {start : Arrival K P} {allowed allowed' : Arrival K P → Arrival K P → Prop}
    (hmono : ∀ e next, allowed e next → allowed' e next) {e : Arrival K P} {n : Nat}
    (h : Reached successors start allowed e n) : Reached successors start allowed' e n := by
  induction h with
  | start => exact .start
  | next _ hallowed hnext ih => exact .next ih (hmono _ _ hallowed) hnext

/-! ## Invariants -/

/-- The arrival is the label of a node that has been settled. -/
def Handed (settled : Finset Nat) (s : Search K P) (e _next : Arrival K P) : Prop :=
  e.node ∈ settled ∧ s.known e.node = some e.cost

/-- What holds between two rounds, when the nodes of `settled` have handed their labels on. -/
structure Searching (successors : Arrival K P → List (Arrival K P)) (start : Arrival K P)
    (slack : K) (count : Nat) (settled : Finset Nat) (s : Search K P) : Prop where
  length : s.distances.length = count
  members : settled ⊆ Finset.range count
  inside : ∀ e ∈ s.heap, e.node < count
  ways : ∀ e ∈ s.heap, ∃ n ≤ settled.card, Reached successors start (Handed settled s) e n
  entries : ∀ e ∈ s.heap, ∃ c, s.known e.node = some c ∧ (c = e.cost ∨ c + slack < e.cost)
  apart : s.heap.Pairwise fun a b => a.node = b.node → a.cost ≠ b.cost
  low : ∀ v ∈ settled, ∃ c, s.known v = some c ∧ ∀ e ∈ s.heap, c ≤ e.cost
  stale : ∀ e ∈ s.heap, e.node ∈ settled → s.known e.node ≠ some e.cost
  waiting : ∀ v c, s.known v = some c → v ∉ settled → ∃ e ∈ s.heap, e.node = v ∧ e.cost = c

/-- The label of a settled node comes from an arrival whose followers have been offered. -/
def Done (successors : Arrival K P → List (Arrival K P)) (start : Arrival K P) (slack : K)
    (settled : Finset Nat) (s : Search K P) (v : Nat) : Prop :=
  ∃ e n, e.node = v ∧ s.known v = some e.cost ∧ n ≤ settled.card ∧
    Reached successors start (Handed settled s) e n ∧
    ∀ next ∈ successors e, ∃ c, s.known next.node = some c ∧ c ≤ next.cost + slack

/-- What offering arrivals does to the labels. -/
structure Relaxes (slack : K) (settled : Finset Nat) (offered : List (Arrival K P))
    (s s' : Search K P) : Prop where
  lowered : ∀ v c, s.known v = some c → ∃ c', s'.known v = some c' ∧ c' ≤ c
  kept : ∀ v ∈ settled, s'.known v = s.known v
  reached : ∀ next ∈ offered, ∃ c, s'.known next.node = some c ∧ c ≤ next.cost + slack

omit [AddCommGroup K] [LinearOrder K] [IsOrderedAddMonoid K] in
theorem Search.known_set {s : Search K P} {node : Nat} (h : node < s.distances.length)
    (value : Option K) (heap : List (Arrival K P)) (other : Nat) :
    ({ distances := s.distances.set node value, heap := heap } : Search K P).known other =
      if other = node then value else s.known other :=
  Loop.getD_set h value none other

omit [IsOrderedAddMonoid K] in
theorem Relaxes.refl_nil (settled : Finset Nat) (s : Search K P) :
    Relaxes slack settled [] s s where
  lowered _ c hc := ⟨c, hc, le_refl c⟩
  kept _ _ := rfl
  reached _ hnext := (by cases hnext)

omit [IsOrderedAddMonoid K] in
theorem Relaxes.handed {settled : Finset Nat} {offered : List (Arrival K P)} {s s' : Search K P}
    (h : Relaxes slack settled offered s s') {start e : Arrival K P} {n : Nat}
    (hway : Reached successors start (Handed settled s) e n) :
    Reached successors start (Handed settled s') e n := by
  refine hway.mono fun a _ ha => ⟨ha.1, ?_⟩
  rw [h.kept _ ha.1]
  exact ha.2

section Relax

variable (hrules : Rules cmp improves stale successors slack count degree) {start : Arrival K P}
  {settled : Finset Nat} {s : Search K P} {next : Arrival K P}

include hrules

theorem searching_relax (h : Searching successors start slack count settled s)
    (hinside : next.node < count)
    (hway : ∃ n ≤ settled.card, Reached successors start (Handed settled s) next n)
    (hlow : ∀ v ∈ settled, ∃ c, s.known v = some c ∧ c ≤ next.cost) :
    Searching successors start slack count settled (s.relax improves next) ∧
      Relaxes slack settled [next] s (s.relax improves next) ∧
      (s.relax improves next).heap.length ≤ s.heap.length + 1 := by
  rw [Search.relax]
  by_cases himproves : ((s.known next.node).all fun known => improves next.cost known) = true
  · rw [if_pos himproves]
    have hknown := Search.known_set (h.length ▸ hinside) (some next.cost) (next :: s.heap)
    have hbelow : ∀ c, s.known next.node = some c → next.cost + slack < c := by
      intro c hc
      rw [hc, all_some, hrules.improves_iff] at himproves
      exact himproves
    have hbelow' : ∀ c, s.known next.node = some c → next.cost < c := fun c hc =>
      (le_add_of_nonneg_right hrules.nonneg).trans_lt (hbelow c hc)
    -- a settled node is not improved: its label is not above any arrival that still comes
    have hfresh : next.node ∉ settled := by
      intro hmem
      obtain ⟨c, hc, hle⟩ := hlow next.node hmem
      exact absurd (hbelow' c hc) (not_lt_of_ge hle)
    have hrelaxes : Relaxes slack settled [next] s
        { distances := s.distances.set next.node (some next.cost), heap := next :: s.heap } := by
      refine ⟨fun v c hc => ?_, fun v hv => ?_, fun other hother => ?_⟩
      · rw [hknown]
        by_cases hv : v = next.node
        · rw [if_pos hv]
          exact ⟨_, rfl, (hbelow' c (hv ▸ hc)).le⟩
        · rw [if_neg hv]
          exact ⟨c, hc, le_refl _⟩
      · rw [hknown, if_neg fun heq : v = next.node => hfresh (heq ▸ hv)]
      · rw [List.mem_singleton.mp hother, hknown, if_pos rfl]
        exact ⟨_, rfl, le_add_of_nonneg_right hrules.nonneg⟩
    refine ⟨⟨?_, h.members, ?_, ?_, ?_, ?_, ?_, ?_, ?_⟩, hrelaxes, le_refl _⟩
    · rw [length_set, h.length]
    · intro e he
      rcases mem_cons.mp he with rfl | he
      · exact hinside
      · exact h.inside e he
    · intro e he
      rcases mem_cons.mp he with rfl | he
      · obtain ⟨n, hn, hreached⟩ := hway
        exact ⟨n, hn, hrelaxes.handed hreached⟩
      · obtain ⟨n, hn, hreached⟩ := h.ways e he
        exact ⟨n, hn, hrelaxes.handed hreached⟩
    · intro e he
      rw [hknown]
      rcases mem_cons.mp he with rfl | he
      · exact ⟨_, if_pos rfl, .inl rfl⟩
      · obtain ⟨c, hc, hcase⟩ := h.entries e he
        by_cases hnode : e.node = next.node
        · refine ⟨_, if_pos hnode, .inr ?_⟩
          have hle : c ≤ e.cost := by
            rcases hcase with heq | hlt
            · exact heq.le
            · exact ((le_add_of_nonneg_right hrules.nonneg).trans_lt hlt).le
          exact (hbelow c (hnode ▸ hc)).trans_le hle
        · rw [if_neg hnode]
          exact ⟨c, hc, hcase⟩
    · refine pairwise_cons.mpr ⟨fun e he hnode hsame => ?_, h.apart⟩
      obtain ⟨c, hc, hcase⟩ := h.entries e he
      have hlt := hbelow' c (by rw [hnode]; exact hc)
      have hle : c ≤ e.cost := by
        rcases hcase with heq | hlt
        · exact heq.le
        · exact ((le_add_of_nonneg_right hrules.nonneg).trans_lt hlt).le
      rw [hsame] at hlt
      exact absurd hlt (not_lt_of_ge hle)
    · intro v hv
      obtain ⟨c, hc, hle⟩ := h.low v hv
      obtain ⟨d, hd, hdle⟩ := hlow v hv
      cases hc.symm.trans hd
      refine ⟨c, (hrelaxes.kept v hv).trans hc, fun e he => ?_⟩
      rcases mem_cons.mp he with rfl | he
      · exact hdle
      · exact hle e he
    · intro e he hsettled
      rw [hrelaxes.kept _ hsettled]
      rcases mem_cons.mp he with rfl | he
      · exact absurd hsettled hfresh
      · exact h.stale e he hsettled
    · intro v c hc hv
      rw [hknown] at hc
      by_cases hnode : v = next.node
      · rw [if_pos hnode] at hc
        exact ⟨next, mem_cons_self, hnode.symm, Option.some.inj hc⟩
      · rw [if_neg hnode] at hc
        obtain ⟨e, he, hsame⟩ := h.waiting v c hc hv
        exact ⟨e, mem_cons_of_mem _ he, hsame⟩
  · rw [if_neg himproves]
    refine ⟨h, ⟨fun v c hc => ⟨c, hc, le_refl _⟩, fun v _ => rfl, ?_⟩, Nat.le_succ _⟩
    intro other hother
    rw [List.mem_singleton.mp hother]
    cases hlabel : s.known next.node with
    | none =>
      rw [hlabel] at himproves
      exact absurd rfl himproves
    | some c =>
      rw [hlabel, all_some, hrules.improves_iff, not_lt] at himproves
      exact ⟨c, rfl, himproves⟩

theorem searching_foldl : ∀ (offered : List (Arrival K P)) {s : Search K P},
    Searching successors start slack count settled s → (∀ next ∈ offered, next.node < count ∧
        (∃ n ≤ settled.card, Reached successors start (Handed settled s) next n) ∧
        ∀ v ∈ settled, ∃ c, s.known v = some c ∧ c ≤ next.cost) →
      Searching successors start slack count settled (offered.foldl (Search.relax improves) s) ∧
        Relaxes slack settled offered s (offered.foldl (Search.relax improves) s) ∧
        (offered.foldl (Search.relax improves) s).heap.length ≤ s.heap.length + offered.length
  | [], s, h, _ => ⟨h, .refl_nil settled s, le_refl _⟩
  | next :: offered, s, h, hoffered => by
    obtain ⟨hinside, hway, hlow⟩ := hoffered next mem_cons_self
    obtain ⟨hone, hrelaxes, hgrown⟩ := searching_relax hrules h hinside hway hlow
    have hlater : ∀ other ∈ offered, other.node < count ∧ (∃ n ≤ settled.card,
          Reached successors start (Handed settled (s.relax improves next)) other n) ∧
        ∀ v ∈ settled, ∃ c, (s.relax improves next).known v = some c ∧ c ≤ other.cost := by
      intro other hother
      obtain ⟨hin, ⟨n, hn, hreached⟩, hbound⟩ := hoffered other (mem_cons_of_mem _ hother)
      refine ⟨hin, ⟨n, hn, hrelaxes.handed hreached⟩, fun v hv => ?_⟩
      rw [hrelaxes.kept v hv]
      exact hbound v hv
    obtain ⟨hall, hrest, hgrown'⟩ := searching_foldl offered hone hlater
    rw [foldl_cons]
    refine ⟨hall, ⟨?_, ?_, ?_⟩, ?_⟩
    · intro v c hc
      obtain ⟨c', hc', hle⟩ := hrelaxes.lowered v c hc
      obtain ⟨c'', hc'', hle'⟩ := hrest.lowered v c' hc'
      exact ⟨c'', hc'', hle'.trans hle⟩
    · intro v hv
      rw [hrest.kept v hv, hrelaxes.kept v hv]
    · intro other hother
      rcases mem_cons.mp hother with rfl | hother
      · obtain ⟨c, hc, hle⟩ := hrelaxes.reached _ (List.mem_singleton_self _)
        obtain ⟨c', hc', hle'⟩ := hrest.lowered _ c hc
        exact ⟨c', hc', hle'.trans hle⟩
      · exact hrest.reached other hother
    · rw [length_cons]
      omega

end Relax

/-! ## Rounds -/

section Rounds

variable {start : Arrival K P} {settled : Finset Nat} {s s' : Search K P} {entry : Arrival K P}
  {rest : List (Arrival K P)}

omit [IsOrderedAddMonoid K] in
theorem Searching.pass (h : Searching successors start slack count settled s)
    (hperm : s.heap.Perm (entry :: rest)) (hlabel : s.known entry.node ≠ some entry.cost) :
    Searching successors start slack count settled { s with heap := rest } := by
  have hmem : ∀ e ∈ rest, e ∈ s.heap := fun e he =>
    hperm.mem_iff.mpr (mem_cons_of_mem _ he)
  have hapart := (hperm.pairwise_iff fun {a b} hab heq hsame => hab heq.symm hsame.symm).mp h.apart
  refine ⟨h.length, h.members, fun e he => h.inside e (hmem e he), fun e he => h.ways e (hmem e he),
    fun e he => h.entries e (hmem e he), (pairwise_cons.mp hapart).2, ?_,
    fun e he => h.stale e (hmem e he), ?_⟩
  · intro v hv
    obtain ⟨c, hc, hle⟩ := h.low v hv
    exact ⟨c, hc, fun e he => hle e (hmem e he)⟩
  · intro v c hc hv
    obtain ⟨e, he, rfl, rfl⟩ := h.waiting v c hc hv
    rcases mem_cons.mp (hperm.mem_iff.mp he) with rfl | he
    · exact absurd hc hlabel
    · exact ⟨e, he, rfl, rfl⟩

omit [IsOrderedAddMonoid K] in
theorem Searching.settle (h : Searching successors start slack count settled s)
    (hperm : s.heap.Perm (entry :: rest)) (hleast : ∀ e ∈ rest, entry.cost ≤ e.cost)
    (hlabel : s.known entry.node = some entry.cost) :
    Searching successors start slack count (insert entry.node settled) { s with heap := rest } := by
  have hmem : ∀ e ∈ rest, e ∈ s.heap := fun e he =>
    hperm.mem_iff.mpr (mem_cons_of_mem _ he)
  have hentry : entry ∈ s.heap := hperm.mem_iff.mpr mem_cons_self
  have hapart := pairwise_cons.mp
    ((hperm.pairwise_iff fun {a b} hab heq hsame => hab heq.symm hsame.symm).mp h.apart)
  have hcard : settled.card ≤ (insert entry.node settled).card := card_le_card (subset_insert _ _)
  refine ⟨h.length, ?_, fun e he => h.inside e (hmem e he), ?_,
    fun e he => h.entries e (hmem e he), hapart.2, ?_, ?_, ?_⟩
  · exact Finset.insert_subset (Finset.mem_range.mpr (h.inside entry hentry)) h.members
  · intro e he
    obtain ⟨n, hn, hreached⟩ := h.ways e (hmem e he)
    exact ⟨n, hn.trans hcard, hreached.mono fun a _ ha => ⟨mem_insert_of_mem ha.1, ha.2⟩⟩
  · intro v hv
    rcases mem_insert.mp hv with rfl | hv
    · exact ⟨_, hlabel, hleast⟩
    · obtain ⟨c, hc, hle⟩ := h.low v hv
      exact ⟨c, hc, fun e he => hle e (hmem e he)⟩
  · intro e he hsettled heq
    have heq : s.known e.node = some e.cost := heq
    rcases mem_insert.mp hsettled with hnode | hsettled
    · rw [hnode, hlabel] at heq
      exact hapart.1 e he hnode.symm (Option.some.inj heq)
    · exact h.stale e (hmem e he) hsettled heq
  · intro v c hc hv
    obtain ⟨e, he, rfl, rfl⟩ := h.waiting v c hc fun hold => hv (mem_insert_of_mem hold)
    rcases mem_cons.mp (hperm.mem_iff.mp he) with rfl | he
    · exact absurd (mem_insert_self _ _) hv
    · exact ⟨e, he, rfl, rfl⟩

variable (hrules : Rules cmp improves stale successors slack count degree)
include hrules

theorem step_cases (h : Searching successors start slack count settled s)
    (hstep : step cmp improves stale successors s = some s') :
    ∃ entry rest, s.heap.Perm (entry :: rest) ∧ (∀ e ∈ rest, entry.cost ≤ e.cost) ∧
      ((s.known entry.node ≠ some entry.cost ∧ s' = { s with heap := rest }) ∨
        (s.known entry.node = some entry.cost ∧
          s' = (successors entry).foldl (Search.relax improves) { s with heap := rest })) := by
  rw [step] at hstep
  cases hpop : popGreatest cmp s.heap with
  | none =>
    rw [hpop] at hstep
    cases hstep
  | some popped =>
    obtain ⟨entry, rest⟩ := popped
    rw [hpop] at hstep
    dsimp only at hstep
    have hperm := perm_of_popGreatest hpop
    obtain ⟨c, hlabel, hcase⟩ := h.entries entry (hperm.mem_iff.mpr mem_cons_self)
    have hlabel' : ({ s with heap := rest } : Search K P).known entry.node = some c := hlabel
    refine ⟨entry, rest, hperm, popGreatest_least hrules hpop, ?_⟩
    rw [hlabel', any_some] at hstep
    rcases hcase with heq | hlt
    · have hstale : ¬ stale entry.cost c = true := by
        rw [hrules.stale_iff, heq]
        exact not_lt_of_ge (le_add_of_nonneg_right hrules.nonneg)
      rw [if_neg hstale, Option.some.injEq] at hstep
      exact .inr ⟨by rw [hlabel, heq], hstep.symm⟩
    · rw [if_pos ((hrules.stale_iff _ _).mpr hlt), Option.some.injEq] at hstep
      refine .inl ⟨fun heq => ?_, hstep.symm⟩
      cases hlabel.symm.trans heq
      exact absurd hlt (not_lt_of_ge (le_add_of_nonneg_right hrules.nonneg))

theorem Searching.expand (h : Searching successors start slack count settled s)
    (hperm : s.heap.Perm (entry :: rest)) (hleast : ∀ e ∈ rest, entry.cost ≤ e.cost)
    (hlabel : s.known entry.node = some entry.cost) :
    entry.node ∉ settled ∧ Searching successors start slack count (insert entry.node settled)
        ((successors entry).foldl (Search.relax improves) { s with heap := rest }) ∧
      Relaxes slack (insert entry.node settled) (successors entry) s
        ((successors entry).foldl (Search.relax improves) { s with heap := rest }) ∧
      ((successors entry).foldl (Search.relax improves) { s with heap := rest }).heap.length ≤
        rest.length + degree entry.node ∧
      ∃ n ≤ settled.card, Reached successors start (Handed (insert entry.node settled) s) entry n := by
  have hentry : entry ∈ s.heap := hperm.mem_iff.mpr mem_cons_self
  have hfresh : entry.node ∉ settled := fun hsettled => h.stale entry hentry hsettled hlabel
  obtain ⟨n, hn, hreached⟩ := h.ways entry hentry
  have hway : Reached successors start (Handed (insert entry.node settled) s) entry n :=
    hreached.mono fun a _ ha => ⟨mem_insert_of_mem ha.1, ha.2⟩
  have hoffered : ∀ next ∈ successors entry, next.node < count ∧
      (∃ n ≤ (insert entry.node settled).card, Reached successors start
        (Handed (insert entry.node settled) { s with heap := rest }) next n) ∧
      ∀ v ∈ insert entry.node settled, ∃ c,
        ({ s with heap := rest } : Search K P).known v = some c ∧ c ≤ next.cost := by
    intro next hnext
    have hrises := hrules.rises entry next hnext
    refine ⟨hrules.inside entry next hnext, ⟨n + 1, ?_, ?_⟩, fun v hv => ?_⟩
    · rw [card_insert_of_notMem hfresh]
      omega
    · exact .next hway ⟨mem_insert_self _ _, hlabel⟩ hnext
    · rcases mem_insert.mp hv with rfl | hv
      · exact ⟨_, hlabel, hrises⟩
      · obtain ⟨c, hc, hle⟩ := h.low v hv
        exact ⟨c, hc, (hle entry hentry).trans hrises⟩
  obtain ⟨hsearching, hrelaxes, hgrown⟩ :=
    searching_foldl hrules (successors entry) (h.settle hperm hleast hlabel) hoffered
  refine ⟨hfresh, hsearching, ⟨hrelaxes.lowered, hrelaxes.kept, hrelaxes.reached⟩, ?_, n, hn, hway⟩
  exact hgrown.trans (Nat.add_le_add_left (hrules.bounded entry) _)

end Rounds

/-! ## The end -/

/-- What holds of the labels of a search when it is over. -/
structure Labels (successors : Arrival K P → List (Arrival K P)) (start : Arrival K P) (slack : K)
    (count : Nat) (known : Nat → Option K) : Prop where
  begun : ∃ c, known start.node = some c ∧ c ≤ start.cost
  done : ∀ v c, known v = some c → ∃ e n, e.node = v ∧ e.cost = c ∧ n ≤ count ∧
    Reached successors start (fun e _ => known e.node = some e.cost) e n ∧
    ∀ next ∈ successors e, ∃ c', known next.node = some c' ∧ c' ≤ next.cost + slack

/-- The invariant of the loop. -/
structure Running (successors : Arrival K P → List (Arrival K P)) (start : Arrival K P)
    (slack : K) (count : Nat) (settled : Finset Nat) (s : Search K P) : Prop where
  searching : Searching successors start slack count settled s
  begun : ∃ c, s.known start.node = some c ∧ c ≤ start.cost
  done : ∀ v ∈ settled, Done successors start slack settled s v

/-- What may still be offered, and the entries. -/
def work (count : Nat) (degree : Nat → Nat) (settled : Finset Nat) (s : Search K P) : Nat :=
  ∑ v ∈ Finset.range count \ settled, degree v + s.heap.length

section End

variable {start : Arrival K P} {settled : Finset Nat} {s s' : Search K P}

omit [IsOrderedAddMonoid K] in
theorem Running.labels (h : Running successors start slack count settled s)
    (hempty : s.heap = []) : Labels successors start slack count s.known := by
  refine ⟨h.begun, fun v c hc => ?_⟩
  have hsettled : v ∈ settled := by
    by_contra hv
    obtain ⟨e, he, -⟩ := h.searching.waiting v c hc hv
    rw [hempty] at he
    cases he
  obtain ⟨e, n, hnode, hlabel, hn, hreached, hnext⟩ := h.done v hsettled
  have hcard : settled.card ≤ count :=
    (card_le_card h.searching.members).trans_eq (card_range count)
  exact ⟨e, n, hnode, Option.some.inj (hlabel.symm.trans hc), hn.trans hcard,
    hreached.mono fun a _ ha => ha.2, hnext⟩

variable (hrules : Rules cmp improves stale successors slack count degree)
include hrules

theorem step_running (h : Running successors start slack count settled s)
    (hstep : step cmp improves stale successors s = some s') :
    ∃ settled', Running successors start slack count settled' s' ∧
      work count degree settled' s' < work count degree settled s := by
  obtain ⟨entry, rest, hperm, hleast, hcase⟩ := step_cases hrules h.searching hstep
  have hlength := hperm.length_eq
  rw [length_cons] at hlength
  rcases hcase with ⟨hpassed, rfl⟩ | ⟨hlabel, rfl⟩
  · refine ⟨settled, ⟨h.searching.pass hperm hpassed, h.begun, h.done⟩, ?_⟩
    simp only [work]
    omega
  · obtain ⟨hfresh, hsearching, hrelaxes, hgrown, n, hn, hway⟩ :=
      h.searching.expand hrules hperm hleast hlabel
    have hentry : entry ∈ s.heap := hperm.mem_iff.mpr mem_cons_self
    have hcard := card_insert_of_notMem hfresh
    refine ⟨insert entry.node settled, ⟨hsearching, ?_, ?_⟩, ?_⟩
    · obtain ⟨c, hc, hle⟩ := h.begun
      obtain ⟨c', hc', hle'⟩ := hrelaxes.lowered _ c hc
      exact ⟨c', hc', hle'.trans hle⟩
    · intro v hv
      rcases mem_insert.mp hv with rfl | hold
      · refine ⟨entry, n, rfl, ?_, by omega, hrelaxes.handed hway, hrelaxes.reached⟩
        rw [hrelaxes.kept _ hv, hlabel]
      · obtain ⟨e, m, hnode, hknown, hm, hreached, hnext⟩ := h.done v hold
        refine ⟨e, m, hnode, ?_, by omega, hrelaxes.handed (hreached.mono fun a _ ha =>
          ⟨mem_insert_of_mem ha.1, ha.2⟩), fun next hmem => ?_⟩
        · rw [hrelaxes.kept _ hv, hknown]
        · obtain ⟨c, hc, hle⟩ := hnext next hmem
          obtain ⟨c', hc', hle'⟩ := hrelaxes.lowered _ c hc
          exact ⟨c', hc', hle'.trans hle⟩
    · have hin : entry.node ∈ Finset.range count \ settled :=
        Finset.mem_sdiff.mpr ⟨Finset.mem_range.mpr (h.searching.inside entry hentry), hfresh⟩
      have hsum := add_sum_erase _ degree hin
      have herase : Finset.range count \ insert entry.node settled =
          (Finset.range count \ settled).erase entry.node := sdiff_insert _ _ _
      simp only [work]
      rw [herase]
      omega

omit hrules [IsOrderedAddMonoid K] in
theorem running_begin (hstart : start.node < count) :
    Running successors start slack count ∅ (begin count start) := by
  have hlength : (replicate count (none : Option K)).length = count := length_replicate ..
  have hnone : ∀ v, ({ distances := replicate count none, heap := [] } :
      Search K P).known v = none := by
    intro v
    rw [Search.known, getD_eq_getElem?_getD, getElem?_replicate]
    split_ifs
    · rfl
    · rfl
  have hknown : ∀ v, (begin count start).known v =
      if v = start.node then some start.cost else none := by
    intro v
    rw [← hnone v]
    exact Search.known_set (s := { distances := replicate count none, heap := [] })
      (hlength.symm ▸ hstart) (some start.cost) [start] v
  have hheap : ∀ e ∈ (begin count start).heap, e = start := fun e he => List.mem_singleton.mp he
  refine ⟨⟨?_, empty_subset _, ?_, ?_, ?_, pairwise_singleton _ _, ?_, ?_, ?_⟩, ?_, ?_⟩
  · rw [begin, length_set, hlength]
  · intro e he
    rw [hheap e he]
    exact hstart
  · intro e he
    rw [hheap e he]
    exact ⟨0, Nat.zero_le _, .start⟩
  · intro e he
    rw [hheap e he, hknown, if_pos rfl]
    exact ⟨_, rfl, .inl rfl⟩
  · intro v hv
    cases hv
  · intro e _ hsettled
    cases hsettled
  · intro v c hc _
    rw [hknown] at hc
    split_ifs at hc with hv
    exact ⟨start, List.mem_singleton_self _, hv.symm, Option.some.inj hc⟩
  · exact ⟨start.cost, by rw [hknown, if_pos rfl], le_refl _⟩
  · intro v hv
    cases hv

theorem labels_search (hstart : start.node < count) {bound : Nat}
    (hbound : ∑ v ∈ Finset.range count, degree v + 1 ≤ bound) :
    step cmp improves stale successors (search cmp improves stale successors count bound start) =
        none ∧
      (search cmp improves stale successors count bound start).distances.length = count ∧
      Labels successors start slack count
        (search cmp improves stale successors count bound start).known := by
  have hwork : work count degree ∅ (begin count start) ≤ bound := by
    rw [work, sdiff_empty]
    exact hbound
  obtain ⟨hends, settled, hrunning⟩ := Loop.run_ends_beside (work count degree)
    (fun _ _ _ h hstep => step_running hrules h hstep) bound _ _ (running_begin hstart) hwork
  refine ⟨hends, hrunning.searching.length, hrunning.labels ?_⟩
  rw [step] at hends
  cases hpop : popGreatest cmp (Loop.run (step cmp improves stale successors) bound
      (begin count start)).heap with
  | none => exact popGreatest_eq_none hpop
  | some popped =>
    rw [hpop] at hends
    dsimp only at hends
    split_ifs at hends

end End

/-! ## When one label is enough -/

section Enough

variable (successors) (start : Arrival K P) (slack : K) (count : Nat)

def Possible (e : Arrival K P) : Prop := ∃ n, Reached successors start (fun _ _ => True) e n

/-- Every arrival at the node of `e` that is not much dearer can go on where `e` goes on, for at
most the same. -/
def Steady (e next : Arrival K P) : Prop :=
  ∀ other, Possible successors start other → other.node = e.node →
    other.cost ≤ e.cost + count • slack → ∃ instead ∈ successors other, instead.node = next.node ∧
        instead.cost + e.cost ≤ next.cost + other.cost

/-- For every way there is a steady one to the same node that is not dearer. -/
def Robust : Prop :=
  ∀ e, Possible successors start e → ∃ e' n, e'.node = e.node ∧ e'.cost ≤ e.cost ∧ n ≤ count ∧
    Reached successors start (Steady successors start slack count) e' n

/-- The labels are least costs, up to the slack at every step. -/
def Least (known : Nat → Option K) : Prop :=
  ∀ v, (known v = none ∧ ∀ e, Possible successors start e → e.node ≠ v) ∨
    ∃ c, known v = some c ∧ (∃ e, Possible successors start e ∧ e.node = v ∧ e.cost = c) ∧
      ∀ e, Possible successors start e → e.node = v → c ≤ e.cost + count • slack

/-- No node has two cheapest arrivals, up to the slack. -/
def Untied : Prop :=
  ∀ a b, Possible successors start a → Possible successors start b → a.node = b.node →
    (∀ e, Possible successors start e → e.node = a.node → a.cost ≤ e.cost + (2 * count) • slack) →
    (∀ e, Possible successors start e → e.node = a.node → b.cost ≤ e.cost + (2 * count) • slack) →
      a = b

variable {successors} {start} {slack} {count} {known : Nat → Option K}

omit [AddCommGroup K] [LinearOrder K] [IsOrderedAddMonoid K] in
theorem Reached.possible {allowed : Arrival K P → Arrival K P → Prop} {e : Arrival K P} {n : Nat}
    (h : Reached successors start allowed e n) : Possible successors start e :=
  ⟨n, h.mono fun _ _ _ => trivial⟩

/-- The label at the end of a steady way is not above its cost, up to the slack at every step. -/
theorem Labels.steady_le (h : Labels successors start slack count known) (hslack : 0 ≤ slack)
    {e : Arrival K P} {n : Nat} (hn : n ≤ count)
    (hway : Reached successors start (Steady successors start slack count) e n) :
    ∃ c, known e.node = some c ∧ c ≤ e.cost + n • slack := by
  induction hway with
  | start =>
    obtain ⟨c, hc, hle⟩ := h.begun
    exact ⟨c, hc, by rw [zero_nsmul, add_zero]; exact hle⟩
  | @next e next n _ hsteady hnext ih =>
    obtain ⟨c, hc, hle⟩ := ih (by omega)
    obtain ⟨other, m, hnode, rfl, -, hother, hoffered⟩ := h.done _ c hc
    have hclose : other.cost ≤ e.cost + count • slack :=
      hle.trans (add_le_add_right (nsmul_le_nsmul_left hslack (by omega)) _)
    obtain ⟨instead, hinstead, hsame, hcheaper⟩ := hsteady other hother.possible hnode hclose
    obtain ⟨c', hc', hle'⟩ := hoffered instead hinstead
    refine ⟨c', hsame ▸ hc', ?_⟩
    have hsum : instead.cost + e.cost ≤ next.cost + n • slack + e.cost := by
      calc instead.cost + e.cost ≤ next.cost + other.cost := hcheaper
        _ ≤ next.cost + (e.cost + n • slack) := add_le_add_right hle _
        _ = next.cost + n • slack + e.cost := by rw [add_comm e.cost, add_assoc]
    calc c' ≤ instead.cost + slack := hle'
      _ ≤ next.cost + n • slack + slack := add_le_add_left (le_of_add_le_add_right hsum) _
      _ = next.cost + (n + 1) • slack := by rw [succ_nsmul, add_assoc]

theorem Labels.least (h : Labels successors start slack count known) (hslack : 0 ≤ slack)
    (hrobust : Robust successors start slack count) : Least successors start slack count known := by
  have hlabel : ∀ e, Possible successors start e →
      ∃ c, known e.node = some c ∧ c ≤ e.cost + count • slack := by
    intro e he
    obtain ⟨e', n, hnode, hle, hn, hway⟩ := hrobust e he
    obtain ⟨c, hc, hbound⟩ := h.steady_le hslack hn hway
    refine ⟨c, hnode ▸ hc, hbound.trans ?_⟩
    exact add_le_add hle (nsmul_le_nsmul_left hslack hn)
  intro v
  cases hv : known v with
  | none =>
    refine .inl ⟨rfl, fun e he hnode => ?_⟩
    obtain ⟨c, hc, -⟩ := hlabel e he
    rw [hnode, hv] at hc
    cases hc
  | some c =>
    obtain ⟨e, n, hnode, hcost, -, hway, -⟩ := h.done v c hv
    refine .inr ⟨c, rfl, ⟨e, hway.possible, hnode, hcost⟩, fun other hother hsame => ?_⟩
    obtain ⟨d, hd, hle⟩ := hlabel other hother
    rw [hsame, hv] at hd
    rw [Option.some.inj hd]
    exact hle

/-- Where there are no ties, the labels are least costs only if the ways are robust. -/
theorem Labels.robust (h : Labels successors start slack count known) (hslack : 0 ≤ slack)
    (huntied : Untied successors start slack count)
    (hleast : Least successors start slack count known) :
    Robust successors start slack count := by
  have htwice : count • slack + count • slack = (2 * count) • slack := by
    rw [Nat.two_mul, add_nsmul]
  have hwide : count • slack ≤ (2 * count) • slack := nsmul_le_nsmul_left hslack (by omega)
  have hbound : ∀ v c, known v = some c → ∀ e, Possible successors start e → e.node = v →
      c ≤ e.cost + count • slack := by
    intro v c hc
    rcases hleast v with ⟨hnone, -⟩ | ⟨d, hd, -, hle⟩
    · rw [hc] at hnone
      cases hnone
    · rw [Option.some.inj (hc.symm.trans hd)]
      exact hle
  -- every arrival that is at most the slack above a label is the one of the label
  have hunique : ∀ a b, Possible successors start a → Possible successors start b →
      known a.node = some a.cost → b.node = a.node → b.cost ≤ a.cost + count • slack → a = b := by
    intro a b ha hb hlabel hnode hclose
    refine huntied a b ha hb hnode.symm (fun e he hsame => ?_) fun e he hsame => ?_
    · exact (hbound _ _ hlabel e he hsame).trans (add_le_add_right hwide _)
    · calc b.cost ≤ a.cost + count • slack := hclose
        _ ≤ e.cost + count • slack + count • slack :=
          add_le_add_left (hbound _ _ hlabel e he hsame) _
        _ = e.cost + (2 * count) • slack := by rw [add_assoc, htwice]
  intro e he
  rcases hleast e.node with ⟨-, hnone⟩ | ⟨c, hc, -, -⟩
  · exact absurd rfl (hnone e he)
  · obtain ⟨own, n, hnode, rfl, hn, hway, -⟩ := h.done _ c hc
    have hlabel : known own.node = some own.cost := by rw [hnode]; exact hc
    refine ⟨own, n, hnode, ?_, hn, ?_⟩
    · by_contra hdearer
      have hclose : e.cost ≤ own.cost + count • slack :=
        (le_of_not_ge hdearer).trans (le_add_of_nonneg_right (nsmul_nonneg hslack count))
      have heq := hunique own e hway.possible he hlabel hnode.symm hclose
      rw [heq] at hdearer
      exact hdearer (le_refl _)
    · clear hc hlabel hnode hn
      induction hway with
      | start => exact .start
      | @next a b m hbefore hknown hnext ih =>
        refine .next ih (fun other hother hsame hclose => ?_) hnext
        have heq := hunique a other hbefore.possible hother hknown hsame hclose
        rw [← heq]
        exact ⟨b, hnext, rfl, le_refl _⟩

end Enough

end Exact

end GeneGIS.LabelSearch
