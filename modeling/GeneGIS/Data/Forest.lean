/-
Climbing ends at a root unless it comes back.  Going down from the roots, every node is visited
once at most, and every way down to a node that is not open crosses the frontier once.
-/
import GeneGIS.Data.Loop
import Mathlib.Data.List.Chain
import Mathlib.Data.List.Perm.Subperm

namespace GeneGIS.Forest

open List Option Relation

/-! ## Climbing -/

section Climbing

variable {κ : Type} {next : κ → Option κ} {origin : κ}

structure Climb (κ : Type) where
  ancestors : List κ
  parent : Option κ
  cyclic : Bool

def Up (next : κ → Option κ) (a b : κ) : Prop := next a = some b

/-- What is known on the way: where the climb has been leads to where it is. -/
structure Climbing (next : κ → Option κ) (origin : κ) (s : Climb κ) : Prop where
  passed : ∀ a ∈ s.ancestors, a ≠ origin ∧ ∀ b, s.parent = some b → TransGen (Up next) a b
  above : ∀ b, s.parent = some b → TransGen (Up next) origin b
  cyclic : s.cyclic = true → ∃ a, TransGen (Up next) a a
  ahead : TransGen (Up next) origin origin → s.cyclic = false →
    ∃ b, s.parent = some b ∧ ReflTransGen (Up next) b origin

theorem climbing_start :
    Climbing next origin { ancestors := [], parent := next origin, cyclic := false } where
  passed := fun a ha => absurd ha not_mem_nil
  above := fun b hb => .single hb
  cyclic := fun h => by cases h
  ahead := fun h _ => by
    obtain ⟨b, hb, hself⟩ := TransGen.head'_iff.mp h
    exact ⟨b, hb, hself⟩

variable [DecidableEq κ]

/-- One step up, unless it leads to `origin` or to a node that was passed. -/
def climb (next : κ → Option κ) (origin : κ) (s : Climb κ) : Option (Climb κ) :=
  if s.cyclic then none
  else
    match s.parent with
    | none => none
    | some a =>
      if a ∈ s.ancestors ∨ a = origin then some { s with cyclic := true }
      else some { s with ancestors := a :: s.ancestors, parent := next a }

/-- What a step does: it closes a cycle or passes the parent. -/
theorem climb_cases {s s' : Climb κ} (h : climb next origin s = some s') :
    s.cyclic = false ∧ ∃ a, s.parent = some a ∧
      ((a ∈ s.ancestors ∨ a = origin) ∧ s' = { s with cyclic := true } ∨
        (a ∉ s.ancestors ∧ a ≠ origin) ∧
          s' = { s with ancestors := a :: s.ancestors, parent := next a }) := by
  rw [climb] at h
  by_cases hcyclic : s.cyclic = true
  · rw [if_pos hcyclic] at h
    cases h
  rw [if_neg hcyclic] at h
  refine ⟨eq_false_of_ne_true hcyclic, ?_⟩
  cases hparent : s.parent with
  | none =>
    rw [hparent] at h
    cases h
  | some a =>
    rw [hparent] at h
    dsimp only at h
    refine ⟨a, rfl, ?_⟩
    by_cases hback : a ∈ s.ancestors ∨ a = origin
    · rw [if_pos hback, Option.some.injEq] at h
      exact .inl ⟨hback, h.symm⟩
    · rw [if_neg hback, Option.some.injEq] at h
      exact .inr ⟨not_or.mp hback, h.symm⟩

theorem Climbing.step {s s' : Climb κ} (h : Climbing next origin s)
    (hstep : climb next origin s = some s') : Climbing next origin s' := by
  obtain ⟨hcyclic, a, hparent, ⟨hback, rfl⟩ | ⟨hback, rfl⟩⟩ := climb_cases hstep
  · refine ⟨fun b hb => ⟨(h.passed b hb).1, fun c hc => ?_⟩,
      fun c hc => h.above c hc, fun _ => ?_, fun _ hfalse => by cases hfalse⟩
    · exact (h.passed b hb).2 c hc
    rcases hback with hseen | rfl
    · exact ⟨a, (h.passed a hseen).2 a hparent⟩
    · exact ⟨a, h.above a hparent⟩
  · refine ⟨?_, ?_, fun hc => absurd (hcyclic.symm.trans hc) Bool.false_ne_true, ?_⟩
    · intro b hb
      rcases mem_cons.mp hb with rfl | hb
      · exact ⟨hback.2, fun c hc => .single hc⟩
      · exact ⟨(h.passed b hb).1, fun c hc => ((h.passed b hb).2 a hparent).tail hc⟩
    · exact fun b hb => (h.above a hparent).tail hb
    · intro hself hfalse
      obtain ⟨b, hb, hreach⟩ := h.ahead hself hfalse
      cases hparent.symm.trans hb
      rcases ReflTransGen.cases_head hreach with heq | ⟨c, hc, hrest⟩
      · exact absurd heq hback.2
      · exact ⟨c, hc, hrest⟩

/-- The climb of a node whose parent is `first`. -/
def climbed (next : κ → Option κ) (bound : Nat) (origin : κ) (first : Option κ) : Climb κ :=
  Loop.run (climb next origin) bound { ancestors := [], parent := first, cyclic := false }

theorem climbing_climbed (bound : Nat) :
    Climbing next origin (climbed next bound origin (next origin)) :=
  Loop.run_invariant (fun _ _ h hstep => h.step hstep) bound _ climbing_start

/-- The nodes of the climb are among those that have a child. -/
structure Within (all : List κ) (s : Climb κ) : Prop where
  nodup : s.ancestors.Nodup
  ancestors : ∀ a ∈ s.ancestors, a ∈ all
  parent : ∀ a, s.parent = some a → a ∈ all

/-- What is left to do: the nodes not passed yet, and the end. -/
def left (all : List κ) (s : Climb κ) : Nat :=
  all.length - s.ancestors.length + if s.cyclic then 0 else 1

theorem climb_within {all : List κ} (hall : ∀ a b, next a = some b → b ∈ all) {s s' : Climb κ}
    (hwithin : Within all s) (hstep : climb next origin s = some s') :
    Within all s' ∧ left all s' < left all s := by
  obtain ⟨hcyclic, a, hparent, ⟨hback, rfl⟩ | ⟨hback, rfl⟩⟩ := climb_cases hstep
  · refine ⟨⟨hwithin.nodup, hwithin.ancestors, hwithin.parent⟩, ?_⟩
    simp only [left, hcyclic, if_true, Bool.false_eq_true, if_false]
    omega
  · have hnodup : (a :: s.ancestors).Nodup := nodup_cons.mpr ⟨hback.1, hwithin.nodup⟩
    have hsubset : ∀ b ∈ a :: s.ancestors, b ∈ all := by
      intro b hb
      rcases mem_cons.mp hb with rfl | hb
      · exact hwithin.parent b hparent
      · exact hwithin.ancestors b hb
    have hlength := (subperm_of_subset hnodup hsubset).length_le
    refine ⟨⟨hnodup, hsubset, fun b hb => hall a b hb⟩, ?_⟩
    simp only [left, length_cons] at hlength ⊢
    omega

theorem climbed_ends {all : List κ} (hall : ∀ a b, next a = some b → b ∈ all) {first : Option κ}
    (hfirst : ∀ a, first = some a → a ∈ all) {bound : Nat} (hbound : all.length < bound) :
    climb next origin (climbed next bound origin first) = none := by
  refine Loop.run_ends (P := Within all) (left all) (fun s s' hs hstep => climb_within hall hs hstep)
    bound _ ⟨nodup_nil, fun a ha => absurd ha not_mem_nil, hfirst⟩ ?_
  simp only [left, length_nil, Bool.false_eq_true, if_false]
  omega

theorem acyclic_of_climbed {all : List κ} (hall : ∀ a b, next a = some b → b ∈ all) {bound : Nat}
    (hbound : all.length < bound)
    (h : (climbed next bound origin (next origin)).cyclic = false) :
    ¬ TransGen (Up next) origin origin := by
  intro hself
  have hclimbing := @climbing_climbed κ next origin _ bound
  obtain ⟨b, hparent, -⟩ := hclimbing.ahead hself h
  have hends := @climbed_ends κ next origin _ all hall _ (fun a ha => hall origin a ha) bound hbound
  rw [climb, h, hparent] at hends
  dsimp only at hends
  rw [if_neg Bool.false_ne_true] at hends
  split_ifs at hends

end Climbing

/-! ## Going down -/

section Descent

variable {α : Type}

structure Traversal (α : Type) where
  queue : List α
  frontier : List α

/-- One round: the first waiting node is opened or is left on the frontier. -/
def visit (opens : α → Bool) (children : α → List α) (s : Traversal α) : Option (Traversal α) :=
  match s.queue with
  | [] => none
  | a :: rest =>
    if opens a then some { s with queue := rest ++ children a }
    else some { queue := rest, frontier := s.frontier ++ [a] }

/-- What is met on the way down. -/
inductive Reached (opens : α → Bool) (children : α → List α) (roots : List α) : α → Prop
  | root {a : α} (h : a ∈ roots) : Reached opens children roots a
  | child {a b : α} (h : Reached opens children roots a) (hopens : opens a = true)
      (hb : b ∈ children a) : Reached opens children roots b

/-- The nodes `all` with their children: roots are nobody's children, and a node is the child of
one node. -/
structure IsForest (all roots : List α) (children : α → List α) : Prop where
  rootsNodup : roots.Nodup
  rootsMem : ∀ a ∈ roots, a ∈ all
  childrenNodup : ∀ a ∈ all, (children a).Nodup
  childrenMem : ∀ a ∈ all, ∀ b ∈ children a, b ∈ all
  rootless : ∀ a ∈ all, ∀ b ∈ children a, b ∉ roots
  oneParent : ∀ a ∈ all, ∀ b ∈ all, ∀ c ∈ children a, c ∈ children b → a = b

variable {all roots : List α} {children : α → List α} {opens : α → Bool}

theorem IsForest.mem_of_reached (h : IsForest all roots children) {a : α}
    (ha : Reached opens children roots a) : a ∈ all := by
  induction ha with
  | root hroot => exact h.rootsMem _ hroot
  | child _ _ hb ih => exact h.childrenMem _ ih _ hb

theorem IsForest.reached_parent (h : IsForest all roots children) {a b : α} (ha : a ∈ all)
    (hb : b ∈ children a) (hreached : Reached opens children roots b) :
    Reached opens children roots a ∧ opens a = true := by
  cases hreached with
  | root hroot => exact absurd hroot (h.rootless a ha b hb)
  | @child c _ hc hopens hmem =>
    obtain rfl := h.oneParent a ha c (h.mem_of_reached hc) b hb hmem
    exact ⟨hc, hopens⟩

/-- The nodes opened so far, the frontier and the queue hold every node once that is met. -/
structure Visited (opens : α → Bool) (children : α → List α) (all roots opened : List α)
    (s : Traversal α) : Prop where
  nodup : (opened ++ s.frontier ++ s.queue).Nodup
  reached : ∀ a ∈ opened ++ s.frontier ++ s.queue, Reached opens children roots a
  isOpen : ∀ a ∈ opened, opens a = true
  isClosed : ∀ a ∈ s.frontier, opens a = false
  root : ∀ a ∈ roots, a ∈ opened ++ s.frontier ++ s.queue
  child : ∀ a ∈ opened, ∀ b ∈ children a, b ∈ opened ++ s.frontier ++ s.queue
  parent : ∀ b ∈ opened ++ s.frontier ++ s.queue, b ∈ roots ∨ ∃ a ∈ opened, b ∈ children a

theorem visited_start (h : IsForest all roots children) :
    Visited opens children all roots [] { queue := roots, frontier := [] } where
  nodup := h.rootsNodup
  reached := fun _ ha => .root ha
  isOpen := fun _ ha => absurd ha not_mem_nil
  isClosed := fun _ ha => absurd ha not_mem_nil
  root := fun _ ha => ha
  child := fun _ ha => absurd ha not_mem_nil
  parent := fun _ ha => Or.inl ha

theorem Visited.leave {opened rest : List α} {s : Traversal α} {a : α}
    (h : Visited opens children all roots opened s) (hqueue : s.queue = a :: rest)
    (hclosed : opens a = false) :
    Visited opens children all roots opened { queue := rest, frontier := s.frontier ++ [a] } := by
  have hsame : opened ++ (s.frontier ++ [a]) ++ rest = opened ++ s.frontier ++ s.queue := by
    rw [hqueue]
    simp only [append_assoc, singleton_append]
  refine ⟨?_, ?_, h.isOpen, ?_, ?_, ?_, ?_⟩
  · exact hsame ▸ h.nodup
  · exact hsame ▸ h.reached
  · intro b hb
    rcases mem_append.mp hb with hb | hb
    · exact h.isClosed b hb
    · rw [mem_singleton.mp hb]
      exact hclosed
  · exact hsame ▸ h.root
  · exact hsame ▸ h.child
  · exact hsame ▸ h.parent

theorem Visited.opening {opened rest : List α} {s : Traversal α} {a : α}
    (hforest : IsForest all roots children) (h : Visited opens children all roots opened s)
    (hqueue : s.queue = a :: rest) (hopens : opens a = true) :
    Visited opens children all roots (a :: opened) { s with queue := rest ++ children a } := by
  have hperm : (a :: opened ++ s.frontier ++ (rest ++ children a)).Perm
      (opened ++ s.frontier ++ s.queue ++ children a) := by
    have hmiddle := (@perm_middle _ a (opened ++ s.frontier) (rest ++ children a)).symm
    rw [hqueue]
    simpa only [cons_append, append_assoc] using hmiddle
  have hall : a ∈ opened ++ s.frontier ++ s.queue := by
    rw [hqueue]
    exact mem_append_right _ mem_cons_self
  have hreached := h.reached a hall
  have hmem := hforest.mem_of_reached hreached
  -- a child that was met already was reached from `a`, which has not been opened
  have hfresh : ∀ b ∈ children a, b ∉ opened ++ s.frontier ++ s.queue := by
    intro b hb hold
    rcases h.parent b hold with hroot | ⟨c, hc, hbc⟩
    · exact hforest.rootless a hmem b hb hroot
    · have hcmem : c ∈ all := hforest.mem_of_reached
        (h.reached c (mem_append_left _ (mem_append_left _ hc)))
      obtain rfl := hforest.oneParent a hmem c hcmem b hb hbc
      have hnodup := h.nodup
      rw [hqueue, nodup_append] at hnodup
      exact hnodup.2.2 a (mem_append_left _ hc) a mem_cons_self rfl
  refine ⟨?_, ?_, ?_, h.isClosed, ?_, ?_, ?_⟩
  · rw [hperm.nodup_iff, nodup_append]
    refine ⟨h.nodup, hforest.childrenNodup a hmem, fun b hb c hc heq => ?_⟩
    rw [heq] at hb
    exact hfresh c hc hb
  · intro b hb
    rcases mem_append.mp (hperm.mem_iff.mp hb) with hb | hb
    · exact h.reached b hb
    · exact .child hreached hopens hb
  · intro b hb
    rcases mem_cons.mp hb with rfl | hb
    · exact hopens
    · exact h.isOpen b hb
  · intro b hb
    exact hperm.mem_iff.mpr (mem_append_left _ (h.root b hb))
  · intro b hb c hc
    refine hperm.mem_iff.mpr ?_
    rcases mem_cons.mp hb with rfl | hb
    · exact mem_append_right _ hc
    · exact mem_append_left _ (h.child b hb c hc)
  · intro b hb
    rcases mem_append.mp (hperm.mem_iff.mp hb) with hb | hb
    · rcases h.parent b hb with hroot | ⟨c, hc, hbc⟩
      · exact .inl hroot
      · exact .inr ⟨c, mem_cons_of_mem _ hc, hbc⟩
    · exact .inr ⟨a, mem_cons_self, hb⟩

/-- Every round opens a node or leaves it on the frontier, so the queue is used up. -/
theorem run_visited (hforest : IsForest all roots children) :
    ∀ (bound : Nat) (opened : List α) (s : Traversal α), Visited opens children all roots opened s →
      all.length ≤ bound + (opened ++ s.frontier).length →
      ∃ opened', Visited opens children all roots opened'
        (Loop.run (visit opens children) bound s) ∧
        (Loop.run (visit opens children) bound s).queue = [] := by
  intro bound
  induction bound with
  | zero =>
    intro opened s h hbound
    have hsubset : opened ++ s.frontier ++ s.queue ⊆ all := fun a ha =>
      hforest.mem_of_reached (h.reached a ha)
    have hlength := (subperm_of_subset h.nodup hsubset).length_le
    rw [length_append] at hlength
    have hqueue : s.queue = [] := eq_nil_of_length_eq_zero (by omega)
    exact ⟨opened, h, hqueue⟩
  | succ bound ih =>
    intro opened s h hbound
    cases hqueue : s.queue with
    | nil =>
      have hdone : visit opens children s = none := by rw [visit, hqueue]
      rw [Loop.run_done hdone]
      exact ⟨opened, h, hqueue⟩
    | cons a rest =>
      by_cases hopens : opens a = true
      · have hnext : visit opens children s = some { s with queue := rest ++ children a } := by
          rw [visit, hqueue]
          exact if_pos hopens
        rw [Loop.run_next hnext]
        refine ih (a :: opened) _ (h.opening hforest hqueue hopens) ?_
        simp only [length_append, length_cons] at hbound ⊢
        omega
      · have hnext : visit opens children s =
            some { queue := rest, frontier := s.frontier ++ [a] } := by
          rw [visit, hqueue]
          exact if_neg hopens
        rw [Loop.run_next hnext]
        refine ih opened _ (h.leave hqueue (eq_false_of_ne_true hopens)) ?_
        simp only [length_append, length_cons, length_nil] at hbound ⊢
        omega

def traversed (opens : α → Bool) (children : α → List α) (bound : Nat) (roots : List α) :
    Traversal α :=
  Loop.run (visit opens children) bound { queue := roots, frontier := [] }

theorem traversed_frontier (hforest : IsForest all roots children) :
    (traversed opens children all.length roots).queue = [] ∧
      (traversed opens children all.length roots).frontier.Nodup ∧
      ∀ a, a ∈ (traversed opens children all.length roots).frontier ↔
        Reached opens children roots a ∧ opens a = false := by
  have hstart : Visited opens children all roots [] { queue := roots, frontier := [] } :=
    visited_start hforest
  obtain ⟨opened, hvisited, hqueue⟩ := run_visited hforest all.length [] _ hstart (by simp)
  rw [← traversed] at hvisited hqueue
  have hnodup := hvisited.nodup
  rw [hqueue, append_nil, nodup_append] at hnodup
  refine ⟨hqueue, hnodup.2.1, fun a => ⟨fun ha => ⟨?_, hvisited.isClosed a ha⟩, fun h => ?_⟩⟩
  · exact hvisited.reached a (mem_append_left _ (mem_append_right _ ha))
  · have hmet : ∀ b, Reached opens children roots b →
        b ∈ opened ++ (traversed opens children all.length roots).frontier := by
      intro b hb
      induction hb with
      | root hroot =>
        have hmem := hvisited.root _ hroot
        rwa [hqueue, append_nil] at hmem
      | @child c d _ hopens hd ih =>
        have hc : c ∈ opened := by
          rcases mem_append.mp ih with hc | hc
          · exact hc
          · rw [hvisited.isClosed c hc] at hopens
            cases hopens
        have hmem := hvisited.child c hc d hd
        rwa [hqueue, append_nil] at hmem
    rcases mem_append.mp (hmet a h.1) with ha | ha
    · rw [hvisited.isOpen a ha] at h
      cases h.2
    · exact ha

/-! ## Ways down -/

/-- A way down: every node is followed by one of its children. -/
def Descends (children : α → List α) (way : List α) : Prop := way.IsChain fun a b => b ∈ children a

theorem IsForest.reached_first (hforest : IsForest all roots children) {a : α} (ha : a ∈ all) :
    ∀ {rest : List α} {c : α}, Descends children (a :: rest) → c ∈ rest →
      Reached opens children roots c → Reached opens children roots a ∧ opens a = true := by
  intro rest
  induction rest generalizing a with
  | nil =>
    intro c _ hc
    cases hc
  | cons b rest ih =>
    intro c hway hc hreached
    rw [Descends, isChain_cons_cons] at hway
    have hb := hforest.childrenMem a ha b hway.1
    rcases mem_cons.mp hc with rfl | hc
    · exact hforest.reached_parent ha hway.1 hreached
    · exact hforest.reached_parent ha hway.1 (ih hb hway.2 hc hreached).1

theorem exists_frontier : ∀ {way : List α} {a last : α}, way.head? = some a →
    way.getLast? = some last → Descends children way → Reached opens children roots a →
    opens last = false → ∃ b ∈ way, Reached opens children roots b ∧ opens b = false
  | [], a, last, hhead, _, _, _, _ => by cases hhead
  | [b], a, last, hhead, hlast, _, hreached, hclosed => by
    cases hhead
    cases hlast
    exact ⟨b, mem_cons_self, hreached, hclosed⟩
  | b :: c :: rest, a, last, hhead, hlast, hway, hreached, hclosed => by
    cases hhead
    by_cases hopens : opens b = true
    · rw [Descends, isChain_cons_cons] at hway
      rw [getLast?_cons_cons] at hlast
      obtain ⟨d, hd, hfrontier⟩ := exists_frontier rfl hlast hway.2
        (.child hreached hopens hway.1) hclosed
      exact ⟨d, mem_cons_of_mem _ hd, hfrontier⟩
    · exact ⟨b, mem_cons_self, hreached, eq_false_of_ne_true hopens⟩

theorem IsForest.frontier_unique (hforest : IsForest all roots children) :
    ∀ {way : List α}, Descends children way → (∀ a ∈ way, a ∈ all) → ∀ {a b : α}, a ∈ way →
      b ∈ way → Reached opens children roots a ∧ opens a = false →
      Reached opens children roots b ∧ opens b = false → a = b := by
  intro way
  induction way with
  | nil =>
    intro _ _ a b ha
    cases ha
  | cons c rest ih =>
    intro hway hall a b ha hb hfa hfb
    have hc := hall c mem_cons_self
    have hfirst : ∀ {d : α}, d ∈ rest → Reached opens children roots d → opens c = true :=
      fun hd hreached => (hforest.reached_first hc hway hd hreached).2
    rcases mem_cons.mp ha with rfl | ha'
    · rcases mem_cons.mp hb with rfl | hb'
      · rfl
      · rw [hfirst hb' hfb.1] at hfa
        cases hfa.2
    · rcases mem_cons.mp hb with rfl | hb'
      · rw [hfirst ha' hfa.1] at hfb
        cases hfb.2
      · exact ih (List.IsChain.tail hway) (fun d hd => hall d (mem_cons_of_mem _ hd)) ha' hb'
          hfa hfb

theorem IsForest.mem_of_descends (hforest : IsForest all roots children) :
    ∀ {way : List α} {a : α}, way.head? = some a → a ∈ all → Descends children way →
      ∀ b ∈ way, b ∈ all
  | [], _, hhead, _, _ => by cases hhead
  | [c], a, hhead, ha, _ => by
    cases hhead
    intro b hb
    rw [mem_singleton.mp hb]
    exact ha
  | c :: d :: rest, a, hhead, ha, hway => by
    cases hhead
    intro b hb
    rw [Descends, isChain_cons_cons] at hway
    rcases mem_cons.mp hb with rfl | hb
    · exact ha
    · exact hforest.mem_of_descends rfl (hforest.childrenMem c ha d hway.1) hway.2 b hb

/-- A way down from a root to a node that is not open has one node on the frontier. -/
theorem IsForest.exists_unique_frontier (hforest : IsForest all roots children) {way : List α}
    {root last : α} (hhead : way.head? = some root) (hroot : root ∈ roots)
    (hlast : way.getLast? = some last) (hclosed : opens last = false)
    (hway : Descends children way) :
    ∃! a, a ∈ way ∧ Reached opens children roots a ∧ opens a = false := by
  obtain ⟨a, ha, hfrontier⟩ := exists_frontier hhead hlast hway (.root hroot) hclosed
  have hall := hforest.mem_of_descends hhead (hforest.rootsMem root hroot) hway
  refine ⟨a, ⟨ha, hfrontier⟩, fun b hb => ?_⟩
  exact hforest.frontier_unique hway hall hb.1 ha hb.2 hfrontier

end Descent

end GeneGIS.Forest
