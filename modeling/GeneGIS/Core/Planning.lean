/-
What the incremental scheduler plans.

The search collects the readers of the input and everything downstream of them, and the plan lists
each once.
-/
import GeneGIS.Core.Incremental
import GeneGIS.Data.Keyed
import Mathlib.Data.Finset.Card

namespace GeneGIS.IncrementalScheduler

open Except Std.ExtTreeSet Std List Finset

open WorkflowStep (stableId)
open IncrementalDecision (nodeId)

variable {steps : List WorkflowStep} {direct remaining : Std.ExtTreeSet String}

/-! ## The search -/

namespace Invalidation

variable {s s' : Invalidation} {id : String} {ids : List String}

/-- What has been found are nodes of the graph, and everything downstream of a
node that has left the queue has been found. -/
structure Sound (steps : List WorkflowStep) (s : Invalidation) : Prop where
  nodes : ∀ id ∈ s.affected, id ∈ steps.map stableId
  queued : ∀ id ∈ s.queue, id ∈ s.affected
  closed : ∀ source ∈ s.affected, source ∉ s.queue →
    ∀ id ∈ downstream steps source, id ∈ s.affected

/-- The queue and the nodes that can still enter it. -/
def measure (steps : List WorkflowStep) (s : Invalidation) : Nat :=
  s.queue.length + ((steps.map stableId).toFinset.filter (· ∉ s.affected)).card

theorem mem_reach {a : String} : a ∈ (s.reach id).affected ↔ a ∈ s.affected ∨ a = id := by
  rw [reach]
  split
  next h =>
    rw [ExtTreeSet.contains_iff_mem] at h
    constructor
    · exact .inl
    · intro ha
      rcases ha with ha | rfl
      · exact ha
      · exact h
  next => rw [ExtTreeSet.mem_insert, Std.LawfulEqCmp.compare_eq_iff_eq, or_comm, eq_comm]

theorem mem_queue_reach {a : String} (h : a ∈ s.queue) : a ∈ (s.reach id).queue := by
  rw [reach]
  split
  · exact h
  · exact mem_append_left _ h

theorem queued_reach (h : ∀ a ∈ s.queue, a ∈ s.affected) :
    ∀ a ∈ (s.reach id).queue, a ∈ (s.reach id).affected := by
  intro a ha
  rw [mem_reach]
  rw [reach] at ha
  split at ha
  · exact .inl (h a ha)
  · rcases mem_append.mp ha with ha | ha
    · exact .inl (h a ha)
    · exact .inr (List.mem_singleton.mp ha)

theorem mem_queue_of_reach {a : String} (h : a ∈ (s.reach id).affected) :
    a ∈ s.affected ∨ a ∈ (s.reach id).queue := by
  rw [reach] at h ⊢
  split at h
  · exact .inl h
  next hnew =>
    rw [if_neg hnew]
    rw [ExtTreeSet.mem_insert] at h
    rcases h with h | h
    · obtain rfl := LawfulEqOrd.eq_of_compare h
      exact .inr (by simp)
    · exact .inl h

theorem measure_reach (hid : id ∈ steps.map stableId) :
    measure steps (s.reach id) ≤ measure steps s := by
  by_cases h : s.affected.contains id = true
  · rw [reach, if_pos h]
  · have hnew : id ∉ s.affected := by
      rw [← ExtTreeSet.contains_iff_mem]
      exact h
    have hless : ((steps.map stableId).toFinset.filter (· ∉ (s.reach id).affected)).card <
        ((steps.map stableId).toFinset.filter (· ∉ s.affected)).card := by
      refine card_lt_card (ssubset_iff_of_subset ?_ |>.mpr ⟨id, ?_, ?_⟩)
      · intro a ha
        rw [Finset.mem_filter, mem_reach, not_or] at ha
        exact Finset.mem_filter.mpr ⟨ha.1, ha.2.1⟩
      · exact Finset.mem_filter.mpr ⟨mem_toFinset.mpr hid, hnew⟩
      · simp [mem_reach]
    have hqueue : (s.reach id).queue.length = s.queue.length + 1 := by
      rw [reach, if_neg h, length_append]
      rfl
    rw [measure, measure]
    omega

theorem mem_downstream {source : String} (h : id ∈ downstream steps source) :
    id ∈ steps.map stableId := by
  obtain ⟨step, hstep, rfl⟩ := List.mem_map.mp h
  exact List.mem_map_of_mem (List.mem_filter.mp hstep).1

/-- The successors of one node, one after the other. -/
structure Reached (s : Invalidation) (ids : List String) (s' : Invalidation) : Prop where
  affected : ∀ a, a ∈ s'.affected ↔ a ∈ s.affected ∨ a ∈ ids
  queue : ∀ a ∈ s.queue, a ∈ s'.queue
  queued : (∀ a ∈ s.queue, a ∈ s.affected) → ∀ a ∈ s'.queue, a ∈ s'.affected
  fresh : ∀ a ∈ s'.affected, a ∈ s.affected ∨ a ∈ s'.queue

theorem reached_foldl (s : Invalidation) (ids : List String) :
    Reached s ids (ids.foldl reach s) := by
  induction ids generalizing s with
  | nil => exact ⟨by simp, fun _ h => h, fun h => h, fun _ h => .inl h⟩
  | cons id rest ih =>
    obtain ⟨haffected, hqueue, hqueued, hfresh⟩ := ih (s.reach id)
    refine ⟨?_, ?_, ?_, ?_⟩
    · intro a
      rw [List.foldl_cons, haffected, mem_reach, List.mem_cons, or_assoc]
    · intro a ha
      exact hqueue a (mem_queue_reach ha)
    · intro h
      exact hqueued (queued_reach h)
    · intro a ha
      rcases hfresh a ha with h | h
      · rcases mem_queue_of_reach h with h | h
        · exact .inl h
        · exact .inr (hqueue a h)
      · exact .inr h

theorem measure_foldl (h : ∀ id ∈ ids, id ∈ steps.map stableId) :
    measure steps (ids.foldl reach s) ≤ measure steps s := by
  induction ids generalizing s with
  | nil => exact Nat.le_refl _
  | cons id rest ih =>
    have hrest := ih (s := s.reach id) fun a ha => h a (mem_cons_of_mem _ ha)
    have hreach := measure_reach (s := s) (h id (by simp))
    rw [List.foldl_cons]
    omega

theorem step_sound (hs : Sound steps s) (h : step steps s = some s') :
    Sound steps s' ∧ measure steps s' < measure steps s := by
  rw [step] at h
  cases hqueue : s.queue with
  | nil =>
    rw [hqueue] at h
    cases h
  | cons source rest =>
    rw [hqueue] at h
    cases h
    have hreached := reached_foldl { s with queue := rest } (downstream steps source)
    refine ⟨⟨?_, ?_, ?_⟩, ?_⟩
    · intro id hid
      rcases (hreached.affected id).mp hid with hid | hid
      · exact hs.nodes id hid
      · exact mem_downstream hid
    · refine hreached.queued ?_
      intro id hid
      exact hs.queued id (by rw [hqueue]; exact mem_cons_of_mem _ hid)
    · -- A node outside the queue was there before, or it is the one just taken.
      intro node hnode houtside id hid
      rw [hreached.affected]
      rcases hreached.fresh node hnode with hold | hnew
      · by_cases hsource : node = source
        · rw [hsource] at hid
          exact .inr hid
        · refine .inl (hs.closed node hold ?_ id hid)
          rw [hqueue, List.mem_cons, not_or]
          exact ⟨hsource, fun hrest => houtside (hreached.queue node hrest)⟩
      · exact absurd hnew houtside
    · have hnodes : ∀ id ∈ downstream steps source, id ∈ steps.map stableId :=
        fun id hid => mem_downstream hid
      have hle := measure_foldl (s := { s with queue := rest }) hnodes
      have hlength : s.queue.length = rest.length + 1 := by rw [hqueue]; rfl
      have hdrop : measure steps { s with queue := rest } + 1 = measure steps s := by
        simp only [measure]
        omega
      omega

end Invalidation

theorem mem_consumers {inputName id : String} (h : id ∈ consumers steps inputName) :
    id ∈ steps.map stableId := by
  rw [consumers, ExtTreeSet.mem_ofList, List.contains_iff_mem] at h
  obtain ⟨step, hstep, rfl⟩ := List.mem_map.mp h
  exact List.mem_map_of_mem (List.mem_filter.mp hstep).1

theorem sound_start (h : ∀ id ∈ direct, id ∈ steps.map stableId) :
    Invalidation.Sound steps { queue := direct.toList, affected := direct } where
  nodes := h
  queued := fun _ hid => mem_toList.mp hid
  closed := fun _ hsource houtside =>
    absurd (mem_toList.mpr hsource) houtside

theorem measure_start (h : ∀ id ∈ direct, id ∈ steps.map stableId) :
    Invalidation.measure steps { queue := direct.toList, affected := direct } ≤ steps.length := by
  have hnodup : direct.toList.Nodup := Keyed.nodup_toList direct
  have hdisjoint : Disjoint direct.toList.toFinset
      ((steps.map stableId).toFinset.filter (· ∉ direct)) := by
    rw [Finset.disjoint_left]
    intro id hid hout
    exact (Finset.mem_filter.mp hout).2 (mem_toList.mp (mem_toFinset.mp hid))
  have hsubset : direct.toList.toFinset ∪ (steps.map stableId).toFinset.filter (· ∉ direct) ⊆
      (steps.map stableId).toFinset := by
    refine union_subset ?_ (filter_subset _ _)
    intro id hid
    exact mem_toFinset.mpr (h id (mem_toList.mp (mem_toFinset.mp hid)))
  calc direct.toList.length + _
      = direct.toList.toFinset.card + _ := by rw [toFinset_card_of_nodup hnodup]
    _ = _ := (card_union_of_disjoint hdisjoint).symm
    _ ≤ (steps.map stableId).toFinset.card := card_le_card hsubset
    _ ≤ (steps.map stableId).length := toFinset_card_le _
    _ = steps.length := length_map _

theorem affectedNodes_nodes (h : ∀ id ∈ direct, id ∈ steps.map stableId) :
    ∀ id ∈ affectedNodes steps direct, id ∈ steps.map stableId :=
  (Loop.run_invariant (fun _ _ hs hstep => (Invalidation.step_sound hs hstep).1) _ _
    (sound_start h)).nodes

theorem affectedNodes_closed (h : ∀ id ∈ direct, id ∈ steps.map stableId)
    {source id : String} (hsource : source ∈ affectedNodes steps direct)
    (hid : id ∈ Invalidation.downstream steps source) : id ∈ affectedNodes steps direct := by
  have hsound := Loop.run_invariant
    (fun _ _ hs hstep => (Invalidation.step_sound hs hstep).1) steps.length _ (sound_start h)
  have hends := Loop.run_ends (Invalidation.measure steps)
    (fun _ _ hs hstep => Invalidation.step_sound hs hstep) steps.length _ (sound_start h)
    (measure_start h)
  refine hsound.closed source hsource ?_ id hid
  intro hqueue
  rw [Invalidation.step] at hends
  split at hends
  next hempty =>
    rw [hempty] at hqueue
    cases hqueue
  next => cases hends

/-! ## The order -/

theorem nextReady_mem {ordered : List IncrementalDecision} {ready : WorkflowStep}
    (h : nextReady steps remaining ordered = some ready) : ready.stableId ∈ remaining := by
  have hmem := (List.mem_filter.mp (mem_of_find?_eq_some h)).2
  exact ExtTreeSet.contains_iff_mem.mp (by simpa using hmem)

/-- The nodes planned so far are distinct and no longer remain. -/
structure Planned (ordered : List IncrementalDecision) (remaining : ExtTreeSet String) :
    Prop where
  nodup : (ordered.map nodeId).Nodup
  fresh : ∀ d ∈ ordered, d.nodeId ∉ remaining

theorem mem_erase {id a : String} : a ∈ remaining.erase id ↔ a ≠ id ∧ a ∈ remaining := by
  rw [ExtTreeSet.mem_erase, ne_eq, Std.LawfulEqCmp.compare_eq_iff_eq, eq_comm]

theorem Planned.take {ordered : List IncrementalDecision} (h : Planned ordered remaining)
    {d : IncrementalDecision} (hd : d.nodeId ∈ remaining) :
    Planned (ordered ++ [d]) (remaining.erase d.nodeId) where
  nodup := by
    rw [List.map_append, List.nodup_append]
    refine ⟨h.nodup, List.nodup_singleton _, ?_⟩
    intro a ha b hb heq
    obtain ⟨d', hd', rfl⟩ := List.mem_map.mp ha
    rw [List.map_singleton, List.mem_singleton] at hb
    rw [← hb, ← heq] at hd
    exact h.fresh d' hd' hd
  fresh := by
    intro d' hd' hleft
    rw [mem_erase] at hleft
    rcases mem_append.mp hd' with hd' | hd'
    · exact h.fresh d' hd' hleft.2
    · rw [List.mem_singleton.mp hd'] at hleft
      exact hleft.1 rfl

theorem orderDecisions_ok {partition : PartitionKey} {reason : String}
    {ordered result : List IncrementalDecision} {rounds : Nat} (hrounds : remaining.size ≤ rounds)
    (hplanned : Planned ordered remaining)
    (h : orderDecisions steps partition reason rounds remaining ordered = .ok result) :
    (result.map nodeId).Nodup ∧ ∀ id, id ∈ result.map nodeId ↔
        id ∈ ordered.map nodeId ∨ id ∈ remaining := by
  induction rounds generalizing remaining ordered with
  | zero =>
    cases h
    have hempty : remaining = ∅ := by
      rw [← ExtTreeSet.isEmpty_iff, ExtTreeSet.isEmpty_eq_size_beq_zero, beq_iff_eq]
      omega
    exact ⟨hplanned.nodup, by simp [hempty]⟩
  | succ rounds ih =>
    rw [orderDecisions] at h
    split at h
    next hempty =>
      cases h
      rw [ExtTreeSet.isEmpty_iff] at hempty
      exact ⟨hplanned.nodup, by simp [hempty]⟩
    next =>
      cases hready : nextReady steps remaining ordered with
      | none =>
        rw [hready] at h
        cases h
      | some ready =>
        rw [hready] at h
        have hmem := nextReady_mem hready
        have hsize : (remaining.erase ready.stableId).size ≤ rounds := by
          rw [size_erase, if_pos (ExtTreeSet.contains_iff_mem.mpr hmem)]
          omega
        obtain ⟨hresult, hmembers⟩ := ih hsize (hplanned.take hmem) h
        refine ⟨hresult, ?_⟩
        intro id
        rw [hmembers, List.map_append, mem_append, mem_erase]
        by_cases hid : id = ready.stableId
        · simp [hid, hmem]
        · simp [hid]

theorem orderDecisions_partition {partition : PartitionKey} {reason : String}
    {ordered result : List IncrementalDecision} {rounds : Nat}
    (hordered : ∀ d ∈ ordered, d.partition = partition)
    (h : orderDecisions steps partition reason rounds remaining ordered = .ok result) :
    ∀ d ∈ result, d.partition = partition := by
  induction rounds generalizing remaining ordered with
  | zero =>
    cases h
    exact hordered
  | succ rounds ih =>
    rw [orderDecisions] at h
    split at h
    next =>
      cases h
      exact hordered
    next =>
      cases hready : nextReady steps remaining ordered with
      | none =>
        rw [hready] at h
        cases h
      | some ready =>
        rw [hready] at h
        refine ih ?_ h
        intro d hd
        rcases mem_append.mp hd with hd | hd
        · exact hordered d hd
        · rw [List.mem_singleton.mp hd]

theorem affectedDecisions_partition {workflow : GeoWorkflow} {change : IncrementalChange}
    {decisions : List IncrementalDecision} (h : affectedDecisions workflow change = .ok decisions) :
    ∀ d ∈ decisions, d.partition = change.window.partition := by
  rw [affectedDecisions] at h
  split at h
  next => cases h
  next => exact orderDecisions_partition (by simp) h

theorem affectedDecisions_ok {workflow : GeoWorkflow} {change : IncrementalChange}
    {decisions : List IncrementalDecision} (h : affectedDecisions workflow change = .ok decisions) :
    (decisions.map nodeId).Nodup ∧ (∀ id, id ∈ decisions.map nodeId ↔
        id ∈ affectedNodes workflow.steps (consumers workflow.steps change.inputName)) ∧
      ∀ id ∈ decisions.map nodeId, id ∈ workflow.steps.map stableId := by
  rw [affectedDecisions] at h
  split at h
  next => cases h
  next =>
    obtain ⟨hnodup, hmembers⟩ := orderDecisions_ok (Nat.le_refl _) ⟨by simp, by simp⟩ h
    have hplanned : ∀ id, id ∈ decisions.map nodeId ↔
        id ∈ affectedNodes workflow.steps (consumers workflow.steps change.inputName) := by
      intro id
      rw [hmembers]
      simp
    refine ⟨hnodup, hplanned, ?_⟩
    intro id hid
    exact affectedNodes_nodes (fun _ => mem_consumers) id ((hplanned id).mp hid)

end GeneGIS.IncrementalScheduler
