/-
The ready set is the nodes whose dependencies are placed, and each degree the dependencies still
missing.  The loop ends with every node placed, or with nodes that all wait for one another.
-/
import GeneGIS.Data.Keyed
import GeneGIS.Data.Toposort
import GeneGIS.Workflow.Edges
import Mathlib.Data.Set.Finite.Basic
import Mathlib.Data.String.Basic

namespace GeneGIS.GeoWorkflow

open Toposort Kahn
open List hiding map_map
open Std.ExtTreeMap hiding getD_insert map_map
open Std.ExtTreeSet hiding getD_insert

variable {graph : List Node} {edges : Edges} {k k' : Kahn}

def ids (graph : List Node) : List WorkflowNodeId := graph.map Node.id

/-- The edges are those of the graph. -/
structure Wired (graph : List Node) (edges : Edges) : Prop where
  nodup : (ids graph).Nodup
  deps : ∀ b a, Dep graph b a → a ∈ ids graph
  children : ∀ a b, b ∈ edges.children a ↔ Dep graph b a
  indegree : ∀ node ∈ graph, edges.indegree[node.id]? = some node.sources.length
  absent : ∀ m, m ∉ ids graph → edges.indegree[m]? = none

theorem mem_ids {m : WorkflowNodeId} : m ∈ ids graph ↔ ∃ node ∈ graph, node.id = m := mem_map

theorem dep_iff (hnodup : (ids graph).Nodup) {node : Node} (hnode : node ∈ graph)
    {a : WorkflowNodeId} : Dep graph node.id a ↔ a ∈ node.deps := by
  constructor
  · intro h
    obtain ⟨other, hother, hid, ha⟩ := h
    rw [← inj_on_of_nodup_map hnodup hother hnode hid]
    exact ha
  · intro h
    exact ⟨node, hnode, rfl, h⟩

theorem Dep.mem_ids {a b : WorkflowNodeId} (h : Dep graph b a) : b ∈ ids graph := by
  obtain ⟨node, hnode, hid, -⟩ := h
  exact mem_map.mpr ⟨node, hnode, hid⟩

/-- No edge, and degree zero everywhere. -/
def noEdges (graph : List Node) : Edges where
  adjacency := ∅
  indegree := .ofList ((ids graph).map fun id => (id, 0))

theorem indegree_noEdges (hnodup : (ids graph).Nodup) (m : WorkflowNodeId) :
    (noEdges graph).indegree[m]? = if m ∈ ids graph then some 0 else none := by
  have hkeys : ((ids graph).map fun id => (id, 0)).map Prod.fst = ids graph := by
    rw [List.map_map]
    exact map_id _
  by_cases hm : m ∈ ids graph
  · rw [if_pos hm]
    refine getElem?_ofList_of_mem (k := m) (by simp) ?_ (mem_map.mpr ⟨m, hm, rfl⟩)
    rw [pairwise_map]
    refine hnodup.imp ?_
    intro a b hab
    simpa using hab
  · rw [if_neg hm]
    refine getElem?_ofList_of_contains_eq_false ?_
    rw [hkeys]
    simpa using hm

theorem wired_linkGraph (hnodup : (ids graph).Nodup)
    (hdeps : ∀ b a, Dep graph b a → a ∈ ids graph) :
    Wired graph (linkGraph graph (noEdges graph)) := by
  have hzero : ∀ node ∈ graph, (noEdges graph).indegree[node.id]? = some 0 := by
    intro node hnode
    rw [indegree_noEdges hnodup, if_pos (mem_ids.mpr ⟨node, hnode, rfl⟩)]
  refine ⟨hnodup, hdeps, ?_, ?_, ?_⟩
  · intro a b
    rw [mem_children_linkGraph]
    simp [noEdges, Edges.children]
  · intro node hnode
    exact indegree_linkGraph hnodup hzero hnode
  · intro m hm
    rw [indegree_linkGraph_absent (fun node hnode => ⟨0, hzero node hnode⟩),
      indegree_noEdges hnodup, if_neg hm]
    intro node hnode hid
    exact hm (mem_ids.mpr ⟨node, hnode, hid⟩)

theorem nodup_children (edges : Edges) (a : WorkflowNodeId) : (edges.children a).Nodup := by
  rw [Edges.children]
  cases edges.adjacency[a]? with
  | none => exact nodup_nil
  | some children => exact Keyed.nodup_toList children

@[simp] theorem order_release (l : List WorkflowNodeId) :
    (l.foldl release k).order = k.order := by
  induction l generalizing k with
  | nil => rfl
  | cons child rest ih => exact ih

theorem indegree_release {l : List WorkflowNodeId} (hl : l.Nodup) (m : WorkflowNodeId) :
    (l.foldl release k).indegree.getD m 0 =
      if m ∈ l then k.indegree.getD m 0 - 1 else k.indegree.getD m 0 := by
  induction l generalizing k with
  | nil => rfl
  | cons child rest ih =>
    rw [nodup_cons] at hl
    rw [foldl_cons, ih hl.2]
    simp only [release, Std.ExtTreeMap.getD_insert]
    by_cases hm : m = child
    · subst hm
      rw [if_neg hl.1]
      simp
    · have hne : ¬ compare child m = .eq := by simpa using Ne.symm hm
      simp [hne, hm]

theorem mem_ready_release {l : List WorkflowNodeId} (hl : l.Nodup) (m : WorkflowNodeId) :
    m ∈ (l.foldl release k).ready ↔ m ∈ k.ready ∨ (m ∈ l ∧ k.indegree.getD m 0 - 1 = 0) := by
  induction l generalizing k with
  | nil => simp
  | cons child rest ih =>
    rw [nodup_cons] at hl
    rw [foldl_cons, ih hl.2, mem_cons]
    by_cases hm : m = child
    · subst hm
      by_cases hzero : k.indegree.getD m 0 - 1 = 0
      · simp [release, hzero]
      · simp [release, hzero, hl.1]
    · have hne : ¬ compare child m = .eq := by simpa using Ne.symm hm
      have hdegree : (k.release child).indegree.getD m 0 = k.indegree.getD m 0 := by
        simp [release, Std.ExtTreeMap.getD_insert, hne]
      have hready : m ∈ (k.release child).ready ↔ m ∈ k.ready := by
        rw [release]
        by_cases hzero : k.indegree.getD child 0 - 1 = 0
        · simp [hzero, Ne.symm hm]
        · simp [hzero]
      simp [hdegree, hready, hm]

/-! ## The loop -/

structure Kahn.Inv (graph : List Node) (k : Kahn) : Prop where
  nodup : (ids graph).Nodup
  greedy : Greedy (ids graph) (Dep graph) k.order
  ready : ∀ m, m ∈ k.ready ↔ Ready (ids graph) (Dep graph) k.order m
  indegree : ∀ node ∈ graph,
    k.indegree.getD node.id 0 = (node.sources.filter (· ∉ k.order)).length

theorem Kahn.start_inv (h : Wired graph edges) : Kahn.Inv graph (Kahn.start edges) := by
  refine ⟨h.nodup, greedy_nil, ?_, ?_⟩
  · intro m
    have hmem : m ∈ (start edges).ready ↔ edges.indegree[m]? = some 0 := by
      simp [start, mem_toList_iff_getElem?_eq_some]
    rw [hmem]
    constructor
    · intro hzero
      by_cases hm : m ∈ ids graph
      · refine ⟨hm, not_mem_nil, ?_⟩
        intro a ha
        obtain ⟨node, hnode, rfl, hdep⟩ := ha
        rw [h.indegree node hnode] at hzero
        rw [← Node.mem_sources, length_eq_zero_iff.mp (Option.some.inj hzero)] at hdep
        exact hdep
      · rw [h.absent m hm] at hzero
        cases hzero
    · intro hready
      obtain ⟨node, hnode, rfl⟩ := mem_ids.mp hready.node
      rw [h.indegree node hnode]
      congr 1
      rw [length_eq_zero_iff, eq_nil_iff_forall_not_mem]
      intro a ha
      exact not_mem_nil (hready.deps a ⟨node, hnode, rfl, Node.mem_sources.mp ha⟩)
  · intro node hnode
    show edges.indegree.getD node.id 0 = _
    rw [getD_eq_getD_getElem?, h.indegree node hnode]
    simp [start]

theorem head_le {set : Std.ExtTreeSet String} {first : String} {rest : List String}
    (h : set.toList = first :: rest) : first ∈ set ∧ ∀ m ∈ set, first ≤ m := by
  have hfirst : first ∈ set := by
    rw [← mem_toList, h]
    exact mem_cons_self
  refine ⟨hfirst, ?_⟩
  intro m hm
  rw [← mem_toList, h] at hm
  rcases mem_cons.mp hm with rfl | hm
  · exact le_refl m
  · have hordered := ordered_toList (t := set)
    rw [h, pairwise_cons] at hordered
    exact (compare_lt_iff_lt.mp (hordered.1 m hm)).le

theorem missing_one {sources order : List WorkflowNodeId} {n : WorkflowNodeId}
    (hsources : sources.Nodup) (hn : n ∈ sources) (horder : n ∉ order) :
    (sources.filter (· ∉ order ++ [n])).length = (sources.filter (· ∉ order)).length - 1 ∧
      ((sources.filter (· ∉ order)).length - 1 = 0 ↔ ∀ a ∈ sources, a ∈ order ++ [n]) := by
  have hmem : n ∈ sources.filter (· ∉ order) := by
    simp [hn, horder]
  have herase : sources.filter (· ∉ order ++ [n]) = (sources.filter (· ∉ order)).erase n := by
    rw [(hsources.filter _).erase_eq_filter, filter_filter]
    refine filter_congr ?_
    intro a _
    by_cases ha : a = n
    · simp [ha]
    · simp [ha]
  have hlength := congrArg List.length herase
  rw [length_erase_of_mem hmem] at hlength
  refine ⟨hlength, ?_⟩
  rw [← hlength, length_eq_zero_iff, filter_eq_nil_iff]
  simp only [decide_eq_true_eq, not_not]

theorem Kahn.step_some (h : Kahn.step edges k = some k') :
    ∃ node rest, k.ready.toList = node :: rest ∧ k' = (edges.children node).foldl release
        { k with ready := k.ready.erase node, order := k.order ++ [node] } := by
  rw [step] at h
  split at h
  · cases h
  · rename_i node rest hready
    exact ⟨node, rest, hready, (Option.some.inj h).symm⟩

section

variable {n : WorkflowNodeId} (hk : Kahn.Inv graph k) (hn : Ready (ids graph) (Dep graph) k.order n)

include hk hn in
/-- A node that depends on `n` is not placed yet, because `n` was not. -/
theorem Kahn.Inv.waits {m : WorkflowNodeId} (hdep : Dep graph m n) : m ∉ k.order ++ [n] := by
  rw [mem_append, not_or, mem_singleton]
  constructor
  · intro hm
    obtain ⟨before, after, hsplit⟩ := append_of_mem hm
    have hbefore := hk.greedy.respects before m after hsplit n hdep
    exact hn.fresh (hsplit ▸ mem_append_left _ hbefore)
  · intro heq
    exact hn.fresh (hn.deps n (heq ▸ hdep))

include hk hn in
theorem Kahn.Inv.ready_after (m : WorkflowNodeId) :
    ((m ∈ k.ready ∧ m ≠ n) ∨ (Dep graph m n ∧ k.indegree.getD m 0 - 1 = 0)) ↔
      Ready (ids graph) (Dep graph) (k.order ++ [n]) m := by
  constructor
  · intro h
    rcases h with ⟨hm, hne⟩ | ⟨hdep, hzero⟩
    · have hready := (hk.ready m).mp hm
      refine ⟨hready.node, ?_, fun a ha => mem_append_left _ (hready.deps a ha)⟩
      simpa [hne] using hready.fresh
    · refine ⟨hdep.mem_ids, hk.waits hn hdep, ?_⟩
      intro a ha
      obtain ⟨node, hnode, rfl, hdeps⟩ := hdep
      rw [hk.indegree node hnode] at hzero
      exact (missing_one node.nodup_sources (Node.mem_sources.mpr hdeps)
        hn.fresh).2.mp hzero a (Node.mem_sources.mpr ((dep_iff hk.nodup hnode).mp ha))
  · intro hm
    have hfresh := hm.fresh
    rw [mem_append, not_or, mem_singleton] at hfresh
    by_cases hdep : Dep graph m n
    · refine .inr ⟨hdep, ?_⟩
      obtain ⟨node, hnode, rfl, hdeps⟩ := hdep
      rw [hk.indegree node hnode]
      refine (missing_one node.nodup_sources (Node.mem_sources.mpr hdeps) hn.fresh).2.mpr ?_
      intro a ha
      exact hm.deps a ⟨node, hnode, rfl, Node.mem_sources.mp ha⟩
    · refine .inl ⟨(hk.ready m).mpr ⟨hm.node, hfresh.1, ?_⟩, hfresh.2⟩
      intro a ha
      have hmem := hm.deps a ha
      rw [mem_append, mem_singleton] at hmem
      refine hmem.resolve_right ?_
      intro heq
      exact hdep (heq ▸ ha)

include hk hn in
theorem Kahn.Inv.indegree_after {node : Node} (hnode : node ∈ graph) :
    (node.sources.filter (· ∉ k.order ++ [n])).length =
      if n ∈ node.deps then k.indegree.getD node.id 0 - 1 else k.indegree.getD node.id 0 := by
  rw [hk.indegree node hnode]
  by_cases hdep : n ∈ node.deps
  · rw [if_pos hdep]
    exact (missing_one node.nodup_sources (Node.mem_sources.mpr hdep) hn.fresh).1
  · rw [if_neg hdep]
    congr 1
    refine filter_congr ?_
    intro a ha
    have hne : a ≠ n := by
      intro heq
      exact hdep (heq ▸ Node.mem_sources.mp ha)
    simp [hne]

end

theorem Kahn.step_inv (hwired : Wired graph edges) (hk : Kahn.Inv graph k)
    (hstep : step edges k = some k') :
    Kahn.Inv graph k' ∧ k'.order.length = k.order.length + 1 := by
  obtain ⟨n, rest, hlist, rfl⟩ := step_some hstep
  obtain ⟨hmem, hleast⟩ := head_le hlist
  have hn := (hk.ready n).mp hmem
  have hchildren := nodup_children edges n
  refine ⟨⟨hk.nodup, ?_, ?_, ?_⟩, ?_⟩
  · rw [order_release]
    exact hk.greedy.snoc hn fun c hc => hleast c ((hk.ready c).mpr hc)
  · intro m
    rw [order_release, mem_ready_release hchildren, hwired.children, ← hk.ready_after hn]
    simp [and_comm, @eq_comm _ n]
  · intro node hnode
    rw [order_release, indegree_release hchildren, hk.indegree_after hn hnode]
    refine if_congr ?_ rfl rfl
    rw [hwired.children, dep_iff hk.nodup hnode]
  · rw [order_release, length_append, length_singleton]

def kahnOrder (graph : List Node) (edges : Edges) : List WorkflowNodeId :=
  (Loop.run (step edges) (ids graph).length (start edges)).order

theorem Greedy.length_le {l nodes : List String} {R : String → String → Prop}
    (hl : Greedy nodes R l) : l.length ≤ nodes.length :=
  (hl.nodup.subperm hl.subset).length_le

theorem kahnOrder_greedy (h : Wired graph edges) :
    Greedy (ids graph) (Dep graph) (kahnOrder graph edges) := by
  refine (Loop.run_invariant (P := Kahn.Inv graph) ?_ _ _ (start_inv h)).greedy
  intro k k' hk hstep
  exact (step_inv h hk hstep).1

theorem kahnOrder_done (h : Wired graph edges) (m : WorkflowNodeId) :
    ¬ Ready (ids graph) (Dep graph) (kahnOrder graph edges) m := by
  have hinv := Loop.run_invariant (P := Kahn.Inv graph)
    (fun _ _ hk hstep => (step_inv h hk hstep).1) (ids graph).length _ (start_inv h)
  have hends : step edges
      (Loop.run (step edges) (ids graph).length (start edges)) = none := by
    refine Loop.run_ends (P := Kahn.Inv graph) (fun k => (ids graph).length - k.order.length)
      ?_ (ids graph).length _ (start_inv h) (Nat.sub_le _ _)
    intro k k' hk hstep
    obtain ⟨hk', hlength⟩ := step_inv h hk hstep
    have hle := Greedy.length_le hk'.greedy
    exact ⟨hk', by omega⟩
  intro hm
  have hmem := (hinv.ready m).mpr hm
  rw [step] at hends
  split at hends
  · rename_i hnil
    rw [← mem_toList, hnil] at hmem
    exact not_mem_nil hmem
  · cases hends

theorem kahnOrder_perm (h : Wired graph edges) :
    (kahnOrder graph edges).length = (ids graph).length ↔
      (kahnOrder graph edges).Perm (ids graph) := by
  have hgreedy := kahnOrder_greedy h
  constructor
  · intro hlength
    exact (hgreedy.nodup.subperm hgreedy.subset).perm_of_length_le hlength.ge
  · intro hperm
    exact hperm.length_eq

/-- The order is complete exactly when no dependency chain returns to its start. -/
theorem kahnOrder_acyclic (h : Wired graph edges) :
    (kahnOrder graph edges).Perm (ids graph) ↔ ∀ a, ¬ Relation.TransGen (Dep graph) a a := by
  have hgreedy := kahnOrder_greedy h
  constructor
  · intro hperm a
    exact IsOrder.acyclic ⟨hperm, hgreedy.respects⟩ h.nodup (fun _ _ hdep => hdep.mem_ids)
  · intro hacyclic
    refine (perm_ext_iff_of_nodup hgreedy.nodup h.nodup).mpr ?_
    intro m
    refine ⟨hgreedy.subset m, ?_⟩
    intro hm
    by_contra hleft
    -- Every node that is left waits for another, since none is ready.
    let left : Set WorkflowNodeId := {x | x ∈ ids graph ∧ x ∉ kahnOrder graph edges}
    have hfinite : left.Finite := (finite_toSet (ids graph)).subset fun x hx => hx.1
    have hwaits : ∀ b ∈ left, ∃ a ∈ left, Dep graph b a := by
      intro b hb
      by_contra hnone
      refine kahnOrder_done h b ⟨hb.1, hb.2, ?_⟩
      intro a ha
      by_contra hmissing
      exact hnone ⟨a, ⟨h.deps b a ha, hmissing⟩, ha⟩
    obtain ⟨a, ha⟩ := cycle_of_waiting hfinite ⟨hm, hleft⟩ hwaits
    exact hacyclic a ha

end GeneGIS.GeoWorkflow
