/-
What the two searches of the validation find.

Both visit exactly what can be reached, so the first finds every node of a graph without cycles and
the second every connected one.
-/
import GeneGIS.Workflow.Order
import Mathlib.Combinatorics.Enumerative.DoubleCounting

namespace GeneGIS.GeoWorkflow

open List Relation Finset Search

variable {graph : List Node} {edges : Edges} {world start : List WorkflowNodeId}
  {neighbours : WorkflowNodeId → List WorkflowNodeId}
  {join : List WorkflowNodeId → List WorkflowNodeId → List WorkflowNodeId} {s s' : Search}

/-! ## Searching -/

/-- One step leads from a node to a neighbour. -/
def Leads (neighbours : WorkflowNodeId → List WorkflowNodeId) (a b : WorkflowNodeId) : Prop :=
  b ∈ neighbours a

def ReachedFrom (neighbours : WorkflowNodeId → List WorkflowNodeId)
    (start : List WorkflowNodeId) (b : WorkflowNodeId) : Prop :=
  ∃ a ∈ start, ReflTransGen (Leads neighbours) a b

/-- The next nodes join the pending ones, in some order. -/
structure Joins (join : List WorkflowNodeId → List WorkflowNodeId → List WorkflowNodeId) :
    Prop where
  mem : ∀ rest next m, m ∈ join rest next ↔ m ∈ rest ∨ m ∈ next
  length : ∀ rest next, (join rest next).length = rest.length + next.length

theorem joins_append : Joins (· ++ ·) := ⟨fun _ _ _ => mem_append, fun _ _ => length_append⟩

theorem joins_pushAll : Joins pushAll := by
  refine ⟨?_, ?_⟩
  · intro rest next m
    rw [pushAll, mem_append, mem_reverse, or_comm]
  · intro rest next
    rw [pushAll, length_append, length_reverse, Nat.add_comm]

structure Search.Inv (neighbours : WorkflowNodeId → List WorkflowNodeId)
    (start : List WorkflowNodeId) (s : Search) : Prop where
  sound : ∀ m, m ∈ s.visited ∨ m ∈ s.pending → ReachedFrom neighbours start m
  start : ∀ m ∈ start, m ∈ s.visited ∨ m ∈ s.pending
  closed : ∀ a ∈ s.visited, ∀ b ∈ neighbours a, b ∈ s.visited ∨ b ∈ s.pending

/-- The nodes still pending, and those that unvisited nodes can still add. -/
def Search.measure (neighbours : WorkflowNodeId → List WorkflowNodeId)
    (world : List WorkflowNodeId) (s : Search) : Nat :=
  s.pending.length + ((world.filter (· ∉ s.visited)).map fun a => (neighbours a).length).sum

theorem Search.step_some (h : Search.step neighbours join s = some s') :
    ∃ node rest, s.pending = node :: rest ∧ ((node ∈ s.visited ∧ s' = { s with pending := rest }) ∨
        (node ∉ s.visited ∧
          s' = { pending := join rest (neighbours node), visited := s.visited.insert node })) := by
  rw [step] at h
  split at h
  · cases h
  · rename_i node rest hpending
    refine ⟨node, rest, hpending, ?_⟩
    split at h
    · rename_i hvisited
      exact .inl ⟨Std.ExtTreeSet.contains_iff_mem.mp hvisited, (Option.some.inj h).symm⟩
    · rename_i hvisited
      rw [Std.ExtTreeSet.contains_iff_mem] at hvisited
      exact Or.inr ⟨hvisited, (Option.some.inj h).symm⟩

theorem mem_insert_iff {set : Std.ExtTreeSet String} {a m : String} :
    m ∈ set.insert a ↔ m = a ∨ m ∈ set := by
  rw [Std.ExtTreeSet.mem_insert, Std.LawfulEqCmp.compare_eq_iff_eq, @eq_comm _ a]

theorem Search.step_inv (hjoin : Joins join) (hs : Search.Inv neighbours start s)
    (hstep : step neighbours join s = some s') : Search.Inv neighbours start s' := by
  obtain ⟨node, rest, hpending, ⟨hvisited, rfl⟩ | ⟨hvisited, rfl⟩⟩ := step_some hstep
  · -- A node that was visited before is only taken off the list.
    have hkeep : ∀ m, m ∈ s.visited ∨ m ∈ s.pending ↔ m ∈ s.visited ∨ m ∈ rest := by
      intro m
      rw [hpending, List.mem_cons]
      constructor
      · intro h
        rcases h with h | rfl | h
        · exact .inl h
        · exact .inl hvisited
        · exact .inr h
      · intro h
        exact h.imp_right .inr
    refine ⟨?_, ?_, ?_⟩
    · intro m hm
      exact hs.sound m ((hkeep m).mpr hm)
    · intro m hm
      exact (hkeep m).mp (hs.start m hm)
    · intro a ha b hb
      exact (hkeep b).mp (hs.closed a ha b hb)
  · have hnode := hs.sound node (.inr (hpending ▸ mem_cons_self))
    have hmem : ∀ m, (m ∈ s.visited.insert node ∨ m ∈ join rest (neighbours node)) ↔
        (m ∈ s.visited ∨ m ∈ s.pending) ∨ m ∈ neighbours node := by
      intro m
      rw [mem_insert_iff, hjoin.mem, hpending, List.mem_cons]
      tauto
    refine ⟨?_, ?_, ?_⟩
    · intro m hm
      rcases (hmem m).mp hm with hm | hm
      · exact hs.sound m hm
      · obtain ⟨a, ha, hreach⟩ := hnode
        exact ⟨a, ha, hreach.tail hm⟩
    · intro m hm
      exact (hmem m).mpr (.inl (hs.start m hm))
    · intro a ha b hb
      rcases mem_insert_iff.mp ha with rfl | ha
      · exact (hmem b).mpr (.inr hb)
      · exact (hmem b).mpr (.inl (hs.closed a ha b hb))

theorem Search.step_measure (hjoin : Joins join) (hnodup : world.Nodup)
    (hpending : ∀ m ∈ s.pending, m ∈ world)
    (hstep : step neighbours join s = some s') :
    s'.measure neighbours world < s.measure neighbours world := by
  obtain ⟨node, rest, hlist, ⟨hvisited, rfl⟩ | ⟨hvisited, rfl⟩⟩ := step_some hstep
  · rw [measure, measure, hlist, length_cons]
    simp only
    omega
  · have hnode : node ∈ world.filter (· ∉ s.visited) := by
      rw [List.mem_filter]
      exact ⟨hpending node (hlist ▸ mem_cons_self), by simpa using hvisited⟩
    have herase : world.filter (· ∉ s.visited.insert node) =
        (world.filter (· ∉ s.visited)).erase node := by
      rw [(hnodup.filter _).erase_eq_filter, List.filter_filter]
      refine filter_congr ?_
      intro a _
      by_cases ha : a = node
      · simp [ha]
      · simp [ha, Ne.symm ha]
    have hsum := sum_map_erase (fun a => (neighbours a).length) hnode
    rw [measure, measure, hlist, length_cons]
    simp only
    rw [herase, hjoin.length]
    omega

theorem mem_visited_search (hjoin : Joins join) (hnodup : world.Nodup)
    (hstart : ∀ m ∈ start, m ∈ world)
    (hclosed : ∀ a ∈ world, ∀ b ∈ neighbours a, b ∈ world) {bound : Nat}
    (hbound : start.length + (world.map fun a => (neighbours a).length).sum ≤ bound)
    (m : WorkflowNodeId) :
    m ∈ (Loop.run (step neighbours join) bound
      { pending := start, visited := ∅ }).visited ↔ ReachedFrom neighbours start m := by
  have hwithin : ∀ m, ReachedFrom neighbours start m → m ∈ world := by
    intro m hm
    obtain ⟨a, ha, hreach⟩ := hm
    induction hreach with
    | refl => exact hstart a ha
    | tail _ hleads ih => exact hclosed _ ih _ hleads
  have hfirst : Search.Inv neighbours start { pending := start, visited := ∅ } := by
    refine ⟨?_, fun m hm => .inr hm, ?_⟩
    · intro m hm
      rcases hm with hm | hm
      · simp at hm
      · exact ⟨m, hm, .refl⟩
    · intro a ha
      simp at ha
  have hinv := Loop.run_invariant (P := Search.Inv neighbours start)
    (fun _ _ hs hstep => step_inv hjoin hs hstep) bound _ hfirst
  have hends : step neighbours join (Loop.run (step neighbours join) bound
      { pending := start, visited := ∅ }) = none := by
    refine Loop.run_ends (P := Search.Inv neighbours start) (measure neighbours world)
      ?_ bound _ hfirst ?_
    · intro s s' hs hstep
      exact ⟨step_inv hjoin hs hstep, step_measure hjoin hnodup
        (fun m hm => hwithin m (hs.sound m (.inr hm))) hstep⟩
    · simpa [Search.measure] using hbound
  have hpending : (Loop.run (Search.step neighbours join) bound
      { pending := start, visited := ∅ }).pending = [] := by
    rw [step] at hends
    split at hends
    · assumption
    · split at hends <;> cases hends
  constructor
  · intro hm
    exact hinv.sound m (.inl hm)
  · intro hm
    obtain ⟨a, ha, hreach⟩ := hm
    induction hreach with
    | refl => simpa [hpending] using hinv.start a ha
    | tail _ hleads ih => simpa [hpending] using hinv.closed _ ih _ hleads

def edgeCount (graph : List Node) : Nat := (graph.map fun node => node.deps.length).sum

theorem Node.sources_length_le (node : Node) : node.sources.length ≤ node.deps.length := by
  refine (node.nodup_sources.subperm ?_).length_le
  intro d hd
  exact Node.mem_sources.mp hd

theorem children_count (h : Wired graph edges) :
    ((ids graph).map fun a => (edges.children a).length).sum ≤ edgeCount graph := by
  classical
  let nodes := (ids graph).toFinset
  have hchildren : ∀ a ∈ nodes, (edges.children a).length =
      (nodes.bipartiteAbove (fun a b => Dep graph b a) a).card := by
    intro a _
    rw [← List.toFinset_card_of_nodup (nodup_children edges a)]
    congr 1
    ext b
    rw [mem_toFinset, h.children, mem_bipartiteAbove, mem_toFinset]
    exact ⟨fun hdep => ⟨hdep.mem_ids, hdep⟩, fun hb => hb.2⟩
  have hsources : ∀ node ∈ graph,
      (nodes.bipartiteBelow (fun a b => Dep graph b a) node.id).card ≤ node.deps.length := by
    intro node hnode
    refine le_trans (le_of_eq ?_) node.sources_length_le
    rw [← List.toFinset_card_of_nodup node.nodup_sources]
    congr 1
    ext a
    rw [mem_bipartiteBelow, mem_toFinset, mem_toFinset, Node.mem_sources, dep_iff h.nodup hnode]
    exact ⟨fun ha => ha.2, fun ha => ⟨h.deps node.id a ⟨node, hnode, rfl, ha⟩, ha⟩⟩
  calc ((ids graph).map fun a => (edges.children a).length).sum
      = ∑ a ∈ nodes, (edges.children a).length := (List.sum_toFinset _ h.nodup).symm
    _ = ∑ a ∈ nodes, (nodes.bipartiteAbove (fun a b => Dep graph b a) a).card :=
      sum_congr rfl hchildren
    _ = ∑ b ∈ nodes, (nodes.bipartiteBelow (fun a b => Dep graph b a) b).card :=
      sum_card_bipartiteAbove_eq_sum_card_bipartiteBelow _
    _ = ((ids graph).map fun b =>
          (nodes.bipartiteBelow (fun a b => Dep graph b a) b).card).sum :=
      List.sum_toFinset _ h.nodup
    _ = (graph.map fun node =>
          (nodes.bipartiteBelow (fun a b => Dep graph b a) node.id).card).sum := by
      rw [ids, List.map_map]
      rfl
    _ ≤ edgeCount graph := List.sum_le_sum hsources

def roots (graph : List Node) : List WorkflowNodeId :=
  (graph.filter fun node => node.deps.isEmpty).map Node.id

theorem mem_roots {m : WorkflowNodeId} :
    m ∈ roots graph ↔ ∃ node ∈ graph, node.id = m ∧ node.deps = [] := by
  simp only [roots, List.mem_map, List.mem_filter, List.isEmpty_iff]
  constructor
  · intro h
    obtain ⟨node, ⟨hnode, hdeps⟩, hid⟩ := h
    exact ⟨node, hnode, hid, hdeps⟩
  · intro h
    obtain ⟨node, hnode, hid, hdeps⟩ := h
    exact ⟨node, ⟨hnode, hdeps⟩, hid⟩

def reachable (graph : List Node) (edges : Edges) : Std.ExtTreeSet String :=
  (Loop.run (step edges.children (· ++ ·)) ((ids graph).length + edgeCount graph)
    { pending := roots graph, visited := ∅ }).visited

theorem mem_reachable (h : Wired graph edges) (m : WorkflowNodeId) :
    m ∈ reachable graph edges ↔ ReachedFrom edges.children (roots graph) m := by
  refine mem_visited_search joins_append h.nodup ?_ ?_ ?_ m
  · intro m hm
    obtain ⟨node, hnode, hid, -⟩ := mem_roots.mp hm
    exact mem_ids.mpr ⟨node, hnode, hid⟩
  · intro a _ b hb
    exact ((h.children a b).mp hb).mem_ids
  · have hroots : (roots graph).length ≤ (ids graph).length := by
      rw [roots, ids, length_map, length_map]
      exact length_filter_le _ _
    have hcount := children_count h
    omega

theorem reachable_size (h : Wired graph edges)
    (hacyclic : ∀ a, ¬ Relation.TransGen (Dep graph) a a) :
    (reachable graph edges).size = (ids graph).length := by
  -- By induction along the order: a node is a root or depends on a node found before.
  have hperm := (kahnOrder_acyclic h).mpr hacyclic
  have hfound : ∀ before after, kahnOrder graph edges = before ++ after →
      ∀ m ∈ before, m ∈ reachable graph edges := by
    intro before
    induction before using reverseRecOn with
    | nil =>
      intro _ _ m hm
      cases hm
    | append_singleton before b ih =>
      intro after hsplit m hm
      rw [append_assoc] at hsplit
      rcases mem_append.mp hm with hm | hm
      · exact ih _ hsplit m hm
      · obtain rfl := List.mem_singleton.mp hm
        have hready := (kahnOrder_greedy h before m after hsplit).1
        obtain ⟨node, hnode, rfl⟩ := mem_ids.mp hready.node
        rw [mem_reachable h]
        cases hdeps : node.deps with
        | nil => exact ⟨node.id, mem_roots.mpr ⟨node, hnode, rfl, hdeps⟩, .refl⟩
        | cons d rest =>
          have hdep : Dep graph node.id d := ⟨node, hnode, rfl, hdeps ▸ mem_cons_self⟩
          obtain ⟨root, hroot, hreach⟩ :=
            (mem_reachable h d).mp (ih _ hsplit d (hready.deps d hdep))
          exact ⟨root, hroot, hreach.tail ((h.children d node.id).mpr hdep)⟩
  have hlist : (reachable graph edges).toList.Perm (ids graph) := by
    have hdistinct : (reachable graph edges).toList.Nodup := Keyed.nodup_toList _
    refine (perm_ext_iff_of_nodup hdistinct h.nodup).mpr ?_
    intro m
    rw [Std.ExtTreeSet.mem_toList]
    constructor
    · intro hm
      obtain ⟨root, hroot, hreach⟩ := (mem_reachable h m).mp hm
      induction hreach with
      | refl =>
        obtain ⟨node, hnode, hid, -⟩ := mem_roots.mp hroot
        exact mem_ids.mpr ⟨node, hnode, hid⟩
      | tail _ hleads _ => exact ((h.children _ _).mp hleads).mem_ids
    · intro hm
      exact hfound _ [] (append_nil _).symm m (hperm.mem_iff.mpr hm)
  rw [← Std.ExtTreeSet.length_toList]
  exact hlist.length_eq

/-! ## Components -/

def neighboursOf (graph : List Node) (edges : Edges) (id : WorkflowNodeId) : List WorkflowNodeId :=
  (match graph.find? fun node => node.id = id with
    | some node => node.deps
    | none => []) ++ edges.children id

def components (graph : List Node) (edges : Edges) : List (List WorkflowNodeId) :=
  (Loop.run (Components.step (neighboursOf graph edges) (1 + 2 * edgeCount graph))
    (ids graph).length { unvisited := .ofList (ids graph), found := [] }).found

/-- Two nodes are next to each other when one depends on the other. -/
def Beside (graph : List Node) (a b : WorkflowNodeId) : Prop := Dep graph a b ∨ Dep graph b a

/-- Every node can be reached from every other, along the edges in both directions. -/
def Connected (graph : List Node) : Prop :=
  ∀ a ∈ ids graph, ∀ b ∈ ids graph, ReflTransGen (Beside graph) a b

theorem find?_node (hnodup : (ids graph).Nodup) {node : Node} (hnode : node ∈ graph) :
    graph.find? (fun other => other.id = node.id) = some node := by
  induction graph with
  | nil => cases hnode
  | cons first rest ih =>
    rw [ids, List.map_cons, List.nodup_cons] at hnodup
    rcases List.mem_cons.mp hnode with rfl | hrest
    · rw [find?_cons_of_pos (by simp)]
    · rw [find?_cons_of_neg, ih hnodup.2 hrest]
      have hne : first.id ≠ node.id := by
        intro heq
        exact hnodup.1 (heq ▸ mem_map_of_mem hrest)
      simpa using hne

variable {a b : WorkflowNodeId}

theorem mem_neighboursOf (h : Wired graph edges) :
    b ∈ neighboursOf graph edges a ↔ Beside graph a b := by
  rw [neighboursOf, mem_append, h.children]
  by_cases ha : a ∈ ids graph
  · obtain ⟨node, hnode, rfl⟩ := mem_ids.mp ha
    rw [find?_node h.nodup hnode, Beside, dep_iff h.nodup hnode]
  · have hnone : graph.find? (fun node => node.id = a) = none := by
      rw [find?_eq_none]
      intro node hnode hid
      exact ha (mem_ids.mpr ⟨node, hnode, by simpa using hid⟩)
    rw [hnone, Beside]
    simp only [not_mem_nil, false_or]
    constructor
    · exact .inr
    · intro hbeside
      exact hbeside.resolve_left fun hdep => ha hdep.mem_ids

theorem Beside.symm (h : Beside graph a b) : Beside graph b a := Or.symm h

theorem reach_symm (h : ReflTransGen (Beside graph) a b) : ReflTransGen (Beside graph) b a := by
  induction h with
  | refl => exact .refl
  | tail _ hbeside ih => exact ih.head hbeside.symm

theorem Beside.mem_ids (h : Wired graph edges) (hab : Beside graph a b) : b ∈ ids graph := by
  rcases hab with hdep | hdep
  · exact h.deps a b hdep
  · exact hdep.mem_ids

theorem neighbours_count (h : Wired graph edges) :
    ((ids graph).map fun a => (neighboursOf graph edges a).length).sum ≤ 2 * edgeCount graph := by
  have hsplit : ((ids graph).map fun a => (neighboursOf graph edges a).length).sum =
      edgeCount graph + ((ids graph).map fun a => (edges.children a).length).sum := by
    rw [ids, List.map_map, List.map_map, edgeCount, ← List.sum_map_add]
    congr 1
    refine map_congr_left ?_
    intro node hnode
    simp only [Function.comp_apply, neighboursOf, find?_node h.nodup hnode, length_append]
  have hcount := children_count h
  omega

theorem mem_component (h : Wired graph edges) {start : WorkflowNodeId}
    (hstart : start ∈ ids graph) (m : WorkflowNodeId) :
    m ∈ (Loop.run (step (neighboursOf graph edges) pushAll) (1 + 2 * edgeCount graph)
      { pending := [start], visited := ∅ }).visited ↔
        ReflTransGen (Beside graph) start m := by
  rw [mem_visited_search joins_pushAll h.nodup ?_ ?_ ?_ m]
  · have hleads : Leads (neighboursOf graph edges) = Beside graph := by
      funext a b
      exact propext (mem_neighboursOf h)
    simp [ReachedFrom, hleads]
  · intro a ha
    rw [List.mem_singleton.mp ha]
    exact hstart
  · intro a _ b hb
    exact ((mem_neighboursOf h).mp hb).mem_ids h
  · have hcount := neighbours_count h
    rw [length_singleton]
    omega

theorem mem_foldl_erase {l : List String} {set : Std.ExtTreeSet String} {m : String} :
    m ∈ l.foldl (fun u node => u.erase node) set ↔ m ∈ set ∧ m ∉ l := by
  induction l generalizing set with
  | nil => simp
  | cons a rest ih =>
    rw [List.foldl_cons, ih, Std.ExtTreeSet.mem_erase, List.mem_cons, not_or]
    simp only [ne_eq, Std.LawfulEqCmp.compare_eq_iff_eq, @eq_comm _ a]
    tauto

theorem Components.step_some (h : Wired graph edges) {c c' : Components}
    (hc : ∀ m ∈ c.unvisited, m ∈ ids graph)
    (hstep : Components.step (neighboursOf graph edges) (1 + 2 * edgeCount graph) c = some c') :
    c'.found.length = c.found.length + 1 ∧ ∃ start ∈ c.unvisited, ∀ m, m ∈ c'.unvisited ↔
        m ∈ c.unvisited ∧ ¬ ReflTransGen (Beside graph) start m := by
  rw [Components.step] at hstep
  split at hstep
  · cases hstep
  · rename_i start rest hlist
    have hstart : start ∈ c.unvisited := by
      rw [← Std.ExtTreeSet.mem_toList, hlist]
      exact mem_cons_self
    cases hstep
    refine ⟨by simp, start, hstart, ?_⟩
    intro m
    rw [mem_foldl_erase, Std.ExtTreeSet.mem_toList, mem_component h (hc start hstart),
      Std.ExtTreeSet.mem_erase]
    simp only [ne_eq, Std.LawfulEqCmp.compare_eq_iff_eq]
    constructor
    · intro hm
      exact ⟨hm.1.2, hm.2⟩
    · intro hm
      refine ⟨⟨?_, hm.1⟩, hm.2⟩
      intro heq
      exact hm.2 (heq ▸ .refl)

theorem Components.step_none {neighbours : WorkflowNodeId → List WorkflowNodeId} {bound : Nat}
    {c : Components} :
    Components.step neighbours bound c = none ↔ ∀ m, m ∉ c.unvisited := by
  rw [Components.step]
  constructor
  · intro h m hm
    split at h
    · rename_i hnil
      rw [← Std.ExtTreeSet.mem_toList, hnil] at hm
      exact not_mem_nil hm
    · cases h
  · intro h
    split
    · rfl
    · rename_i start rest hlist
      refine absurd ?_ (h start)
      rw [← Std.ExtTreeSet.mem_toList, hlist]
      exact mem_cons_self

theorem found_length_le (h : Wired graph edges) {c : Components}
    (hc : ∀ m ∈ c.unvisited, m ∈ ids graph) (bound : Nat) :
    c.found.length ≤ (Loop.run
      (Components.step (neighboursOf graph edges) (1 + 2 * edgeCount graph)) bound c).found.length := by
  refine (Loop.run_invariant
    (P := fun d => (∀ m ∈ d.unvisited, m ∈ ids graph) ∧ c.found.length ≤ d.found.length)
    ?_ bound c ⟨hc, le_refl _⟩).2
  intro d d' hd hstep
  obtain ⟨hlength, start, -, hrest⟩ := Components.step_some h hd.1 hstep
  exact ⟨fun m hm => hd.1 m ((hrest m).mp hm).1, by omega⟩

theorem components_connected (h : Wired graph edges) (hne : graph ≠ []) :
    (components graph edges).length ≤ 1 ↔ Connected graph := by
  let step := Components.step (neighboursOf graph edges) (1 + 2 * edgeCount graph)
  let first : Components := { unvisited := .ofList (ids graph), found := [] }
  have hfirst : ∀ m, m ∈ first.unvisited ↔ m ∈ ids graph := by
    intro m
    simp [first]
  obtain ⟨node, rest, rfl⟩ := exists_cons_of_ne_nil hne
  have hnode : node.id ∈ ids (node :: rest) := mem_cons_self
  have hlength : (ids (node :: rest)).length = rest.length + 1 := by
    rw [ids, length_map, length_cons]
  cases hstep : step first with
  | none => exact absurd ((hfirst node.id).mpr hnode) (Components.step_none.mp hstep node.id)
  | some second =>
    obtain ⟨hone, start, hstart, hsecond⟩ :=
      Components.step_some h (fun m hm => (hfirst m).mp hm) hstep
    rw [hfirst] at hstart
    have hwithin : ∀ m ∈ second.unvisited, m ∈ ids (node :: rest) :=
      fun m hm => (hfirst m).mp ((hsecond m).mp hm).1
    have hcomponents : components (node :: rest) edges =
        (Loop.run step rest.length second).found := by
      rw [components, hlength, Loop.run_next hstep]
    rw [hcomponents]
    by_cases hall : ∀ m ∈ ids (node :: rest), ReflTransGen (Beside (node :: rest)) start m
    · -- The first component takes every node.
      have hdone : step second = none := by
        rw [Components.step_none]
        intro m hm
        exact ((hsecond m).mp hm).2 (hall m (hwithin m hm))
      rw [Loop.run_done hdone, hone]
      refine iff_of_true (le_refl _) ?_
      intro a ha b hb
      exact (reach_symm (hall a ha)).trans (hall b hb)
    · -- A node is left over for a second component.
      rw [not_forall₂] at hall
      obtain ⟨m, hm, hleft⟩ := hall
      refine iff_of_false ?_ fun hconnected => hleft (hconnected start hstart m hm)
      have hrest : ∃ k, rest.length = k + 1 := by
        refine Nat.exists_eq_succ_of_ne_zero ?_
        intro hzero
        rw [List.length_eq_zero_iff.mp hzero, ids, List.map_singleton, List.mem_singleton]
          at hstart hm
        exact hleft (hstart ▸ hm ▸ .refl)
      obtain ⟨k, hk⟩ := hrest
      cases hnext : step second with
      | none =>
        exact absurd ((hsecond m).mpr ⟨(hfirst m).mpr hm, hleft⟩) (Components.step_none.mp hnext m)
      | some third =>
        obtain ⟨htwo, _, -, hthird⟩ := Components.step_some h hwithin hnext
        have hmore : third.found.length ≤ (Loop.run step k third).found.length :=
          found_length_le h (fun m hm => hwithin m ((hthird m).mp hm).1) k
        have hfound : first.found.length = 0 := rfl
        rw [hk, Loop.run_next hnext]
        omega

end GeneGIS.GeoWorkflow
