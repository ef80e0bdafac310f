/-
Every distinct dependency of a node becomes one edge, and a successful pass is one condition on the
nodes.
-/
import GeneGIS.Data.Fallible
import GeneGIS.Workflow.Graph

namespace GeneGIS.GeoWorkflow

open List hiding contains_insert getElem?_insert
open Std.ExtTreeMap hiding contains_insert getElem?_insert

variable {rt : Runtime} {w : GeoWorkflow} {legacy : Bool} {nodes : Std.ExtTreeMap String Nat}
  {graph : List Node} {edges edges' : Edges}

@[simp] theorem require_ok {holds : Bool} {error : WorkflowValidationError} {u : Unit} :
    require holds error = .ok u ↔ holds = true :=
  Fallible.except_guard_ok

theorem require_error {holds : Bool} {error error' : WorkflowValidationError} :
    require holds error = .error error' ↔ holds = false ∧ error' = error := by
  cases holds <;> simp [require, eq_comm]

theorem checkAll_error {α : Type} {check : α → Check} {l : List α}
    {error : WorkflowValidationError} (h : checkAll check l = .error error) :
    ∃ a ∈ l, check a = .error error := by
  induction l with
  | nil => cases h
  | cons a rest ih =>
    rcases Fallible.except_bind_error.mp h with h | ⟨_, -, h⟩
    · exact ⟨a, mem_cons_self, h⟩
    · obtain ⟨b, hb, h⟩ := ih h
      exact ⟨b, mem_cons_of_mem _ hb, h⟩

theorem checkAll_ok {α : Type} {check : α → Check} {l : List α} {u : Unit} :
    checkAll check l = .ok u ↔ ∀ a ∈ l, check a = .ok () := by
  induction l with
  | nil => simp [checkAll]
  | cons a rest ih =>
    rw [checkAll, Fallible.bind_iff, List.forall_mem_cons, ← ih]
    constructor
    · intro h
      obtain ⟨⟨⟩, ha, hrest⟩ := h
      exact ⟨ha, hrest⟩
    · intro h
      exact ⟨(), h⟩

/-! ## Nodes -/

theorem graphNodes_ids (legacy : Bool) (previous : Option WorkflowNodeId)
    (steps : List WorkflowStep) :
    (graphNodes rt legacy previous steps).map Node.id = steps.map (WorkflowStep.nodeId rt) := by
  induction steps generalizing previous with
  | nil => rfl
  | cons step rest ih =>
    cases legacy <;> cases previous <;> simp [graphNodes, ih]

theorem graphNodes_steps (legacy : Bool) (previous : Option WorkflowNodeId)
    (steps : List WorkflowStep) : (graphNodes rt legacy previous steps).map Node.step = steps := by
  induction steps generalizing previous with
  | nil => rfl
  | cons step rest ih =>
    cases legacy <;> cases previous <;> simp [graphNodes, ih]

def explicitNode (rt : Runtime) (step : WorkflowStep) : Node :=
  { id := step.nodeId rt, deps := step.dependsOn, inputs := step.inputs, step := step }

@[simp] theorem explicitNode_id (step : WorkflowStep) :
    (explicitNode rt step).id = step.nodeId rt := by
  rw [explicitNode]

theorem graphNodes_explicit (previous : Option WorkflowNodeId) (steps : List WorkflowStep) :
    graphNodes rt false previous steps = steps.map (explicitNode rt) := by
  induction steps generalizing previous with
  | nil => rfl
  | cons step rest ih =>
    cases previous <;> simp [graphNodes, ih, explicitNode]

def numberNodes : Nat → List WorkflowNodeId → Std.ExtTreeMap String Nat → Std.ExtTreeMap String Nat
  | _, [], nodes => nodes
  | index, id :: rest, nodes => numberNodes (index + 1) rest (nodes.insert id index)

theorem collectNodes_ok {index : Nat} {ids : List WorkflowNodeId}
    {result : Std.ExtTreeMap String Nat} :
    collectNodes index ids nodes = .ok result ↔
      (∀ id ∈ ids, Text.isBlank id = false ∧ nodes.contains id = false) ∧ ids.Nodup ∧
        result = numberNodes index ids nodes := by
  induction ids generalizing index nodes with
  | nil =>
    rw [collectNodes, numberNodes]
    constructor
    · intro h
      exact ⟨fun _ hx => absurd hx not_mem_nil, nodup_nil, (Except.ok.inj h).symm⟩
    · intro h
      rw [h.2.2]
  | cons id rest ih =>
    rw [collectNodes, numberNodes, nodup_cons, List.forall_mem_cons]
    simp only [Fallible.bind_iff, require_ok, ih, Bool.not_eq_true', exists_const]
    constructor
    · intro h
      obtain ⟨hblank, hfresh, hrest, hnodup, hresult⟩ := h
      refine ⟨⟨⟨hblank, hfresh⟩, ?_⟩, ⟨?_, hnodup⟩, hresult⟩
      · intro x hx
        have hcontains := (hrest x hx).2
        rw [Std.ExtTreeMap.contains_insert, Bool.or_eq_false_iff] at hcontains
        exact ⟨(hrest x hx).1, hcontains.2⟩
      · intro hid
        have hcontains := (hrest id hid).2
        rw [contains_insert_self] at hcontains
        cases hcontains
    · intro h
      obtain ⟨⟨⟨hblank, hfresh⟩, hrest⟩, ⟨hid, hnodup⟩, hresult⟩ := h
      refine ⟨hblank, hfresh, ?_, hnodup, hresult⟩
      intro x hx
      rw [Std.ExtTreeMap.contains_insert, Bool.or_eq_false_iff]
      refine ⟨(hrest x hx).1, ?_, (hrest x hx).2⟩
      rw [beq_eq_false_iff_ne, ne_eq, Std.LawfulEqCmp.compare_eq_iff_eq]
      intro heq
      exact hid (heq ▸ hx)

theorem getElem?_numberNodes {ids : List WorkflowNodeId} (hnodup : ids.Nodup) (index : Nat)
    (nodes : Std.ExtTreeMap String Nat) (id : WorkflowNodeId) :
    (numberNodes index ids nodes)[id]? =
      if id ∈ ids then some (index + ids.idxOf id) else nodes[id]? := by
  induction ids generalizing index nodes with
  | nil => rfl
  | cons first rest ih =>
    rw [nodup_cons] at hnodup
    rw [numberNodes, ih hnodup.2, Std.ExtTreeMap.getElem?_insert, List.idxOf_cons]
    by_cases hfirst : first = id
    · subst hfirst
      simp [hnodup.1]
    · have hne : (first == id) = false := by simpa using hfirst
      by_cases hrest : id ∈ rest
      · simp only [hrest, List.mem_cons, or_true, if_true, hne, cond_false]
        congr 1
        omega
      · simp [hrest, hfirst, Ne.symm hfirst]

theorem contains_numberNodes {ids : List WorkflowNodeId} (hnodup : ids.Nodup)
    (id : WorkflowNodeId) : (numberNodes 0 ids ∅).contains id = true ↔ id ∈ ids := by
  rw [contains_eq_isSome_getElem?, getElem?_numberNodes hnodup]
  by_cases h : id ∈ ids
  · simp [h]
  · simp [h]

theorem exports_iff (hnodup : (w.steps.map (WorkflowStep.nodeId rt)).Nodup) {id port : String} :
    exports w (numberNodes 0 (w.steps.map (WorkflowStep.nodeId rt)) ∅) id port = true ↔
      ∃ step ∈ w.steps, step.nodeId rt = id ∧
        ∃ output ∈ step.outputs, output.node = some id ∧ output.port = port := by
  rw [exports, getElem?_numberNodes hnodup]
  by_cases hid : id ∈ w.steps.map (WorkflowStep.nodeId rt)
  · have hlt := idxOf_lt_length_of_mem hid
    have hget := getElem?_eq_getElem hlt
    rw [getElem_idxOf] at hget
    rw [getElem?_map, Option.map_eq_some_iff] at hget
    obtain ⟨step, hstep, hnode⟩ := hget
    rw [if_pos hid, Nat.zero_add]
    simp only [hstep, any_eq_true, Bool.and_eq_true, decide_eq_true_eq]
    constructor
    · intro h
      exact ⟨step, mem_of_getElem? hstep, hnode, h⟩
    · intro h
      obtain ⟨step', hstep', hnode', houtput⟩ := h
      rw [← inj_on_of_nodup_map hnodup hstep' (mem_of_getElem? hstep) (hnode'.trans hnode.symm)]
      exact houtput
  · rw [if_neg hid, getElem?_empty]
    refine iff_of_false (by simp) ?_
    intro h
    obtain ⟨step, hstep, hnode, -⟩ := h
    exact hid (mem_map.mpr ⟨step, hstep, hnode⟩)

/-! ## Edges -/

/-- Node `b` depends on node `a`. -/
def Dep (graph : List Node) (b a : WorkflowNodeId) : Prop :=
  ∃ node ∈ graph, node.id = b ∧ a ∈ node.deps

/-- The dependencies that are not `seen` yet, each at its first place. -/
def distinct : List WorkflowNodeId → List WorkflowNodeId → List WorkflowNodeId
  | _, [] => []
  | seen, dependency :: rest =>
    if dependency ∈ seen then distinct seen rest
    else dependency :: distinct (dependency :: seen) rest

theorem mem_distinct {seen deps : List WorkflowNodeId} {d : WorkflowNodeId} :
    d ∈ distinct seen deps ↔ d ∈ deps ∧ d ∉ seen := by
  induction deps generalizing seen with
  | nil => simp [distinct]
  | cons first rest ih =>
    rw [distinct]
    by_cases hseen : first ∈ seen
    · rw [if_pos hseen, ih, List.mem_cons]
      constructor
      · intro h
        exact ⟨.inr h.1, h.2⟩
      · intro h
        refine ⟨h.1.resolve_left ?_, h.2⟩
        intro hd
        exact h.2 (hd ▸ hseen)
    · rw [if_neg hseen, List.mem_cons, ih, List.mem_cons, List.mem_cons]
      by_cases hd : d = first
      · simp [hd, hseen]
      · simp [hd]

theorem nodup_distinct (seen deps : List WorkflowNodeId) : (distinct seen deps).Nodup := by
  induction deps generalizing seen with
  | nil => exact nodup_nil
  | cons first rest ih =>
    rw [distinct]
    by_cases hseen : first ∈ seen
    · rw [if_pos hseen]
      exact ih seen
    · rw [if_neg hseen, nodup_cons, mem_distinct]
      exact ⟨fun h => h.2 mem_cons_self, ih _⟩

/-- The dependencies of a node, without repetition. -/
def Node.sources (node : Node) : List WorkflowNodeId := distinct [] node.deps

theorem Node.mem_sources {node : Node} {d : WorkflowNodeId} : d ∈ node.sources ↔ d ∈ node.deps := by
  rw [Node.sources, mem_distinct]
  simp

theorem Node.nodup_sources (node : Node) : node.sources.Nodup := nodup_distinct [] node.deps

def linkAll (node : WorkflowNodeId) (deps : List WorkflowNodeId) (edges : Edges) : Edges :=
  deps.foldl (fun e dependency => e.link dependency node) edges

def linkGraph (graph : List Node) (edges : Edges) : Edges :=
  graph.foldl (fun e node => linkAll node.id node.sources e) edges

theorem linkDependencies_ok {node : WorkflowNodeId} {seen deps : List WorkflowNodeId} :
    linkDependencies nodes node seen deps edges = .ok edges' ↔
      (∀ d ∈ deps, d ≠ node ∧ nodes.contains d = true) ∧
        edges' = linkAll node (distinct seen deps) edges := by
  induction deps generalizing seen edges with
  | nil =>
    rw [linkDependencies, distinct]
    constructor
    · intro h
      exact ⟨fun _ hx => absurd hx not_mem_nil, (Except.ok.inj h).symm⟩
    · intro h
      rw [h.2]
      rfl
  | cons first rest ih =>
    rw [linkDependencies, distinct]
    simp only [Fallible.bind_iff, require_ok, exists_const, List.forall_mem_cons, decide_eq_true_eq]
    by_cases hseen : first ∈ seen
    · rw [if_pos hseen, if_pos hseen, ih, and_assoc, and_assoc]
    · rw [if_neg hseen, if_neg hseen, ih, and_assoc, and_assoc]
      rfl

/-- What the checks ask of one node. -/
structure Linked (w : GeoWorkflow) (legacy : Bool) (nodes : Std.ExtTreeMap String Nat)
    (node : Node) : Prop where
  deps : ∀ d ∈ node.deps, d ≠ node.id ∧ nodes.contains d = true
  inputs : ∀ input ∈ node.inputs, validateInput w legacy nodes node input = .ok ()

theorem linkNodes_ok : linkNodes w legacy nodes graph edges = .ok edges' ↔
    (∀ node ∈ graph, Linked w legacy nodes node) ∧ edges' = linkGraph graph edges := by
  induction graph generalizing edges with
  | nil =>
    rw [linkNodes]
    constructor
    · intro h
      exact ⟨fun _ hx => absurd hx not_mem_nil, (Except.ok.inj h).symm⟩
    · intro h
      rw [h.2]
      rfl
  | cons node rest ih =>
    rw [linkNodes, List.forall_mem_cons]
    simp only [Fallible.bind_iff, linkDependencies_ok, checkAll_ok, ih]
    constructor
    · intro h
      obtain ⟨_, ⟨hdeps, rfl⟩, _, hinputs, hrest, hresult⟩ := h
      exact ⟨⟨⟨hdeps, hinputs⟩, hrest⟩, hresult⟩
    · intro h
      obtain ⟨⟨hnode, hrest⟩, hresult⟩ := h
      exact ⟨_, ⟨hnode.deps, rfl⟩, (), hnode.inputs, hrest, hresult⟩

theorem mem_children_link {dependency node a b : WorkflowNodeId} :
    b ∈ (edges.link dependency node).children a ↔
      b ∈ edges.children a ∨ (b = node ∧ a = dependency) := by
  rw [Edges.children, Edges.children, Edges.link, Std.ExtTreeMap.getElem?_insert]
  by_cases ha : a = dependency
  · subst ha
    rw [if_pos (by simp), getD_eq_getD_getElem?]
    cases edges.adjacency[a]? with
    | none => simp [@eq_comm _ b]
    | some children => simp [@eq_comm _ b, or_comm]
  · rw [if_neg (by simpa using Ne.symm ha)]
    simp [ha]

theorem mem_children_linkAll {node a b : WorkflowNodeId} {deps : List WorkflowNodeId} :
    b ∈ (linkAll node deps edges).children a ↔ b ∈ edges.children a ∨ (b = node ∧ a ∈ deps) := by
  induction deps generalizing edges with
  | nil => simp [linkAll]
  | cons first rest ih =>
    show b ∈ (linkAll node rest (edges.link first node)).children a ↔ _
    rw [ih, mem_children_link, List.mem_cons, or_assoc, ← and_or_left]

theorem mem_children_linkGraph {a b : WorkflowNodeId} :
    b ∈ (linkGraph graph edges).children a ↔ b ∈ edges.children a ∨ Dep graph b a := by
  induction graph generalizing edges with
  | nil => simp [linkGraph, Dep]
  | cons node rest ih =>
    show b ∈ (linkGraph rest (linkAll node.id node.sources edges)).children a ↔ _
    rw [ih, mem_children_linkAll, Node.mem_sources, or_assoc]
    simp only [Dep, List.exists_mem_cons_iff, eq_comm]

theorem indegree_linkAll {node m : WorkflowNodeId} {deps : List WorkflowNodeId} {degree : Nat}
    (h : edges.indegree[node]? = some degree) :
    (linkAll node deps edges).indegree[m]? =
      if m = node then some (degree + deps.length) else edges.indegree[m]? := by
  induction deps generalizing edges degree with
  | nil =>
    by_cases hm : m = node
    · rw [if_pos hm, hm]
      exact h
    · rw [if_neg hm]
      rfl
  | cons first rest ih =>
    have hlink : (edges.link first node).indegree[node]? = some (degree + 1) := by
      simp [Edges.link, getD_eq_getD_getElem?, h]
    show (linkAll node rest (edges.link first node)).indegree[m]? = _
    rw [ih hlink]
    by_cases hm : m = node
    · rw [if_pos hm, if_pos hm, length_cons, Nat.add_right_comm]
      rfl
    · rw [if_neg hm, if_neg hm, Edges.link, Std.ExtTreeMap.getElem?_insert,
        if_neg (by simpa using Ne.symm hm)]

theorem indegree_linkGraph_absent {m : WorkflowNodeId}
    (hids : ∀ node ∈ graph, ∃ degree, edges.indegree[node.id]? = some degree)
    (hm : ∀ node ∈ graph, node.id ≠ m) :
    (linkGraph graph edges).indegree[m]? = edges.indegree[m]? := by
  induction graph generalizing edges with
  | nil => rfl
  | cons node rest ih =>
    rw [List.forall_mem_cons] at hids hm
    obtain ⟨degree, hdegree⟩ := hids.1
    show (linkGraph rest (linkAll node.id node.sources edges)).indegree[m]? = _
    rw [ih ?_ hm.2, indegree_linkAll hdegree, if_neg (Ne.symm hm.1)]
    intro other hother
    rw [indegree_linkAll hdegree]
    by_cases heq : other.id = node.id
    · exact ⟨_, if_pos heq⟩
    · rw [if_neg heq]
      exact hids.2 other hother

theorem indegree_linkGraph {node : Node} (hnodup : (graph.map Node.id).Nodup)
    (hzero : ∀ node ∈ graph, edges.indegree[node.id]? = some 0) (hnode : node ∈ graph) :
    (linkGraph graph edges).indegree[node.id]? = some node.sources.length := by
  induction graph generalizing edges with
  | nil => cases hnode
  | cons first rest ih =>
    rw [map_cons, nodup_cons] at hnodup
    rw [List.forall_mem_cons] at hzero
    have hother : ∀ other ∈ rest, other.id ≠ first.id := by
      intro other hother heq
      exact hnodup.1 (mem_map.mpr ⟨other, hother, heq⟩)
    have hrest : ∀ other ∈ rest,
        (linkAll first.id first.sources edges).indegree[other.id]? = some 0 := by
      intro other hmem
      rw [indegree_linkAll hzero.1, if_neg (hother other hmem)]
      exact hzero.2 other hmem
    show (linkGraph rest (linkAll first.id first.sources edges)).indegree[node.id]? = _
    rcases List.mem_cons.mp hnode with rfl | hnode
    · rw [indegree_linkGraph_absent (fun other hmem => ⟨0, hrest other hmem⟩) hother,
        indegree_linkAll hzero.1, if_pos rfl, Nat.zero_add]
    · exact ih hnodup.2 hrest hnode

end GeneGIS.GeoWorkflow
