/-
`topologicalOrder_ok` says which workflows are accepted with which order; none of its conditions
depends on how steps, edges or contracts are listed.
-/
import GeneGIS.Workflow.Connected

namespace GeneGIS.GeoWorkflow

open Toposort List Fallible
open Bool hiding not_and not_or
open Fallible (bind_iff)

variable {rt : Runtime} {w : GeoWorkflow} {order : List WorkflowNodeId} {edges : Edges}
  {error : WorkflowValidationError}

/-- The steps of a workflow with the edges the validation sees. -/
def graph (rt : Runtime) (w : GeoWorkflow) : List Node :=
  graphNodes rt w.isLegacyLinear none w.steps

def nodeTable (rt : Runtime) (w : GeoWorkflow) : Std.ExtTreeMap String Nat :=
  numberNodes 0 (ids (w.graph rt)) ∅

def checksBeforeSort (rt : Runtime) (w : GeoWorkflow) : Except WorkflowValidationError Edges := do
  require (!w.steps.isEmpty) .emptyGraph
  let nodes ← collectNodes 0 (ids (w.graph rt)) ∅
  validateInputContracts [] w.inputContracts
  linkNodes w w.isLegacyLinear nodes (w.graph rt) (noEdges (w.graph rt))

def checksAfterSort (rt : Runtime) (w : GeoWorkflow) (order : List WorkflowNodeId) :
    Except WorkflowValidationError (List WorkflowNodeId) := do
  if !w.isLegacyLinear then
    checkAll validateOutputs (w.graph rt)
  checkAll (validateOutputRef w w.isLegacyLinear (w.nodeTable rt)) w.outputRefs
  checkAll (fun node => validateOutputContracts w.isLegacyLinear node [] node.step.outputContracts)
    (w.graph rt)
  return order

def sortAndCheck (rt : Runtime) (w : GeoWorkflow) (edges : Edges) :
    Except WorkflowValidationError (List WorkflowNodeId) := do
  let graph := w.graph rt
  let kahn := Loop.run (Kahn.step edges) (ids graph).length (Kahn.start edges)
  require ((kahnOrder graph edges).length = (ids graph).length)
    (.cycle ((kahn.indegree.toList.filter fun e => 0 < e.2).map Prod.fst))
  require ((reachable graph edges).size = (ids graph).length)
    (.unreachableNodes ((ids graph).filter fun id => !(reachable graph edges).contains id))
  require ((components graph edges).length ≤ 1)
    (.disconnectedNodes (components graph edges).tail.flatten)
  w.checksAfterSort rt (kahnOrder graph edges)

theorem topologicalOrder_eq :
    w.topologicalOrder rt = (w.checksBeforeSort rt >>= w.sortAndCheck rt) := by
  rw [topologicalOrder, checksBeforeSort, bind_assoc]
  congr 1
  funext _
  show (collectNodes 0 (ids (w.graph rt)) ∅ >>= _) = _
  cases hnodes : collectNodes 0 (ids (w.graph rt)) ∅ with
  | error error => rfl
  | ok nodes =>
    obtain rfl : nodes = w.nodeTable rt := (collectNodes_ok.mp hnodes).2.2
    show (validateInputContracts [] w.inputContracts >>= fun _ =>
        linkNodes w w.isLegacyLinear (w.nodeTable rt) (w.graph rt) (noEdges (w.graph rt)) >>= _) =
      ((validateInputContracts [] w.inputContracts >>= fun _ =>
        linkNodes w w.isLegacyLinear (w.nodeTable rt) (w.graph rt) (noEdges (w.graph rt))) >>= _)
    rw [bind_assoc]
    rfl

theorem validateInputContracts_ok {names : List String} {l : List WorkflowInputContract}
    {u : Unit} :
    validateInputContracts names l = .ok u ↔
      (l.map WorkflowInputContract.name).Nodup ∧ (∀ c ∈ l, c.name ∉ names) ∧
        ∀ c ∈ l, validateInputContract c = .ok () := by
  induction l generalizing names with
  | nil => simp [validateInputContracts]
  | cons c rest ih =>
    rw [validateInputContracts]
    rw [forall_mem_cons, forall_mem_cons, map_cons, nodup_cons]
    simp only [bind_iff, require_ok, ih, decide_eq_true_eq, List.mem_cons, not_or,
      List.mem_map, not_exists, not_and]
    constructor
    · intro h
      obtain ⟨_, hfresh, _, hc, hnodup, hnames, hrest⟩ := h
      exact ⟨⟨fun d hd => (hnames d hd).1, hnodup⟩, ⟨hfresh, fun d hd => (hnames d hd).2⟩, hc,
        hrest⟩
    · intro h
      obtain ⟨⟨hne, hnodup⟩, ⟨hfresh, hnames⟩, hc, hrest⟩ := h
      exact ⟨(), hfresh, (), hc, hnodup, fun d hd => ⟨hne d hd, hnames d hd⟩, hrest⟩

def OutputContractOk (legacy : Bool) (node : Node) (c : WorkflowPortContract) : Prop :=
  Text.isBlank c.port = false ∧
    (legacy = true ∨ ∃ output ∈ node.step.outputs, output.node = some node.id ∧
      output.port = c.port) ∧
    c.contract.validate = .ok ()

variable {node : Node} {legacy : Bool}

theorem validateOutputContracts_ok {ports : List String}
    {l : List WorkflowPortContract} {u : Unit} :
    validateOutputContracts legacy node ports l = .ok u ↔
      (l.map WorkflowPortContract.port).Nodup ∧ (∀ c ∈ l, c.port ∉ ports) ∧
        ∀ c ∈ l, OutputContractOk legacy node c := by
  induction l generalizing ports with
  | nil => simp [validateOutputContracts]
  | cons c rest ih =>
    rw [validateOutputContracts]
    simp only [bind_iff, require_ok, decide_eq_true_eq, map_cons,
      nodup_cons, forall_mem_cons, exists_const, not_eq_true', or_eq_true,
      any_eq_true, and_eq_true]
    cases hvalid : c.contract.validate with
    | error problem =>
      refine iff_of_false ?_ ?_
      · intro h
        cases h.2.2.2
      · intro h
        have hok := h.2.2.1.2.2
        rw [hvalid] at hok
        cases hok
    | ok v =>
      simp only [ih, OutputContractOk, hvalid, List.mem_cons, not_or, List.mem_map, not_exists,
        not_and]
      constructor
      · intro h
        obtain ⟨hblank, hfresh, hport, hnodup, hports, hrest⟩ := h
        exact ⟨⟨fun d hd => (hports d hd).1, hnodup⟩, ⟨hfresh, fun d hd => (hports d hd).2⟩,
          ⟨hblank, hport, trivial⟩, hrest⟩
      · intro h
        obtain ⟨⟨hne, hnodup⟩, ⟨hfresh, hports⟩, ⟨hblank, hport, -⟩, hrest⟩ := h
        exact ⟨hblank, hfresh, hport, hnodup, fun d hd => ⟨hne d hd, hports d hd⟩, hrest⟩

structure Linkable (rt : Runtime) (w : GeoWorkflow) : Prop where
  nonempty : w.steps ≠ []
  named : ∀ id ∈ ids (w.graph rt), Text.isBlank id = false
  nodup : (ids (w.graph rt)).Nodup
  contractNames : (w.inputContracts.map WorkflowInputContract.name).Nodup
  contracts : ∀ c ∈ w.inputContracts, validateInputContract c = .ok ()
  linked : ∀ node ∈ w.graph rt, Linked w w.isLegacyLinear (w.nodeTable rt) node

theorem checksBeforeSort_ok : w.checksBeforeSort rt = .ok edges ↔
      Linkable rt w ∧ edges = linkGraph (w.graph rt) (noEdges (w.graph rt)) := by
  rw [checksBeforeSort]
  simp only [bind_iff, require_ok, collectNodes_ok, validateInputContracts_ok,
    linkNodes_ok, exists_const]
  constructor
  · intro h
    obtain ⟨hsteps, _, ⟨hids, hnodup, rfl⟩, ⟨hnames, -, hcontracts⟩, hlinked, hedges⟩ := h
    refine ⟨⟨?_, fun id hid => (hids id hid).1, hnodup, hnames, hcontracts, hlinked⟩, hedges⟩
    simpa using hsteps
  · intro h
    obtain ⟨hw, hedges⟩ := h
    refine ⟨?_, _, ⟨fun id hid => ⟨hw.named id hid, by simp⟩, hw.nodup, rfl⟩,
      ⟨hw.contractNames, by simp, hw.contracts⟩, hw.linked, hedges⟩
    simpa using hw.nonempty

theorem Linkable.mem_table (hw : Linkable rt w) {id : WorkflowNodeId} :
    (w.nodeTable rt).contains id = true ↔ id ∈ ids (w.graph rt) :=
  contains_numberNodes hw.nodup id

theorem Linkable.wired (hw : Linkable rt w) :
    Wired (w.graph rt) (linkGraph (w.graph rt) (noEdges (w.graph rt))) := by
  refine wired_linkGraph hw.nodup ?_
  intro b a hdep
  obtain ⟨node, hnode, -, ha⟩ := hdep
  exact hw.mem_table.mp ((hw.linked node hnode).deps a ha).2

theorem ids_graph : ids (w.graph rt) = w.steps.map (WorkflowStep.nodeId rt) := graphNodes_ids _ _ _

theorem graph_steps : (w.graph rt).map Node.step = w.steps := graphNodes_steps _ _ _

theorem node_id_eq (hnode : node ∈ w.graph rt) : node.id = node.step.nodeId rt := by
  have hmap : (w.graph rt).map Node.id = (w.graph rt).map fun node => node.step.nodeId rt := by
    have hsteps := congrArg (List.map (WorkflowStep.nodeId rt)) (@graph_steps rt w)
    rw [map_map, ← ids_graph, ids] at hsteps
    simp only [Function.comp_def] at hsteps
    exact hsteps.symm
  exact map_inj_left.mp hmap node hnode

theorem exports_iff_graph (hnodup : (ids (w.graph rt)).Nodup) {id port : String} :
    exports w (w.nodeTable rt) id port = true ↔ ∃ node ∈ w.graph rt, node.id = id ∧
        ∃ output ∈ node.step.outputs, output.node = some id ∧ output.port = port := by
  rw [nodeTable, ids_graph]
  rw [ids_graph] at hnodup
  rw [exports_iff hnodup]
  constructor
  · intro h
    obtain ⟨step, hstep, hid, houtput⟩ := h
    rw [← @graph_steps rt w] at hstep
    obtain ⟨node, hnode, rfl⟩ := List.mem_map.mp hstep
    exact ⟨node, hnode, (node_id_eq hnode).trans hid, houtput⟩
  · intro h
    obtain ⟨node, hnode, hid, houtput⟩ := h
    refine ⟨node.step, ?_, (node_id_eq hnode).symm.trans hid, houtput⟩
    rw [← @graph_steps rt w]
    exact mem_map_of_mem hnode

theorem graph_ne_nil (rt : Runtime) (h : w.steps ≠ []) : w.graph rt ≠ [] := by
  intro hnil
  have hids := @graph_steps rt w
  rw [hnil] at hids
  exact h hids.symm

/-! ## The checks after the sort -/

theorem validateOutputs_ok : validateOutputs node = .ok () ↔ node.step.outputs ≠ [] ∧
      ∀ output ∈ node.step.outputs,
        output.node = some node.id ∧ Text.isBlank output.port = false := by
  rw [validateOutputs]
  simp only [bind_iff, require_ok, exists_const, not_eq_true',
    isEmpty_eq_false_iff, all_eq_true, and_eq_true, decide_eq_true_eq]

variable {nodes : Std.ExtTreeMap String Nat}

theorem validateOutputRef_ok {output : WorkflowDataRef} :
    validateOutputRef w legacy nodes output = .ok () ↔
      ∃ node, output.node = some node ∧ nodes.contains node = true ∧
        (legacy = true ∨ exports w nodes node output.port = true) := by
  rw [validateOutputRef]
  cases output.node with
  | none =>
    refine iff_of_false ?_ (by simp)
    nofun
  | some node => simp [bind_iff]

structure OutputsOk (rt : Runtime) (w : GeoWorkflow) : Prop where
  outputs : w.isLegacyLinear = false → ∀ node ∈ w.graph rt, validateOutputs node = .ok ()
  refs : ∀ output ∈ w.outputRefs,
    validateOutputRef w w.isLegacyLinear (w.nodeTable rt) output = .ok ()
  ports : ∀ node ∈ w.graph rt, (node.step.outputContracts.map WorkflowPortContract.port).Nodup
  portContracts : ∀ node ∈ w.graph rt, ∀ c ∈ node.step.outputContracts,
    OutputContractOk w.isLegacyLinear node c

theorem checksAfterSort_ok {order' : List WorkflowNodeId} :
    w.checksAfterSort rt order = .ok order' ↔ OutputsOk rt w ∧ order' = order := by
  have hrest : (do
        checkAll (validateOutputRef w w.isLegacyLinear (w.nodeTable rt)) w.outputRefs
        checkAll (fun node => validateOutputContracts w.isLegacyLinear node []
          node.step.outputContracts) (w.graph rt)
        return order : Except WorkflowValidationError (List WorkflowNodeId)) = .ok order' ↔
      (∀ output ∈ w.outputRefs,
        validateOutputRef w w.isLegacyLinear (w.nodeTable rt) output = .ok ()) ∧
      (∀ node ∈ w.graph rt, (node.step.outputContracts.map WorkflowPortContract.port).Nodup ∧
        ∀ c ∈ node.step.outputContracts, OutputContractOk w.isLegacyLinear node c) ∧
      order' = order := by
    simp only [bind_iff, checkAll_ok, validateOutputContracts_ok, exists_const]
    constructor
    · intro h
      exact ⟨h.1, fun node hnode => ⟨(h.2.1 node hnode).1, (h.2.1 node hnode).2.2⟩,
        (Except.ok.inj h.2.2).symm⟩
    · intro h
      obtain ⟨hrefs, hcontracts, rfl⟩ := h
      exact ⟨hrefs, fun node hnode => ⟨(hcontracts node hnode).1, by simp,
        (hcontracts node hnode).2⟩, rfl⟩
  rw [checksAfterSort]
  by_cases hlegacy : w.isLegacyLinear = true
  · rw [if_neg (by simp [hlegacy])]
    refine hrest.trans ⟨?_, ?_⟩
    · intro h
      refine ⟨⟨?_, h.1, fun n hn => (h.2.1 n hn).1, fun n hn => (h.2.1 n hn).2⟩, h.2.2⟩
      intro hfalse
      rw [hlegacy] at hfalse
      cases hfalse
    · intro h
      exact ⟨h.1.refs, fun n hn => ⟨h.1.ports n hn, h.1.portContracts n hn⟩, h.2⟩
  · rw [if_pos (by simpa using hlegacy), bind_iff]
    simp only [checkAll_ok, exists_const]
    refine (and_congr_right fun _ => hrest).trans ⟨?_, ?_⟩
    · intro h
      exact ⟨⟨fun _ => h.1, h.2.1, fun n hn => (h.2.2.1 n hn).1, fun n hn => (h.2.2.1 n hn).2⟩,
        h.2.2.2⟩
    · intro h
      exact ⟨h.1.outputs (by simpa using hlegacy), h.1.refs,
        fun n hn => ⟨h.1.ports n hn, h.1.portContracts n hn⟩, h.2⟩

structure Valid (rt : Runtime) (w : GeoWorkflow) : Prop extends Linkable rt w, OutputsOk rt w where
  acyclic : ∀ a, ¬ Relation.TransGen (Dep (w.graph rt)) a a
  connected : Connected (w.graph rt)

theorem topologicalOrder_ok : w.topologicalOrder rt = .ok order ↔
      Valid rt w ∧ order.Perm (ids (w.graph rt)) ∧
        Greedy (ids (w.graph rt)) (Dep (w.graph rt)) order := by
  rw [topologicalOrder_eq, bind_iff]
  constructor
  · intro h
    obtain ⟨edges, hbefore, h⟩ := h
    obtain ⟨hw, rfl⟩ := checksBeforeSort_ok.mp hbefore
    rw [sortAndCheck] at h
    simp only [bind_iff, require_ok, exists_const, decide_eq_true_eq] at h
    obtain ⟨hcycle, -, hcomponents, hafter⟩ := h
    obtain ⟨houtputs, rfl⟩ := checksAfterSort_ok.mp hafter
    have hperm := (kahnOrder_perm hw.wired).mp hcycle
    refine ⟨⟨hw, houtputs, (kahnOrder_acyclic hw.wired).mp hperm, ?_⟩, hperm,
      kahnOrder_greedy hw.wired⟩
    exact (components_connected hw.wired (graph_ne_nil rt hw.nonempty)).mp hcomponents
  · intro h
    obtain ⟨hw, hperm, hgreedy⟩ := h
    have hwired := hw.wired
    have hkahn := (kahnOrder_acyclic hwired).mpr hw.acyclic
    obtain rfl := hgreedy.unique hperm (kahnOrder_greedy hwired) hkahn
    refine ⟨_, checksBeforeSort_ok.mpr ⟨hw.toLinkable, rfl⟩, ?_⟩
    rw [sortAndCheck]
    simp only [bind_iff, require_ok, exists_const, decide_eq_true_eq]
    exact ⟨(kahnOrder_perm hwired).mpr hkahn, reachable_size hwired hw.acyclic,
      (components_connected hwired (graph_ne_nil rt hw.nonempty)).mpr hw.connected,
      checksAfterSort_ok.mpr ⟨hw.toOutputsOk, rfl⟩⟩

theorem validate_ok : w.validate rt = .ok () ↔ Valid rt w := by
  rw [validate, bind_iff]
  constructor
  · intro h
    obtain ⟨order, horder, -⟩ := h
    exact (topologicalOrder_ok.mp horder).1
  · intro hw
    have horder : ∃ order, w.topologicalOrder rt = .ok order :=
      ⟨_, topologicalOrder_ok.mpr ⟨hw, (kahnOrder_acyclic hw.wired).mpr hw.acyclic,
        kahnOrder_greedy hw.wired⟩⟩
    obtain ⟨order, horder⟩ := horder
    exact ⟨order, horder, rfl⟩

/-! ## Refusal -/

/-- An error that neither the sort nor the first search reports. -/
def Unsorted (error : WorkflowValidationError) : Prop :=
  (∀ nodes, error ≠ .cycle nodes) ∧ ∀ nodes, error ≠ .unreachableNodes nodes

theorem validateOutputs_error (h : validateOutputs node = .error error) : Unsorted error := by
  rw [validateOutputs] at h
  rcases except_bind_error.mp h with h | ⟨_, -, h⟩
  · obtain ⟨-, rfl⟩ := require_error.mp h
    simp [Unsorted]
  · obtain ⟨-, rfl⟩ := require_error.mp h
    simp [Unsorted]

theorem validateOutputRef_error {output : WorkflowDataRef}
    (h : validateOutputRef w legacy nodes output = .error error) :
    Unsorted error := by
  rw [validateOutputRef] at h
  cases hnode : output.node with
  | none =>
    rw [hnode] at h
    cases h
    simp [Unsorted]
  | some node =>
    rw [hnode] at h
    rcases except_bind_error.mp h with h | ⟨_, -, h⟩
    · obtain ⟨-, rfl⟩ := require_error.mp h
      simp [Unsorted]
    · obtain ⟨-, rfl⟩ := require_error.mp h
      simp [Unsorted]

theorem validateOutputContracts_error {ports : List String}
    {l : List WorkflowPortContract} (h : validateOutputContracts legacy node ports l = .error error) :
    Unsorted error := by
  induction l generalizing ports with
  | nil => cases h
  | cons c rest ih =>
    rw [validateOutputContracts] at h
    rcases except_bind_error.mp h with h | ⟨_, -, h⟩
    · obtain ⟨-, rfl⟩ := require_error.mp h
      simp [Unsorted]
    rcases except_bind_error.mp h with h | ⟨_, -, h⟩
    · obtain ⟨-, rfl⟩ := require_error.mp h
      simp [Unsorted]
    rcases except_bind_error.mp h with h | ⟨_, -, h⟩
    · obtain ⟨-, rfl⟩ := require_error.mp h
      simp [Unsorted]
    cases hvalid : c.contract.validate with
    | error problem =>
      rw [hvalid] at h
      cases h
      simp [Unsorted]
    | ok v =>
      rw [hvalid] at h
      exact ih h

theorem checksAfterSort_error (h : w.checksAfterSort rt order = .error error) : Unsorted error := by
  have hrest : (do
        checkAll (validateOutputRef w w.isLegacyLinear (w.nodeTable rt)) w.outputRefs
        checkAll (fun node => validateOutputContracts w.isLegacyLinear node []
          node.step.outputContracts) (w.graph rt)
        return order : Except WorkflowValidationError (List WorkflowNodeId)) = .error error →
      Unsorted error := by
    intro h
    rcases except_bind_error.mp h with h | ⟨_, -, h⟩
    · obtain ⟨output, -, h⟩ := checkAll_error h
      exact validateOutputRef_error h
    · rcases except_bind_error.mp h with h | ⟨_, -, h⟩
      · obtain ⟨node, -, h⟩ := checkAll_error h
        exact validateOutputContracts_error h
      · cases h
  rw [checksAfterSort] at h
  by_cases hlegacy : w.isLegacyLinear = true
  · rw [if_neg (by simp [hlegacy])] at h
    exact hrest h
  · rw [if_pos (by simpa using hlegacy)] at h
    rcases except_bind_error.mp h with h | ⟨_, -, h⟩
    · obtain ⟨node, -, h⟩ := checkAll_error h
      exact validateOutputs_error h
    · exact hrest h

/-- With the edges of a graph without cycles, the sort and the first search find
every node. -/
theorem sortAndCheck_acyclic (hwired : Wired (w.graph rt) edges)
    (hacyclic : ∀ a, ¬ Relation.TransGen (Dep (w.graph rt)) a a)
    (h : w.sortAndCheck rt edges = .error error) : Unsorted error := by
  have horder := (kahnOrder_perm hwired).mpr ((kahnOrder_acyclic hwired).mpr hacyclic)
  have hreachable := reachable_size hwired hacyclic
  rw [sortAndCheck] at h
  rcases except_bind_error.mp h with h | ⟨_, -, h⟩
  · obtain ⟨hfalse, -⟩ := require_error.mp h
    simp [horder] at hfalse
  rcases except_bind_error.mp h with h | ⟨_, -, h⟩
  · obtain ⟨hfalse, -⟩ := require_error.mp h
    simp [hreachable] at hfalse
  rcases except_bind_error.mp h with h | ⟨_, -, h⟩
  · obtain ⟨-, rfl⟩ := require_error.mp h
    simp [Unsorted]
  · exact checksAfterSort_error h

theorem sortAndCheck_cyclic (hwired : Wired (w.graph rt) edges)
    {a : WorkflowNodeId} (hcycle : Relation.TransGen (Dep (w.graph rt)) a a) :
    ∃ nodes, w.sortAndCheck rt edges = .error (.cycle nodes) := by
  have hshort : ¬ (kahnOrder (w.graph rt) edges).length = (ids (w.graph rt)).length := by
    intro hlength
    exact (kahnOrder_acyclic hwired).mp ((kahnOrder_perm hwired).mp hlength) a hcycle
  rw [sortAndCheck]
  exact ⟨_, except_bind_error.mpr (Or.inl (require_error.mpr ⟨decide_eq_false hshort, rfl⟩))⟩

/-- Node `b` depends on `a`: it names it, reads one of its outputs, or follows it in a workflow
without edges. -/
def DependsOn (rt : Runtime) (w : GeoWorkflow) (b a : WorkflowNodeId) : Prop :=
  ∃ node ∈ w.graph rt, node.id = b ∧ (a ∈ node.deps ∨ ∃ input ∈ node.inputs, input.node = some a)

def InputOk (w : GeoWorkflow) (legacy : Bool) (nodes : Std.ExtTreeMap String Nat) (node : Node)
    (input : WorkflowDataRef) : Prop :=
  Text.isBlank input.port = false ∧
    match input.node with
    | some dependency =>
      dependency ≠ node.id ∧ nodes.contains dependency = true ∧ dependency ∈ node.deps ∧
        (legacy = true ∨ exports w nodes dependency input.port = true)
    | none => ∃ contract ∈ w.inputContracts, contract.name = input.port

theorem validateInput_ok {input : WorkflowDataRef} :
    validateInput w legacy nodes node input = .ok () ↔ InputOk w legacy nodes node input := by
  rw [validateInput, InputOk]
  cases hnode : input.node with
  | some dependency => simp [bind_iff]
  | none => simp [bind_iff]

theorem Linkable.dependsOn (hw : Linkable rt w) : w.DependsOn rt = Dep (w.graph rt) := by
  funext b a
  refine propext ⟨?_, ?_⟩
  · intro h
    obtain ⟨node, hnode, hid, hdep | ⟨input, hinput, ha⟩⟩ := h
    · exact ⟨node, hnode, hid, hdep⟩
    · refine ⟨node, hnode, hid, ?_⟩
      have hok := (validateInput_ok.mp ((hw.linked node hnode).inputs input hinput)).2
      rw [ha] at hok
      exact hok.2.2.1
  · intro h
    obtain ⟨node, hnode, hid, hdep⟩ := h
    exact ⟨node, hnode, hid, Or.inl hdep⟩

/-- The order is the least one after the dependencies, and a workflow that reaches the sort is
refused exactly for a cycle. -/
theorem topologicalOrder_least (rt : Runtime) (w : GeoWorkflow) :
    (∀ order, w.topologicalOrder rt = .ok order →
      IsOrder (w.steps.map (WorkflowStep.nodeId rt)) (w.DependsOn rt) order ∧
      ∀ other, IsOrder (w.steps.map (WorkflowStep.nodeId rt)) (w.DependsOn rt) other →
        order = other ∨ List.Lex (· < ·) order other) ∧
    ∀ edges, w.checksBeforeSort rt = .ok edges →
      ((∃ nodes, w.topologicalOrder rt = .error (.cycle nodes)) ↔
        ∃ a, Relation.TransGen (w.DependsOn rt) a a) ∧
      ∀ nodes, w.topologicalOrder rt ≠ .error (.unreachableNodes nodes) := by
  constructor
  · intro order h
    obtain ⟨hw, hperm, hgreedy⟩ := topologicalOrder_ok.mp h
    rw [hw.dependsOn, ← ids_graph]
    exact ⟨⟨hperm, hgreedy.respects⟩, fun other hother => hgreedy.least hperm hother⟩
  · intro edges h
    obtain ⟨hw, rfl⟩ := checksBeforeSort_ok.mp h
    have hrest : w.topologicalOrder rt = w.sortAndCheck rt
        (linkGraph (w.graph rt) (noEdges (w.graph rt))) := by
      rw [topologicalOrder_eq, h]
      rfl
    rw [hw.dependsOn, hrest]
    by_cases hcycle : ∃ a, Relation.TransGen (Dep (w.graph rt)) a a
    · obtain ⟨a, ha⟩ := hcycle
      obtain ⟨nodes, herror⟩ := sortAndCheck_cyclic hw.wired ha
      rw [herror]
      refine ⟨iff_of_true ⟨nodes, rfl⟩ ⟨a, ha⟩, ?_⟩
      intro nodes' heq
      cases heq
    · have hunsorted : ∀ error, w.sortAndCheck rt
          (linkGraph (w.graph rt) (noEdges (w.graph rt))) = .error error → Unsorted error :=
        fun error => sortAndCheck_acyclic hw.wired (not_exists.mp hcycle)
      refine ⟨iff_of_false ?_ hcycle, ?_⟩
      · intro herror
        obtain ⟨nodes, herror⟩ := herror
        exact (hunsorted _ herror).1 nodes rfl
      · intro nodes herror
        exact (hunsorted _ herror).2 nodes rfl

/-! Four steps listed against their order and along it, and two steps that wait for
each other. -/

def plainStep (nodeId : String) (dependsOn : List String) : WorkflowStep :=
  { id := Uuid.ofNat 0, stableId := nodeId, operation := "Measure", parameters := .null,
    expectedSchema := none, validation := none, provenance := none, dependsOn := dependsOn,
    inputs := dependsOn.map fun node => .output node "result",
    outputs := [.output nodeId "result"], outputContracts := [] }

def plainWorkflow (steps : List WorkflowStep) : GeoWorkflow :=
  { id := Uuid.ofNat 9, goal := "plain", assumptions := [], inputs := [], inputContracts := [],
    steps := steps, outputs := [], outputRefs := [], citations := [], reviewStatus := .approved }

def diamond : GeoWorkflow :=
  plainWorkflow [plainStep "merge" ["right", "left"], plainStep "right" ["source"],
    plainStep "left" ["source"], plainStep "source" []]

def reversedDiamond : GeoWorkflow :=
  plainWorkflow [plainStep "source" [], plainStep "left" ["source"], plainStep "right" ["source"],
    plainStep "merge" ["left", "right"]]

def waiting : GeoWorkflow := plainWorkflow [plainStep "a" ["b"], plainStep "b" ["a"]]

theorem topologicalOrder_least_diamond :
    IsOrder ["merge", "right", "left", "source"] (diamond.DependsOn .reference)
      ["source", "left", "right", "merge"] ∧
    ∃ nodes, waiting.topologicalOrder .reference = .error (.cycle nodes) := by
  constructor
  · have horder : diamond.topologicalOrder .reference =
        .ok ["source", "left", "right", "merge"] := by rfl
    exact ((topologicalOrder_least .reference diamond).1 _ horder).1
  · have hcycle : Relation.TransGen (waiting.DependsOn .reference) "a" "a" := by
      have hstep : ∀ node ∈ waiting.graph .reference, ∀ d ∈ node.deps,
          waiting.DependsOn .reference node.id d :=
        fun node hnode d hd => ⟨node, hnode, rfl, Or.inl hd⟩
      exact .tail (.single (hstep ⟨"a", ["b"], _, _⟩ mem_cons_self "b" (by simp)))
        (hstep ⟨"b", ["a"], _, _⟩ (mem_cons_of_mem _ mem_cons_self) "a" (by simp))
    have hbefore : (waiting.checksBeforeSort .reference).isOk = true := by rfl
    cases hedges : waiting.checksBeforeSort .reference with
    | error error =>
      rw [hedges] at hbefore
      cases hbefore
    | ok edges =>
      exact ((topologicalOrder_least .reference waiting).2 edges hedges).1.mpr ⟨"a", hcycle⟩

end GeneGIS.GeoWorkflow
