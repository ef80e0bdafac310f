/-
Alike workflows have the same nodes up to the order of the lists, and contracts with the same names
and verdicts.  One is valid when the other is.
-/
import GeneGIS.Workflow.Document

namespace GeneGIS.GeoWorkflow

open Toposort List

structure Node.Alike (n m : Node) : Prop where
  id : n.id = m.id
  deps : n.deps.Perm m.deps
  inputs : n.inputs.Perm m.inputs
  outputs : n.step.outputs.Perm m.step.outputs
  contracts : (n.step.outputContracts.map fun c => (c.port, c.contract.validate)).Perm
    (m.step.outputContracts.map fun c => (c.port, c.contract.validate))

structure Alike (rt : Runtime) (w w' : GeoWorkflow) : Prop where
  legacy : w'.isLegacyLinear = w.isLegacyLinear
  contracts : (w.inputContracts.map fun c => (c.name, validateInputContract c)).Perm
    (w'.inputContracts.map fun c => (c.name, validateInputContract c))
  refs : w.outputRefs.Perm w'.outputRefs
  nodes : ∃ nodes, (w.graph rt).Perm nodes ∧ Forall₂ Node.Alike nodes (w'.graph rt)

theorem forall_view {α β : Type} {view : α → β} {l m : List α}
    (h : (l.map view).Perm (m.map view)) {a : α} (ha : a ∈ m) : ∃ b ∈ l, view b = view a :=
  mem_map.mp (h.mem_iff.mpr (mem_map_of_mem ha))

namespace Alike

variable {rt : Runtime} {w w' : GeoWorkflow} (h : Alike rt w w')

include h

theorem node_back {m : Node} (hm : m ∈ w'.graph rt) : ∃ n ∈ w.graph rt, n.Alike m := by
  obtain ⟨nodes, hperm, hnodes⟩ := h.nodes
  obtain ⟨i, hi, rfl⟩ := getElem_of_mem hm
  have hlength := hnodes.length_eq
  exact ⟨nodes[i], hperm.mem_iff.mpr (getElem_mem _), hnodes.get (by omega) hi⟩

theorem node {n : Node} (hn : n ∈ w.graph rt) : ∃ m ∈ w'.graph rt, n.Alike m := by
  obtain ⟨nodes, hperm, hnodes⟩ := h.nodes
  obtain ⟨i, hi, rfl⟩ := getElem_of_mem (hperm.mem_iff.mp hn)
  have hlength := hnodes.length_eq
  exact ⟨(w'.graph rt)[i], getElem_mem _, hnodes.get hi (by omega)⟩

theorem ids_perm : (ids (w.graph rt)).Perm (ids (w'.graph rt)) := by
  obtain ⟨nodes, hperm, hnodes⟩ := h.nodes
  refine (hperm.map _).trans (Perm.of_eq ?_)
  rw [ids, ← forall₂_eq_eq_eq, forall₂_map_left_iff, forall₂_map_right_iff]
  exact hnodes.imp fun _ _ hnm => hnm.id

theorem dep_eq : Dep (w'.graph rt) = Dep (w.graph rt) := by
  funext b a
  refine propext ⟨?_, ?_⟩
  · intro hdep
    obtain ⟨m, hm, rfl, ha⟩ := hdep
    obtain ⟨n, hn, hnm⟩ := h.node_back hm
    exact ⟨n, hn, hnm.id, hnm.deps.mem_iff.mpr ha⟩
  · intro hdep
    obtain ⟨n, hn, rfl, ha⟩ := hdep
    obtain ⟨m, hm, hnm⟩ := h.node hn
    exact ⟨m, hm, hnm.id.symm, hnm.deps.mem_iff.mp ha⟩

theorem exports_of (hw : (ids (w.graph rt)).Nodup) {id port : String}
    (hexports : exports w (w.nodeTable rt) id port = true) :
    exports w' (w'.nodeTable rt) id port = true := by
  obtain ⟨n, hn, hid, output, houtput, hnode⟩ := (exports_iff_graph hw).mp hexports
  obtain ⟨m, hm, hnm⟩ := h.node hn
  exact (exports_iff_graph (h.ids_perm.nodup_iff.mp hw)).mpr
    ⟨m, hm, hnm.id.symm.trans hid, output, hnm.outputs.mem_iff.mp houtput, hnode⟩

theorem linkable (hw : Linkable rt w) : Linkable rt w' := by
  have hnodup' := h.ids_perm.nodup_iff.mp hw.nodup
  have htable : ∀ id, (w.nodeTable rt).contains id = true →
      (w'.nodeTable rt).contains id = true := by
    intro id hid
    rw [hw.mem_table] at hid
    exact (contains_numberNodes hnodup' id).mpr (h.ids_perm.mem_iff.mp hid)
  refine ⟨?_, ?_, hnodup', ?_, ?_, ?_⟩
  · intro hnil
    obtain ⟨n, hn⟩ := exists_mem_of_ne_nil _ (graph_ne_nil rt hw.nonempty)
    obtain ⟨m, hm, -⟩ := h.node hn
    rw [graph, hnil] at hm
    cases hm
  · intro id hid
    exact hw.named id (h.ids_perm.mem_iff.mpr hid)
  · have hnames := h.contracts.map Prod.fst
    rw [map_map, map_map] at hnames
    exact hnames.nodup_iff.mp hw.contractNames
  · intro c hc
    obtain ⟨d, hd, hview⟩ := forall_view h.contracts hc
    rw [← (Prod.mk.inj hview).2]
    exact hw.contracts d hd
  · intro m hm
    obtain ⟨n, hn, hnm⟩ := h.node_back hm
    have hlinked := hw.linked n hn
    refine ⟨?_, ?_⟩
    · intro d hd
      obtain ⟨hne, hd'⟩ := hlinked.deps d (hnm.deps.mem_iff.mpr hd)
      rw [← hnm.id]
      exact ⟨hne, htable d hd'⟩
    · intro input hinput
      have hok := validateInput_ok.mp (hlinked.inputs input (hnm.inputs.mem_iff.mpr hinput))
      refine validateInput_ok.mpr ⟨hok.1, ?_⟩
      have hrest := hok.2
      cases hnode : input.node with
      | some d =>
        rw [hnode] at hrest
        obtain ⟨hne, hd, hdeps, hport⟩ := hrest
        rw [← hnm.id]
        exact ⟨hne, htable d hd, hnm.deps.mem_iff.mp hdeps,
          hport.imp h.legacy.trans (h.exports_of hw.nodup)⟩
      | none =>
        rw [hnode] at hrest
        obtain ⟨c, hc, hname⟩ := hrest
        obtain ⟨d, hd, hview⟩ := forall_view h.contracts.symm hc
        exact ⟨d, hd, (Prod.mk.inj hview).1.trans hname⟩

theorem outputsOk (hw : Linkable rt w) (houtputs : OutputsOk rt w) : OutputsOk rt w' := by
  refine ⟨?_, ?_, ?_, ?_⟩
  · intro hlegacy m hm
    obtain ⟨n, hn, hnm⟩ := h.node_back hm
    obtain ⟨hne, hall⟩ := validateOutputs_ok.mp (houtputs.outputs (h.legacy.symm.trans hlegacy) n hn)
    refine validateOutputs_ok.mpr ⟨?_, ?_⟩
    · intro hnil
      have hperm := hnm.outputs
      rw [hnil] at hperm
      exact hne hperm.eq_nil
    · intro output houtput
      rw [← hnm.id]
      exact hall output (hnm.outputs.mem_iff.mpr houtput)
  · intro output houtput
    obtain ⟨node, hnode, htable, hport⟩ :=
      validateOutputRef_ok.mp (houtputs.refs output (h.refs.mem_iff.mpr houtput))
    refine validateOutputRef_ok.mpr
      ⟨node, hnode, ?_, hport.imp h.legacy.trans (h.exports_of hw.nodup)⟩
    rw [(h.linkable hw).mem_table]
    exact h.ids_perm.mem_iff.mp (hw.mem_table.mp htable)
  · intro m hm
    obtain ⟨n, hn, hnm⟩ := h.node_back hm
    have hports := hnm.contracts.map Prod.fst
    rw [map_map, map_map] at hports
    exact hports.nodup_iff.mp (houtputs.ports n hn)
  · intro m hm c hc
    obtain ⟨n, hn, hnm⟩ := h.node_back hm
    obtain ⟨d, hd, hview⟩ := forall_view hnm.contracts hc
    obtain ⟨hport, hverdict⟩ := Prod.mk.inj hview
    obtain ⟨hblank, hexported, hvalid⟩ := houtputs.portContracts n hn d hd
    rw [hport] at hblank hexported
    refine ⟨hblank, hexported.imp h.legacy.trans ?_, hverdict.symm.trans hvalid⟩
    intro hexported
    obtain ⟨output, houtput, hnode, hname⟩ := hexported
    exact ⟨output, hnm.outputs.mem_iff.mp houtput, hnode.trans (congrArg some hnm.id), hname⟩

theorem valid (hw : Valid rt w) : Valid rt w' := by
  refine ⟨h.linkable hw.toLinkable, h.outputsOk hw.toLinkable hw.toOutputsOk, ?_, ?_⟩
  · rw [h.dep_eq]
    exact hw.acyclic
  · intro a ha b hb
    have hbeside : Beside (w'.graph rt) = Beside (w.graph rt) := by
      funext x y
      rw [Beside, Beside, h.dep_eq]
    rw [hbeside]
    exact hw.connected a (h.ids_perm.mem_iff.mpr ha) b (h.ids_perm.mem_iff.mpr hb)

theorem topologicalOrder_eq {order : List WorkflowNodeId}
    (hw : w.topologicalOrder rt = .ok order) : w'.topologicalOrder rt = .ok order := by
  obtain ⟨hvalid, hperm, hgreedy⟩ := topologicalOrder_ok.mp hw
  refine topologicalOrder_ok.mpr ⟨h.valid hvalid, hperm.trans h.ids_perm, ?_⟩
  rw [h.dep_eq]
  exact hgreedy.congr_nodes fun b => h.ids_perm.mem_iff

end Alike
end GeneGIS.GeoWorkflow

/-! ## The order of authoring

A workflow that names its edges may list its parts in any order. -/

namespace GeneGIS.GeoWorkflow

open Toposort List

/-- The same step, with its lists in another order. -/
structure Reordered (s t : WorkflowStep) : Prop where
  stableId : s.stableId = t.stableId
  operation : s.operation = t.operation
  parameters : s.parameters = t.parameters
  expectedSchema : s.expectedSchema = t.expectedSchema
  validation : s.validation = t.validation
  provenance : s.provenance = t.provenance
  dependsOn : s.dependsOn.Perm t.dependsOn
  inputs : s.inputs.Perm t.inputs
  outputs : s.outputs.Perm t.outputs
  outputContracts : s.outputContracts.Perm t.outputContracts

/-- The same workflow, with its lists in another order. -/
structure Permuted (w w' : GeoWorkflow) : Prop where
  goal : w.goal = w'.goal
  assumptions : w.assumptions = w'.assumptions
  inputs : w.inputs = w'.inputs
  outputs : w.outputs = w'.outputs
  inputContracts : w.inputContracts.Perm w'.inputContracts
  outputRefs : w.outputRefs.Perm w'.outputRefs
  citations : w.citations.Perm w'.citations
  steps : ∃ steps, w.steps.Perm steps ∧ Forall₂ Reordered steps w'.steps

variable {rt : Runtime} {w w' : GeoWorkflow} {s t : WorkflowStep}

theorem Reordered.nodeId (rt : Runtime) (h : Reordered s t) : s.nodeId rt = t.nodeId rt := by
  rw [WorkflowStep.nodeId, WorkflowStep.nodeId, h.stableId, h.operation, h.parameters]

theorem Reordered.explicitNode_id_eq (rt : Runtime) (h : Reordered s t) :
    (explicitNode rt t).id = (explicitNode rt s).id := by
  rw [explicitNode_id, explicitNode_id, h.nodeId rt]

namespace Permuted

theorem step_back (h : Permuted w w') : ∀ t ∈ w'.steps, ∃ s ∈ w.steps, Reordered s t := by
  intro t ht
  obtain ⟨steps, hperm, hsteps⟩ := h.steps
  obtain ⟨i, hi, rfl⟩ := getElem_of_mem ht
  have hlength := hsteps.length_eq
  refine ⟨steps[i], hperm.mem_iff.mpr (getElem_mem _), ?_⟩
  exact hsteps.get (by omega) hi

theorem step (h : Permuted w w') : ∀ s ∈ w.steps, ∃ t ∈ w'.steps, Reordered s t := by
  intro s hs
  obtain ⟨steps, hperm, hsteps⟩ := h.steps
  obtain ⟨i, hi, rfl⟩ := getElem_of_mem (hperm.mem_iff.mp hs)
  have hlength := hsteps.length_eq
  exact ⟨w'.steps[i], getElem_mem _, hsteps.get hi (by omega)⟩

theorem isLegacyLinear (h : Permuted w w') : w'.isLegacyLinear = w.isLegacyLinear := by
  have hstep : ∀ s t, Reordered s t →
      (Text.isBlank t.stableId && t.dependsOn.isEmpty && t.inputs.isEmpty && t.outputs.isEmpty) =
        (Text.isBlank s.stableId && s.dependsOn.isEmpty && s.inputs.isEmpty &&
          s.outputs.isEmpty) := by
    intro s t hst
    rw [hst.stableId, hst.dependsOn.isEmpty_eq, hst.inputs.isEmpty_eq, hst.outputs.isEmpty_eq]
  rw [Bool.eq_iff_iff, GeoWorkflow.isLegacyLinear, GeoWorkflow.isLegacyLinear, all_eq_true,
    all_eq_true]
  constructor
  · intro hall s hs
    obtain ⟨t, ht, hst⟩ := h.step s hs
    rw [← hstep s t hst]
    exact hall t ht
  · intro hall t ht
    obtain ⟨s, hs, hst⟩ := h.step_back t ht
    rw [hstep s t hst]
    exact hall s hs

theorem graph_explicit (hlegacy : w.isLegacyLinear = false) :
    w.graph rt = w.steps.map (explicitNode rt) := by
  rw [graph, hlegacy]
  exact graphNodes_explicit none w.steps

theorem graph_forall₂ (rt : Runtime) (h : Permuted w w') (hlegacy : w.isLegacyLinear = false) :
    ∃ steps, w.steps.Perm steps ∧ Forall₂ Reordered steps w'.steps ∧
      w.graph rt = w.steps.map (explicitNode rt) ∧
      w'.graph rt = w'.steps.map (explicitNode rt) := by
  obtain ⟨steps, hperm, hsteps⟩ := h.steps
  exact ⟨steps, hperm, hsteps, graph_explicit hlegacy,
    graph_explicit (h.isLegacyLinear.trans hlegacy)⟩

theorem alike (h : Permuted w w') (hlegacy : w.isLegacyLinear = false) : Alike rt w w' := by
  refine ⟨h.isLegacyLinear, h.inputContracts.map _, h.outputRefs, ?_⟩
  obtain ⟨steps, hperm, hsteps, hgraph, hgraph'⟩ := h.graph_forall₂ rt hlegacy
  rw [hgraph, hgraph']
  refine ⟨steps.map (explicitNode rt), hperm.map _, ?_⟩
  rw [forall₂_map_left_iff, forall₂_map_right_iff]
  refine hsteps.imp ?_
  intro s t hst
  exact ⟨(hst.explicitNode_id_eq rt).symm, hst.dependsOn, hst.inputs, hst.outputs,
    hst.outputContracts.map _⟩

end Permuted

theorem Reordered.stepDocument_eq (hf : Json.FloatText rt.floatText) (h : Reordered s t) :
    stepDocument rt false (explicitNode rt t) = stepDocument rt false (explicitNode rt s) := by
  have hdeps := sortByCanonicalJson_perm hf (h.dependsOn.map Value.str)
  have hinputs := sortByCanonicalJson_perm hf (h.inputs.map WorkflowDataRef.toJson)
  have houtputs := sortByCanonicalJson_perm hf (h.outputs.map WorkflowDataRef.toJson)
  have hcontracts := sortByCanonicalJson_perm hf (h.outputContracts.map WorkflowPortContract.toJson)
  simp only [stepDocument, explicitNode, h.nodeId rt, h.operation, h.parameters, h.expectedSchema,
    h.validation, h.provenance, hdeps, hinputs, houtputs, hcontracts, Bool.false_eq_true,
    if_false]

theorem Permuted.digestDocument_eq (h : Permuted w w') (hf : Json.FloatText rt.floatText)
    (hlegacy : w.isLegacyLinear = false) (hnodup : (ids (w.graph rt)).Nodup) :
    w.digestDocument rt = w'.digestDocument rt := by
  have hlegacy' := h.isLegacyLinear.trans hlegacy
  have hcontracts := sortByCanonicalJson_perm hf (h.inputContracts.map WorkflowInputContract.toJson)
  have hrefs := sortByCanonicalJson_perm hf (h.outputRefs.map WorkflowDataRef.toJson)
  have hcitations := sortByCanonicalJson_perm hf (h.citations.map citationDocument)
  have hsteps : (sortNodes rt (w.graph rt)).map (stepDocument rt false) =
      (sortNodes rt (w'.graph rt)).map (stepDocument rt false) := by
    refine map_sortNodes hf _ _ ?_ hnodup
    obtain ⟨steps, hperm, hreordered, hgraph, hgraph'⟩ := h.graph_forall₂ rt hlegacy
    rw [hgraph, hgraph', map_map, map_map]
    refine (hperm.map _).trans (Perm.of_eq ?_)
    rw [← forall₂_eq_eq_eq, forall₂_map_left_iff, forall₂_map_right_iff]
    refine hreordered.imp ?_
    intro s t hst
    simp only [Function.comp_apply, hst.stepDocument_eq hf, hst.explicitNode_id_eq rt]
  have hgraph : ∀ v : GeoWorkflow, v.isLegacyLinear = false →
      graphNodes rt false none v.steps = v.graph rt := by
    intro v hv
    rw [graph, hv]
  simp only [digestDocument, digestOutputRefs, hlegacy, hlegacy', hgraph, Bool.and_false,
    Bool.false_eq_true, if_false, h.goal, h.assumptions, h.inputs, h.outputs, hcontracts, hrefs,
    hcitations]
  rw [Value.ofList_eq.mpr hsteps]

/-- A valid workflow that names its edges has one order and one digest, whatever the
order of authoring. -/
theorem topologicalOrder_stableDigest_permuted (h : Permuted w w')
    (hf : Json.FloatText rt.floatText) (hlegacy : w.isLegacyLinear = false)
    (hvalid : w.validate rt = .ok ()) :
    w'.topologicalOrder rt = w.topologicalOrder rt ∧ w'.stableDigest rt = w.stableDigest rt := by
  obtain ⟨order, horder, -⟩ := Fallible.bind_iff.mp hvalid
  have hnodup := (topologicalOrder_ok.mp horder).1.nodup
  have horder' := (h.alike hlegacy).topologicalOrder_eq horder
  have hvalid' : w'.validate rt = .ok () := by
    rw [validate, horder']
    rfl
  constructor
  · rw [horder, horder']
  · rw [stableDigest, stableDigest, hvalid, hvalid', stableDigestUnchecked, stableDigestUnchecked,
      h.digestDocument_eq hf hlegacy hnodup]

theorem topologicalOrder_stableDigest_permuted_diamond :
    reversedDiamond.topologicalOrder .reference = diamond.topologicalOrder .reference ∧
      reversedDiamond.stableDigest .reference = diamond.stableDigest .reference := by
  have hplain : ∀ id deps deps', deps.Perm deps' →
      Reordered (plainStep id deps) (plainStep id deps') := by
    intro id deps deps' hdeps
    exact ⟨rfl, rfl, rfl, rfl, rfl, rfl, hdeps, hdeps.map _, .refl _, .refl _⟩
  have hpermuted : Permuted diamond reversedDiamond := by
    refine ⟨rfl, rfl, rfl, rfl, .refl _, .refl _, .refl _, _, (reverse_perm _).symm, ?_⟩
    exact .cons (hplain _ _ _ (.refl _)) (.cons (hplain _ _ _ (.refl _))
      (.cons (hplain _ _ _ (.refl _)) (.cons (hplain _ _ _ (.swap _ _ _)) .nil)))
  exact topologicalOrder_stableDigest_permuted hpermuted Runtime.floatText_reference
    (by rfl) (by rfl)

end GeneGIS.GeoWorkflow
