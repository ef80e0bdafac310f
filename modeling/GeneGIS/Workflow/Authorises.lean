/-
Two valid workflows with one digest document have the same nodes, up to the parameter members that
the document leaves out.
-/
import GeneGIS.Workflow.Document

namespace GeneGIS.GeoWorkflow

/-- Two nodes run the same operation on the same inputs, up to the order in which
edges and outputs are listed. -/
structure SameNode (w w' : GeoWorkflow) (n m : Node) : Prop where
  operation : n.step.operation = m.step.operation
  parameters : n.step.parameters = m.step.parameters
  inputs : n.inputs.Perm m.inputs
  deps : n.deps.Perm m.deps
  outputs : (n.exported w.isLegacyLinear).Perm (m.exported w'.isLegacyLinear)

/-- Two workflows have the same node identifiers and, node by node, do the same. -/
structure SameRun (rt : Runtime) (w w' : GeoWorkflow) : Prop where
  ids : ∀ id, id ∈ w.steps.map (WorkflowStep.nodeId rt) ↔ id ∈ w'.steps.map (WorkflowStep.nodeId rt)
  nodes : ∀ n ∈ w.graph rt, ∀ m ∈ w'.graph rt, n.id = m.id → SameNode w w' n m

variable {rt : Runtime} {w w' : GeoWorkflow}

theorem str_inj (names : List String) :
    Function.Injective fun s : String => (Value.str s).strip names := by
  intro s t h
  exact Value.str_inj.mp h

theorem stepDocuments_same (hf : Json.FloatText rt.floatText) (hw' : Valid rt w')
    (h : stepDocuments rt w = stepDocuments rt w') {n m : Node} (hn : n ∈ w.graph rt)
    (hm : m ∈ w'.graph rt) (hid : n.id = m.id) :
    n.step.operation = m.step.operation ∧
      n.step.parameters.strip retrievalFields = m.step.parameters.strip retrievalFields ∧
      n.inputs.Perm m.inputs ∧ n.deps.Perm m.deps ∧
      (n.exported w.isLegacyLinear).Perm (m.exported w'.isLegacyLinear) := by
  obtain ⟨m', hm', heq⟩ := stepDocuments_node h hn
  obtain ⟨hid', hoperation, hparameters, -, -, -, hdeps, hinputs, houtputs, -⟩ :=
    stepDocument_eq_iff.mp heq
  obtain rfl := List.inj_on_of_nodup_map hw'.nodup hm' hm (hid'.symm.trans hid)
  have href := dataRef_inj retrievalFields (by decide) (by decide)
  exact ⟨hoperation, hparameters, (strip_sortedList_perm hf href).mp hinputs,
    (strip_sortedList_perm hf (str_inj retrievalFields)).mp hdeps,
    (strip_sortedList_perm hf href).mp houtputs⟩

/-- Workflows of one digest document do the same exactly when the parameters of
their nodes hide the same. -/
theorem sameRun_iff_hidden (hf : Json.FloatText rt.floatText) (hw : w.validate rt = .ok ())
    (hw' : w'.validate rt = .ok ())
    (hdocument : rt.canonicalJson (w.digestDocument rt) = rt.canonicalJson (w'.digestDocument rt)) :
    SameRun rt w w' ↔ ∀ n ∈ w.graph rt, ∀ m ∈ w'.graph rt, n.id = m.id →
      n.step.parameters.json.hidden retrievalFields =
        m.step.parameters.json.hidden retrievalFields := by
  have hvalid := validate_ok.mp hw
  have hvalid' := validate_ok.mp hw'
  have hsteps : stepDocuments rt w = stepDocuments rt w' :=
    (digestDocument_eq_iff.mp (Value.canonicalJson_inj hf hdocument)).2.2.2.2.2.2.1
  have hids : ∀ {v v' : GeoWorkflow}, stepDocuments rt v = stepDocuments rt v' →
      ∀ id ∈ ids (v.graph rt), id ∈ ids (v'.graph rt) := by
    intro v v' hv id hid
    obtain ⟨n, hn, rfl⟩ := mem_ids.mp hid
    obtain ⟨m, hm, heq⟩ := stepDocuments_node hv hn
    exact mem_ids.mpr ⟨m, hm, (stepDocument_eq_iff.mp heq).1.symm⟩
  constructor
  · intro h n hn m hm hid
    rw [(h.nodes n hn m hm hid).parameters]
  · intro h
    refine ⟨?_, ?_⟩
    · intro id
      rw [← ids_graph, ← ids_graph]
      exact ⟨hids hsteps id, hids hsteps.symm id⟩
    · intro n hn m hm hid
      obtain ⟨hoperation, hparameters, hinputs, hdeps, houtputs⟩ :=
        stepDocuments_same hf hvalid' hsteps hn hm hid
      exact ⟨hoperation, (Value.eq_iff_hidden hparameters).mpr (h n hn m hm hid), hinputs, hdeps,
        houtputs⟩

theorem sameRun_iff_hidden_diamond : SameRun .reference diamond reversedDiamond := by
  refine (sameRun_iff_hidden Runtime.floatText_reference (by decide) (by decide)
    (by decide +kernel)).mpr ?_
  have hplain : ∀ steps, (∀ s ∈ steps, s.parameters = .null) →
      ∀ n ∈ (plainWorkflow steps).graph .reference, n.step.parameters = .null := by
    intro steps hsteps n hn
    refine hsteps n.step ?_
    rw [show steps = (plainWorkflow steps).steps from rfl, ← @graph_steps .reference]
    exact List.mem_map_of_mem hn
  intro n hn m hm _
  rw [hplain _ (by simp [plainStep]) n hn, hplain _ (by simp [plainStep]) m hm]

/-! A step that fetches what was retrieved on a given day. -/

def fetchOf (day : String) : GeoWorkflow :=
  plainWorkflow [{ plainStep "fetch" [] with
    parameters := .object [("dataset", .str "census"), ("retrieved_at", .str day)] }]

theorem fetchOf_same_document : (fetchOf "2020-01-01").validate .reference = .ok () ∧
      (fetchOf "2026-01-01").validate .reference = .ok () ∧
      Runtime.reference.canonicalJson ((fetchOf "2020-01-01").digestDocument .reference) =
        Runtime.reference.canonicalJson ((fetchOf "2026-01-01").digestDocument .reference) ∧
      ¬ SameRun .reference (fetchOf "2020-01-01") (fetchOf "2026-01-01") := by
  refine ⟨by decide +kernel, by decide +kernel, by decide +kernel, ?_⟩
  intro h
  have hnode := h.nodes _ List.mem_cons_self _ List.mem_cons_self (by decide)
  have htext := congrArg Runtime.reference.canonicalJson hnode.parameters
  revert htext
  decide

end GeneGIS.GeoWorkflow
