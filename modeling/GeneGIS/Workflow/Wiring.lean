/-
Identifiers are distinct and every reference names something the draft has.  Copied nodes, which
keep the references of their template, and blank identifiers can break it (`wiring_edited`).
-/
import GeneGIS.Workflow.Composer
import GeneGIS.Workflow.Valid

namespace GeneGIS.WorkflowComposer

open Fallible GeoWorkflow List Text
open WorkflowStep (forget generatedStableId readFrom reviewedCopy)

/-- A reference names a graph input or an output of a step of the draft. -/
def Resolves (rt : Runtime) (w : GeoWorkflow) (input : WorkflowDataRef) : Prop :=
  match input.node with
  | none => ∃ contract ∈ w.inputContracts, contract.name = input.port
  | some node => ∃ source ∈ w.steps, source.nodeId rt = node ∧ input ∈ source.outputs

structure Wiring (rt : Runtime) (w : GeoWorkflow) : Prop where
  ids : (w.steps.map (WorkflowStep.nodeId rt)).Nodup
  outputs : ∀ step ∈ w.steps, ∀ output ∈ step.outputs, output.node = some (step.nodeId rt)
  dependencies : ∀ step ∈ w.steps, ∀ d ∈ step.dependsOn, ∃ source ∈ w.steps, source.nodeId rt = d
  inputs : ∀ step ∈ w.steps, ∀ input ∈ step.inputs, Resolves rt w input

/-- Every output of a step with an identifier of its own can be connected to every
other step. -/
def Connectable (rt : Runtime) (templates : Templates) (c : WorkflowComposer) : Prop :=
  ∀ source ∈ c.workflow.steps, isBlank source.stableId = false →
    ∀ output ∈ source.outputs, ∀ target ∈ c.workflow.steps, target.stableId ≠ source.stableId →
      ∀ call, ∃ event c', apply rt templates call
        (.edit (.connect source.stableId output.port target.stableId)) c = .ok event c'

def RefersTo (step : WorkflowStep) (node : WorkflowNodeId) : Prop :=
  node ∈ step.dependsOn ∨ ∃ input ∈ step.inputs, input.node = some node

/-- The step keeps its identifier, or it exports nothing, nothing names it, and its
new identifier is free. -/
def MayRename (rt : Runtime) (w : GeoWorkflow) (step : WorkflowStep) (parameters : Value) : Prop :=
  { step with parameters := parameters }.nodeId rt = step.nodeId rt ∨
    step.outputs = [] ∧ (∀ s ∈ w.steps, step.nodeId rt ∉ s.dependsOn) ∧
      { step with parameters := parameters }.nodeId rt ∉ w.steps.map (WorkflowStep.nodeId rt)

def Keeps (rt : Runtime) (templates : Templates) (w : GeoWorkflow) : ComposerCommand → Prop
  | .edit (.addReviewedNode templateId sourceNodeId newNodeId) =>
    ∀ node, reviewedNode templates templateId sourceNodeId = some node →
      (∀ output ∈ node.outputs, output.node = some newNodeId) ∧
      (∀ input ∈ node.inputs, input.node = none →
        ∃ contract ∈ w.inputContracts, contract.name = input.port) ∧
      newNodeId ∉ w.steps.map (WorkflowStep.nodeId rt)
  | .edit (.removeNode nodeId) =>
    isBlank nodeId = true → ∀ gone ∈ w.steps, gone.stableId = nodeId →
      ∀ step ∈ w.steps, step.stableId ≠ nodeId → ¬ RefersTo step (gone.nodeId rt)
  | .edit (.setParameters nodeId parameters) =>
    isBlank nodeId = true →
      ∀ step, (w.steps.find? fun step => step.stableId = nodeId) = some step →
        MayRename rt w step parameters
  | _ => True

variable {rt : Runtime} {templates : Templates} {fresh : Uuid} {w w' : GeoWorkflow}
  {edit : ComposerEdit} {c c' : WorkflowComposer}

/-! ## Identifiers -/

variable {step : WorkflowStep}

theorem nodeId_named (h : isBlank step.stableId = false) : step.nodeId rt = step.stableId := by
  rw [WorkflowStep.nodeId, h]
  rfl

variable {s t : WorkflowStep}

theorem Wiring.eq_of_nodeId (h : Wiring rt w) (hs : s ∈ w.steps)
    (ht : t ∈ w.steps) (hid : s.nodeId rt = t.nodeId rt) : s = t :=
  inj_on_of_nodup_map h.ids hs ht hid

theorem generatedStableId_named (operation : String) (parameters : Value) :
    isBlank (generatedStableId rt operation parameters) = false := by
  have hhyphen : '-' ∈ (generatedStableId rt operation parameters).toList := by
    simp [generatedStableId]
  exact isBlank_false_of_mem hhyphen (by decide)

theorem nodeId_blank (rt : Runtime) (step : WorkflowStep) : isBlank (step.nodeId rt) = false := by
  rw [WorkflowStep.nodeId]
  by_cases hblank : isBlank step.stableId = true
  · rw [if_pos hblank]
    exact generatedStableId_named _ _
  · rw [if_neg hblank]
    simpa using hblank

theorem isWhitespace_nodeIdChar {c : Char} (h : isNodeIdChar c = true) :
    isWhitespace c = false := by
  have hrange : (97 ≤ c.toNat ∧ c.toNat ≤ 122) ∨ (48 ≤ c.toNat ∧ c.toNat ≤ 57) ∨ c.toNat = 45 := by
    simp only [isNodeIdChar, Bool.or_eq_true, Bool.and_eq_true, decide_eq_true_eq, beq_iff_eq,
      Char.le_def, UInt32.le_iff_toNat_le] at h
    rcases h with (h | h) | h
    · exact .inl h
    · exact .inr (.inl h)
    · rw [h]
      exact .inr (.inr rfl)
  simp only [isWhitespace, Bool.or_eq_false_iff, Bool.and_eq_false_iff,
    decide_eq_false_iff_not, beq_eq_false_iff_ne]
  omega

theorem validateNodeId_named {id : String} (h : validateNodeId id = .ok ()) :
    isBlank id = false := by
  rw [validateNodeId] at h
  by_cases hid : (id.toList.isEmpty || !id.toList.all isNodeIdChar) = true
  · rw [if_pos hid] at h
    cases h
  · simp only [Bool.or_eq_true, List.isEmpty_iff, Bool.not_eq_true', not_or] at hid
    obtain ⟨ch, hch⟩ := List.exists_mem_of_ne_nil _ hid.1
    have hall : isNodeIdChar ch = true := List.all_eq_true.mp (by simpa using hid.2) ch hch
    exact isBlank_false_of_mem hch (isWhitespace_nodeIdChar hall)

theorem Wiring.find (h : Wiring rt w) (hstep : step ∈ w.steps)
    (hnamed : isBlank step.stableId = false) :
    (w.steps.find? fun s => s.stableId = step.stableId) = some step := by
  cases hfind : w.steps.find? fun s => s.stableId = step.stableId with
  | none =>
    have hnone := find?_eq_none.mp hfind step hstep
    simp at hnone
  | some first =>
    have hid : first.stableId = step.stableId := by simpa using find?_some hfind
    have hfirst : first.nodeId rt = step.nodeId rt := by
      rw [nodeId_named hnamed, ← hid]
      exact nodeId_named (by rw [hid]; exact hnamed)
    rw [h.eq_of_nodeId (mem_of_find?_eq_some hfind) hstep hfirst]

theorem Wiring.connectable (templates : Templates) (h : Wiring rt c.workflow) :
    Connectable rt templates c := by
  intro source hsource hnamed output houtput target htarget hne call
  have hnode : output.node = some source.stableId := by
    rw [← nodeId_named hnamed]
    exact h.outputs source hsource output houtput
  have hexported : WorkflowDataRef.output source.stableId output.port ∈ source.outputs := by
    rw [WorkflowDataRef.output, ← hnode]
    exact houtput
  obtain ⟨w', before, step, after, hupdated⟩ := exists_updated
    (readFrom source.stableId output.port) ⟨target, htarget, rfl⟩
  have hedited : Edited templates call.node c.workflow
      (.connect source.stableId output.port target.stableId) w' :=
    .connect _ _ _ source w' before after step hne.symm (h.find hsource hnamed) hexported hupdated
  exact ⟨_, _, apply_ok.mpr ⟨_, .edit _ w' hedited, rfl, rfl⟩⟩

theorem legacy_empty (h : w.isLegacyLinear = true) (hstep : step ∈ w.steps) :
    step.dependsOn = [] ∧ step.inputs = [] ∧ step.outputs = [] := by
  have hall := List.all_eq_true.mp h step hstep
  simp only [Bool.and_eq_true, List.isEmpty_iff] at hall
  exact ⟨hall.1.1.2, hall.1.2, hall.2⟩

theorem graph_explicit (h : w.isLegacyLinear = false) :
    w.graph rt = w.steps.map (explicitNode rt) := by
  rw [graph, h, graphNodes_explicit]

theorem explicit_mem (h : w.isLegacyLinear = false) (hstep : step ∈ w.steps) :
    explicitNode rt step ∈ w.graph rt := by
  rw [graph_explicit h]
  exact mem_map_of_mem hstep

theorem resolves_of_inputOk (hw : Valid rt w) (h : w.isLegacyLinear = false) {node : Node}
    {input : WorkflowDataRef} (hok : InputOk w false (w.nodeTable rt) node input) :
    Resolves rt w input := by
  have hnode := hok.2
  rw [Resolves]
  cases hinput : input.node with
  | none =>
    rw [hinput] at hnode
    exact hnode
  | some d =>
    rw [hinput] at hnode
    have hexports : exports w (w.nodeTable rt) d input.port = true := by
      have hport := hnode.2.2.2
      simpa using hport
    obtain ⟨source, hsource, hid, output, houtput, hd, hport⟩ :=
      (exports_iff_graph hw.nodup).mp hexports
    rw [graph_explicit h] at hsource
    obtain ⟨step, hstep, rfl⟩ := List.mem_map.mp hsource
    rw [explicitNode_id] at hid
    have heq : output = input := by
      cases output
      cases input
      simp only at hd hinput hport
      rw [hd, hport, hinput]
    rw [heq] at houtput
    exact ⟨step, hstep, hid, houtput⟩

theorem wiring_of_valid (hw : Valid rt w) : Wiring rt w := by
  have hids : (w.steps.map (WorkflowStep.nodeId rt)).Nodup := by
    rw [← ids_graph]
    exact hw.nodup
  by_cases hlegacy : w.isLegacyLinear = true
  · refine ⟨hids, ?_, ?_, ?_⟩
    · intro step hstep output houtput
      rw [(legacy_empty hlegacy hstep).2.2] at houtput
      cases houtput
    · intro step hstep d hd
      rw [(legacy_empty hlegacy hstep).1] at hd
      cases hd
    · intro step hstep input hinput
      rw [(legacy_empty hlegacy hstep).2.1] at hinput
      cases hinput
  · have hfalse : w.isLegacyLinear = false := by simpa using hlegacy
    refine ⟨hids, ?_, ?_, ?_⟩
    · intro step hstep output houtput
      have hok := validateOutputs_ok.mp (hw.outputs hfalse _ (explicit_mem hfalse hstep))
      have hnode := (hok.2 output houtput).1
      rw [explicitNode_id] at hnode
      exact hnode
    · intro step hstep d hd
      have hlinked := hw.linked _ (explicit_mem hfalse hstep)
      have hmem := hw.mem_table.mp (hlinked.deps d hd).2
      rw [ids_graph] at hmem
      exact List.mem_map.mp hmem
    · intro step hstep input hinput
      have hlinked := hw.linked _ (explicit_mem hfalse hstep)
      have hok := validateInput_ok.mp (hlinked.inputs input hinput)
      rw [hfalse] at hok
      exact resolves_of_inputOk hw hfalse hok

theorem fromReviewedWorkflow_ok : fromReviewedWorkflow rt w = .ok c ↔ Valid rt w ∧
        c = { workflow := { w with reviewStatus := .draft }, events := [], undo := [],
              redo := [] } := by
  simp only [fromReviewedWorkflow, bind_iff, mapError_iff, stableDigest]
  constructor
  · intro h
    obtain ⟨_, hvalid, _, -, hc⟩ := h
    exact ⟨validate_ok.mp hvalid, (Except.ok.inj hc).symm⟩
  · intro h
    obtain ⟨hvalid, rfl⟩ := h
    have hok := validate_ok.mpr hvalid
    exact ⟨(), hok, _, ⟨(), hok, rfl⟩, rfl⟩

/-! ## Edits that change no identifier and no output -/

def face (rt : Runtime) (step : WorkflowStep) : WorkflowNodeId × List WorkflowDataRef :=
  (step.nodeId rt, step.outputs)

theorem face_fst : Prod.fst ∘ face rt = WorkflowStep.nodeId rt := by
  funext step
  rw [Function.comp_apply, face]

theorem face_eq : face rt s = face rt t ↔ s.nodeId rt = t.nodeId rt ∧ s.outputs = t.outputs := by
  rw [face, face, Prod.mk.injEq]

theorem Resolves.of_faces {input : WorkflowDataRef} (h : Resolves rt w input)
    (hcontracts : w'.inputContracts = w.inputContracts)
    (hfaces : ∀ source ∈ w.steps, input ∈ source.outputs →
      ∃ source' ∈ w'.steps, face rt source' = face rt source) : Resolves rt w' input := by
  rw [Resolves] at h ⊢
  cases hnode : input.node with
  | none =>
    rw [hnode] at h
    rw [hcontracts]
    exact h
  | some d =>
    rw [hnode] at h
    obtain ⟨source, hsource, hid, houtput⟩ := h
    obtain ⟨source', hsource', hface⟩ := hfaces source hsource houtput
    obtain ⟨hid', houtputs⟩ := face_eq.mp hface
    refine ⟨source', hsource', hid'.trans hid, ?_⟩
    rw [houtputs]
    exact houtput

theorem Wiring.of_faces (h : Wiring rt w) (hcontracts : w'.inputContracts = w.inputContracts)
    (hfaces : w'.steps.map (face rt) = w.steps.map (face rt))
    (hdeps : ∀ step ∈ w'.steps, ∀ d ∈ step.dependsOn, ∃ source ∈ w.steps, source.nodeId rt = d)
    (hinputs : ∀ step ∈ w'.steps, ∀ input ∈ step.inputs, Resolves rt w input) :
    Wiring rt w' := by
  have hback : ∀ step ∈ w'.steps, ∃ source ∈ w.steps, face rt source = face rt step := by
    intro step hstep
    have hmem : face rt step ∈ w'.steps.map (face rt) := mem_map_of_mem hstep
    rw [hfaces] at hmem
    exact List.mem_map.mp hmem
  have hforth : ∀ source ∈ w.steps, ∃ step ∈ w'.steps, face rt step = face rt source := by
    intro source hsource
    have hmem : face rt source ∈ w.steps.map (face rt) := mem_map_of_mem hsource
    rw [← hfaces] at hmem
    exact List.mem_map.mp hmem
  refine ⟨?_, ?_, ?_, ?_⟩
  · have hids := congrArg (List.map Prod.fst) hfaces
    rw [map_map, map_map, face_fst] at hids
    rw [hids]
    exact h.ids
  · intro step hstep output houtput
    obtain ⟨source, hsource, hface⟩ := hback step hstep
    obtain ⟨hid, houtputs⟩ := face_eq.mp hface
    rw [← hid]
    rw [← houtputs] at houtput
    exact h.outputs source hsource output houtput
  · intro step hstep d hd
    obtain ⟨source, hsource, hid⟩ := hdeps step hstep d hd
    obtain ⟨source', hsource', hface⟩ := hforth source hsource
    exact ⟨source', hsource', (face_eq.mp hface).1.trans hid⟩
  · intro step hstep input hinput
    exact (hinputs step hstep input hinput).of_faces hcontracts fun source hsource _ =>
      hforth source hsource

theorem nodeId_congr (hid : s.stableId = t.stableId)
    (hoperation : s.operation = t.operation) (hparameters : s.parameters = t.parameters) :
    s.nodeId rt = t.nodeId rt := by
  rw [WorkflowStep.nodeId, WorkflowStep.nodeId, hid, hoperation, hparameters]

theorem face_forget (id : WorkflowNodeId) (s : WorkflowStep) : face rt (s.forget id) = face rt s :=
  face_eq.mpr ⟨nodeId_congr rfl rfl rfl, rfl⟩

theorem face_readFrom (id : WorkflowNodeId) (port : String) (s : WorkflowStep) :
    face rt (s.readFrom id port) = face rt s :=
  face_eq.mpr ⟨nodeId_congr rfl rfl rfl, rfl⟩

section Updated

variable {nodeId : String} {change : WorkflowStep → WorkflowStep}
  {before after : List WorkflowStep} {step : WorkflowStep}

theorem Updated.mem (h : Updated nodeId change w w' before step after) : step ∈ w.steps := by
  rw [h.steps]
  simp

theorem Updated.steps_eq (h : Updated nodeId change w w' before step after) :
    w'.steps = before ++ change step :: after := by
  rw [h.result]

theorem Updated.contracts (h : Updated nodeId change w w' before step after) :
    w'.inputContracts = w.inputContracts := by
  rw [h.result]

theorem Updated.cases (h : Updated nodeId change w w' before step after) {s : WorkflowStep}
    (hs : s ∈ w'.steps) : s ∈ w.steps ∨ s = change step := by
  rw [h.steps_eq, mem_append, mem_cons] at hs
  rw [h.steps, mem_append, mem_cons]
  rcases hs with hs | hs | hs
  · exact .inl (.inl hs)
  · exact .inr hs
  · exact .inl (.inr (.inr hs))

theorem Updated.find (h : Updated nodeId change w w' before step after) :
    (w.steps.find? fun s => s.stableId = nodeId) = some step := by
  refine find?_eq_some_iff_append.mpr ⟨decide_eq_true h.id, before, after, h.steps, ?_⟩
  intro s hs
  simpa using h.first s hs

theorem Updated.wiring (h : Updated nodeId change w w' before step after) (hw : Wiring rt w)
    (hface : face rt (change step) = face rt step)
    (hdeps : ∀ d ∈ (change step).dependsOn, ∃ source ∈ w.steps, source.nodeId rt = d)
    (hinputs : ∀ input ∈ (change step).inputs, Resolves rt w input) : Wiring rt w' := by
  refine hw.of_faces h.contracts ?_ ?_ ?_
  · rw [h.steps_eq, h.steps, map_append, map_append, map_cons, map_cons, hface]
  · intro s hs d hd
    rcases h.cases hs with hs | rfl
    · exact hw.dependencies s hs d hd
    · exact hdeps d hd
  · intro s hs input hinput
    rcases h.cases hs with hs | rfl
    · exact hw.inputs s hs input hinput
    · exact hinputs input hinput

end Updated

variable {before after : List WorkflowStep}

theorem wiring_connect (h : Wiring rt w) {source target : WorkflowStep} {id port targetId : String}
    (hfound : (w.steps.find? fun step => step.stableId = id) = some source)
    (hexported : WorkflowDataRef.output id port ∈ source.outputs)
    (hupdated : Updated targetId (readFrom id port) w w' before target after) :
    Wiring rt w' := by
  have hsource : source ∈ w.steps := mem_of_find?_eq_some hfound
  have hid : source.nodeId rt = id := (Option.some.inj (h.outputs source hsource _ hexported)).symm
  refine hupdated.wiring h (face_readFrom id port target) ?_ ?_
  · intro d hd
    rw [readFrom] at hd
    by_cases hany : (target.dependsOn.any fun node => node = id) = true
    · rw [if_pos hany] at hd
      exact h.dependencies target hupdated.mem d hd
    · rw [if_neg hany, mem_append, mem_singleton] at hd
      rcases hd with hd | rfl
      · exact h.dependencies target hupdated.mem d hd
      · exact ⟨source, hsource, hid⟩
  · intro input hinput
    rw [readFrom] at hinput
    by_cases hany : (target.inputs.any fun input =>
        input.node = some id && input.port = port) = true
    · rw [if_pos hany] at hinput
      exact h.inputs target hupdated.mem input hinput
    · rw [if_neg hany, mem_append, mem_singleton] at hinput
      rcases hinput with hinput | rfl
      · exact h.inputs target hupdated.mem input hinput
      · exact ⟨source, hsource, hid, hexported⟩

theorem wiring_disconnect (h : Wiring rt w) {target : WorkflowStep} {id targetId : String}
    (hupdated : Updated targetId (forget id) w w' before target after) :
    Wiring rt w' := by
  refine hupdated.wiring h (face_forget id target) ?_ ?_
  · intro d hd
    exact h.dependencies target hupdated.mem d (mem_of_mem_filter hd)
  · intro input hinput
    exact h.inputs target hupdated.mem input (mem_of_mem_filter hinput)

/-! ## Parameters -/

theorem others_ne (h : ((before ++ step :: after).map (WorkflowStep.nodeId rt)).Nodup) :
    ∀ s ∈ before ++ after, s.nodeId rt ≠ step.nodeId rt := by
  rw [map_append, map_cons, nodup_middle, ← map_append, nodup_cons] at h
  intro s hs hid
  rw [← hid] at h
  exact h.1 (mem_map_of_mem hs)

section SetParameters

variable {nodeId : String} {parameters : Value} {step : WorkflowStep}

theorem mayRename_of_wiring (h : Wiring rt w) (h' : Wiring rt w')
    (hupdated : Updated nodeId (fun step => { step with parameters := parameters }) w w' before
      step after) : MayRename rt w step parameters := by
  by_cases hsame : { step with parameters := parameters }.nodeId rt = step.nodeId rt
  · exact .inl hsame
  · have hothers := others_ne (by rw [← hupdated.steps]; exact h.ids)
    have hothers' := others_ne (by rw [← hupdated.steps_eq]; exact h'.ids)
    have hrenamed : { step with parameters := parameters } ∈ w'.steps := by
      rw [hupdated.steps_eq]
      simp
    refine .inr ⟨?_, ?_, ?_⟩
    · refine eq_nil_iff_forall_not_mem.mpr fun output houtput => ?_
      have hold := h.outputs step hupdated.mem output houtput
      have hnew := h'.outputs _ hrenamed output houtput
      rw [hold] at hnew
      exact hsame (Option.some.inj hnew).symm
    · intro s hs hd
      have hdeps : ∃ s' ∈ w'.steps, s'.dependsOn = s.dependsOn := by
        rw [hupdated.steps, mem_append, mem_cons] at hs
        rcases hs with hs | rfl | hs
        · exact ⟨s, by rw [hupdated.steps_eq]; simp [hs], rfl⟩
        · exact ⟨_, hrenamed, rfl⟩
        · exact ⟨s, by rw [hupdated.steps_eq]; simp [hs], rfl⟩
      obtain ⟨s', hs', heq⟩ := hdeps
      rw [← heq] at hd
      obtain ⟨source, hsource, hid⟩ := h'.dependencies s' hs' _ hd
      rw [hupdated.steps_eq, mem_append, mem_cons] at hsource
      rcases hsource with hsource | rfl | hsource
      · exact hothers source (mem_append.mpr (.inl hsource)) hid
      · exact hsame hid
      · exact hothers source (mem_append.mpr (.inr hsource)) hid
    · intro hmem
      obtain ⟨s, hs, hid⟩ := List.mem_map.mp hmem
      rw [hupdated.steps, mem_append, mem_cons] at hs
      rcases hs with hs | rfl | hs
      · exact hothers' s (mem_append.mpr (.inl hs)) hid
      · exact hsame hid.symm
      · exact hothers' s (mem_append.mpr (.inr hs)) hid

theorem wiring_of_mayRename (h : Wiring rt w) (hmay : MayRename rt w step parameters)
    (hupdated : Updated nodeId (fun step => { step with parameters := parameters }) w w' before
      step after) : Wiring rt w' := by
  rcases hmay with hsame | ⟨houtputs, hdeps, hfree⟩
  · exact hupdated.wiring h (face_eq.mpr ⟨hsame, rfl⟩) (h.dependencies step hupdated.mem)
      (h.inputs step hupdated.mem)
  -- The renamed step is named by nothing, so every reference has the source it had.
  · have hkept : ∀ source ∈ w.steps, source ∈ w'.steps ∨ source = step := by
      intro source hsource
      rw [hupdated.steps, mem_append, mem_cons] at hsource
      rw [hupdated.steps_eq, mem_append, mem_cons]
      rcases hsource with hsource | hsource | hsource
      · exact .inl (.inl hsource)
      · exact .inr hsource
      · exact .inl (.inr (.inr hsource))
    have hdependencies : ∀ s ∈ w.steps, ∀ d ∈ s.dependsOn,
        ∃ source ∈ w'.steps, source.nodeId rt = d := by
      intro s hs d hd
      obtain ⟨source, hsource, hid⟩ := h.dependencies s hs d hd
      rcases hkept source hsource with hsource | rfl
      · exact ⟨source, hsource, hid⟩
      · rw [← hid] at hd
        exact absurd hd (hdeps s hs)
    have hinputs : ∀ s ∈ w.steps, ∀ input ∈ s.inputs, Resolves rt w' input := by
      intro s hs input hinput
      refine (h.inputs s hs input hinput).of_faces hupdated.contracts ?_
      intro source hsource houtput
      rcases hkept source hsource with hsource | rfl
      · exact ⟨source, hsource, rfl⟩
      · rw [houtputs] at houtput
        cases houtput
    refine ⟨?_, ?_, ?_, ?_⟩
    · have hids := h.ids
      rw [hupdated.steps, map_append, map_cons, nodup_middle, nodup_cons] at hids
      rw [hupdated.steps_eq, map_append, map_cons, nodup_middle, nodup_cons]
      refine ⟨?_, hids.2⟩
      intro hmem
      rw [hupdated.steps, map_append, map_cons] at hfree
      rw [mem_append] at hmem hfree
      rw [mem_cons] at hfree
      rcases hmem with hmem | hmem
      · exact hfree (.inl hmem)
      · exact hfree (.inr (.inr hmem))
    · intro s hs output houtput
      rcases hupdated.cases hs with hs | rfl
      · exact h.outputs s hs output houtput
      · exact absurd houtput (by rw [houtputs]; exact not_mem_nil)
    · intro s hs d hd
      rcases hupdated.cases hs with hs | rfl
      · exact hdependencies s hs d hd
      · exact hdependencies step hupdated.mem d hd
    · intro s hs input hinput
      rcases hupdated.cases hs with hs | rfl
      · exact hinputs s hs input hinput
      · exact hinputs step hupdated.mem input hinput

theorem wiring_setParameters (h : Wiring rt w)
    (hupdated : Updated nodeId (fun step => { step with parameters := parameters }) w w' before
      step after) :
    Wiring rt w' ↔ Keeps rt templates w (.edit (.setParameters nodeId parameters)) := by
  constructor
  · intro h' _ found hfound
    have heq : found = step := Option.some.inj (hfound.symm.trans hupdated.find)
    rw [heq]
    exact mayRename_of_wiring h h' hupdated
  · intro hkeeps
    refine wiring_of_mayRename h ?_ hupdated
    by_cases hblank : isBlank nodeId = true
    · exact hkeeps hblank step hupdated.find
    · have hnamed : isBlank step.stableId = false := by
        rw [hupdated.id]
        simpa using hblank
      refine .inl ?_
      rw [nodeId_named hnamed]
      exact nodeId_named hnamed

end SetParameters

/-! ## Removal -/

section RemoveNode

variable {nodeId : String}

/-- The workflow without the steps of a stable identifier. -/
def without (nodeId : String) (outputRefs : List WorkflowDataRef) (w : GeoWorkflow) : GeoWorkflow :=
  { w with
    steps := (w.steps.filter fun step => step.stableId ≠ nodeId).map (forget nodeId)
    outputRefs := outputRefs }

theorem mem_without {outputRefs : List WorkflowDataRef} {s : WorkflowStep} :
    s ∈ (without nodeId outputRefs w).steps ↔
      ∃ step ∈ w.steps, step.stableId ≠ nodeId ∧ step.forget nodeId = s := by
  simp only [without, List.mem_map, List.mem_filter, decide_eq_true_eq, and_assoc]

theorem mem_forget_dependsOn {step : WorkflowStep} {d : WorkflowNodeId} :
    d ∈ (step.forget nodeId).dependsOn ↔ d ∈ step.dependsOn ∧ d ≠ nodeId := by
  simp [forget]

theorem mem_forget_inputs {step : WorkflowStep} {input : WorkflowDataRef} :
    input ∈ (step.forget nodeId).inputs ↔ input ∈ step.inputs ∧ input.node ≠ some nodeId := by
  simp [forget]

/-- A blank identifier is no node's, so the references to a removed node stay. -/
theorem not_refersTo_of_wiring {outputRefs : List WorkflowDataRef} (h : Wiring rt w)
    (h' : Wiring rt (without nodeId outputRefs w)) (hblank : isBlank nodeId = true)
    {gone step : WorkflowStep} (hgone : gone ∈ w.steps) (hid : gone.stableId = nodeId)
    (hstep : step ∈ w.steps) (hne : step.stableId ≠ nodeId) :
    ¬ RefersTo step (gone.nodeId rt) := by
  have hnode : gone.nodeId rt ≠ nodeId := by
    intro heq
    have hnamed := nodeId_blank rt gone
    rw [heq, hblank] at hnamed
    cases hnamed
  have hleft : step.forget nodeId ∈ (without nodeId outputRefs w).steps :=
    mem_without.mpr ⟨step, hstep, hne, rfl⟩
  have hlost : ∀ source ∈ (without nodeId outputRefs w).steps,
      source.nodeId rt ≠ gone.nodeId rt := by
    intro source hsource heq
    obtain ⟨old, hold, hne', rfl⟩ := mem_without.mp hsource
    rw [(face_eq.mp (face_forget nodeId old)).1] at heq
    rw [h.eq_of_nodeId hold hgone heq] at hne'
    exact hne' hid
  intro hrefers
  rcases hrefers with hd | ⟨input, hinput, hinputNode⟩
  · obtain ⟨source, hsource, heq⟩ :=
      h'.dependencies _ hleft _ (mem_forget_dependsOn.mpr ⟨hd, hnode⟩)
    exact hlost source hsource heq
  · have hkept : input.node ≠ some nodeId := by
      rw [hinputNode]
      intro heq
      exact hnode (Option.some.inj heq)
    have hresolves := h'.inputs _ hleft input (mem_forget_inputs.mpr ⟨hinput, hkept⟩)
    rw [Resolves, hinputNode] at hresolves
    obtain ⟨source, hsource, heq, -⟩ := hresolves
    exact hlost source hsource heq

theorem stableId_ne_of_keeps
    (hkeeps : Keeps rt templates w (.edit (.removeNode nodeId))) {source step : WorkflowStep}
    (hsource : source ∈ w.steps) (hstep : step ∈ w.steps) (hne : step.stableId ≠ nodeId)
    (hrefers : RefersTo step (source.nodeId rt)) (hnode : source.nodeId rt ≠ nodeId) :
    source.stableId ≠ nodeId := by
  intro hid
  by_cases hblank : isBlank nodeId = true
  · exact hkeeps hblank source hsource hid step hstep hne hrefers
  · have hnamed : isBlank source.stableId = false := by
      rw [hid]
      simpa using hblank
    rw [nodeId_named hnamed] at hnode
    exact hnode hid

theorem wiring_without (outputRefs : List WorkflowDataRef) (h : Wiring rt w)
    (hkeeps : Keeps rt templates w (.edit (.removeNode nodeId))) :
    Wiring rt (without nodeId outputRefs w) := by
  have hnodeId : ∀ step : WorkflowStep, (step.forget nodeId).nodeId rt = step.nodeId rt :=
    fun step => (face_eq.mp (face_forget nodeId step)).1
  refine ⟨?_, ?_, ?_, ?_⟩
  · have hids : (without nodeId outputRefs w).steps.map (WorkflowStep.nodeId rt) =
        (w.steps.filter fun step => step.stableId ≠ nodeId).map (WorkflowStep.nodeId rt) := by
      rw [without, map_map]
      refine map_congr_left fun step _ => ?_
      rw [Function.comp_apply, hnodeId]
    rw [hids]
    exact h.ids.sublist (filter_sublist.map _)
  · intro s hs output houtput
    obtain ⟨step, hstep, -, rfl⟩ := mem_without.mp hs
    rw [hnodeId]
    exact h.outputs step hstep output houtput
  · intro s hs d hd
    obtain ⟨step, hstep, hne, rfl⟩ := mem_without.mp hs
    obtain ⟨hd, hdne⟩ := mem_forget_dependsOn.mp hd
    obtain ⟨source, hsource, rfl⟩ := h.dependencies step hstep d hd
    have hleft := stableId_ne_of_keeps hkeeps hsource hstep hne (.inl hd) hdne
    exact ⟨_, mem_without.mpr ⟨source, hsource, hleft, rfl⟩, hnodeId source⟩
  · intro s hs input hinput
    obtain ⟨step, hstep, hne, rfl⟩ := mem_without.mp hs
    obtain ⟨hinput, hinputNode⟩ := mem_forget_inputs.mp hinput
    refine (h.inputs step hstep input hinput).of_faces rfl ?_
    intro source hsource houtput
    have hnode := h.outputs source hsource input houtput
    rw [hnode] at hinputNode
    have hleft := stableId_ne_of_keeps hkeeps hsource hstep hne
      (.inr ⟨input, hinput, hnode⟩) (fun heq => hinputNode (congrArg some heq))
    exact ⟨_, mem_without.mpr ⟨source, hsource, hleft, rfl⟩, face_forget nodeId source⟩

theorem wiring_removeNode (outputRefs : List WorkflowDataRef) (h : Wiring rt w) :
    Wiring rt (without nodeId outputRefs w) ↔
      Keeps rt templates w (.edit (.removeNode nodeId)) := by
  constructor
  · intro h' hblank gone hgone hid step hstep hne
    exact not_refersTo_of_wiring h h' hblank hgone hid hstep hne
  · exact wiring_without outputRefs h

end RemoveNode

theorem wiring_addReviewedNode (h : Wiring rt w) {templateId sourceNodeId newNodeId : String}
    {node : WorkflowStep} (hvalid : validateNodeId newNodeId = .ok ())
    (hreviewed : reviewedNode templates templateId sourceNodeId = some node) :
    Wiring rt { w with steps := w.steps ++ [node.reviewedCopy fresh newNodeId] } ↔
      Keeps rt templates w (.edit (.addReviewedNode templateId sourceNodeId newNodeId)) := by
  have hid : (node.reviewedCopy fresh newNodeId).nodeId rt = newNodeId :=
    nodeId_named (validateNodeId_named hvalid)
  have hcopy : node.reviewedCopy fresh newNodeId ∈
      w.steps ++ [node.reviewedCopy fresh newNodeId] := by simp
  have hids : ((w.steps ++ [node.reviewedCopy fresh newNodeId]).map
        (WorkflowStep.nodeId rt)).Nodup ↔ newNodeId ∉ w.steps.map (WorkflowStep.nodeId rt) := by
    rw [map_append, map_cons, map_nil, hid, nodup_append_comm, singleton_append, nodup_cons]
    exact and_iff_left h.ids
  constructor
  · intro h' found hfound
    rw [hreviewed] at hfound
    cases hfound
    refine ⟨?_, ?_, hids.mp h'.ids⟩
    · intro output houtput
      rw [← hid]
      exact h'.outputs _ hcopy output houtput
    · intro input hinput hnode
      have hmem : input ∈ (node.reviewedCopy fresh newNodeId).inputs := by
        rw [reviewedCopy, List.mem_filter, WorkflowDataRef.isGraphInput, hnode]
        exact ⟨hinput, rfl⟩
      have hresolves := h'.inputs _ hcopy input hmem
      rw [Resolves, hnode] at hresolves
      exact hresolves
  · intro hkeeps
    obtain ⟨houtputs, hinputs, hfree⟩ := hkeeps node hreviewed
    refine ⟨hids.mpr hfree, ?_, ?_, ?_⟩
    · intro step hstep output houtput
      rcases mem_append.mp hstep with hstep | hstep
      · exact h.outputs step hstep output houtput
      · rw [mem_singleton.mp hstep, hid]
        rw [mem_singleton.mp hstep] at houtput
        exact houtputs output houtput
    · intro step hstep d hd
      rcases mem_append.mp hstep with hstep | hstep
      · obtain ⟨source, hsource, hd⟩ := h.dependencies step hstep d hd
        exact ⟨source, mem_append.mpr (.inl hsource), hd⟩
      · rw [mem_singleton.mp hstep] at hd
        cases hd
    · intro step hstep input hinput
      rcases mem_append.mp hstep with hstep | hstep
      · refine (h.inputs step hstep input hinput).of_faces rfl ?_
        intro source hsource _
        exact ⟨source, mem_append.mpr (.inl hsource), rfl⟩
      · rw [mem_singleton.mp hstep, reviewedCopy, List.mem_filter] at hinput
        have hnode : input.node = none := by
          have hgraph := hinput.2
          rw [WorkflowDataRef.isGraphInput] at hgraph
          simpa using hgraph
        rw [Resolves, hnode]
        exact hinputs input hinput.1 hnode

theorem wiring_edited (h : Wiring rt w) (hedited : Edited templates fresh w edit w') :
    Wiring rt w' ↔ Keeps rt templates w (.edit edit) := by
  cases hedited with
  | setGoal goal hgoal => exact iff_of_true ⟨h.ids, h.outputs, h.dependencies, h.inputs⟩ trivial
  | addReviewedNode templateId sourceNodeId newNodeId node hvalid hunused hreviewed =>
    exact wiring_addReviewedNode h hvalid hreviewed
  | removeNode nodeId hpresent => exact wiring_removeNode _ h
  | connect id port targetId source _ before after target hdistinct hfound hexported hupdated =>
    exact iff_of_true (wiring_connect h hfound hexported hupdated) trivial
  | disconnect id targetId _ before after target hupdated =>
    exact iff_of_true (wiring_disconnect h hupdated) trivial
  | setParameters nodeId parameters _ before after step hobject hupdated =>
    exact wiring_setParameters h hupdated

/-! ## Runs -/

/-- A run of accepted commands, with the composer each of them was given. -/
inductive AcceptedRun (rt : Runtime) (templates : Templates) (start : WorkflowComposer) :
    List (WorkflowComposer × ComposerCommand) → WorkflowComposer → Prop
  | nil : AcceptedRun rt templates start [] start
  | snoc (steps : List (WorkflowComposer × ComposerCommand)) (c c' : WorkflowComposer)
      (call : Fresh) (command : ComposerCommand) (event : ComposerEvent)
      (run : AcceptedRun rt templates start steps c)
      (accepted : apply rt templates call command c = .ok event c') :
      AcceptedRun rt templates start (steps ++ [(c, command)]) c'

/-- The draft is wired and what its nodes export can be connected. -/
def Wired (rt : Runtime) (templates : Templates) (c : WorkflowComposer) : Prop :=
  Wiring rt c.workflow ∧ Connectable rt templates c

/-- The draft and the drafts on both stacks are wired. -/
structure AllWired (rt : Runtime) (c : WorkflowComposer) : Prop where
  draft : Wiring rt c.workflow
  undo : ∀ w ∈ c.undo, Wiring rt w
  redo : ∀ w ∈ c.redo, Wiring rt w

theorem allWired_start (h : fromReviewedWorkflow rt w = .ok c) : AllWired rt c := by
  obtain ⟨hvalid, rfl⟩ := fromReviewedWorkflow_ok.mp h
  have hwiring := wiring_of_valid hvalid
  exact ⟨⟨hwiring.ids, hwiring.outputs, hwiring.dependencies, hwiring.inputs⟩, by simp, by simp⟩

variable {command : ComposerCommand}

theorem AllWired.revised (h : AllWired rt c) (hrevised : Revised templates fresh c command c')
    (hkeeps : Keeps rt templates c.workflow command) : AllWired rt c' := by
  cases hrevised with
  | undo previous rest hundo =>
    have hstack := h.undo
    rw [hundo, forall_mem_cons] at hstack
    exact ⟨hstack.1, hstack.2, forall_mem_cons.mpr ⟨h.draft, h.redo⟩⟩
  | redo next rest hredo =>
    have hstack := h.redo
    rw [hredo, forall_mem_cons] at hstack
    exact ⟨hstack.1, forall_mem_cons.mpr ⟨h.draft, h.undo⟩, hstack.2⟩
  | edit edit w' hedited =>
    exact ⟨(wiring_edited h.draft hedited).mpr hkeeps,
      forall_mem_cons.mpr ⟨h.draft, h.undo⟩, by simp⟩

theorem AllWired.accepted {call : Fresh} {event : ComposerEvent}
    (h : AllWired rt c) (haccepted : apply rt templates call command c = .ok event c')
    (hkeeps : Keeps rt templates c.workflow command) : AllWired rt c' := by
  obtain ⟨c₁, hrevised, -, rfl⟩ := apply_ok.mp haccepted
  have hwired := h.revised hrevised hkeeps
  exact ⟨hwired.draft, hwired.undo, hwired.redo⟩

theorem keeps_of_wiring {call : Fresh} {event : ComposerEvent}
    (h : Wiring rt c.workflow) (haccepted : apply rt templates call command c = .ok event c')
    (h' : Wiring rt c'.workflow) : Keeps rt templates c.workflow command := by
  obtain ⟨c₁, hrevised, -, rfl⟩ := apply_ok.mp haccepted
  cases hrevised with
  | undo previous rest hundo => trivial
  | redo next rest hredo => trivial
  | edit edit w' hedited => exact (wiring_edited h hedited).mp h'

theorem allWired_run {start : WorkflowComposer} {steps : List (WorkflowComposer × ComposerCommand)}
    (hstart : AllWired rt start) (hrun : AcceptedRun rt templates start steps c)
    (hkeeps : ∀ step ∈ steps, Keeps rt templates step.1.workflow step.2) :
    (∀ step ∈ steps, AllWired rt step.1) ∧ AllWired rt c := by
  induction hrun with
  | nil => exact ⟨by simp, hstart⟩
  | snoc steps c c' call command event hrun haccepted ih =>
    rw [forall_mem_append, forall_mem_singleton] at hkeeps
    obtain ⟨hsteps, hc⟩ := ih hkeeps.1
    refine ⟨?_, hc.accepted haccepted hkeeps.2⟩
    rw [forall_mem_append, forall_mem_singleton]
    exact ⟨hsteps, hc⟩

theorem keeps_run {start : WorkflowComposer} {steps : List (WorkflowComposer × ComposerCommand)}
    (hrun : AcceptedRun rt templates start steps c)
    (hsteps : ∀ step ∈ steps, Wiring rt step.1.workflow) (hc : Wiring rt c.workflow) :
    ∀ step ∈ steps, Keeps rt templates step.1.workflow step.2 := by
  induction hrun with
  | nil => simp
  | snoc steps c c' call command event hrun haccepted ih =>
    rw [forall_mem_append, forall_mem_singleton] at hsteps ⊢
    exact ⟨ih hsteps.1 hsteps.2, keeps_of_wiring hsteps.2 haccepted hc⟩

/-- The drafts of a run are wired exactly when every command kept the wiring of the
draft it was given. -/
theorem run_wired_iff {start : WorkflowComposer} {steps : List (WorkflowComposer × ComposerCommand)}
    (hstart : fromReviewedWorkflow rt w = .ok start)
    (hrun : AcceptedRun rt templates start steps c) :
    ((∀ step ∈ steps, Wired rt templates step.1) ∧ Wired rt templates c) ↔
      ∀ step ∈ steps, Keeps rt templates step.1.workflow step.2 := by
  constructor
  · intro h
    exact keeps_run hrun (fun step hstep => (h.1 step hstep).1) h.2.1
  · intro hkeeps
    obtain ⟨hsteps, hc⟩ := allWired_run (allWired_start hstart) hrun hkeeps
    exact ⟨fun step hstep => ⟨(hsteps step hstep).draft, (hsteps step hstep).draft.connectable _⟩,
      hc.draft, hc.draft.connectable _⟩

/-! ## A reviewed template -/

def dagStep (id : Uuid) (stableId operation : String) (parameters : Value)
    (dependencies : List String) : WorkflowStep :=
  { id := id, stableId := stableId, operation := operation, parameters := parameters,
    expectedSchema := none, validation := none, provenance := none, dependsOn := dependencies,
    inputs := dependencies.map fun dependency => .output dependency "result",
    outputs := [.output stableId "result"], outputContracts := [] }

def localCogMetadataTemplate : GeoWorkflow where
  id := Uuid.ofNat 0
  goal := "ローカルCOGデモのメタデータを表示"
  assumptions := ["Asset is read from bundled smoke GeoTIFF fixture"]
  inputs := []
  inputContracts := []
  steps :=
    [dagStep (Uuid.ofNat 1) "find-dataset" "FindDataset"
        (.object [("tags", .ofList .str ["cog", "local", "demo"])]) [],
      dagStep (Uuid.ofNat 2) "probe-raster-metadata" "ProbeRasterMetadata"
        (.object [("read_mode", .str "local")]) ["find-dataset"],
      dagStep (Uuid.ofNat 3) "summarize-cog-info" "SummarizeCogInfo" (.object [])
        ["probe-raster-metadata"],
      dagStep (Uuid.ofNat 4) "attach-sources" "AttachSources" (.object [])
        ["summarize-cog-info"]]
  outputs := []
  outputRefs := [.output "attach-sources" "result"]
  citations := []
  reviewStatus := .draft

/-- The catalog, as far as the runs below look into it. -/
def catalog : Templates := fun id =>
  if id = "local-cog-metadata" then some localCogMetadataTemplate else none

def findDataset : WorkflowStep := dagStep (Uuid.ofNat 1) "find-dataset" "FindDataset"
    (.object [("tags", .ofList .str ["cog", "local", "demo"])]) []

theorem reviewedNode_catalog :
    reviewedNode catalog "local-cog-metadata" "find-dataset" = some findDataset := by
  rfl

def draftOf (w : GeoWorkflow) : WorkflowComposer :=
  { workflow := { w with reviewStatus := .draft }, events := [], undo := [], redo := [] }

def sampleCall : Fresh := { node := Uuid.ofNat 10, event := Uuid.ofNat 11 }

/-- Add a copy of the first step of the template. -/
def addCopy (nodeId : String) : ComposerCommand :=
  .edit (.addReviewedNode "local-cog-metadata" "find-dataset" nodeId)

theorem exists_addCopy {nodeId : String} (hvalid : validateNodeId nodeId = .ok ())
    (hunused : ∀ step ∈ w.steps, step.stableId ≠ nodeId) :
    ∃ event c, apply .reference catalog sampleCall (addCopy nodeId) (draftOf w) = .ok event c ∧
      c.workflow.steps = w.steps ++ [findDataset.reviewedCopy sampleCall.node nodeId] := by
  have hedited := @Edited.addReviewedNode catalog sampleCall.node (draftOf w).workflow
    "local-cog-metadata" _ nodeId findDataset hvalid hunused reviewedNode_catalog
  exact ⟨_, _, apply_ok.mpr ⟨_, .edit _ _ hedited, rfl, rfl⟩, rfl⟩

theorem connect_refused {source port target : String} {call : Fresh} (hdistinct : source ≠ target)
    (hfound : (c.workflow.steps.find? fun s => s.stableId = source) = some step)
    (hunexported : WorkflowDataRef.output source port ∉ step.outputs) :
    apply rt templates call (.edit (.connect source port target)) c =
      .error (.notFound (source ++ "." ++ port)) c := by
  have hany : (step.outputs.any fun output =>
      output.node = some source && output.port = port) = false := by
    rw [← Bool.not_eq_true, output_mem]
    exact hunexported
  have hfind : findStep source c.workflow.steps = .ok step := findStep_ok.mpr hfound
  have hedit : applyEdit templates call.node (.connect source port target) c.workflow =
      .error (.notFound (source ++ "." ++ port)) c.workflow := by
    rw [applyEdit, bind_apply, check, if_pos (by simpa using hdistinct)]
    show (lift (findStep source c.workflow.steps) >>= _) c.workflow = _
    rw [bind_apply, hfind]
    show (check _ _ >>= _) c.workflow = _
    rw [bind_apply, check, hany]
    rfl
  have hrevise : revise templates call.node (.edit (.connect source port target)) c =
      .error (.notFound (source ++ "." ++ port)) c := by
    rw [revise]
    show (zoom _ _ _ >>= _) c = _
    rw [bind_apply, zoom, hedit]
  rw [apply, bind_apply, hrevise]

theorem copied_node_not_connectable : ∃ start event c,
      fromReviewedWorkflow .reference localCogMetadataTemplate = .ok start ∧
      apply .reference catalog sampleCall (addCopy "find-dataset-2") start = .ok event c ∧
      ¬ Wiring .reference c.workflow ∧
      apply .reference catalog sampleCall
        (.edit (.connect "find-dataset-2" "result" "attach-sources")) c =
        .error (.notFound "find-dataset-2.result") c := by
  have hvalid : localCogMetadataTemplate.validate .reference = .ok () := by decide
  obtain ⟨event, c, haccepted, hsteps⟩ := @exists_addCopy localCogMetadataTemplate "find-dataset-2"
    (by decide) (by decide)
  refine ⟨draftOf localCogMetadataTemplate, event, c,
    fromReviewedWorkflow_ok.mpr ⟨validate_ok.mp hvalid, rfl⟩, haccepted, ?_, ?_⟩
  · intro hwiring
    have hcopy : findDataset.reviewedCopy sampleCall.node "find-dataset-2" ∈ c.workflow.steps := by
      rw [hsteps]
      simp
    have hnode := hwiring.outputs _ hcopy (.output "find-dataset" "result") (by decide)
    rw [nodeId_named (by decide)] at hnode
    exact absurd hnode (by decide)
  · have hfound : (c.workflow.steps.find? fun s => s.stableId = "find-dataset-2") =
        some (findDataset.reviewedCopy sampleCall.node "find-dataset-2") := by
      rw [hsteps]
      rfl
    exact connect_refused (by decide) hfound (by decide)

/-- A copy that keeps the identifier of its template joins the diamond. -/
theorem run_wired_copy : ∃ start event c, fromReviewedWorkflow .reference diamond = .ok start ∧
      apply .reference catalog sampleCall (addCopy "find-dataset") start = .ok event c ∧
      Wired .reference catalog start ∧ Wired .reference catalog c := by
  have hvalid : diamond.validate .reference = .ok () := by rfl
  have hstart : fromReviewedWorkflow .reference diamond = .ok (draftOf diamond) :=
    fromReviewedWorkflow_ok.mpr ⟨validate_ok.mp hvalid, rfl⟩
  obtain ⟨event, c, haccepted, -⟩ := @exists_addCopy diamond "find-dataset" (by decide) (by decide)
  have hrun : AcceptedRun .reference catalog (draftOf diamond)
      [(draftOf diamond, addCopy "find-dataset")] c :=
    .snoc [] _ c sampleCall _ event .nil haccepted
  have hkeeps : Keeps .reference catalog (draftOf diamond).workflow (addCopy "find-dataset") := by
    intro node hnode
    rw [reviewedNode_catalog] at hnode
    cases hnode
    exact ⟨by decide, by decide, by decide⟩
  have hwired := (run_wired_iff hstart hrun).mpr (forall_mem_singleton.mpr hkeeps)
  exact ⟨_, event, c, hstart, haccepted, hwired.1 _ mem_cons_self, hwired.2⟩

end GeneGIS.WorkflowComposer
