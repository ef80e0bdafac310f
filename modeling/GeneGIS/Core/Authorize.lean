/-
The graph registered under its workflow admits it and, for a run, the executor returns an
execution.  Whether it is admitted depends on graph and command only.
-/
import GeneGIS.Core.Dispatch

namespace GeneGIS.CommandBus

open Fallible Except

variable {rt : Runtime} {envelope : CommandEnvelope} {executor : Option WorkflowExecutor}
  {run : Option (WorkflowDigest × WorkflowExecution)} {workflow : GeoWorkflow}

/-- The workflow whose registered graph a command is checked against. -/
def referredWorkflow : Command → Option Uuid
  | .runWorkflow workflowId => some workflowId
  | command => (requiredBinding command).map fun b => b.1.workflowId

/-- The graph passes the checks that `command` makes on it. -/
def Admits (rt : Runtime) (workflow : GeoWorkflow) (envelope : CommandEnvelope) : Prop :=
  (∀ binding operation, requiredBinding envelope.command = some (binding, operation) →
    validateBinding rt workflow envelope binding operation = .ok ()) ∧
  (∀ workflowId, envelope.command = .runWorkflow workflowId →
    ∃ digest, validateRun rt workflow envelope = .ok digest)

/-- The execution behind an accepted command; only a run has one. -/
def Runs (executor : Option WorkflowExecutor) (workflow : GeoWorkflow)
    (envelope : CommandEnvelope) (run : Option (WorkflowDigest × WorkflowExecution)) : Prop :=
  match envelope.command with
  | .runWorkflow _ =>
    ∃ execute digest execution, executor = some execute ∧ envelope.workflowDigest = some digest ∧
      execute workflow (contextOf envelope digest) = .ok execution ∧
      Text.isBlank execution.resultDigest = false ∧ run = some (digest, execution)
  | _ => run = none

/-- What `authorize` lets through. -/
def Authorized (rt : Runtime) (workflows : Std.ExtTreeMap Uuid GeoWorkflow)
    (envelope : CommandEnvelope) (executor : Option WorkflowExecutor)
    (run : Option (WorkflowDigest × WorkflowExecution)) : Prop :=
  match referredWorkflow envelope.command with
  | none => run = none
  | some workflowId =>
    ∃ workflow, workflows[workflowId]? = some workflow ∧ Admits rt workflow envelope ∧
      Runs executor workflow envelope run

theorem stableDigest_ok {text : String} (h : workflow.stableDigest rt = .ok text) :
    text = workflow.stableDigestUnchecked rt := by
  obtain ⟨_, -, h⟩ := bind_iff.mp h
  exact (ok.inj h).symm

theorem validateRun_digest {digest : WorkflowDigest}
    (h : validateRun rt workflow envelope = .ok digest) :
    envelope.workflowDigest = some digest ∧
      digest = WorkflowDigest.new (workflow.stableDigestUnchecked rt) := by
  obtain ⟨text, htext, h⟩ := bind_iff.mp h
  obtain rfl := stableDigest_ok (mapError_iff.mp htext)
  cases hdigest : envelope.workflowDigest with
  | none => simp [hdigest] at h
  | some expected =>
    simp only [hdigest] at h
    split at h
    · cases h
    next hne =>
      obtain ⟨_, -, h⟩ := bind_iff.mp h
      cases h
      exact ⟨by rw [Classical.not_not.mp hne], rfl⟩

theorem execute_ok {validated : GeoWorkflow × WorkflowDigest} :
    execute executor envelope (some validated) = .ok run ↔
      ∃ execute execution, executor = some execute ∧
        execute validated.1 (contextOf envelope validated.2) = .ok execution ∧
        Text.isBlank execution.resultDigest = false ∧ run = some (validated.2, execution) := by
  obtain ⟨workflow, digest⟩ := validated
  cases executor with
  | none => simp [execute]
  | some f =>
    simp only [execute, bind_iff, mapError_iff]
    constructor
    · rintro ⟨execution, hf, h⟩
      cases hblank : Text.isBlank execution.resultDigest with
      | true =>
        simp only [hblank, if_true] at h
        cases h
      | false =>
        simp only [hblank, Bool.false_eq_true, if_false] at h
        exact ⟨f, execution, rfl, hf, hblank, (ok.inj h).symm⟩
    · rintro ⟨_, execution, hexecutor, hf, hblank, rfl⟩
      cases hexecutor
      exact ⟨execution, hf, by simp only [hblank, Bool.false_eq_true, if_false]; rfl⟩

theorem validateMutationWorkflow_ok {bus : CommandBus} :
    bus.validateMutationWorkflow rt envelope = .ok () ↔
      ∀ binding operation, requiredBinding envelope.command = some (binding, operation) →
        ∃ workflow, bus.workflows[binding.workflowId]? = some workflow ∧
          validateBinding rt workflow envelope binding operation = .ok () := by
  rw [validateMutationWorkflow]
  cases hrequired : requiredBinding envelope.command with
  | none => simp
  | some required =>
    obtain ⟨binding, operation⟩ := required
    simp only [Option.some.injEq, Prod.mk.injEq, and_imp]
    cases hworkflow : bus.workflows[binding.workflowId]? with
    | none =>
      constructor
      · nofun
      · intro h
        obtain ⟨workflow, hsome, -⟩ := h binding operation rfl rfl
        rw [hworkflow] at hsome
        cases hsome
    | some workflow =>
      constructor
      · rintro h _ _ rfl rfl
        exact ⟨workflow, hworkflow, h⟩
      · intro h
        obtain ⟨_, hsome, h⟩ := h binding operation rfl rfl
        rw [hworkflow] at hsome
        cases hsome
        exact h

theorem requiredBinding_runWorkflow {workflowId : Uuid}
    (h : envelope.command = .runWorkflow workflowId) : requiredBinding envelope.command = none := by
  rw [h]
  rfl

theorem authorize_runWorkflow {bus : CommandBus} {workflowId : Uuid}
    (hcommand : envelope.command = .runWorkflow workflowId) :
    bus.authorize rt envelope executor = .ok run ↔
      ∃ workflow, bus.workflows[workflowId]? = some workflow ∧
        (∃ digest, validateRun rt workflow envelope = .ok digest) ∧
        Runs executor workflow envelope run := by
  have hbinding : bus.validateMutationWorkflow rt envelope = .ok () := by
    rw [validateMutationWorkflow_ok, requiredBinding_runWorkflow hcommand]
    simp
  simp only [authorize, hbinding, bind_iff, validateWorkflowCommand, hcommand, Runs]
  constructor
  · rintro ⟨_, -, validated, hvalidated, hexecute⟩
    cases hworkflow : bus.workflows[workflowId]? with
    | none => simp [hworkflow] at hvalidated
    | some workflow =>
      simp only [hworkflow, bind_iff] at hvalidated
      obtain ⟨digest, hdigest, hvalidated⟩ := hvalidated
      cases hvalidated
      obtain ⟨f, execution, hf, hexecution, hblank, hrun⟩ := execute_ok.mp hexecute
      exact ⟨workflow, rfl, ⟨digest, hdigest⟩, f, digest, execution, hf,
        (validateRun_digest hdigest).1, hexecution, hblank, hrun⟩
  · rintro ⟨workflow, hworkflow, ⟨digest, hdigest⟩, f, digest', execution, hf, henvelope,
      hexecution, hblank, hrun⟩
    obtain rfl : digest = digest' := by
      rw [(validateRun_digest hdigest).1] at henvelope
      exact Option.some.inj henvelope
    refine ⟨(), trivial, some (workflow, digest), ?_, ?_⟩
    · simp only [hworkflow, bind_iff]
      exact ⟨digest, hdigest, rfl⟩
    · exact execute_ok.mpr ⟨f, execution, hf, hexecution, hblank, hrun⟩

theorem authorize_other {bus : CommandBus}
    (hcommand : ∀ workflowId, envelope.command ≠ .runWorkflow workflowId) :
    bus.authorize rt envelope executor = .ok run ↔
      bus.validateMutationWorkflow rt envelope = .ok () ∧ run = none := by
  have hvalidated : bus.validateWorkflowCommand rt envelope = .ok none := by
    rw [validateWorkflowCommand]
    split
    next workflowId h => exact absurd h (hcommand workflowId)
    next => rfl
  simp only [authorize, hvalidated, bind_iff, execute]
  constructor
  · rintro ⟨_, hmutation, _, hnone, h⟩
    cases hnone
    exact ⟨hmutation, (ok.inj h).symm⟩
  · rintro ⟨hmutation, rfl⟩
    exact ⟨(), hmutation, none, rfl, rfl⟩

theorem referredWorkflow_other
    (hcommand : ∀ workflowId, envelope.command ≠ .runWorkflow workflowId) :
    referredWorkflow envelope.command =
      (requiredBinding envelope.command).map fun b => b.1.workflowId := by
  cases h : envelope.command with
  | runWorkflow workflowId => exact absurd h (hcommand workflowId)
  | _ => rfl

theorem runs_other (hcommand : ∀ workflowId, envelope.command ≠ .runWorkflow workflowId) :
    Runs executor workflow envelope run ↔ run = none := by
  rw [Runs]
  split
  next workflowId h => exact absurd h (hcommand workflowId)
  next => rfl

theorem authorize_ok {bus : CommandBus} : bus.authorize rt envelope executor = .ok run ↔
      Authorized rt bus.workflows envelope executor run := by
  by_cases hrun : ∃ workflowId, envelope.command = .runWorkflow workflowId
  · obtain ⟨workflowId, hcommand⟩ := hrun
    have hreferred : referredWorkflow envelope.command = some workflowId := by
      rw [hcommand]
      rfl
    have hadmits : ∀ workflow, Admits rt workflow envelope ↔
        ∃ digest, validateRun rt workflow envelope = .ok digest := by
      intro workflow
      rw [Admits, requiredBinding_runWorkflow hcommand]
      simp [hcommand]
    simp only [authorize_runWorkflow hcommand, Authorized, hreferred, hadmits]
  · have hcommand : ∀ workflowId, envelope.command ≠ .runWorkflow workflowId :=
      fun workflowId h => hrun ⟨workflowId, h⟩
    rw [authorize_other hcommand, validateMutationWorkflow_ok, Authorized,
      referredWorkflow_other hcommand]
    cases hrequired : requiredBinding envelope.command with
    | none => simp
    | some required =>
      obtain ⟨binding, operation⟩ := required
      simp only [Option.map_some, runs_other hcommand, Admits, hrequired, Option.some.injEq,
        Prod.mk.injEq, and_imp]
      constructor
      · rintro ⟨h, rfl⟩
        obtain ⟨workflow, hworkflow, hvalid⟩ := h binding operation rfl rfl
        refine ⟨workflow, hworkflow, ⟨?_, fun id h => absurd h (hcommand id)⟩, rfl⟩
        rintro _ _ rfl rfl
        exact hvalid
      · rintro ⟨workflow, hworkflow, ⟨hvalid, -⟩, rfl⟩
        refine ⟨?_, rfl⟩
        rintro _ _ rfl rfl
        exact ⟨workflow, hworkflow, hvalid _ _ rfl rfl⟩

theorem validateBinding_ok {binding : MutationWorkflowBinding} {operation : String}
    {node : WorkflowStep} (hvalid : workflow.validate rt = .ok ())
    (hdigest : envelope.workflowDigest = some ⟨workflow.stableDigestUnchecked rt⟩)
    (hnode : workflow.steps.find? (fun step => step.nodeId rt = binding.nodeId) = some node)
    (hoperation : node.operation = operation) :
    validateBinding rt workflow envelope binding operation = .ok () := by
  have hstable : workflow.stableDigest rt = .ok (workflow.stableDigestUnchecked rt) := by
    rw [GeoWorkflow.stableDigest, hvalid]
    rfl
  rw [validateBinding, hstable, hdigest]
  refine then_ok rfl ?_
  simp only [hnode, ne_eq, not_true_eq_false, if_false, hoperation]
  rfl

theorem validateRun_ok (hvalid : workflow.validate rt = .ok ()) (hdigest : envelope.workflowDigest =
      some (WorkflowDigest.new (workflow.stableDigestUnchecked rt)))
    (hinputs : validateInputSnapshots workflow envelope = .ok ()) :
    validateRun rt workflow envelope =
      .ok (WorkflowDigest.new (workflow.stableDigestUnchecked rt)) := by
  have hstable : workflow.stableDigest rt = .ok (workflow.stableDigestUnchecked rt) := by
    rw [GeoWorkflow.stableDigest, hvalid]
    rfl
  rw [validateRun, hstable, hdigest]
  refine then_ok rfl ?_
  simp only [ne_eq, not_true_eq_false, if_false, hinputs]
  rfl

end GeneGIS.CommandBus
