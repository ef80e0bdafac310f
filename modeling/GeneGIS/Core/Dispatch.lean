/-
`Accepted` lists the three things: to move the cursor back or forth, or to commit a mutation.  A
failure leaves the session alone (`dispatch_atomic`).
-/
import GeneGIS.Core.Mutation

namespace GeneGIS.Session

open Fallible CommandBus

def moveTo (cursor : Nat) (state : Project) (s : Session) : Session :=
  { project := state, bus := { s.bus with cursor := cursor, currentState := some state } }

def commit (envelope : CommandEnvelope) (run : Option (WorkflowDigest × WorkflowExecution))
    (after : Project) (s : Session) : Session :=
  { project := after, bus := s.bus.commit envelope run s.project after }

variable {s s' : Session}

theorem undo_ok {u : Unit} : undo s = .ok u s' ↔ s.bus.cursor ≠ 0 ∧
      ∃ state, s.bus.beforeStates[s.bus.cursor - 1]? = some state ∧
        s' = s.moveTo (s.bus.cursor - 1) state := by
  simp only [undo, bind_ok, get_ok, check_ok, decide_eq_true_eq]
  constructor
  · rintro ⟨_, _, ⟨rfl, rfl⟩, _, _, ⟨hcursor, rfl⟩, h⟩
    cases hstate : s.bus.beforeStates[s.bus.cursor - 1]? with
    | none => simp [hstate] at h
    | some state =>
      rw [hstate] at h
      exact ⟨hcursor, state, rfl, (modify_ok.mp h).symm⟩
  · rintro ⟨hcursor, state, hstate, rfl⟩
    refine ⟨s, s, ⟨rfl, rfl⟩, (), s, ⟨hcursor, rfl⟩, ?_⟩
    rw [hstate]
    rfl

theorem redo_ok {u : Unit} : redo s = .ok u s' ↔ s.bus.cursor < s.bus.history.length ∧
      ∃ state, s.bus.afterStates[s.bus.cursor]? = some state ∧
        s' = s.moveTo (s.bus.cursor + 1) state := by
  simp only [redo, bind_ok, get_ok, check_ok, decide_eq_true_eq]
  constructor
  · rintro ⟨_, _, ⟨rfl, rfl⟩, _, _, ⟨hcursor, rfl⟩, h⟩
    cases hstate : s.bus.afterStates[s.bus.cursor]? with
    | none => simp [hstate] at h
    | some state =>
      rw [hstate] at h
      exact ⟨hcursor, state, rfl, (modify_ok.mp h).symm⟩
  · rintro ⟨hcursor, state, hstate, rfl⟩
    refine ⟨s, s, ⟨rfl, rfl⟩, (), s, ⟨hcursor, rfl⟩, ?_⟩
    rw [hstate]
    rfl

inductive Accepted (rt : Runtime) (now : DateTime) (envelope : CommandEnvelope)
    (executor : Option WorkflowExecutor) (s : Session) : Session → Prop
  | undo (state : Project) (command : envelope.command = .undo) (cursor : s.bus.cursor ≠ 0)
      (snapshot : s.bus.beforeStates[s.bus.cursor - 1]? = some state) :
      Accepted rt now envelope executor s
        ((s.moveTo (s.bus.cursor - 1) state).logEvent envelope)
  | redo (state : Project) (command : envelope.command = .redo)
      (cursor : s.bus.cursor < s.bus.history.length)
      (snapshot : s.bus.afterStates[s.bus.cursor]? = some state) :
      Accepted rt now envelope executor s
        ((s.moveTo (s.bus.cursor + 1) state).logEvent envelope)
  | mutation (run : Option (WorkflowDigest × WorkflowExecution)) (after : Project)
      (noUndo : envelope.command ≠ .undo) (noRedo : envelope.command ≠ .redo)
      (authorized : s.bus.authorize rt envelope executor = .ok run)
      (mutates : Project.Mutates rt now envelope run s.project after) :
      Accepted rt now envelope executor s (s.commit envelope run after)

/-- The part of `dispatch` that is neither undo nor redo. -/
def dispatchMutation (rt : Runtime) (now : DateTime) (envelope : CommandEnvelope)
    (executor : Option WorkflowExecutor) : Fallible CommandError Session CommandExecution := do
  let s ← get
  let run ← lift (s.bus.authorize rt envelope executor)
  let before := s.project
  zoom Session.project (fun s p => { s with project := p })
    (Project.applyMutation rt now envelope run)
  modify fun s => { s with bus := s.bus.commit envelope run before s.project }
  let s ← get
  return s.execution rt envelope.id run

variable {executor : Option WorkflowExecutor} {envelope : CommandEnvelope} {rt : Runtime}

variable {now : DateTime}

theorem dispatch_eq_mutation (hundo : envelope.command ≠ .undo) (hredo : envelope.command ≠ .redo) :
    dispatch rt now envelope executor = dispatchMutation rt now envelope executor := by
  unfold dispatch
  split
  · contradiction
  · contradiction
  · rfl

theorem dispatchMutation_ok : (∃ r, dispatchMutation rt now envelope executor s = .ok r s') ↔
      ∃ run after, s.bus.authorize rt envelope executor = .ok run ∧
        Project.Mutates rt now envelope run s.project after ∧
        s' = s.commit envelope run after := by
  simp only [dispatchMutation, bind_ok, get_ok, lift_ok, modify_ok, pure_ok, zoom_ok,
    Project.applyMutation_ok]
  constructor
  · rintro ⟨r, _, _, ⟨rfl, rfl⟩, run, _, ⟨hrun, rfl⟩, _, _, ⟨after, hmutates, rfl⟩, _, _, rfl, _, _,
      ⟨rfl, rfl⟩, -, rfl⟩
    exact ⟨run, after, hrun, hmutates, rfl⟩
  · rintro ⟨run, after, hrun, hmutates, rfl⟩
    exact ⟨_, s, s, ⟨rfl, rfl⟩, run, s, ⟨hrun, rfl⟩, (), _, ⟨after, hmutates, rfl⟩, ⟨⟩, _, rfl, _, _,
      ⟨rfl, rfl⟩, rfl, rfl⟩

theorem logged_ok {m : Fallible CommandError Session Unit} :
    (∃ r, (m >>= fun _ => modify (logEvent envelope) >>= fun _ => get >>= fun s =>
        pure (s.execution rt envelope.id none) : Fallible CommandError Session _) s = .ok r s') ↔
      ∃ s₁, m s = .ok () s₁ ∧ s' = s₁.logEvent envelope := by
  simp only [bind_ok, modify_ok, get_ok, pure_ok]
  constructor
  · rintro ⟨r, _, s₁, hm, _, _, rfl, _, _, ⟨rfl, rfl⟩, -, rfl⟩
    exact ⟨s₁, hm, rfl⟩
  · rintro ⟨s₁, hm, rfl⟩
    exact ⟨_, (), s₁, hm, ⟨⟩, _, rfl, _, _, ⟨rfl, rfl⟩, rfl, rfl⟩

theorem dispatch_undo_ok (h : envelope.command = .undo) :
    (∃ r, dispatch rt now envelope executor s = .ok r s') ↔
      ∃ s₁, undo s = .ok () s₁ ∧ s' = s₁.logEvent envelope := by
  simp only [dispatch, h]
  exact logged_ok

theorem dispatch_redo_ok (h : envelope.command = .redo) :
    (∃ r, dispatch rt now envelope executor s = .ok r s') ↔
      ∃ s₁, redo s = .ok () s₁ ∧ s' = s₁.logEvent envelope := by
  simp only [dispatch, h]
  exact logged_ok

theorem dispatch_ok : (∃ r, dispatch rt now envelope executor s = .ok r s') ↔
      Accepted rt now envelope executor s s' := by
  by_cases hundo : envelope.command = .undo
  · rw [dispatch_undo_ok hundo]
    constructor
    · rintro ⟨s₁, h, rfl⟩
      obtain ⟨hcursor, state, hstate, rfl⟩ := undo_ok.mp h
      exact .undo state hundo hcursor hstate
    · rintro (⟨state, -, hcursor, hstate⟩ | ⟨_, hredo⟩ | ⟨_, _, hno⟩)
      · exact ⟨_, undo_ok.mpr ⟨hcursor, state, hstate, rfl⟩, rfl⟩
      · rw [hundo] at hredo
        cases hredo
      · exact absurd hundo hno
  · by_cases hredo : envelope.command = .redo
    · rw [dispatch_redo_ok hredo]
      constructor
      · rintro ⟨s₁, h, rfl⟩
        obtain ⟨hcursor, state, hstate, rfl⟩ := redo_ok.mp h
        exact .redo state hredo hcursor hstate
      · rintro (⟨_, h⟩ | ⟨state, -, hcursor, hstate⟩ | ⟨_, _, _, hno⟩)
        · exact absurd h hundo
        · exact ⟨_, redo_ok.mpr ⟨hcursor, state, hstate, rfl⟩, rfl⟩
        · exact absurd hredo hno
    · rw [dispatch_eq_mutation hundo hredo, dispatchMutation_ok]
      constructor
      · rintro ⟨run, after, hrun, hmutates, rfl⟩
        exact .mutation run after hundo hredo hrun hmutates
      · rintro (⟨_, h⟩ | ⟨_, h⟩ | ⟨run, after, -, -, hrun, hmutates⟩)
        · exact absurd h hundo
        · exact absurd h hredo
        · exact ⟨run, after, hrun, hmutates, rfl⟩

/-! ## Failures -/

theorem undo_atomic : Atomic undo := by
  refine observes_get.bind fun s => (observes_check _ _).bind fun _ => ?_
  cases s.bus.beforeStates[s.bus.cursor - 1]? with
  | none => exact atomic_throw _
  | some state => exact (total_modify _).atomic

theorem redo_atomic : Atomic redo := by
  refine observes_get.bind fun s => (observes_check _ _).bind fun _ => ?_
  cases s.bus.afterStates[s.bus.cursor]? with
  | none => exact atomic_throw _
  | some state => exact (total_modify _).atomic

theorem total_get_bind {ε σ α : Type} {f : σ → Fallible ε σ α} (hf : ∀ a, Total (f a)) :
    Total (get >>= f) :=
  Total.bind (fun s e s' h => by cases h) hf

theorem dispatch_atomic (rt : Runtime) (now : DateTime) (envelope : CommandEnvelope)
    (executor : Option WorkflowExecutor) : Atomic (dispatch rt now envelope executor) := by
  have hreceipt : ∀ run, Total (do
      let s ← get
      return s.execution rt envelope.id run :
        Fallible CommandError Session CommandExecution) :=
    fun run => total_get_bind fun s => total_pure _
  unfold dispatch
  split
  · exact undo_atomic.bind fun _ => (total_modify _).bind fun _ => hreceipt none
  · exact redo_atomic.bind fun _ => (total_modify _).bind fun _ => hreceipt none
  · refine observes_get.bind fun s => (observes_lift _).bind fun run => ?_
    have hmutation : Atomic (zoom Session.project (fun s p => { s with project := p })
        (Project.applyMutation rt now envelope run)) :=
      (Project.applyMutation_atomic rt now envelope run).zoom fun _ => rfl
    exact hmutation.bind fun _ => (total_modify _).bind fun _ => hreceipt run

theorem registerWorkflow_ok {workflow : GeoWorkflow} {bus bus' : CommandBus} :
    (∃ digest, CommandBus.registerWorkflow rt workflow bus = .ok digest bus') ↔
      workflow.validate rt = .ok () ∧
        bus' = { bus with workflows := bus.workflows.insert workflow.id workflow } := by
  simp only [CommandBus.registerWorkflow, bind_ok, lift_ok, modify_ok, pure_ok]
  constructor
  · rintro ⟨digest, _, _, ⟨hvalid, rfl⟩, _, _, ⟨-, rfl⟩, _, _, rfl, -, rfl⟩
    refine ⟨?_, rfl⟩
    cases hv : workflow.validate rt with
    | ok u => rfl
    | error e => simp [hv, Except.mapError] at hvalid
  · rintro ⟨hvalid, rfl⟩
    have hdigest : workflow.stableDigest rt = .ok (workflow.stableDigestUnchecked rt) := by
      rw [GeoWorkflow.stableDigest, hvalid]
      rfl
    exact ⟨_, (), bus, ⟨by rw [hvalid]; rfl, rfl⟩, _, bus, ⟨by rw [hdigest]; rfl, rfl⟩, ⟨⟩, _, rfl,
      rfl, rfl⟩

theorem registerWorkflow_atomic (rt : Runtime) (workflow : GeoWorkflow) :
    Atomic (CommandBus.registerWorkflow rt workflow) := by
  refine (observes_lift _).bind fun _ => (observes_lift _).bind fun digest => ?_
  exact ((total_modify _).bind fun _ => total_pure _).atomic

/-- A failed command leaves the session alone, except that its workflow may stay registered. -/
theorem failed_command_unchanged (rt : Runtime) (now : DateTime) (envelope : CommandEnvelope)
    (s s' : Session) (e : CommandError) :
    (apply rt now envelope s = .error e s' → s' = s) ∧
    (∀ executor, applyWithExecutor rt now envelope executor s = .error e s' → s' = s) ∧
    (∀ workflow, applyWithWorkflow rt now envelope workflow s = .error e s' →
      s'.project = s.project ∧ s'.bus = { s.bus with workflows := s'.bus.workflows } ∧
        (s'.bus.workflows = s.bus.workflows ∨
          s'.bus.workflows = s.bus.workflows.insert workflow.id workflow)) := by
  refine ⟨dispatch_atomic rt now envelope none s e s',
    fun executor => dispatch_atomic rt now envelope (some executor) s e s', ?_⟩
  intro workflow h
  rcases bind_error h with h | ⟨digest, s₁, hregister, h⟩
  · -- The workflow was refused.
    have hatomic : Atomic (registerWorkflow rt workflow) :=
      (registerWorkflow_atomic rt workflow).zoom fun _ => rfl
    obtain rfl := hatomic s e s' h
    exact ⟨rfl, rfl, .inl rfl⟩
  · -- The workflow was registered and the command was refused.
    obtain rfl := dispatch_atomic rt now envelope none s₁ e s' h
    obtain ⟨bus', hbus, rfl⟩ := zoom_ok.mp hregister
    obtain ⟨-, rfl⟩ := registerWorkflow_ok.mp ⟨digest, hbus⟩
    exact ⟨rfl, rfl, .inr rfl⟩

/-! A project without layers, a workflow of one node, and an undo with nothing to
undo. -/

def sampleProject : Project := Project.new (Uuid.ofNat 0) ⟨0⟩ "sample"

def sampleSession : Session := { bus := CommandBus.new sampleProject, project := sampleProject }

def sampleEnvelope (id : Nat) (command : Command) : CommandEnvelope :=
  { id := Uuid.ofNat id, origin := .cli, timestamp := ⟨0⟩, workflowDigest := none,
    sourceSnapshots := [], inputSnapshots := [], command := command }

def sampleStep (nodeId operation : String) (dependsOn : List String) : WorkflowStep :=
  { id := Uuid.ofNat 0, stableId := nodeId, operation := operation, parameters := .null,
    expectedSchema := none, validation := none, provenance := none, dependsOn := dependsOn,
    inputs := dependsOn.map fun node => .output node "result",
    outputs := [.output nodeId "result"], outputContracts := [] }

def sampleWorkflow (goal : String) (steps : List WorkflowStep) : GeoWorkflow :=
  { id := Uuid.ofNat 9, goal := goal, assumptions := [], inputs := [], inputContracts := [],
    steps := steps, outputs := [], outputRefs := [], citations := [], reviewStatus := .approved }

def measureWorkflow : GeoWorkflow := sampleWorkflow "measure" [sampleStep "measure" "Measure" []]

theorem measureWorkflow_valid : measureWorkflow.validate .reference = .ok () := by
  rfl

def failingExecutor : WorkflowExecutor := fun _ _ => .error (.failed "offline")

theorem failed_undo_unchanged :
    (∃ e s', apply .reference ⟨0⟩ (sampleEnvelope 1 .undo) sampleSession = .error e s' ∧
      s' = sampleSession) ∧
    (∃ e s', applyWithExecutor .reference ⟨0⟩ (sampleEnvelope 1 .undo) failingExecutor
        sampleSession = .error e s' ∧ s' = sampleSession) ∧
    (∃ e s', applyWithWorkflow .reference ⟨0⟩ (sampleEnvelope 1 .undo) measureWorkflow
        sampleSession = .error e s' ∧ s'.project = sampleSession.project) := by
  have happly : apply .reference ⟨0⟩ (sampleEnvelope 1 .undo) sampleSession =
      .error .nothingToUndo sampleSession := rfl
  have hexecutor : applyWithExecutor .reference ⟨0⟩ (sampleEnvelope 1 .undo) failingExecutor
      sampleSession = .error .nothingToUndo sampleSession := rfl
  have hworkflow : ∃ s', applyWithWorkflow .reference ⟨0⟩ (sampleEnvelope 1 .undo) measureWorkflow
      sampleSession = .error .nothingToUndo s' := by
    obtain ⟨digest, hregister⟩ :=
      (@registerWorkflow_ok .reference measureWorkflow sampleSession.bus _).mpr
        ⟨measureWorkflow_valid, rfl⟩
    refine ⟨{ sampleSession with
      bus := { sampleSession.bus with
        workflows := sampleSession.bus.workflows.insert measureWorkflow.id measureWorkflow } }, ?_⟩
    simp only [applyWithWorkflow, registerWorkflow, zoom, hregister, bind, EStateM.bind]
    rfl
  obtain ⟨s', hworkflow⟩ := hworkflow
  exact ⟨⟨_, _, happly, (failed_command_unchanged _ _ _ _ _ _).1 happly⟩,
    ⟨_, _, hexecutor, (failed_command_unchanged _ _ _ _ _ _).2.1 _ hexecutor⟩,
    ⟨_, s', hworkflow, ((failed_command_unchanged _ _ _ _ _ _).2.2 _ hworkflow).1⟩⟩

end GeneGIS.Session
