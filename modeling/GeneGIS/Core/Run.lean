/-
Whatever is known of all projects a command can produce is known of all projects a run keeps, since
undo and redo only go back to kept ones.
-/
import GeneGIS.Data.Path
import GeneGIS.Core.Authorize
import GeneGIS.Core.History

namespace GeneGIS.Session

open Fallible CommandBus List

def Accepts (rt : Runtime) (s : Session) (op : Op) (s' : Session) : Prop :=
  match op with
  | .apply now envelope => ∃ r, Session.apply rt now envelope s = .ok r s'
  | .applyWithExecutor now envelope executor =>
    ∃ r, Session.applyWithExecutor rt now envelope executor s = .ok r s'
  | .registerWorkflow workflow => ∃ digest, Session.registerWorkflow rt workflow s = .ok digest s'
  | .undo => Session.undo s = .ok () s'
  | .redo => Session.redo s = .ok () s'

/-- The envelope of a call, if it is a command. -/
def Op.envelope? : Op → Option CommandEnvelope
  | .apply _ envelope => some envelope
  | .applyWithExecutor _ envelope _ => some envelope
  | _ => none

def register (workflow : GeoWorkflow) (s : Session) : Session :=
  { s with bus := { s.bus with workflows := s.bus.workflows.insert workflow.id workflow } }

/-- What an accepted call does. -/
inductive Called (rt : Runtime) (s : Session) : Op → Session → Prop
  | command (op : Op) (now : DateTime) (envelope : CommandEnvelope)
      (executor : Option WorkflowExecutor) (s' : Session) (is : op.envelope? = some envelope)
      (accepted : Accepted rt now envelope executor s s') : Called rt s op s'
  | register (workflow : GeoWorkflow) (valid : workflow.validate rt = .ok ()) :
      Called rt s (.registerWorkflow workflow) (s.register workflow)
  | undo (state : Project) (cursor : s.bus.cursor ≠ 0)
      (snapshot : s.bus.beforeStates[s.bus.cursor - 1]? = some state) :
      Called rt s .undo (s.moveTo (s.bus.cursor - 1) state)
  | redo (state : Project) (cursor : s.bus.cursor < s.bus.history.length)
      (snapshot : s.bus.afterStates[s.bus.cursor]? = some state) :
      Called rt s .redo (s.moveTo (s.bus.cursor + 1) state)

variable {rt : Runtime} {s s' : Session} {op : Op}

theorem session_registerWorkflow_ok {workflow : GeoWorkflow} :
    (∃ digest, Session.registerWorkflow rt workflow s = .ok digest s') ↔
      workflow.validate rt = .ok () ∧ s' = s.register workflow := by
  simp only [Session.registerWorkflow, zoom_ok]
  constructor
  · rintro ⟨digest, bus', hbus, rfl⟩
    obtain ⟨hvalid, rfl⟩ := registerWorkflow_ok.mp ⟨digest, hbus⟩
    exact ⟨hvalid, rfl⟩
  · rintro ⟨hvalid, rfl⟩
    obtain ⟨digest, hbus⟩ := registerWorkflow_ok.mpr ⟨hvalid, rfl⟩
    exact ⟨digest, _, hbus, rfl⟩

theorem Accepts.called (h : Accepts rt s op s') : Called rt s op s' := by
  cases op with
  | apply now envelope => exact .command _ now envelope none _ rfl (dispatch_ok.mp h)
  | applyWithExecutor now envelope executor =>
    exact .command _ now envelope (some executor) _ rfl (dispatch_ok.mp h)
  | registerWorkflow workflow =>
    obtain ⟨hvalid, rfl⟩ := session_registerWorkflow_ok.mp h
    exact .register workflow hvalid
  | undo =>
    obtain ⟨hcursor, state, hstate, rfl⟩ := undo_ok.mp h
    exact .undo state hcursor hstate
  | redo =>
    obtain ⟨hcursor, state, hstate, rfl⟩ := redo_ok.mp h
    exact .redo state hcursor hstate

/-- A property of the present project and of every snapshot. -/
structure Keeps (P : Project → Prop) (s : Session) : Prop where
  project : P s.project
  before : ∀ q ∈ s.bus.beforeStates, P q
  after : ∀ q ∈ s.bus.afterStates, P q

variable {P : Project → Prop}

theorem keeps_start {p : Project} (h : P p) : Keeps P (start p) :=
  ⟨h, by simp [start, CommandBus.new], by simp [start, CommandBus.new]⟩

theorem Keeps.commit (h : Keeps P s) {p : Project} (hp : P p) (envelope : CommandEnvelope)
    (run : Option (WorkflowDigest × WorkflowExecution)) : Keeps P (s.commit envelope run p) where
  project := hp
  before q hq := by
    rcases mem_append.mp hq with hq | hq
    · exact h.before q (mem_of_mem_take hq)
    · rw [mem_singleton.mp hq]
      exact h.project
  after q hq := by
    rcases mem_append.mp hq with hq | hq
    · exact h.after q (mem_of_mem_take hq)
    · rw [mem_singleton.mp hq]
      exact hp

theorem Keeps.called (h : Keeps P s) (hcalled : Called rt s op s') (hp : P s'.project) :
    Keeps P s' := by
  cases hcalled with
  | command _ now envelope executor _ his haccepted =>
    cases haccepted with
    | undo => exact ⟨hp, h.before, h.after⟩
    | redo => exact ⟨hp, h.before, h.after⟩
    | mutation run => exact h.commit hp envelope run
  | register => exact ⟨hp, h.before, h.after⟩
  | undo => exact ⟨hp, h.before, h.after⟩
  | redo => exact ⟨hp, h.before, h.after⟩

theorem Called.project (hcalled : Called rt s op s') :
    (∃ now envelope executor run, op.envelope? = some envelope ∧
        s.bus.authorize rt envelope executor = .ok run ∧
        Project.Mutates rt now envelope run s.project s'.project ∧
        s' = s.commit envelope run s'.project) ∨
      (∀ envelope, op.envelope? = some envelope →
          envelope.command = .undo ∨ envelope.command = .redo) ∧
        ∀ P, Keeps P s → P s'.project := by
  have hmoved : ∀ {state : Project} {i j : Nat}, s.bus.beforeStates[i]? = some state ∨
      s.bus.afterStates[j]? = some state → ∀ P, Keeps P s → P state := by
    intro state i j hstate P hkeeps
    rcases hstate with hstate | hstate
    · exact hkeeps.before state (mem_of_getElem? hstate)
    · exact hkeeps.after state (mem_of_getElem? hstate)
  have hissued : ∀ {command : Command} {envelope : CommandEnvelope},
      op.envelope? = some envelope → envelope.command = command →
      ∀ e, op.envelope? = some e → e.command = command := by
    intro command envelope his hcommand e he
    rw [his] at he
    rw [← Option.some.inj he, hcommand]
  cases hcalled with
  | command _ now envelope executor _ his haccepted =>
    cases haccepted with
    | undo state hcommand _ hstate =>
      exact .inr ⟨fun e he => .inl (hissued his hcommand e he),
        hmoved (j := 0) (.inl hstate)⟩
    | redo state hcommand _ hstate =>
      exact .inr ⟨fun e he => .inr (hissued his hcommand e he),
        hmoved (i := 0) (.inr hstate)⟩
    | mutation run p _ _ hauthorized hp =>
      exact .inl ⟨now, envelope, executor, run, his, hauthorized, hp, rfl⟩
  | register workflow _ =>
    exact .inr ⟨(fun e he => nomatch he), fun P hkeeps => hkeeps.project⟩
  | undo state _ hstate =>
    exact .inr ⟨(fun e he => nomatch he), hmoved (j := 0) (.inl hstate)⟩
  | redo state _ hstate =>
    exact .inr ⟨(fun e he => nomatch he), hmoved (i := 0) (.inr hstate)⟩

/-! ## An editing session

A layer is added and made editable, bound to a workflow with the two nodes this
needs. -/

def editWorkflow : GeoWorkflow :=
  sampleWorkflow "edit" [sampleStep "initialize" "InitializeEditableLayer" [],
    sampleStep "create" "EditFeatureCreate" ["initialize"],
    sampleStep "style" "SetEvidenceMapStyle" ["create"]]

theorem editWorkflow_valid : editWorkflow.validate .reference = .ok () := by
  rfl

def boundTo (nodeId : String) : MutationWorkflowBinding := ⟨editWorkflow.id, nodeId⟩

def boundEnvelope (id : Nat) (command : Command) : CommandEnvelope :=
  { sampleEnvelope id command with
    workflowDigest := some ⟨editWorkflow.stableDigestUnchecked .reference⟩ }

variable (envelope : CommandEnvelope)

/-- The project after a command, refused or not. -/
def mutated (run : Option (WorkflowDigest × WorkflowExecution)) (p : Project) : Project :=
  match Project.applyMutation .reference ⟨0⟩ envelope run p with
  | .ok _ p' => p'
  | .error _ p' => p'

def mutable (run : Option (WorkflowDigest × WorkflowExecution)) (p : Project) : Bool :=
  match Project.applyMutation .reference ⟨0⟩ envelope run p with
  | .ok _ _ => true
  | .error _ _ => false

def issue (s : Session) : Session := s.commit envelope none (mutated envelope none s.project)

theorem mutates_mutated {envelope : CommandEnvelope}
    {run : Option (WorkflowDigest × WorkflowExecution)} {p : Project}
    (h : mutable envelope run p = true) :
    Project.Mutates .reference ⟨0⟩ envelope run p (mutated envelope run p) := by
  rw [mutable] at h
  rw [mutated, ← Project.applyMutation_ok (u := ())]
  cases happly : Project.applyMutation .reference ⟨0⟩ envelope run p with
  | ok u p' => rfl
  | error e p' => simp [happly] at h

theorem accepts_issue {envelope : CommandEnvelope} (hundo : envelope.command ≠ .undo)
    (hredo : envelope.command ≠ .redo)
    (hauthorized : Authorized .reference s.bus.workflows envelope none none)
    (hmutable : mutable envelope none s.project = true) :
    Accepts .reference s (.apply ⟨0⟩ envelope) (s.issue envelope) := by
  have haccepted : Accepted .reference ⟨0⟩ envelope none s (s.issue envelope) :=
    .mutation none _ hundo hredo (authorize_ok.mpr hauthorized) (mutates_mutated hmutable)
  exact dispatch_ok.mpr haccepted

theorem authorized_bound {workflows : Std.ExtTreeMap Uuid GeoWorkflow} {id : Nat}
    {command : Command} {nodeId operation : String}
    (hbinding : requiredBinding command = some (boundTo nodeId, operation))
    (hworkflow : workflows[editWorkflow.id]? = some editWorkflow)
    (hnode : ∃ node, editWorkflow.steps.find? (fun step => step.nodeId .reference = nodeId) =
      some node ∧ node.operation = operation) :
    Authorized .reference workflows (boundEnvelope id command) none none := by
  have hrun : ∀ workflowId, (boundEnvelope id command).command ≠ .runWorkflow workflowId := by
    intro workflowId h
    have hnone := requiredBinding_runWorkflow h
    rw [show (boundEnvelope id command).command = command from rfl, hbinding] at hnone
    cases hnone
  obtain ⟨node, hfind, hoperation⟩ := hnode
  rw [Authorized, referredWorkflow_other hrun]
  simp only [show (boundEnvelope id command).command = command from rfl, hbinding, Option.map_some]
  refine ⟨editWorkflow, hworkflow, ⟨?_, fun workflowId h => absurd h (hrun workflowId)⟩,
    (runs_other hrun).mpr rfl⟩
  intro binding operation' h
  rw [show (boundEnvelope id command).command = command from rfl, hbinding] at h
  cases h
  exact validateBinding_ok editWorkflow_valid rfl hfind hoperation

def addRoads : CommandEnvelope := sampleEnvelope 1 (.addLayer "roads" (Uuid.ofNat 0))

def initializeRoads : CommandEnvelope :=
  boundEnvelope 2 (.initializeEditableLayer (Uuid.ofNat 1) (Crs.epsg 4326) .point
    EditableLayer.sampleSchema (boundTo "initialize"))

def roadsAdded : Session := (start sampleProject).issue addRoads

def roadsBound : Session := roadsAdded.register editWorkflow

def roadsEditable : Session := roadsBound.issue initializeRoads

theorem roadsBound_workflow : roadsBound.bus.workflows[editWorkflow.id]? = some editWorkflow := by
  show (roadsAdded.bus.workflows.insert _ _)[_]? = _
  rw [Std.ExtTreeMap.getElem?_insert_self]

theorem path_roadsEditable : Path (Accepts .reference) (start sampleProject)
      [(start sampleProject, .apply ⟨0⟩ addRoads), (roadsAdded, .registerWorkflow editWorkflow),
        (roadsBound, .apply ⟨0⟩ initializeRoads)] roadsEditable := by
  have hadd : Accepts .reference (start sampleProject) (.apply ⟨0⟩ addRoads) roadsAdded :=
    accepts_issue (by decide) (by decide) rfl (by rfl)
  have hregister : Accepts .reference roadsAdded (.registerWorkflow editWorkflow) roadsBound :=
    session_registerWorkflow_ok.mpr ⟨editWorkflow_valid, rfl⟩
  have hinitialize : Accepts .reference roadsBound (.apply ⟨0⟩ initializeRoads) roadsEditable :=
    accepts_issue (by decide) (by decide)
      (authorized_bound rfl roadsBound_workflow ⟨_, rfl, rfl⟩) (by rfl)
  exact ((Path.nil.snoc hadd).snoc hregister).snoc hinitialize

end GeneGIS.Session
