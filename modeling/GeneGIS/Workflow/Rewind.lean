/-
An accepted undo or redo moves along the timeline of the session and an accepted edit commits to
it.  A refused command changes nothing.
-/
import GeneGIS.Data.Timeline
import GeneGIS.Workflow.Wiring

namespace GeneGIS.WorkflowComposer

open Fallible GeoWorkflow List

/-- A command with the identifiers drawn for it. -/
abbrev Call := Fresh × ComposerCommand

/-- The composer after a call, accepted or not. -/
def perform (rt : Runtime) (templates : Templates) (c : WorkflowComposer) (call : Call) :
    WorkflowComposer :=
  match apply rt templates call.1 call.2 c with
  | .ok _ c' => c'
  | .error _ c' => c'

def run (rt : Runtime) (templates : Templates) (calls : List Call) (c : WorkflowComposer) :
    WorkflowComposer :=
  calls.foldl (perform rt templates) c

def acceptedCount (rt : Runtime) (templates : Templates) : List Call → WorkflowComposer → Nat
  | [], _ => 0
  | call :: rest, c =>
    match apply rt templates call.1 call.2 c with
    | .ok _ c' => acceptedCount rt templates rest c' + 1
    | .error _ c' => acceptedCount rt templates rest c'

def undoCalls (fresh : List Fresh) : List Call := fresh.map fun f => (f, .undo)

def redoCalls (fresh : List Fresh) : List Call := fresh.map fun f => (f, .redo)

variable {rt : Runtime} {templates : Templates} {c c' : WorkflowComposer} {call : Fresh}
  {command : ComposerCommand} {event : ComposerEvent}

theorem perform_ok (h : apply rt templates call command c = .ok event c') :
    perform rt templates c (call, command) = c' := by
  rw [perform, h]

theorem perform_error {error : ComposerError}
    (h : apply rt templates call command c = .error error c') :
    perform rt templates c (call, command) = c := by
  rw [perform, h]
  exact atomic_apply c error c' h

def timeline (c : WorkflowComposer) : Timeline GeoWorkflow := ⟨c.undo, c.workflow, c.redo⟩

theorem timeline_undo (h : apply rt templates call .undo c = .ok event c') :
    c.timeline.back = some c'.timeline := by
  obtain ⟨c₁, hrevised, -, rfl⟩ := apply_ok.mp h
  cases hrevised with
  | undo previous rest hundo =>
    rw [timeline, hundo]
    rfl

theorem timeline_redo (h : apply rt templates call .redo c = .ok event c') :
    c.timeline.forth = some c'.timeline := by
  obtain ⟨c₁, hrevised, -, rfl⟩ := apply_ok.mp h
  cases hrevised with
  | redo next rest hredo =>
    rw [timeline, hredo]
    rfl

theorem timeline_edit {edit : ComposerEdit}
    (h : apply rt templates call (.edit edit) c = .ok event c') :
    c'.timeline = c.timeline.commit c'.workflow := by
  obtain ⟨c₁, hrevised, -, rfl⟩ := apply_ok.mp h
  cases hrevised with
  | edit _ w' hedited => rfl

theorem redo_accepted (rt : Runtime) (templates : Templates) (call : Fresh)
    (h : c.timeline.position + 1 < c.timeline.states.length) :
    ∃ event c', apply rt templates call .redo c = .ok event c' := by
  cases hredo : c.redo with
  | nil =>
    have hlength := c.timeline.length_states
    rw [timeline, hredo, length_nil] at hlength
    rw [timeline, hredo] at h
    omega
  | cons next rest => exact ⟨_, _, apply_ok.mpr ⟨_, .redo next rest hredo, rfl, rfl⟩⟩

/-! ## Moves -/

theorem run_undos (rt : Runtime) (templates : Templates) (undos : List Fresh)
    (c : WorkflowComposer) :
    (run rt templates (undoCalls undos) c).timeline.states = c.timeline.states ∧
      (run rt templates (undoCalls undos) c).timeline.position +
        acceptedCount rt templates (undoCalls undos) c = c.timeline.position := by
  induction undos generalizing c with
  | nil => exact ⟨rfl, rfl⟩
  | cons call rest ih =>
    show (run rt templates (undoCalls rest) (perform rt templates c (call, .undo))).timeline.states =
        _ ∧ (run rt templates (undoCalls rest)
          (perform rt templates c (call, .undo))).timeline.position +
        acceptedCount rt templates ((call, .undo) :: undoCalls rest) c = _
    rw [acceptedCount]
    cases happly : apply rt templates call .undo c with
    | ok event c' =>
      obtain ⟨hstates, hposition⟩ := Timeline.back_some (timeline_undo happly)
      obtain ⟨hrest, hcount⟩ := ih c'
      rw [perform_ok happly, hrest, hstates]
      show _ ∧ _ + (acceptedCount rt templates (undoCalls rest) c' + 1) = _
      refine ⟨rfl, ?_⟩
      omega
    | error error c' =>
      rw [perform_error happly, atomic_apply c error c' happly]
      exact ih c

theorem run_redos (rt : Runtime) (templates : Templates) (redos : List Fresh) (c : WorkflowComposer)
    (h : c.timeline.position + redos.length < c.timeline.states.length) :
    (run rt templates (redoCalls redos) c).timeline.states = c.timeline.states ∧
      (run rt templates (redoCalls redos) c).timeline.position =
        c.timeline.position + redos.length := by
  induction redos generalizing c with
  | nil => exact ⟨rfl, rfl⟩
  | cons call rest ih =>
    rw [length_cons] at h ⊢
    obtain ⟨event, c', happly⟩ := redo_accepted rt templates call (c := c) (by omega)
    obtain ⟨hstates, hposition⟩ := Timeline.forth_some (timeline_redo happly)
    have hahead : c'.timeline.position + rest.length < c'.timeline.states.length := by
      rw [hstates]
      omega
    obtain ⟨hrest, hmoved⟩ := ih c' hahead
    show (run rt templates (redoCalls rest) (perform rt templates c (call, .redo))).timeline.states =
        _ ∧ (run rt templates (redoCalls rest)
          (perform rt templates c (call, .redo))).timeline.position = _
    rw [perform_ok happly, hrest, hstates]
    refine ⟨rfl, ?_⟩
    omega

theorem run_undos_redos (rt : Runtime) (templates : Templates) (undos redos : List Fresh)
    (c : WorkflowComposer)
    (h : redos.length = acceptedCount rt templates (undoCalls undos) c) :
    (run rt templates (undoCalls undos ++ redoCalls redos) c).timeline = c.timeline := by
  obtain ⟨hstates, hposition⟩ := run_undos rt templates undos c
  have hlt := c.timeline.position_lt
  have hahead : (run rt templates (undoCalls undos) c).timeline.position + redos.length <
      (run rt templates (undoCalls undos) c).timeline.states.length := by
    rw [hstates]
    omega
  obtain ⟨hstates', hposition'⟩ := run_redos rt templates redos _ hahead
  have hrun : run rt templates (undoCalls undos ++ redoCalls redos) c =
      run rt templates (redoCalls redos) (run rt templates (undoCalls undos) c) :=
    foldl_append
  rw [hrun]
  exact Timeline.ext_states (hstates'.trans hstates) (by omega)

theorem perform_events (rt : Runtime) (templates : Templates) (c : WorkflowComposer) (call : Call) :
    c.events <+: (perform rt templates c call).events := by
  obtain ⟨fresh, command⟩ := call
  cases happly : apply rt templates fresh command c with
  | ok event c' =>
    rw [perform_ok happly]
    obtain ⟨c₁, hrevised, -, rfl⟩ := apply_ok.mp happly
    have hevents : c₁.events = c.events := by
      cases hrevised <;> rfl
    rw [← hevents]
    exact prefix_append _ _
  | error error c' =>
    rw [perform_error happly]

theorem run_events (rt : Runtime) (templates : Templates) (calls : List Call)
    (c : WorkflowComposer) : c.events <+: (run rt templates calls c).events := by
  induction calls generalizing c with
  | nil => exact prefix_rfl
  | cons call rest ih => exact (perform_events rt templates c call).trans (ih _)

/-- A refused command changes nothing, redos take back as many undos, an accepted edit leaves
nothing to redo, and events are only appended. -/
theorem run_history (rt : Runtime) (templates : Templates) (start : WorkflowComposer)
    (calls : List Call) :
    let c := run rt templates calls start
    (∀ call command error c', apply rt templates call command c = .error error c' → c' = c) ∧
    (∀ call event c₁, apply rt templates call .undo c = .ok event c₁ →
      ∀ call', ∃ event' c₂, apply rt templates call' .redo c₁ = .ok event' c₂ ∧
        c₂.workflow = c.workflow ∧ c₂.undo = c.undo ∧ c₂.redo = c.redo) ∧
    (∀ undos redos, redos.length = acceptedCount rt templates (undoCalls undos) c →
      (run rt templates (undoCalls undos ++ redoCalls redos) c).workflow = c.workflow) ∧
    (∀ call edit event c', apply rt templates call (.edit edit) c = .ok event c' → c'.redo = []) ∧
    start.events <+: c.events := by
  intro c
  refine ⟨?_, ?_, ?_, ?_, run_events rt templates calls start⟩
  · intro call command error c' h
    exact atomic_apply c error c' h
  · intro call event c₁ hundo call'
    obtain ⟨hstates, hposition⟩ := Timeline.back_some (timeline_undo hundo)
    have hahead : c₁.timeline.position + 1 < c₁.timeline.states.length := by
      have hlt := c.timeline.position_lt
      rw [hstates]
      omega
    obtain ⟨event', c₂, hredo⟩ := redo_accepted rt templates call' hahead
    obtain ⟨hstates', hposition'⟩ := Timeline.forth_some (timeline_redo hredo)
    have hsame : c₂.timeline = c.timeline := Timeline.ext_states (hstates'.trans hstates) (by omega)
    exact ⟨event', c₂, hredo, congrArg Timeline.present hsame, congrArg Timeline.past hsame,
      congrArg Timeline.future hsame⟩
  · intro undos redos h
    exact congrArg Timeline.present (run_undos_redos rt templates undos redos c h)
  · intro call edit event c' h
    exact congrArg Timeline.future (timeline_edit h)

/-- Change the goal and take the change back. -/
def retitled : WorkflowComposer := run .reference catalog
    [(sampleCall, .edit (.setGoal "COG report")), (sampleCall, .undo)]
    (draftOf localCogMetadataTemplate)

/-- An undo is refused at the start of the history, and the redo that follows it is
not. -/
theorem refused_undo_then_redo : fromReviewedWorkflow .reference localCogMetadataTemplate =
      .ok (draftOf localCogMetadataTemplate) ∧
    (run .reference catalog (undoCalls [sampleCall] ++ redoCalls [sampleCall])
      retitled).workflow ≠ retitled.workflow := by
  have hvalid : localCogMetadataTemplate.validate .reference = .ok () := by decide
  refine ⟨fromReviewedWorkflow_ok.mpr ⟨validate_ok.mp hvalid, rfl⟩, ?_⟩
  intro heq
  have hgoal : (run .reference catalog (undoCalls [sampleCall] ++ redoCalls [sampleCall])
      retitled).workflow.goal = retitled.workflow.goal := by rw [heq]
  exact absurd hgoal (by decide)

/-- The change is taken back and made again. -/
theorem run_history_retitled : acceptedCount .reference catalog (undoCalls [sampleCall])
      (run .reference catalog [(sampleCall, .edit (.setGoal "COG report"))]
        (draftOf localCogMetadataTemplate)) = 1 ∧
    (run .reference catalog (undoCalls [sampleCall] ++ redoCalls [sampleCall])
      (run .reference catalog [(sampleCall, .edit (.setGoal "COG report"))]
        (draftOf localCogMetadataTemplate))).workflow.goal = "COG report" := by
  have hcount : acceptedCount .reference catalog (undoCalls [sampleCall])
      (run .reference catalog [(sampleCall, .edit (.setGoal "COG report"))]
        (draftOf localCogMetadataTemplate)) = 1 := by rfl
  refine ⟨hcount, ?_⟩
  have hsame := (run_history .reference catalog (draftOf localCogMetadataTemplate)
    [(sampleCall, .edit (.setGoal "COG report"))]).2.2.1 [sampleCall] [sampleCall] hcount.symm
  rw [hsame]
  rfl

end GeneGIS.WorkflowComposer
