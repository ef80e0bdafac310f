/-
A composer holds a draft, the events and two stacks of earlier drafts.  An edit keeps the draft
reached so far, but a refused one does nothing (`atomic_applyEdit`).  Templates and drawn
identifiers are parameters.
-/
import GeneGIS.Data.Fallible
import GeneGIS.Workflow.Graph

namespace GeneGIS

open List

/-- The commands that change the draft. -/
inductive ComposerEdit where
  | setGoal (goal : String)
  | addReviewedNode (templateId sourceNodeId newNodeId : String)
  | removeNode (nodeId : String)
  | connect (sourceNodeId sourcePort targetNodeId : String)
  | disconnect (sourceNodeId targetNodeId : String)
  | setParameters (nodeId : String) (parameters : Value)

inductive ComposerCommand where
  | edit (edit : ComposerEdit)
  | undo
  | redo

structure ComposerEvent where
  id : Uuid
  command : ComposerCommand
  /-- Digest of the resulting draft, when it can be executed. -/
  executableDigest : Option String

/-- Both stacks hold the last draft pushed first. -/
structure WorkflowComposer where
  workflow : GeoWorkflow
  events : List ComposerEvent
  undo : List GeoWorkflow
  redo : List GeoWorkflow

inductive ComposerError where
  | unknownTemplate (id : String)
  | notFound (target : String)
  | invalidNodeId (reason : String)
  | emptyHistory (move : String)
  | invalidWorkflow (error : WorkflowValidationError)
  | digest (error : WorkflowValidationError)
  deriving DecidableEq

/-- The reviewed workflows by their catalog identity. -/
abbrev Templates := String → Option GeoWorkflow

/-- Random identifiers for the node and the event of one call. -/
structure Fresh where
  node : Uuid
  event : Uuid

def Value.isObject (v : Value) : Bool :=
  match v.json with
  | .obj _ => true
  | _ => false

def WorkflowDataRef.isGraphInput (r : WorkflowDataRef) : Bool := r.node.isNone

namespace WorkflowStep

/-- Drop every dependency and input that names a node. -/
def forget (nodeId : WorkflowNodeId) (s : WorkflowStep) : WorkflowStep :=
  { s with
    dependsOn := s.dependsOn.filter fun dependency => dependency ≠ nodeId
    inputs := s.inputs.filter fun input => input.node ≠ some nodeId }

/-- Depend on a node and read one of its ports, unless the step does so already. -/
def readFrom (source : WorkflowNodeId) (port : String) (s : WorkflowStep) : WorkflowStep :=
  { s with
    dependsOn :=
      if s.dependsOn.any fun node => node = source then s.dependsOn
      else s.dependsOn ++ [source]
    inputs :=
      if s.inputs.any fun input => input.node = some source && input.port = port then s.inputs
      else s.inputs ++ [.output source port] }

/-- The copy of a template step that joins a draft. -/
def reviewedCopy (id : Uuid) (nodeId : WorkflowNodeId) (s : WorkflowStep) : WorkflowStep :=
  { s with
    id := id
    stableId := nodeId
    dependsOn := []
    inputs := s.inputs.filter WorkflowDataRef.isGraphInput }

end WorkflowStep

namespace WorkflowComposer

open Fallible

abbrev Draft := Fallible ComposerError GeoWorkflow

/-! ## Edits -/

def isNodeIdChar (c : Char) : Bool := ('a' ≤ c && c ≤ 'z') || ('0' ≤ c && c ≤ '9') || c == '-'

def validateNodeId (value : String) : Except ComposerError Unit :=
  if value.toList.isEmpty || !value.toList.all isNodeIdChar then .error (.invalidNodeId value)
  else .ok ()

def templateWorkflow (templates : Templates) (id : String) : Except ComposerError GeoWorkflow :=
  match templates id with
  | some workflow => .ok workflow
  | none => .error (.unknownTemplate id)

/-- The first step of that stable identifier. -/
def findStep (nodeId : String) (steps : List WorkflowStep) : Except ComposerError WorkflowStep :=
  match steps.find? fun step => step.stableId = nodeId with
  | some step => .ok step
  | none => .error (.notFound nodeId)

/-- Change the first step of that stable identifier. -/
def updateStep (nodeId : String) (change : WorkflowStep → WorkflowStep) : Draft Unit :=
  zoom GeoWorkflow.steps (fun w steps => { w with steps := steps })
    (onFirst (fun step => step.stableId = nodeId) (.notFound nodeId) (modify change))

def applyEdit (templates : Templates) (fresh : Uuid) : ComposerEdit → Draft Unit
  | .setGoal goal => do
    check (!Text.isBlank goal) (.invalidNodeId "blank goal")
    modify fun w => { w with goal := Text.trim goal }
  | .addReviewedNode templateId sourceNodeId newNodeId => do
    lift (validateNodeId newNodeId)
    let workflow ← get
    check (!workflow.steps.any fun step => step.stableId = newNodeId) (.invalidNodeId newNodeId)
    let template ← lift (templateWorkflow templates templateId)
    let node ← lift (findStep sourceNodeId template.steps)
    modify fun w => { w with steps := w.steps ++ [node.reviewedCopy fresh newNodeId] }
  | .removeNode nodeId => do
    let before ← get
    modify fun w => { w with steps := w.steps.filter fun step => step.stableId ≠ nodeId }
    let workflow ← get
    check (workflow.steps.length ≠ before.steps.length) (.notFound nodeId)
    modify fun w => { w with steps := w.steps.map (WorkflowStep.forget nodeId) }
    modify fun w =>
      { w with outputRefs := w.outputRefs.filter fun output => output.node ≠ some nodeId }
  | .connect sourceNodeId sourcePort targetNodeId => do
    check (sourceNodeId ≠ targetNodeId) (.invalidNodeId sourceNodeId)
    let workflow ← get
    let source ← lift (findStep sourceNodeId workflow.steps)
    check (source.outputs.any fun output =>
        output.node = some sourceNodeId && output.port = sourcePort)
      (.notFound (sourceNodeId ++ "." ++ sourcePort))
    updateStep targetNodeId (WorkflowStep.readFrom sourceNodeId sourcePort)
  | .disconnect sourceNodeId targetNodeId =>
    updateStep targetNodeId (WorkflowStep.forget sourceNodeId)
  | .setParameters nodeId parameters => do
    check parameters.isObject (.invalidNodeId "parameters must be an object")
    updateStep nodeId fun step => { step with parameters := parameters }

def fromReviewedWorkflow (rt : Runtime) (workflow : GeoWorkflow) :
    Except ComposerError WorkflowComposer := do
  (workflow.validate rt).mapError .invalidWorkflow
  let _ ← (workflow.stableDigest rt).mapError .digest
  return { workflow := { workflow with reviewStatus := .draft }, events := [], undo := [],
           redo := [] }

/-- Move or edit the draft and keep the stacks. -/
def revise (templates : Templates) (fresh : Uuid) :
    ComposerCommand → Fallible ComposerError WorkflowComposer Unit
  | .undo => do
    let composer ← get
    match composer.undo with
    | [] => throw (.emptyHistory "undo")
    | previous :: rest =>
      modify fun c =>
        { c with undo := rest, redo := composer.workflow :: c.redo, workflow := previous }
  | .redo => do
    let composer ← get
    match composer.redo with
    | [] => throw (.emptyHistory "redo")
    | next :: rest =>
      modify fun c => { c with redo := rest, undo := composer.workflow :: c.undo, workflow := next }
  | .edit edit => do
    let before ← get
    zoom WorkflowComposer.workflow (fun c w => { c with workflow := w })
      (applyEdit templates fresh edit)
    modify fun c => { c with undo := before.workflow :: c.undo, redo := [] }

def executableDigest (rt : Runtime) (w : GeoWorkflow) : Option String :=
  (w.validate rt).toOption.bind fun _ => (w.stableDigest rt).toOption

def apply (rt : Runtime) (templates : Templates) (fresh : Fresh) (command : ComposerCommand) :
    Fallible ComposerError WorkflowComposer ComposerEvent := do
  revise templates fresh.node command
  let composer ← get
  let event : ComposerEvent :=
    { id := fresh.event, command := command
      executableDigest := executableDigest rt composer.workflow }
  modify fun c => { c with events := c.events ++ [event] }
  return event

/-! ## What a call does -/

variable {templates : Templates} {fresh : Uuid} {w w' : GeoWorkflow} {edit : ComposerEdit}
  {c c' : WorkflowComposer} {u : Unit}

/-- The first step of that stable identifier is changed. -/
structure Updated (nodeId : String) (change : WorkflowStep → WorkflowStep) (w w' : GeoWorkflow)
    (before : List WorkflowStep) (step : WorkflowStep) (after : List WorkflowStep) : Prop where
  steps : w.steps = before ++ step :: after
  first : ∀ s ∈ before, s.stableId ≠ nodeId
  id : step.stableId = nodeId
  result : w' = { w with steps := before ++ change step :: after }

theorem updateStep_ok {nodeId : String} {change : WorkflowStep → WorkflowStep} :
    updateStep nodeId change w = .ok u w' ↔
      ∃ before step after, Updated nodeId change w w' before step after := by
  rw [updateStep, zoom_ok]
  simp only [onFirst_ok, modify_ok, decide_eq_true_eq, decide_eq_false_iff_not]
  constructor
  · intro h
    obtain ⟨_, ⟨before, step, _, after, hsteps, hfirst, hid, rfl, rfl⟩, rfl⟩ := h
    exact ⟨before, step, after, hsteps, hfirst, hid, rfl⟩
  · intro h
    obtain ⟨before, step, after, h⟩ := h
    exact ⟨_, ⟨before, step, _, after, h.steps, h.first, h.id, rfl, rfl⟩, h.result.symm⟩

theorem exists_updated {nodeId : String} (change : WorkflowStep → WorkflowStep)
    (h : ∃ step ∈ w.steps, step.stableId = nodeId) :
    ∃ w' before step after, Updated nodeId change w w' before step after := by
  obtain ⟨step, hstep, hid⟩ := h
  cases hfind : w.steps.find? fun step => step.stableId = nodeId with
  | none =>
    have hnone := find?_eq_none.mp hfind step hstep
    exact absurd (decide_eq_true hid) hnone
  | some first =>
    obtain ⟨hfirst, before, after, hsteps, hbefore⟩ := find?_eq_some_iff_append.mp hfind
    refine ⟨_, before, first, after, hsteps, ?_, of_decide_eq_true hfirst, rfl⟩
    intro s hs
    simpa using hbefore s hs

theorem findStep_ok {nodeId : String} {steps : List WorkflowStep} {step : WorkflowStep} :
    findStep nodeId steps = .ok step ↔
      (steps.find? fun step => step.stableId = nodeId) = some step := by
  rw [findStep]
  cases steps.find? fun step => step.stableId = nodeId <;> simp

theorem templateWorkflow_ok {id : String} {template : GeoWorkflow} :
    templateWorkflow templates id = .ok template ↔ templates id = some template := by
  rw [templateWorkflow]
  cases templates id <;> simp

/-- The step of a template that a command names. -/
def reviewedNode (templates : Templates) (templateId sourceNodeId : String) : Option WorkflowStep :=
  (templates templateId).bind fun template =>
    template.steps.find? fun step => step.stableId = sourceNodeId

/-- An accepted edit. -/
inductive Edited (templates : Templates) (fresh : Uuid) (w : GeoWorkflow) :
    ComposerEdit → GeoWorkflow → Prop
  | setGoal (goal : String) (named : Text.isBlank goal = false) :
      Edited templates fresh w (.setGoal goal) { w with goal := Text.trim goal }
  | addReviewedNode (templateId sourceNodeId newNodeId : String) (node : WorkflowStep)
      (valid : validateNodeId newNodeId = .ok ())
      (unused : ∀ step ∈ w.steps, step.stableId ≠ newNodeId)
      (reviewed : reviewedNode templates templateId sourceNodeId = some node) :
      Edited templates fresh w (.addReviewedNode templateId sourceNodeId newNodeId)
        { w with steps := w.steps ++ [node.reviewedCopy fresh newNodeId] }
  | removeNode (nodeId : String) (present : ∃ step ∈ w.steps, step.stableId = nodeId) :
      Edited templates fresh w (.removeNode nodeId)
        { w with
          steps := (w.steps.filter fun step => step.stableId ≠ nodeId).map
            (WorkflowStep.forget nodeId)
          outputRefs := w.outputRefs.filter fun output => output.node ≠ some nodeId }
  | connect (sourceNodeId sourcePort targetNodeId : String) (source : WorkflowStep)
      (w' : GeoWorkflow) (before after : List WorkflowStep) (target : WorkflowStep)
      (distinct : sourceNodeId ≠ targetNodeId)
      (found : (w.steps.find? fun step => step.stableId = sourceNodeId) = some source)
      (exported : .output sourceNodeId sourcePort ∈ source.outputs)
      (updated : Updated targetNodeId (WorkflowStep.readFrom sourceNodeId sourcePort) w w' before
        target after) :
      Edited templates fresh w (.connect sourceNodeId sourcePort targetNodeId) w'
  | disconnect (sourceNodeId targetNodeId : String) (w' : GeoWorkflow)
      (before after : List WorkflowStep) (target : WorkflowStep)
      (updated : Updated targetNodeId (WorkflowStep.forget sourceNodeId) w w' before target after) :
      Edited templates fresh w (.disconnect sourceNodeId targetNodeId) w'
  | setParameters (nodeId : String) (parameters : Value) (w' : GeoWorkflow)
      (before after : List WorkflowStep) (step : WorkflowStep)
      (object : parameters.isObject = true)
      (updated : Updated nodeId (fun step => { step with parameters := parameters }) w w' before
        step after) :
      Edited templates fresh w (.setParameters nodeId parameters) w'

theorem filter_length_ne {nodeId : String} {steps : List WorkflowStep} :
    (steps.filter fun step => step.stableId ≠ nodeId).length ≠ steps.length ↔
      ∃ step ∈ steps, step.stableId = nodeId := by
  rw [Ne, length_filter_eq_length_iff]
  simp

theorem output_mem {outputs : List WorkflowDataRef} {node port : String} :
    (outputs.any fun output => output.node = some node && output.port = port) = true ↔
      WorkflowDataRef.output node port ∈ outputs := by
  rw [any_eq_true]
  constructor
  · intro h
    obtain ⟨⟨n, p⟩, hmem, h⟩ := h
    simp only [Bool.and_eq_true, decide_eq_true_eq] at h
    obtain ⟨rfl, rfl⟩ := h
    exact hmem
  · intro h
    exact ⟨_, h, by simp [WorkflowDataRef.output]⟩

theorem applyEdit_ok :
    applyEdit templates fresh edit w = .ok u w' ↔ Edited templates fresh w edit w' := by
  constructor
  · intro h
    cases edit with
    | setGoal goal =>
      simp only [applyEdit, bind_ok, check_ok, modify_ok] at h
      obtain ⟨_, _, ⟨hgoal, rfl⟩, rfl⟩ := h
      exact .setGoal goal (by simpa using hgoal)
    | addReviewedNode templateId sourceNodeId newNodeId =>
      simp only [applyEdit, bind_ok, check_ok, modify_ok, lift_ok, get_ok, findStep_ok,
        templateWorkflow_ok] at h
      obtain ⟨_, _, ⟨hvalid, rfl⟩, _, _, ⟨rfl, rfl⟩, _, _, ⟨hunused, rfl⟩, template, _,
        ⟨htemplate, rfl⟩, node, _, ⟨hnode, rfl⟩, rfl⟩ := h
      refine .addReviewedNode templateId sourceNodeId newNodeId node hvalid ?_ ?_
      · simpa using hunused
      · rw [reviewedNode, htemplate]
        exact hnode
    | removeNode nodeId =>
      simp only [applyEdit, bind_ok, check_ok, modify_ok, get_ok, decide_eq_true_eq] at h
      obtain ⟨_, _, ⟨rfl, rfl⟩, _, _, rfl, _, _, ⟨rfl, rfl⟩, _, _, ⟨hlength, rfl⟩, _, _, rfl,
        rfl⟩ := h
      exact .removeNode nodeId (filter_length_ne.mp hlength)
    | connect sourceNodeId sourcePort targetNodeId =>
      simp only [applyEdit, bind_ok, check_ok, lift_ok, get_ok, findStep_ok, updateStep_ok,
        output_mem, decide_eq_true_eq] at h
      obtain ⟨_, _, ⟨hdistinct, rfl⟩, _, _, ⟨rfl, rfl⟩, source, _, ⟨hfound, rfl⟩, _, _,
        ⟨hexported, rfl⟩, before, target, after, hupdated⟩ := h
      exact .connect _ _ _ source w' before after target hdistinct hfound hexported hupdated
    | disconnect sourceNodeId targetNodeId =>
      obtain ⟨before, target, after, hupdated⟩ := updateStep_ok.mp h
      exact .disconnect _ _ w' before after target hupdated
    | setParameters nodeId parameters =>
      simp only [applyEdit, bind_ok, check_ok, updateStep_ok] at h
      obtain ⟨_, _, ⟨hobject, rfl⟩, before, step, after, hupdated⟩ := h
      exact .setParameters _ _ w' before after step hobject hupdated
  · intro h
    cases h with
    | setGoal goal hgoal => simp [applyEdit, bind_ok, hgoal]
    | addReviewedNode templateId sourceNodeId newNodeId node hvalid hunused hreviewed =>
      obtain ⟨template, htemplate, hnode⟩ := Option.bind_eq_some_iff.mp hreviewed
      simp only [applyEdit, bind_ok, check_ok, modify_ok, lift_ok, get_ok, findStep_ok,
        templateWorkflow_ok]
      exact ⟨(), w, ⟨hvalid, rfl⟩, w, w, ⟨rfl, rfl⟩, (), w, ⟨by simpa using hunused, rfl⟩,
        template, w, ⟨htemplate, rfl⟩, node, w, ⟨hnode, rfl⟩, rfl⟩
    | removeNode nodeId hpresent =>
      simp only [applyEdit, bind_ok, check_ok, modify_ok, get_ok, decide_eq_true_eq]
      exact ⟨w, w, ⟨rfl, rfl⟩, (), _, rfl, _, _, ⟨rfl, rfl⟩, (), _,
        ⟨filter_length_ne.mpr hpresent, rfl⟩, (), _, rfl, rfl⟩
    | connect sourceNodeId sourcePort targetNodeId source _ before after target hdistinct hfound
        hexported hupdated =>
      simp only [applyEdit, bind_ok, check_ok, lift_ok, get_ok, findStep_ok, updateStep_ok,
        output_mem, decide_eq_true_eq]
      exact ⟨(), w, ⟨hdistinct, rfl⟩, w, w, ⟨rfl, rfl⟩, source, w, ⟨hfound, rfl⟩, (), w,
        ⟨hexported, rfl⟩, before, target, after, hupdated⟩
    | disconnect sourceNodeId targetNodeId _ before after target hupdated =>
      exact updateStep_ok.mpr ⟨before, target, after, hupdated⟩
    | setParameters nodeId parameters _ before after step hobject hupdated =>
      simp only [applyEdit, bind_ok, check_ok, updateStep_ok]
      exact ⟨(), w, ⟨hobject, rfl⟩, before, step, after, hupdated⟩

theorem atomic_updateStep (nodeId : String) (change : WorkflowStep → WorkflowStep) :
    Atomic (updateStep nodeId change) :=
  Atomic.zoom (Atomic.onFirst (total_modify change).atomic) fun _ => rfl

theorem atomic_removeNode (nodeId : String) :
    Atomic (applyEdit templates fresh (.removeNode nodeId)) := by
  intro w e w' h
  by_cases hpresent : ∃ step ∈ w.steps, step.stableId = nodeId
  · have hok := (@applyEdit_ok templates fresh w _ _ ()).mpr (.removeNode nodeId hpresent)
    rw [hok] at h
    cases h
  · have hkept : (w.steps.filter fun step => step.stableId ≠ nodeId) = w.steps := by
      refine filter_eq_self.mpr fun step hstep => ?_
      simpa using fun hid => hpresent ⟨step, hstep, hid⟩
    have hrefused : applyEdit templates fresh (.removeNode nodeId) w =
        .error (.notFound nodeId) w := by
      show (check (decide ((w.steps.filter fun step => step.stableId ≠ nodeId).length ≠
        w.steps.length)) _ >>= _) { w with steps := w.steps.filter _ } = _
      rw [bind_apply, check, hkept]
      simp
    rw [hrefused] at h
    exact (EStateM.Result.error.inj h).2.symm

theorem atomic_applyEdit : Atomic (applyEdit templates fresh edit) := by
  cases edit with
  | setGoal goal => exact (observes_check _ _).bind fun _ => (total_modify _).atomic
  | addReviewedNode templateId sourceNodeId newNodeId =>
    refine (observes_lift _).bind fun _ => observes_get.bind fun _ => ?_
    refine (observes_check _ _).bind fun _ => (observes_lift _).bind fun _ => ?_
    exact (observes_lift _).bind fun _ => (total_modify _).atomic
  | removeNode nodeId => exact atomic_removeNode nodeId
  | connect sourceNodeId sourcePort targetNodeId =>
    refine (observes_check _ _).bind fun _ => observes_get.bind fun _ => ?_
    refine (observes_lift _).bind fun _ => (observes_check _ _).bind fun _ => ?_
    exact atomic_updateStep _ _
  | disconnect sourceNodeId targetNodeId => exact atomic_updateStep _ _
  | setParameters nodeId parameters =>
    exact (observes_check _ _).bind fun _ => atomic_updateStep _ _

/-- An accepted command, before its event is recorded. -/
inductive Revised (templates : Templates) (fresh : Uuid) (c : WorkflowComposer) :
    ComposerCommand → WorkflowComposer → Prop
  | undo (previous : GeoWorkflow) (rest : List GeoWorkflow) (undo : c.undo = previous :: rest) :
      Revised templates fresh c .undo
        { c with undo := rest, redo := c.workflow :: c.redo, workflow := previous }
  | redo (next : GeoWorkflow) (rest : List GeoWorkflow) (redo : c.redo = next :: rest) :
      Revised templates fresh c .redo
        { c with redo := rest, undo := c.workflow :: c.undo, workflow := next }
  | edit (edit : ComposerEdit) (w' : GeoWorkflow)
      (edited : Edited templates fresh c.workflow edit w') :
      Revised templates fresh c (.edit edit)
        { c with workflow := w', undo := c.workflow :: c.undo, redo := [] }

theorem revise_ok {command : ComposerCommand} :
    revise templates fresh command c = .ok u c' ↔ Revised templates fresh c command c' := by
  cases command with
  | undo =>
    rw [revise, bind_ok]
    constructor
    · intro h
      obtain ⟨_, _, hget, h⟩ := h
      obtain ⟨rfl, rfl⟩ := get_ok.mp hget
      cases hundo : c.undo with
      | nil => simp [hundo] at h
      | cons previous rest =>
        simp only [hundo, modify_ok] at h
        subst h
        exact .undo previous rest hundo
    · intro h
      cases h with
      | undo previous rest hundo =>
        refine ⟨c, c, by simp, ?_⟩
        simp [hundo]
  | redo =>
    rw [revise, bind_ok]
    constructor
    · intro h
      obtain ⟨_, _, hget, h⟩ := h
      obtain ⟨rfl, rfl⟩ := get_ok.mp hget
      cases hredo : c.redo with
      | nil => simp [hredo] at h
      | cons next rest =>
        simp only [hredo, modify_ok] at h
        subst h
        exact .redo next rest hredo
    · intro h
      cases h with
      | redo next rest hredo =>
        refine ⟨c, c, by simp, ?_⟩
        simp [hredo]
  | edit edit =>
    simp only [revise, bind_ok, get_ok, zoom_ok, modify_ok, applyEdit_ok]
    constructor
    · intro h
      obtain ⟨_, _, ⟨rfl, rfl⟩, _, _, ⟨w', hedited, rfl⟩, rfl⟩ := h
      exact .edit edit w' hedited
    · intro h
      cases h with
      | edit _ w' hedited => exact ⟨c, c, ⟨rfl, rfl⟩, (), _, ⟨w', hedited, rfl⟩, rfl⟩

variable {rt : Runtime} {call : Fresh} {command : ComposerCommand} {event : ComposerEvent}

/-- The event that records a command. -/
def eventOf (rt : Runtime) (call : Fresh) (command : ComposerCommand) (w : GeoWorkflow) :
    ComposerEvent :=
  { id := call.event, command := command, executableDigest := executableDigest rt w }

theorem apply_ok : apply rt templates call command c = .ok event c' ↔
      ∃ c₁, Revised templates call.node c command c₁ ∧ event = eventOf rt call command c₁.workflow ∧
        c' = { c₁ with events := c₁.events ++ [event] } := by
  simp only [apply, bind_ok, revise_ok, get_ok, modify_ok, pure_ok]
  constructor
  · intro h
    obtain ⟨_, c₁, hrevised, _, _, ⟨rfl, rfl⟩, _, _, rfl, rfl, rfl⟩ := h
    exact ⟨_, hrevised, rfl, rfl⟩
  · intro h
    obtain ⟨c₁, hrevised, rfl, rfl⟩ := h
    exact ⟨(), c₁, hrevised, c₁, c₁, ⟨rfl, rfl⟩, (), _, rfl, rfl, rfl⟩

theorem atomic_revise : Atomic (revise templates fresh command) := by
  cases command with
  | undo =>
    refine observes_get.bind fun composer => ?_
    cases composer.undo with
    | nil => exact atomic_throw _
    | cons previous rest => exact (total_modify _).atomic
  | redo =>
    refine observes_get.bind fun composer => ?_
    cases composer.redo with
    | nil => exact atomic_throw _
    | cons next rest => exact (total_modify _).atomic
  | edit edit =>
    refine observes_get.bind fun before => ?_
    exact (Atomic.zoom atomic_applyEdit fun _ => rfl).bind fun _ => total_modify _

theorem atomic_apply : Atomic (apply rt templates call command) :=
  atomic_revise.bind fun _ => total_get.bind fun _ =>
    (total_modify _).bind fun _ => total_pure _

end WorkflowComposer
end GeneGIS
