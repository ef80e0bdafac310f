/-
`Plays rt p script s` says that `s` came about from `p` by entering the commands of `script`.
Played at other times, a script gives states that differ in their update time only.
-/
import GeneGIS.Core.Persist
import GeneGIS.Core.Run

namespace GeneGIS.Session

open Fallible CommandBus
open List hiding getElem?_insert

abbrev Run := WorkflowDigest × WorkflowExecution

/-! ## Entering a command with a given execution -/

inductive Enters (rt : Runtime) (now : DateTime) (envelope : CommandEnvelope) (run : Option Run)
    (s : Session) : Session → Prop
  | undo (state : Project) (command : envelope.command = .undo) (noRun : run = none)
      (cursor : s.bus.cursor ≠ 0)
      (snapshot : s.bus.beforeStates[s.bus.cursor - 1]? = some state) :
      Enters rt now envelope run s ((s.moveTo (s.bus.cursor - 1) state).logEvent envelope)
  | redo (state : Project) (command : envelope.command = .redo) (noRun : run = none)
      (cursor : s.bus.cursor < s.bus.history.length)
      (snapshot : s.bus.afterStates[s.bus.cursor]? = some state) :
      Enters rt now envelope run s ((s.moveTo (s.bus.cursor + 1) state).logEvent envelope)
  | mutation (after : Project) (noUndo : envelope.command ≠ .undo)
      (noRedo : envelope.command ≠ .redo)
      (mutates : Project.Mutates rt now envelope run s.project after) :
      Enters rt now envelope run s (s.commit envelope run after)

variable {rt : Runtime} {now : DateTime} {envelope : CommandEnvelope}
  {executor : Option WorkflowExecutor} {run : Option Run} {p : Project} {a a' b s s' : Session}

theorem authorized_none {workflows : Std.ExtTreeMap Uuid GeoWorkflow}
    (h : referredWorkflow envelope.command = none) :
    Authorized rt workflows envelope executor none := by
  rw [Authorized, h]

theorem accepted_iff : Accepted rt now envelope executor s s' ↔
      ∃ run, Enters rt now envelope run s s' ∧
        Authorized rt s.bus.workflows envelope executor run := by
  constructor
  · intro h
    cases h with
    | undo state hcommand hcursor hstate =>
      exact ⟨none, .undo state hcommand rfl hcursor hstate, authorized_none (by rw [hcommand]; rfl)⟩
    | redo state hcommand hcursor hstate =>
      exact ⟨none, .redo state hcommand rfl hcursor hstate, authorized_none (by rw [hcommand]; rfl)⟩
    | mutation run after hundo hredo hauthorized hmutates =>
      exact ⟨run, .mutation after hundo hredo hmutates, authorize_ok.mp hauthorized⟩
  · intro h
    obtain ⟨run, henters, hauthorized⟩ := h
    cases henters with
    | undo state hcommand _ hcursor hstate => exact .undo state hcommand hcursor hstate
    | redo state hcommand _ hcursor hstate => exact .redo state hcommand hcursor hstate
    | mutation after hundo hredo hmutates =>
      exact .mutation run after hundo hredo (authorize_ok.mpr hauthorized) hmutates

/-- Same commands and cursor, states that differ in their update time. -/
structure Mirrors (a b : Session) : Prop where
  history : b.bus.history = a.bus.history
  cursor : b.bus.cursor = a.bus.cursor
  before : List.Forall₂ Project.Similar a.bus.beforeStates b.bus.beforeStates
  after : List.Forall₂ Project.Similar a.bus.afterStates b.bus.afterStates
  project : Project.Similar a.project b.project

theorem forall₂_getElem? {α β : Type} {R : α → β → Prop} {l : List α} {l' : List β}
    (h : List.Forall₂ R l l') {i : Nat} {x : α} (hx : l[i]? = some x) :
    ∃ y, l'[i]? = some y ∧ R x y := by
  induction h generalizing i with
  | nil => simp at hx
  | @cons c d rest rest' hcd _ ih =>
    cases i with
    | zero =>
      rw [getElem?_cons_zero] at hx ⊢
      cases hx
      exact ⟨d, rfl, hcd⟩
    | succ i =>
      rw [getElem?_cons_succ] at hx ⊢
      exact ih hx

theorem Enters.mirror (h : Enters rt now envelope run a a') (hm : Mirrors a b)
    (later : DateTime) : ∃ b', Enters rt later envelope run b b' ∧ Mirrors a' b' := by
  cases h with
  | undo state hcommand hrun hcursor hstate =>
    obtain ⟨state', hstate', hsimilar⟩ := forall₂_getElem? hm.before hstate
    rw [← hm.cursor] at hcursor hstate'
    refine ⟨_, .undo state' hcommand hrun hcursor hstate', ?_⟩
    exact ⟨hm.history, congrArg (· - 1) hm.cursor, hm.before, hm.after, hsimilar⟩
  | redo state hcommand hrun hcursor hstate =>
    obtain ⟨state', hstate', hsimilar⟩ := forall₂_getElem? hm.after hstate
    rw [← hm.cursor] at hstate'
    rw [← hm.cursor, ← hm.history] at hcursor
    refine ⟨_, .redo state' hcommand hrun hcursor hstate', ?_⟩
    exact ⟨hm.history, congrArg (· + 1) hm.cursor, hm.before, hm.after, hsimilar⟩
  | mutation after hundo hredo hmutates =>
    obtain ⟨after', hmutates', hsimilar⟩ := hmutates.similar hm.project later
    refine ⟨_, .mutation after' hundo hredo hmutates', ?_, ?_, ?_, ?_, hsimilar⟩
    · show b.bus.history.take b.bus.cursor ++ [envelope] = a.bus.history.take a.bus.cursor ++ _
      rw [hm.history, hm.cursor]
    · show (b.bus.history.take b.bus.cursor).length + 1 = (a.bus.history.take a.bus.cursor).length + 1
      rw [hm.history, hm.cursor]
    · show List.Forall₂ _ (a.bus.beforeStates.take a.bus.cursor ++ [a.project])
        (b.bus.beforeStates.take b.bus.cursor ++ [b.project])
      rw [hm.cursor]
      exact rel_append (forall₂_take _ hm.before) (.cons hm.project .nil)
    · show List.Forall₂ _ (a.bus.afterStates.take a.bus.cursor ++ [after])
        (b.bus.afterStates.take b.bus.cursor ++ [after'])
      rw [hm.cursor]
      exact rel_append (forall₂_take _ hm.after) (.cons hsimilar .nil)

abbrev Script := List (CommandEnvelope × Option Run)

def startWith (workflows : Std.ExtTreeMap Uuid GeoWorkflow) (p : Project) : Session :=
  { bus := { CommandBus.new p with workflows := workflows }, project := p }

def withWorkflows (workflows : Std.ExtTreeMap Uuid GeoWorkflow) (s : Session) : Session :=
  { s with bus := { s.bus with workflows := workflows } }

inductive Plays (rt : Runtime) (p : Project) : Script → Session → Prop
  | start (workflows : Std.ExtTreeMap Uuid GeoWorkflow) : Plays rt p [] (startWith workflows p)
  | enter {script : Script} {s s' : Session} {now : DateTime} {envelope : CommandEnvelope}
      {run : Option Run} (plays : Plays rt p script s) (enters : Enters rt now envelope run s s') :
      Plays rt p (script ++ [(envelope, run)]) s'
  | register {script : Script} {s : Session} (plays : Plays rt p script s)
      (workflows : Std.ExtTreeMap Uuid GeoWorkflow) : Plays rt p script (s.withWorkflows workflows)

variable {script : Script}

theorem Enters.auditLog (h : Enters rt now envelope run s s') :
    s'.bus.auditLog = s.bus.auditLog ++ [envelope] := by
  cases h with
  | undo => rfl
  | redo => rfl
  | mutation => rfl

theorem Enters.workflows (h : Enters rt now envelope run s s') :
    s'.bus.workflows = s.bus.workflows := by
  cases h with
  | undo => rfl
  | redo => rfl
  | mutation => rfl

theorem Plays.auditLog (h : Plays rt p script s) : s.bus.auditLog = script.map Prod.fst := by
  induction h with
  | start => rfl
  | enter _ henters ih => rw [henters.auditLog, ih, map_append, map_singleton]
  | register _ _ ih => exact ih

theorem Enters.history (h : Enters rt now envelope run s s')
    (hs : ∀ e ∈ s.bus.history, e ∈ s.bus.auditLog) :
    ∀ e ∈ s'.bus.history, e ∈ s'.bus.auditLog := by
  rw [h.auditLog]
  intro e he
  cases h with
  | undo => exact mem_append_left _ (hs e he)
  | redo => exact mem_append_left _ (hs e he)
  | mutation =>
    rcases mem_append.mp he with he | he
    · exact mem_append_left _ (hs e (mem_of_mem_take he))
    · exact mem_append_right _ he

theorem Plays.history (h : Plays rt p script s) : ∀ e ∈ s.bus.history, e ∈ s.bus.auditLog := by
  induction h with
  | start =>
    intro e he
    cases he
  | enter _ henters ih => exact henters.history ih
  | register _ _ ih => exact ih

theorem Enters.represents {t : Timeline Project} (h : Enters rt now envelope run s s')
    (hs : Represents s t) : ∃ t', Represents s' t' ∧ t'.states.head? = t.states.head? := by
  cases h with
  | undo state _ _ hcursor hstate =>
    obtain ⟨t', hback, hmove⟩ := hs.undo hcursor hstate
    exact ⟨t', hmove.logEvent envelope, by rw [(Timeline.back_some hback).1]⟩
  | redo state _ _ hcursor hstate =>
    obtain ⟨t', hforth, hmove⟩ := hs.redo hcursor hstate
    exact ⟨t', hmove.logEvent envelope, by rw [(Timeline.forth_some hforth).1]⟩
  | mutation after =>
    refine ⟨_, hs.commit envelope run after, ?_⟩
    cases hhead : t.states.head? with
    | none =>
      have hlt := t.position_lt
      rw [head?_eq_none_iff.mp hhead] at hlt
      exact absurd hlt (Nat.not_lt_zero _)
    | some q => exact head?_commit hhead after

theorem Plays.represents (h : Plays rt p script s) :
    ∃ t, Represents s t ∧ t.states.head? = some p := by
  induction h with
  | start workflows => exact ⟨.start p, ⟨rfl, rfl, rfl, rfl, rfl, rfl, rfl⟩, rfl⟩
  | enter _ henters ih =>
    obtain ⟨t, ht, hhead⟩ := ih
    obtain ⟨t', ht', hhead'⟩ := henters.represents ht
    exact ⟨t', ht', hhead'.trans hhead⟩
  | register _ workflows ih =>
    obtain ⟨t, ht, hhead⟩ := ih
    exact ⟨t, ⟨ht.project, ht.cursor, ht.before, ht.after, ht.history, ht.initial, ht.current⟩,
      hhead⟩

theorem Plays.initialState (h : Plays rt p script s) : s.bus.initialState = some p := by
  obtain ⟨t, ht, hhead⟩ := h.represents
  rw [ht.initial, hhead]

theorem Plays.currentState (h : Plays rt p script s) : s.bus.currentState = some s.project := by
  obtain ⟨t, ht, -⟩ := h.represents
  rw [ht.current, ht.project]

/-! ## Recorded executions -/

def record (records : Std.ExtTreeMap Uuid WorkflowExecutionRecord)
    (entry : CommandEnvelope × Option Run) : Std.ExtTreeMap Uuid WorkflowExecutionRecord :=
  match entry.2 with
  | some (digest, execution) =>
    records.insert entry.1.id (recordOf entry.1 digest execution)
  | none => records

def recordsOf (script : Script) : Std.ExtTreeMap Uuid WorkflowExecutionRecord :=
  script.foldl record ∅

theorem recordsOf_snoc (script : Script) (entry : CommandEnvelope × Option Run) :
    recordsOf (script ++ [entry]) = record (recordsOf script) entry := by
  rw [recordsOf, foldl_append]
  rfl

theorem Plays.executions (h : Plays rt p script s) :
    s.bus.workflowExecutions = recordsOf script := by
  induction h with
  | start => rfl
  | enter _ henters ih =>
    rw [recordsOf_snoc, ← ih]
    cases henters with
    | undo _ _ hrun =>
      rw [hrun]
      rfl
    | redo _ _ hrun =>
      rw [hrun]
      rfl
    | mutation => rfl
  | register _ _ ih => exact ih

/-- Commands with the same identifier have the same execution. -/
def Consistent (script : Script) : Prop :=
  ∀ e₁ d₁ x₁ e₂ d₂ x₂, (e₁, some (d₁, x₁)) ∈ script → (e₂, some (d₂, x₂)) ∈ script →
    e₁.id = e₂.id → recordOf e₁ d₁ x₁ = recordOf e₂ d₂ x₂

/-- The records hold the execution of the command. -/
def Recorded (records : Std.ExtTreeMap Uuid WorkflowExecutionRecord)
    (entry : CommandEnvelope × Option Run) : Prop :=
  ∀ digest execution, entry.2 = some (digest, execution) →
    ∃ record, records[entry.1.id]? = some record ∧
      recordOf entry.1 digest execution = { record with commandId := entry.1.id }

theorem Consistent.getElem? (h : Consistent script) :
    ∀ entry ∈ script, ∀ digest execution, entry.2 = some (digest, execution) →
      (recordsOf script)[entry.1.id]? = some (recordOf entry.1 digest execution) := by
  induction script using List.reverseRecOn with
  | nil =>
    intro entry hentry
    cases hentry
  | append_singleton script last ih =>
    have hprevious : Consistent script := by
      intro e₁ d₁ x₁ e₂ d₂ x₂ h₁ h₂
      exact h e₁ d₁ x₁ e₂ d₂ x₂ (mem_append_left _ h₁) (mem_append_left _ h₂)
    intro entry hentry digest execution hrun
    obtain ⟨e, r⟩ := entry
    obtain ⟨e', r'⟩ := last
    simp only at hrun
    subst hrun
    rw [recordsOf_snoc, record]
    cases r' with
    | none =>
      rcases mem_append.mp hentry with hentry | hentry
      · exact ih hprevious _ hentry digest execution rfl
      · have heq := mem_singleton.mp hentry
        cases heq
    | some r' =>
      obtain ⟨digest', execution'⟩ := r'
      simp only
      rw [Std.ExtTreeMap.getElem?_insert]
      split
      next hid =>
        have hid' : e'.id = e.id := Std.LawfulEqOrd.eq_of_compare hid
        exact congrArg some (h e' digest' execution' e digest execution
          (mem_append_right _ (by simp)) hentry hid')
      next hid =>
        rcases mem_append.mp hentry with hentry | hentry
        · exact ih hprevious _ hentry digest execution rfl
        · have heq := mem_singleton.mp hentry
          simp only [Prod.mk.injEq] at heq
          rw [heq.1] at hid
          exact absurd Std.ReflOrd.compare_self hid

theorem Consistent.recorded (h : Consistent script) :
    ∀ entry ∈ script, Recorded (recordsOf script) entry := by
  intro entry hentry digest execution hrun
  exact ⟨_, h.getElem? entry hentry digest execution hrun, rfl⟩

theorem recordsOf_indexed (script : Script) :
    Keyed.Indexed WorkflowExecutionRecord.commandId (recordsOf script) := by
  induction script using List.reverseRecOn with
  | nil => exact Keyed.indexed_empty _
  | append_singleton script last ih =>
    rw [recordsOf_snoc, record]
    obtain ⟨e, r⟩ := last
    cases r with
    | none => exact ih
    | some r =>
      obtain ⟨digest, execution⟩ := r
      exact ih.insert (recordOf e digest execution)

theorem recordedExecutor_ok {records : Std.ExtTreeMap Uuid WorkflowExecutionRecord}
    {workflow : GeoWorkflow} {context : WorkflowExecutionContext} {execution : WorkflowExecution} :
    recordedExecutor records workflow context = .ok execution ↔
      ∃ record : WorkflowExecutionRecord, records[context.commandId]? = some record ∧
        record.workflowDigest = context.workflowDigest ∧
        execution = { resultDigest := record.resultDigest, output := record.output,
                      evidence := record.evidence, events := record.events } := by
  rw [recordedExecutor]
  cases records[context.commandId]? with
  | none => simp
  | some record =>
    by_cases hdigest : record.workflowDigest = context.workflowDigest
    · simp [hdigest, eq_comm]
    · simp [hdigest]

theorem authorized_replayed {bus : CommandBus} {workflows workflows' : Std.ExtTreeMap Uuid GeoWorkflow}
    (h : Authorized rt workflows envelope executor run)
    (hadmits : ∀ workflowId workflow, referredWorkflow envelope.command = some workflowId →
      workflows[workflowId]? = some workflow → Admits rt workflow envelope →
      ∃ workflow', workflows'[workflowId]? = some workflow' ∧ Admits rt workflow' envelope)
    (hrecorded : Recorded bus.workflowExecutions (envelope, run)) :
    Authorized rt workflows' envelope (bus.replayExecutor none) run := by
  rw [Authorized] at h ⊢
  cases hreferred : referredWorkflow envelope.command with
  | none =>
    rw [hreferred] at h
    exact h
  | some workflowId =>
    rw [hreferred] at h
    obtain ⟨workflow, hworkflow, hadmit, hruns⟩ := h
    obtain ⟨workflow', hworkflow', hadmit'⟩ := hadmits workflowId workflow hreferred hworkflow hadmit
    refine ⟨workflow', hworkflow', hadmit', ?_⟩
    by_cases hrun : ∃ id, envelope.command = .runWorkflow id
    · obtain ⟨id, hcommand⟩ := hrun
      rw [Runs, hcommand] at hruns ⊢
      obtain ⟨_, digest, execution, -, hdigest, -, hblank, rfl⟩ := hruns
      obtain ⟨record, hrecord, heq⟩ := hrecorded digest execution rfl
      simp only [recordOf, WorkflowExecutionRecord.mk.injEq, true_and] at heq
      have hempty : bus.workflowExecutions.isEmpty = false := by
        rw [Std.ExtTreeMap.isEmpty_eq_false_iff]
        intro hnone
        rw [hnone] at hrecord
        simp at hrecord
      refine ⟨recordedExecutor bus.workflowExecutions, digest, execution, ?_, hdigest, ?_, hblank,
        rfl⟩
      · rw [replayExecutor, hempty]
        rfl
      · refine recordedExecutor_ok.mpr ⟨record, hrecord, heq.1.symm, ?_⟩
        rw [← heq.2.1, ← heq.2.2.1, ← heq.2.2.2.1, ← heq.2.2.2.2]
    · have hother : ∀ id, envelope.command ≠ .runWorkflow id := fun id h => hrun ⟨id, h⟩
      exact (runs_other hother).mpr ((runs_other hother).mp hruns)

theorem authorized_recorded {workflows : Std.ExtTreeMap Uuid GeoWorkflow} {bus : CommandBus}
    (h : Authorized rt workflows envelope (bus.replayExecutor none) run) :
    Recorded bus.workflowExecutions (envelope, run) := by
  intro digest execution hsome
  simp only at hsome
  rw [Authorized, hsome] at h
  split at h
  · cases h
  next workflowId _ =>
    obtain ⟨workflow, -, -, hruns⟩ := h
    by_cases hrun : ∃ id, envelope.command = .runWorkflow id
    · obtain ⟨id, hcommand⟩ := hrun
      rw [Runs, hcommand] at hruns
      obtain ⟨execute, digest', execution', hexecutor, -, hexecute, -, heq⟩ := hruns
      cases heq
      rw [replayExecutor] at hexecutor
      split at hexecutor
      · cases hexecutor
      · cases hexecutor
        obtain ⟨record, hrecord, hdigest, hexecution⟩ := recordedExecutor_ok.mp hexecute
        refine ⟨record, hrecord, ?_⟩
        rw [recordOf, hexecution]
        exact congrArg (fun d => WorkflowExecutionRecord.mk envelope.id d record.resultDigest
          record.output record.evidence record.events) hdigest.symm
    · have hother : ∀ id, envelope.command ≠ .runWorkflow id := fun id h => hrun ⟨id, h⟩
      cases (runs_other hother).mp hruns

theorem applyAll_snoc {clock : Nat → DateTime} {index : Nat} {events : List CommandEnvelope}
    {event : CommandEnvelope} :
    applyAll rt clock executor index (events ++ [event]) s = .ok s' ↔
      ∃ s₁, applyAll rt clock executor index events s = .ok s₁ ∧
        Accepted rt (clock (index + events.length)) event executor s₁ s' := by
  induction events generalizing index s with
  | nil =>
    rw [nil_append, applyAll]
    simp only [applyAll, length_nil, Nat.add_zero, ← dispatch_ok, Except.ok.injEq, exists_eq_left']
    cases hdispatch : dispatch rt (clock index) event executor s with
    | ok r s₁ => simp
    | error e s₁ => simp
  | cons first rest ih =>
    rw [cons_append, applyAll, applyAll]
    cases dispatch rt (clock index) first executor s with
    | ok r s₁ =>
      simp only [ih, length_cons]
      rw [Nat.add_right_comm, Nat.add_assoc]
    | error e s₁ => simp

theorem applyAll_plays {clock : Nat → DateTime} {index : Nat} {events : List CommandEnvelope}
    {workflows : Std.ExtTreeMap Uuid GeoWorkflow}
    (h : applyAll rt clock executor index events (startWith workflows p) = .ok s) :
    ∃ script, script.map Prod.fst = events ∧ Plays rt p script s ∧
      (∀ entry ∈ script, Authorized rt workflows entry.1 executor entry.2) ∧
      s.bus.workflows = workflows := by
  induction events using List.reverseRecOn generalizing s with
  | nil =>
    cases h
    refine ⟨[], rfl, .start workflows, ?_, rfl⟩
    intro entry hentry
    cases hentry
  | append_singleton events event ih =>
    obtain ⟨s₁, happly, haccepted⟩ := applyAll_snoc.mp h
    obtain ⟨script, hevents, hplays, hauthorized, hworkflows⟩ := ih happly
    obtain ⟨run, henters, hrun⟩ := accepted_iff.mp haccepted
    rw [hworkflows] at hrun
    refine ⟨script ++ [(event, run)], by rw [map_append, hevents]; rfl, hplays.enter henters,
      ?_, henters.workflows.trans hworkflows⟩
    intro entry hentry
    rcases mem_append.mp hentry with hentry | hentry
    · exact hauthorized entry hentry
    · rw [mem_singleton.mp hentry]
      exact hrun

theorem Plays.applyAll (h : Plays rt p script a) (clock : Nat → DateTime) (index : Nat)
    {workflows : Std.ExtTreeMap Uuid GeoWorkflow}
    (hauthorized : ∀ entry ∈ script, Authorized rt workflows entry.1 executor entry.2) :
    ∃ b, Session.applyAll rt clock executor index (script.map Prod.fst) (startWith workflows p) =
        .ok b ∧ Mirrors a b ∧ b.bus.workflows = workflows := by
  induction h with
  | start workflows' =>
    exact ⟨startWith workflows p, rfl, ⟨rfl, rfl, .nil, .nil, .refl p⟩, rfl⟩
  | @enter script s s' now envelope run _ henters ih =>
    obtain ⟨b, happly, hmirrors, hworkflows⟩ :=
      ih fun entry hentry => hauthorized entry (mem_append_left _ hentry)
    have hrun : Authorized rt workflows envelope executor run :=
      hauthorized (envelope, run) (by simp)
    obtain ⟨b', henters', hmirrors'⟩ :=
      henters.mirror hmirrors (clock (index + (script.map Prod.fst).length))
    rw [← hworkflows] at hrun
    refine ⟨b', ?_, hmirrors', henters'.workflows.trans hworkflows⟩
    rw [map_append, map_singleton, applyAll_snoc]
    exact ⟨b, happly, accepted_iff.mpr ⟨run, henters', hrun⟩⟩
  | register _ _ ih =>
    obtain ⟨b, happly, hmirrors, hworkflows⟩ := ih hauthorized
    exact ⟨b, happly, ⟨hmirrors.history, hmirrors.cursor, hmirrors.before, hmirrors.after,
      hmirrors.project⟩, hworkflows⟩

end GeneGIS.Session
