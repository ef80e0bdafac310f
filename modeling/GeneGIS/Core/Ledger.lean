/-
The outputs are what the committed events leave in an empty map.  A receipt tells for every planned
node which attempts were made and whether it committed.
-/
import GeneGIS.Core.Execution

namespace GeneGIS

open List Outputs IncrementalEvent

/-! ## Replaying events -/

namespace IncrementalEvent

def isCommit : IncrementalEvent → Bool
  | .outputCommitted .. => true
  | _ => false

def attemptOf (nodeId : String) : IncrementalEvent → Option Nat
  | .attempt id _ number => if id = nodeId then some number else none
  | _ => none

def isFailure : IncrementalEvent → Bool
  | .failed .. => true
  | _ => false

end IncrementalEvent

namespace Outputs

variable {outputs : Outputs} {events : List IncrementalEvent}

def apply (outputs : Outputs) : IncrementalEvent → Outputs
  | .outputCommitted nodeId partition outputDigest _ =>
    outputs.commit nodeId partition outputDigest
  | _ => outputs

def applyAll (outputs : Outputs) (events : List IncrementalEvent) : Outputs :=
  events.foldl apply outputs

theorem applyAll_append (events events' : List IncrementalEvent) :
    outputs.applyAll (events ++ events') = (outputs.applyAll events).applyAll events' :=
  foldl_append

theorem applyAll_quiet (h : ∀ e ∈ events, e.isCommit = false) :
    outputs.applyAll events = outputs := by
  induction events with
  | nil => rfl
  | cons e rest ih =>
    have hquiet : outputs.apply e = outputs := by
      cases e with
      | outputCommitted n p d r => cases h (.outputCommitted n p d r) (by simp)
      | _ => rfl
    show (outputs.apply e).applyAll rest = outputs
    rw [hquiet]
    exact ih fun e' he' => h e' (mem_cons_of_mem _ he')

/-- Every committed event names the output held just before it. -/
def Names (outputs : Outputs) (events : List IncrementalEvent) : Prop :=
  ∀ before nodeId partition outputDigest replaced after,
    events = before ++ .outputCommitted nodeId partition outputDigest replaced :: after →
    replaced = (outputs.applyAll before).digest? nodeId partition

theorem names_quiet (h : ∀ e ∈ events, e.isCommit = false) : outputs.Names events := by
  intro before nodeId partition outputDigest replaced after hsplit
  have hcommit := h (.outputCommitted nodeId partition outputDigest replaced) (by rw [hsplit]; simp)
  cases hcommit

theorem names_append {events' : List IncrementalEvent} (h : outputs.Names events)
    (h' : (outputs.applyAll events).Names events') : outputs.Names (events ++ events') := by
  intro before nodeId partition outputDigest replaced after hsplit
  rcases append_eq_append_iff.mp hsplit with ⟨middle, rfl, hmiddle⟩ | ⟨middle, hmiddle, hrest⟩
  · rw [applyAll_append]
    exact h' middle nodeId partition outputDigest replaced after hmiddle
  · cases middle with
    | nil =>
      rw [append_nil] at hmiddle
      rw [← hmiddle]
      exact h' [] nodeId partition outputDigest replaced after (by simpa using hrest.symm)
    | cons event middle =>
      obtain ⟨rfl, -⟩ := cons.inj hrest
      exact h before nodeId partition outputDigest replaced middle hmiddle

theorem names_singleton (nodeId : String) (partition : PartitionKey) (outputDigest : String) :
    outputs.Names [.outputCommitted nodeId partition outputDigest
      (outputs.digest? nodeId partition)] := by
  intro before nodeId' partition' outputDigest' replaced after hsplit
  cases before with
  | nil =>
    obtain ⟨hevent, -⟩ := cons.inj hsplit
    cases hevent
    rfl
  | cons event before => simp at hsplit

end Outputs

namespace IncrementalScheduler

variable {maximum : Nat} {decision : IncrementalDecision} {attempt : Nat}
  {events : List IncrementalEvent} {succeeded completed : Bool} {outputs outputs' : Outputs}
  {decisions : List IncrementalDecision} {given : List (IncrementalDecision × String)}

namespace Tried

theorem quiet (h : Tried decision maximum attempt events succeeded) :
    ∀ e ∈ events, e.isCommit = false := by
  induction h with
  | succeeded => simp [isCommit]
  | exhausted => simp [isCommit]
  | retried error _ _ ih => simpa [isCommit] using ih

theorem attempts (h : Tried decision maximum attempt events succeeded) :
    ∃ k, attempt + k ≤ maximum + 1 ∧
      events.filterMap (attemptOf decision.nodeId) = range' attempt k := by
  induction h with
  | succeeded within => exact ⟨1, by omega, by simp [attemptOf]⟩
  | exhausted => exact ⟨1, by omega, by simp [attemptOf]⟩
  | retried error _ _ ih =>
    obtain ⟨k, hk, hattempts⟩ := ih
    refine ⟨k + 1, by omega, ?_⟩
    rw [range'_succ, ← hattempts]
    simp [attemptOf, filterMap_cons]

theorem attempts_other (h : Tried decision maximum attempt events succeeded) {nodeId : String}
    (hne : decision.nodeId ≠ nodeId) :
    events.filterMap (attemptOf nodeId) = [] := by
  induction h with
  | succeeded => simp [attemptOf, hne]
  | exhausted => simp [attemptOf, hne]
  | retried error _ _ ih => simpa [attemptOf, hne] using ih

theorem failure_last (h : Tried decision maximum attempt events succeeded)
    {before after : List IncrementalEvent} {event : IncrementalEvent}
    (hsplit : events = before ++ event :: after) (hevent : event.isFailure = true) :
    succeeded = false ∧ after = [] := by
  induction h generalizing before with
  | succeeded =>
    cases before with
    | nil =>
      obtain ⟨rfl, -⟩ := cons.inj hsplit
      cases hevent
    | cons e before => simp at hsplit
  | exhausted =>
    refine ⟨rfl, ?_⟩
    match before with
    | [] =>
      obtain ⟨rfl, -⟩ := cons.inj hsplit
      cases hevent
    | [_] =>
      simp only [cons_append, nil_append, cons.injEq] at hsplit
      exact hsplit.2.2.symm
    | _ :: _ :: before => simp at hsplit
  | retried error _ _ ih =>
    match before with
    | [] =>
      obtain ⟨rfl, -⟩ := cons.inj hsplit
      cases hevent
    | [_] =>
      simp only [cons_append, nil_append, cons.injEq] at hsplit
      obtain ⟨-, rfl, -⟩ := hsplit
      cases hevent
    | _ :: _ :: before =>
      simp only [cons_append, cons.injEq] at hsplit
      exact ih hsplit.2.2

end Tried

/-! ## The events of a run -/

namespace Journal

theorem applyAll (h : Journal maximum outputs decisions events given completed outputs') :
    outputs.applyAll events = outputs' ∧ outputs.Names events := by
  induction h with
  | done => exact ⟨rfl, names_quiet (by simp)⟩
  | failed _ _ tried => exact ⟨applyAll_quiet tried.quiet, names_quiet tried.quiet⟩
  | @committed outputs outputs' decision _ events events' _ _ outputDigest tried _ ih =>
    have hquiet : outputs.applyAll events = outputs := applyAll_quiet tried.quiet
    have hcommit : events ++ .outputCommitted decision.nodeId decision.partition outputDigest
        (outputs.digest? decision.nodeId decision.partition) :: events' =
        (events ++ [.outputCommitted decision.nodeId decision.partition outputDigest
          (outputs.digest? decision.nodeId decision.partition)]) ++ events' := by simp
    have hafter : outputs.applyAll (events ++ [.outputCommitted decision.nodeId decision.partition
        outputDigest (outputs.digest? decision.nodeId decision.partition)]) =
        outputs.commit decision.nodeId decision.partition outputDigest := by
      rw [applyAll_append, hquiet]
      rfl
    rw [hcommit]
    refine ⟨by rw [applyAll_append, hafter, ih.1], names_append ?_ ?_⟩
    · refine names_append (names_quiet tried.quiet) ?_
      rw [hquiet]
      exact names_singleton _ _ _
    · rw [hafter]
      exact ih.2

theorem attempts_absent (h : Journal maximum outputs decisions events given completed outputs')
    {nodeId : String} (habsent : nodeId ∉ decisions.map IncrementalDecision.nodeId) :
    events.filterMap (attemptOf nodeId) = [] := by
  induction h with
  | done => rfl
  | failed _ _ tried =>
    rw [map_cons, mem_cons, not_or] at habsent
    exact tried.attempts_other (Ne.symm habsent.1)
  | committed _ tried _ ih =>
    rw [map_cons, mem_cons, not_or] at habsent
    rw [filterMap_append, tried.attempts_other (Ne.symm habsent.1), nil_append]
    exact ih habsent.2

theorem attempts (h : Journal maximum outputs decisions events given completed outputs')
    (hnodup : (decisions.map IncrementalDecision.nodeId).Nodup) (nodeId : String) :
    ∃ k ≤ maximum, events.filterMap (attemptOf nodeId) = range' 1 k := by
  induction h with
  | done => exact ⟨0, Nat.zero_le _, rfl⟩
  | @failed decision _ _ _ tried =>
    by_cases hnode : decision.nodeId = nodeId
    · obtain ⟨k, hk, hattempts⟩ := tried.attempts
      exact ⟨k, by omega, by rw [← hnode]; exact hattempts⟩
    · exact ⟨0, Nat.zero_le _, tried.attempts_other hnode⟩
  | @committed _ _ decision _ _ _ _ _ _ tried journal ih =>
    rw [map_cons, nodup_cons] at hnodup
    by_cases hnode : decision.nodeId = nodeId
    · -- The node is planned once, so all its attempts are these.
      subst hnode
      obtain ⟨k, hk, hattempts⟩ := tried.attempts
      refine ⟨k, by omega, ?_⟩
      rw [filterMap_append, hattempts, filterMap_cons_none rfl,
        journal.attempts_absent hnodup.1, append_nil]
    · obtain ⟨k, hk, hattempts⟩ := ih hnodup.2
      refine ⟨k, hk, ?_⟩
      rw [filterMap_append, tried.attempts_other hnode, nil_append]
      exact hattempts

theorem failure_last (h : Journal maximum outputs decisions events given completed outputs')
    {before after : List IncrementalEvent} {event : IncrementalEvent}
    (hsplit : events = before ++ event :: after) (hevent : event.isFailure = true) :
    after = [] := by
  induction h generalizing before with
  | done => simp at hsplit
  | failed _ _ tried => exact (tried.failure_last hsplit hevent).2
  | committed _ tried _ ih =>
    rcases append_eq_append_iff.mp hsplit with ⟨middle, rfl, hmiddle⟩ | ⟨middle, hmiddle, hrest⟩
    · cases middle with
      | nil =>
        obtain ⟨rfl, -⟩ := cons.inj hmiddle
        cases hevent
      | cons e middle => exact ih (cons.inj hmiddle).2
    · cases middle with
      | nil =>
        obtain ⟨rfl, -⟩ := cons.inj hrest
        cases hevent
      | cons e middle =>
        obtain ⟨rfl, -⟩ := cons.inj hrest
        cases (tried.failure_last hmiddle hevent).1

theorem completed_iff (h : Journal maximum outputs decisions events given completed outputs')
    (hnodup : (decisions.map IncrementalDecision.nodeId).Nodup) :
    completed = true ↔ ∀ d ∈ decisions, ∃ outputDigest replaced,
      .outputCommitted d.nodeId d.partition outputDigest replaced ∈ events := by
  induction h with
  | done => simp
  | failed _ _ tried =>
    refine iff_of_false (by simp) ?_
    intro hall
    obtain ⟨outputDigest, replaced, hevent⟩ := hall _ mem_cons_self
    cases tried.quiet _ hevent
  | committed _ tried _ ih =>
    rw [map_cons, nodup_cons] at hnodup
    rw [ih hnodup.2]
    constructor
    · intro hrest d hd
      rcases mem_cons.mp hd with rfl | hd
      · exact ⟨_, _, mem_append_right _ mem_cons_self⟩
      · obtain ⟨outputDigest, replaced, hevent⟩ := hrest d hd
        exact ⟨outputDigest, replaced, mem_append_right _ (mem_cons_of_mem _ hevent)⟩
    · intro hall d hd
      obtain ⟨outputDigest, replaced, hevent⟩ := hall d (mem_cons_of_mem _ hd)
      refine ⟨outputDigest, replaced, ?_⟩
      rcases mem_append.mp hevent with hevent | hevent
      · cases tried.quiet _ hevent
      · rcases mem_cons.mp hevent with hevent | hevent
        · rw [outputCommitted.injEq] at hevent
          exact absurd (mem_map.mpr ⟨d, hd, hevent.1⟩) hnodup.1
        · exact hevent

end Journal

/-! ## The recorded history -/

variable {rt : Runtime} {s s' : IncrementalScheduler}

/-- Schedulers that successful calls lead to, each with an executor of its own. -/
inductive Reached (rt : Runtime) : IncrementalScheduler → Prop
  | fresh : Reached rt fresh
  | executed {s s' : IncrementalScheduler} {χ : Type} {executor : NodeExecutor χ} {x x' : χ}
    {workflow : GeoWorkflow} {change : IncrementalChange} {maxRetries : Nat}
    {receipt : IncrementalRunReceipt} (earlier : Reached rt s)
    (call : execute rt workflow change maxRetries executor (s, x) = .ok receipt (s', x')) :
    Reached rt s'

def recordedEvents (s : IncrementalScheduler) : List IncrementalEvent :=
  s.history.flatMap IncrementalRunReceipt.events

theorem execute_journal {χ : Type} {executor : NodeExecutor χ} {x x' : χ}
    {workflow : GeoWorkflow} {change : IncrementalChange} {maxRetries : Nat}
    {receipt : IncrementalRunReceipt}
    (h : execute rt workflow change maxRetries executor (s, x) = .ok receipt (s', x')) :
    ∃ events given, affectedDecisions workflow change = .ok receipt.decisions ∧
      receipt.events = admissionEvents change ++ events ∧
      s'.history = s.history ++ [receipt] ∧
      Journal (maximumAttempts maxRetries) s.outputs receipt.decisions events given
        receipt.completed s'.outputs := by
  cases hplan : plan rt workflow change with
  | error error =>
    rw [execute_refused hplan] at h
    cases h
  | ok planned =>
    obtain ⟨decisions, workflowDigest⟩ := planned
    have hran := plan_ran s executor maxRetries hplan x
    cases hrun : runDecisions workflow.steps executor (maximumAttempts maxRetries) decisions
        (admitted s change x) with
    | error halt run =>
      rw [execute_malformed hplan hrun] at h
      cases h
    | ok completed run =>
      rw [execute_finished hplan hrun] at h
      cases h
      rw [hrun] at hran
      cases hran with
      | finished digests events_eq journal =>
        exact ⟨_, _, plan_ok hplan, events_eq, rfl, journal⟩

theorem admissionEvents_quiet (change : IncrementalChange) :
    ∀ e ∈ admissionEvents change, e.isCommit = false ∧ e.isFailure = false ∧
      ∀ nodeId, e.attemptOf nodeId = none := by
  intro e he
  rw [admissionEvents] at he
  rcases mem_cons.mp he with rfl | he
  · exact ⟨rfl, rfl, fun _ => rfl⟩
  · cases hchange : change.change <;> rw [hchange] at he <;> simp at he <;> subst he <;>
      exact ⟨rfl, rfl, fun _ => rfl⟩

theorem Reached.ledger (h : Reached rt s) :
    applyAll ∅ s.recordedEvents = s.outputs ∧ Outputs.Names ∅ s.recordedEvents := by
  induction h with
  | fresh =>
    refine ⟨rfl, names_quiet ?_⟩
    intro e he
    cases he
  | @executed s s' _ _ _ _ _ change _ receipt _ call ih =>
    obtain ⟨events, given, -, hevents, hhistory, journal⟩ := execute_journal call
    have hrecorded : s'.recordedEvents = s.recordedEvents ++ receipt.events := by
      rw [recordedEvents, hhistory, flatMap_append, flatMap_singleton]
      rfl
    have hquiet : ∀ e ∈ admissionEvents change, e.isCommit = false :=
      fun e he => (admissionEvents_quiet change e he).1
    have hadmission : s.outputs.applyAll (admissionEvents change) = s.outputs :=
      applyAll_quiet hquiet
    have hcall : s.outputs.applyAll receipt.events = s'.outputs ∧
        s.outputs.Names receipt.events := by
      rw [hevents]
      refine ⟨?_, names_append (names_quiet hquiet) ?_⟩
      · rw [applyAll_append, hadmission, journal.applyAll.1]
      · rw [hadmission]
        exact journal.applyAll.2
    rw [hrecorded]
    refine ⟨?_, names_append ih.2 ?_⟩
    · rw [applyAll_append, ih.1, hcall.1]
    · rw [ih.1]
      exact hcall.2

/-- What a receipt says about the call that returned it. -/
structure Reports (workflow : GeoWorkflow) (change : IncrementalChange) (maxRetries : Nat)
    (s s' : IncrementalScheduler) (receipt : IncrementalRunReceipt) : Prop where
  affected : affectedDecisions workflow change = .ok receipt.decisions
  untouched : ∀ nodeId partition,
    nodeId ∉ receipt.decisions.map IncrementalDecision.nodeId ∨
      partition ≠ change.window.partition →
    s'.outputs.digest? nodeId partition = s.outputs.digest? nodeId partition
  nothingAfterFailure : ∀ before event after, receipt.events = before ++ event :: after →
    event.isFailure = true → after = []
  numbered : ∀ nodeId, ∃ k ≤ maxRetries + 1,
    receipt.events.filterMap (attemptOf nodeId) = range' 1 k
  completed : receipt.completed = true ↔ ∀ d ∈ receipt.decisions, ∃ outputDigest replaced,
    .outputCommitted d.nodeId d.partition outputDigest replaced ∈ receipt.events

theorem execute_reports {χ : Type} {executor : NodeExecutor χ} {x x' : χ}
    {workflow : GeoWorkflow} {change : IncrementalChange} {maxRetries : Nat}
    {receipt : IncrementalRunReceipt}
    (h : execute rt workflow change maxRetries executor (s, x) = .ok receipt (s', x')) :
    Reports workflow change maxRetries s s' receipt := by
  obtain ⟨events, given, haffected, hevents, -, journal⟩ := execute_journal h
  have hnodup := (affectedDecisions_ok haffected).1
  have hmaximum : maximumAttempts maxRetries ≤ maxRetries + 1 := Nat.min_le_left _ _
  refine ⟨haffected, ?_, ?_, ?_, ?_⟩
  · intro nodeId partition houtside
    rcases journal.changed hnodup nodeId partition with h | ⟨d, hd, rfl, rfl, -⟩
    · exact h
    · rcases houtside with houtside | houtside
      · exact absurd (mem_map_of_mem hd) houtside
      · exact absurd (affectedDecisions_partition haffected d hd) houtside
  · intro before event after hsplit hevent
    rw [hevents] at hsplit
    rcases append_eq_append_iff.mp hsplit with ⟨middle, -, hmiddle⟩ | ⟨middle, hmiddle, hrest⟩
    · exact journal.failure_last hmiddle hevent
    · cases middle with
      | nil => exact journal.failure_last (hrest.symm.trans (nil_append _).symm) hevent
      | cons e middle =>
        obtain ⟨rfl, -⟩ := cons.inj hrest
        have hquiet := admissionEvents_quiet change event (by rw [hmiddle]; simp)
        rw [hquiet.2.1] at hevent
        cases hevent
  · intro nodeId
    obtain ⟨k, hk, hattempts⟩ := journal.attempts hnodup nodeId
    have hadmission : (admissionEvents change).filterMap (attemptOf nodeId) = [] :=
      filterMap_eq_nil_iff.mpr fun e he => (admissionEvents_quiet change e he).2.2 nodeId
    refine ⟨k, by omega, ?_⟩
    rw [hevents, filterMap_append, hadmission, nil_append, hattempts]
  · rw [journal.completed_iff hnodup]
    have hmem : ∀ d : IncrementalDecision, ∀ outputDigest replaced,
        .outputCommitted d.nodeId d.partition outputDigest replaced ∈ receipt.events ↔
          .outputCommitted d.nodeId d.partition outputDigest replaced ∈ events := by
      intro d outputDigest replaced
      rw [hevents, mem_append]
      refine or_iff_right ?_
      intro hadmission
      cases (admissionEvents_quiet change _ hadmission).1
    simp only [hmem]

/-- The recorded history explains the outputs, and every further receipt reports
its call. -/
theorem reached_history (h : Reached rt s) : Outputs.applyAll ∅ s.recordedEvents = s.outputs ∧
    (∀ before nodeId partition outputDigest replaced after, s.recordedEvents =
        before ++ .outputCommitted nodeId partition outputDigest replaced :: after →
      replaced = (Outputs.applyAll ∅ before).digest? nodeId partition) ∧
    ∀ (χ : Type) (executor : NodeExecutor χ) (x x' : χ) (workflow : GeoWorkflow)
      (change : IncrementalChange) (maxRetries : Nat) (receipt : IncrementalRunReceipt)
      (s' : IncrementalScheduler),
      execute rt workflow change maxRetries executor (s, x) = .ok receipt (s', x') →
      s'.history = s.history ++ [receipt] ∧ Reports workflow change maxRetries s s' receipt := by
  refine ⟨h.ledger.1, h.ledger.2, ?_⟩
  intro χ executor x x' workflow change maxRetries receipt s' hcall
  obtain ⟨_, _, -, -, hhistory, -⟩ := execute_journal hcall
  exact ⟨hhistory, execute_reports hcall⟩

/-! The second node fails once and is retried. -/

def diligent : NodeExecutor Nat := fun node _ attempt calls =>
  (if node.stableId = "cursor" ∧ attempt = 1 then .error "store is busy" else .ok zeroDigest,
    calls + 1)

theorem execute_diligent : ∃ receipt s' calls,
    execute .reference ingestWorkflow ingestChange 1 diligent (fresh, 0) = .ok receipt (s', calls) ∧
      calls = 3 ∧ s'.outputs.digest? "cursor" "ward-1" = some zeroDigest := by
  have hcommits : (match execute .reference ingestWorkflow ingestChange 1 diligent (fresh, 0) with
      | .ok _ s' => s'.2 = 3 && s'.1.outputs.digest? "cursor" "ward-1" = some zeroDigest
      | .error _ _ => false) = true := by
    decide
  cases hexecute : execute .reference ingestWorkflow ingestChange 1 diligent (fresh, 0) with
  | error halt s' =>
    rw [hexecute] at hcommits
    cases hcommits
  | ok receipt s' =>
    rw [hexecute] at hcommits
    simp only [Bool.and_eq_true, decide_eq_true_eq] at hcommits
    exact ⟨receipt, s'.1, s'.2, rfl, hcommits.1, hcommits.2⟩

theorem reached_history_diligent : ∃ s, Reached .reference s ∧
    s.outputs.digest? "cursor" "ward-1" = some zeroDigest ∧
    Outputs.applyAll ∅ s.recordedEvents = s.outputs := by
  obtain ⟨receipt, s', calls, hcall, -, houtput⟩ := execute_diligent
  have hreached : Reached .reference s' := .executed .fresh hcall
  exact ⟨s', hreached, houtput, (reached_history hreached).1⟩

end IncrementalScheduler
end GeneGIS
