/-
`answers` is the first success of each planned node, up to the first node without one.  They are
committed in order, and those before a failure stay.
-/
import GeneGIS.Core.Planning
import GeneGIS.Core.Dispatch

namespace GeneGIS

open List

open Fallible (bind_apply lift zoom)

/-! ## Committed outputs -/

namespace Outputs

variable {outputs : Outputs} {nodeId : String} {partition : PartitionKey} {outputDigest : String}

theorem digest?_commit {n : String} {p : PartitionKey} :
    (outputs.commit nodeId partition outputDigest).digest? n p =
      if nodeId = n ∧ partition = p then some outputDigest else outputs.digest? n p := by
  rw [digest?, commit, Std.ExtTreeMap.getElem?_insert]
  by_cases hn : nodeId = n
  · subst hn
    rw [if_pos Std.ReflCmp.compare_self]
    simp only [Option.bind_some, Std.ExtTreeMap.getElem?_insert,
      Std.LawfulEqCmp.compare_eq_iff_eq, true_and]
    by_cases hp : partition = p
    · rw [if_pos hp, if_pos hp]
    · rw [if_neg hp, if_neg hp, digest?, Std.ExtTreeMap.getD_eq_getD_getElem?]
      cases outputs[nodeId]? with
      | none => simp
      | some partitions => rfl
  · rw [if_neg (by rw [Std.LawfulEqCmp.compare_eq_iff_eq]; exact hn), if_neg (fun h => hn h.1)]
    rfl

theorem commit_eq_self (h : outputs.digest? nodeId partition = some outputDigest) :
    outputs.commit nodeId partition outputDigest = outputs := by
  obtain ⟨partitions, hnode, hpartition⟩ := Option.bind_eq_some_iff.mp h
  have hheld : outputs.getD nodeId ∅ = partitions := by
    rw [Std.ExtTreeMap.getD_eq_getD_getElem?, hnode]
    rfl
  rw [commit, hheld, Keyed.insert_self hpartition, Keyed.insert_self hnode]

def commitAll (outputs : Outputs) (given : List (IncrementalDecision × String)) : Outputs :=
  given.foldl (fun outputs e => outputs.commit e.1.nodeId e.1.partition e.2) outputs

theorem digest?_commitAll (outputs : Outputs) (given : List (IncrementalDecision × String))
    (n : String) (p : PartitionKey) :
    (outputs.commitAll given).digest? n p = outputs.digest? n p ∨
      ∃ e ∈ given, e.1.nodeId = n ∧ e.1.partition = p ∧
        (outputs.commitAll given).digest? n p = some e.2 := by
  induction given generalizing outputs with
  | nil => exact .inl rfl
  | cons e rest ih =>
    show ((outputs.commit _ _ _).commitAll rest).digest? n p = _ ∨
      ∃ e' ∈ e :: rest, _ ∧ _ ∧ ((outputs.commit _ _ _).commitAll rest).digest? n p = _
    rcases ih (outputs.commit e.1.nodeId e.1.partition e.2) with h | ⟨e', he', h⟩
    · rw [h, digest?_commit]
      by_cases hkey : e.1.nodeId = n ∧ e.1.partition = p
      · rw [if_pos hkey]
        exact .inr ⟨e, by simp, hkey.1, hkey.2, rfl⟩
      · rw [if_neg hkey]
        exact .inl rfl
    · exact .inr ⟨e', mem_cons_of_mem _ he', h⟩

theorem digest?_commitAll_mem (outputs : Outputs) {given : List (IncrementalDecision × String)}
    (hnodup : (given.map fun e => e.1.nodeId).Nodup) :
    ∀ e ∈ given, (outputs.commitAll given).digest? e.1.nodeId e.1.partition = some e.2 := by
  induction given generalizing outputs with
  | nil =>
    intro e he
    cases he
  | cons first rest ih =>
    rw [map_cons, nodup_cons] at hnodup
    intro e he
    show ((outputs.commit _ _ _).commitAll rest).digest? _ _ = _
    rcases mem_cons.mp he with he | he
    · subst he
      rcases digest?_commitAll (outputs.commit e.1.nodeId e.1.partition e.2) rest e.1.nodeId
        e.1.partition with h | ⟨e', he', hn, -⟩
      · rw [h, digest?_commit, if_pos ⟨rfl, rfl⟩]
      · exact absurd (mem_map.mpr ⟨e', he', hn⟩) hnodup.1
    · exact ih _ hnodup.2 e he

theorem commitAll_eq_self_iff {given : List (IncrementalDecision × String)}
    (hnodup : (given.map fun e => e.1.nodeId).Nodup) :
    outputs.commitAll given = outputs ↔
      ∀ e ∈ given, outputs.digest? e.1.nodeId e.1.partition = some e.2 := by
  constructor
  · intro h e he
    have hread := digest?_commitAll_mem outputs hnodup e he
    rw [h] at hread
    exact hread
  · intro h
    clear hnodup
    induction given with
    | nil => rfl
    | cons e rest ih =>
      show (outputs.commit _ _ _).commitAll rest = outputs
      rw [commit_eq_self (h e (by simp))]
      exact ih fun e' he' => h e' (mem_cons_of_mem _ he')

end Outputs

namespace IncrementalScheduler

variable {χ : Type} {steps : List WorkflowStep} {executor : NodeExecutor χ} {maximum : Nat}
  {decisions : List IncrementalDecision} {run : Run χ}

/-- The first success among the attempts from `attempt` on. -/
def firstAnswer (executor : NodeExecutor χ) (node : WorkflowStep) (partition : PartitionKey) :
    Nat → Nat → χ → Option String × χ
  | 0, _, x => (none, x)
  | remaining + 1, attempt, x =>
    match executor node partition attempt x with
    | (.ok outputDigest, x') => (some outputDigest, x')
    | (.error _, x') => firstAnswer executor node partition remaining (attempt + 1) x'

def answers (steps : List WorkflowStep) (executor : NodeExecutor χ) (maximum : Nat) :
    List IncrementalDecision → χ → List (IncrementalDecision × String)
  | [], _ => []
  | decision :: rest, x =>
    match steps.find? fun node => node.stableId = decision.nodeId with
    | none => []
    | some node =>
      match firstAnswer executor node decision.partition maximum 1 x with
      | (none, _) => []
      | (some outputDigest, x') =>
        (decision, outputDigest) ::
          if isDigest outputDigest then answers steps executor maximum rest x' else []

theorem answers_sublist (steps : List WorkflowStep) (executor : NodeExecutor χ) (maximum : Nat)
    (decisions : List IncrementalDecision) (x : χ) :
    ((answers steps executor maximum decisions x).map Prod.fst).Sublist decisions := by
  induction decisions generalizing x with
  | nil => exact List.Sublist.refl _
  | cons decision rest ih =>
    rw [answers]
    cases steps.find? fun node => node.stableId = decision.nodeId with
    | none => exact nil_sublist _
    | some node =>
      show ((match firstAnswer executor node decision.partition maximum 1 x with
        | (none, _) => []
        | (some outputDigest, x') => _).map Prod.fst).Sublist _
      cases firstAnswer executor node decision.partition maximum 1 x with
      | mk answer x' =>
        cases answer with
        | none => exact nil_sublist _
        | some outputDigest =>
          refine List.Sublist.cons_cons decision ?_
          by_cases hdigest : isDigest outputDigest = true
          · rw [if_pos hdigest]
            exact ih x'
          · rw [if_neg hdigest]
            exact nil_sublist rest

/-! ## Running the plan -/

def Run.note (run : Run χ) (events : List IncrementalEvent) (x : χ) : Run χ :=
  { run with events := run.events ++ events, executor := x }

theorem Run.note_note (run : Run χ) (events events' : List IncrementalEvent) (x x' : χ) :
    (run.note events x).note events' x' = run.note (events ++ events') x' := by
  simp [note]

/-- A run after it has committed the output of one node. -/
def Run.committed (run : Run χ) (decision : IncrementalDecision) (outputDigest : String)
    (events : List IncrementalEvent) (x : χ) : Run χ where
  outputs := run.outputs.commit decision.nodeId decision.partition outputDigest
  events := run.events ++ events ++ [.outputCommitted decision.nodeId decision.partition
    outputDigest (run.outputs.digest? decision.nodeId decision.partition)]
  executor := x

/-- The events of the attempts at one node, from `attempt` on. -/
inductive Tried (decision : IncrementalDecision) (maximum : Nat) :
    Nat → List IncrementalEvent → Bool → Prop
  | succeeded {attempt : Nat} (within : attempt ≤ maximum) :
    Tried decision maximum attempt [.attempt decision.nodeId decision.partition attempt] true
  | exhausted (error : String) : Tried decision maximum maximum
    [.attempt decision.nodeId decision.partition maximum,
      .failed decision.nodeId decision.partition maximum error] false
  | retried {attempt : Nat} {events : List IncrementalEvent} {succeeded : Bool} (error : String)
    (within : attempt < maximum) (rest : Tried decision maximum (attempt + 1) events succeeded) :
    Tried decision maximum attempt (.attempt decision.nodeId decision.partition attempt ::
      .retry decision.nodeId decision.partition attempt error :: events) succeeded

variable {remaining attempt : Nat}

theorem attempts_ok {node : WorkflowStep} {decision : IncrementalDecision}
    {outputDigest : String} {x : χ}
    (h : executor node decision.partition attempt run.executor = (.ok outputDigest, x)) :
    attempts executor node decision maximum (remaining + 1) attempt run =
      if isDigest outputDigest then
        .ok (some outputDigest) (run.note [.attempt decision.nodeId decision.partition attempt] x)
      else .error (.returned (.invalid (.text "invalid output digest")))
        (run.note [.attempt decision.nodeId decision.partition attempt] x) := by
  rw [attempts, bind_apply]
  show ((ask executor node decision.partition attempt) >>= _) (run.note [_] run.executor) = _
  rw [bind_apply, ask]
  dsimp only [Run.note]
  rw [h]
  show (lift ((requireDigest outputDigest _).mapError _) >>= _) _ = _
  rw [bind_apply, requireDigest]
  cases isDigest outputDigest <;> rfl

theorem attempts_error {node : WorkflowStep} {decision : IncrementalDecision}
    {error : String} {x : χ}
    (h : executor node decision.partition attempt run.executor = (.error error, x)) :
    attempts executor node decision maximum (remaining + 1) attempt run =
      attempts executor node decision maximum remaining (attempt + 1)
        (run.note [.attempt decision.nodeId decision.partition attempt,
          if attempt < maximum then .retry decision.nodeId decision.partition attempt error
          else .failed decision.nodeId decision.partition attempt error] x) := by
  rw [attempts, bind_apply]
  show ((ask executor node decision.partition attempt) >>= _) (run.note [_] run.executor) = _
  rw [bind_apply, ask]
  dsimp only [Run.note]
  rw [h]
  show attempts executor node decision maximum remaining (attempt + 1)
    ((run.note [_] x).note [_] x) = _
  rw [Run.note_note]
  rfl

theorem attempts_eq (executor : NodeExecutor χ) (node : WorkflowStep) (decision : IncrementalDecision)
    (hbound : attempt + remaining = maximum) (run : Run χ) :
    ∃ answer x events,
      firstAnswer executor node decision.partition (remaining + 1) attempt run.executor =
        (answer, x) ∧
      Tried decision maximum attempt events answer.isSome ∧
      attempts executor node decision maximum (remaining + 1) attempt run =
        if answer.all isDigest then .ok answer (run.note events x)
        else .error (.returned (.invalid (.text "invalid output digest"))) (run.note events x) := by
  induction remaining generalizing attempt run with
  | zero =>
    cases hasked : executor node decision.partition attempt run.executor with
    | mk answer x =>
      cases answer with
      | ok outputDigest =>
        exact ⟨some outputDigest, x, _, by rw [firstAnswer, hasked], .succeeded (by omega),
          attempts_ok hasked⟩
      | error error =>
        obtain rfl : attempt = maximum := hbound
        refine ⟨none, x, _, by rw [firstAnswer, hasked]; rfl, .exhausted error, ?_⟩
        rw [attempts_error hasked, if_neg (Nat.lt_irrefl _)]
        rfl
  | succ remaining ih =>
    cases hasked : executor node decision.partition attempt run.executor with
    | mk answer x =>
      cases answer with
      | ok outputDigest =>
        exact ⟨some outputDigest, x, _, by rw [firstAnswer, hasked], .succeeded (by omega),
          attempts_ok hasked⟩
      | error error =>
        have hwithin : attempt < maximum := by omega
        obtain ⟨answer, x', events, hfirst, htried, hrest⟩ :=
          ih (show attempt + 1 + remaining = maximum by omega) (run.note
            [.attempt decision.nodeId decision.partition attempt,
              .retry decision.nodeId decision.partition attempt error] x)
        refine ⟨answer, x', _, by rw [firstAnswer, hasked]; exact hfirst,
          .retried error hwithin htried, ?_⟩
        rw [attempts_error hasked, if_pos hwithin, hrest, Run.note_note]
        rfl

/-- The events of a run that ends with a receipt, from the outputs it starts with
to those it ends with. -/
inductive Journal (maximum : Nat) : Outputs → List IncrementalDecision → List IncrementalEvent →
    List (IncrementalDecision × String) → Bool → Outputs → Prop
  | done (outputs : Outputs) : Journal maximum outputs [] [] [] true outputs
  | failed {decision : IncrementalDecision} {events : List IncrementalEvent} (outputs : Outputs)
    (rest : List IncrementalDecision) (tried : Tried decision maximum 1 events false) :
    Journal maximum outputs (decision :: rest) events [] false outputs
  | committed {outputs outputs' : Outputs} {decision : IncrementalDecision}
    {rest : List IncrementalDecision} {events events' : List IncrementalEvent}
    {given : List (IncrementalDecision × String)} {completed : Bool} (outputDigest : String)
    (tried : Tried decision maximum 1 events true)
    (journal : Journal maximum
      (outputs.commit decision.nodeId decision.partition outputDigest) rest events' given
      completed outputs') :
    Journal maximum outputs (decision :: rest)
      (events ++ .outputCommitted decision.nodeId decision.partition outputDigest
        (outputs.digest? decision.nodeId decision.partition) :: events')
      ((decision, outputDigest) :: given) completed outputs'

/-- How a run ends, given what the executor answers. -/
inductive Ran (maximum : Nat) (decisions : List IncrementalDecision) (run : Run χ)
    (given : List (IncrementalDecision × String)) : EStateM.Result Halt (Run χ) Bool → Prop
  | finished {run' : Run χ} {events : List IncrementalEvent} {completed : Bool}
    (digests : ∀ e ∈ given, isDigest e.2 = true)
    (events_eq : run'.events = run.events ++ events)
    (journal : Journal maximum run.outputs decisions events given completed run'.outputs) :
    Ran maximum decisions run given (.ok completed run')
  | malformed {run' : Run χ} (error : IncrementalError)
    (before : List (IncrementalDecision × String)) (decision : IncrementalDecision)
    (answer : String)
    (given_eq : given = before ++ [(decision, answer)]) (bad : isDigest answer = false)
    (outputs_eq : run'.outputs = run.outputs.commitAll before) :
    Ran maximum decisions run given (.error (.returned error) run')

theorem runDecisions_ran (hmaximum : 0 < maximum)
    (hplanned : ∀ d ∈ decisions, d.nodeId ∈ steps.map WorkflowStep.stableId) (run : Run χ) :
    Ran maximum decisions run (answers steps executor maximum decisions run.executor)
      (runDecisions steps executor maximum decisions run) := by
  induction decisions generalizing run with
  | nil => exact .finished (by simp [answers]) (append_nil _).symm (.done _)
  | cons decision rest ih =>
    obtain ⟨node, hnode⟩ : ∃ node, steps.find? (fun node => node.stableId = decision.nodeId) =
        some node := by
      rw [← Option.isSome_iff_exists, find?_isSome]
      obtain ⟨node, hmem, hid⟩ := mem_map.mp (hplanned decision (by simp))
      exact ⟨node, hmem, by simpa using hid⟩
    obtain ⟨remaining, rfl⟩ : ∃ remaining, maximum = remaining + 1 := ⟨maximum - 1, by omega⟩
    obtain ⟨answer, x, events, hfirst, htried, hattempts⟩ :=
      attempts_eq executor node decision (Nat.add_comm 1 remaining) run
    have hplannedRest : ∀ d ∈ rest, d.nodeId ∈ steps.map WorkflowStep.stableId :=
      fun d hd => hplanned d (mem_cons_of_mem _ hd)
    rw [runDecisions, hnode, answers, hnode]
    simp only [hfirst]
    rw [bind_apply, hattempts]
    cases answer with
    | none => exact .finished (by simp) rfl (.failed _ _ htried)
    | some outputDigest =>
      by_cases hdigest : isDigest outputDigest = true
      · simp only [Option.all_some, hdigest, if_true]
        have hrest := ih hplannedRest (run.committed decision outputDigest events x)
        show Ran _ _ _ _ (runDecisions steps executor (remaining + 1) rest
          (run.committed decision outputDigest events x))
        generalize runDecisions steps executor (remaining + 1) rest _ = result at hrest
        cases hrest with
        | finished digests events_eq journal =>
          refine .finished ?_ ?_ (.committed outputDigest htried journal)
          · intro e he
            rcases mem_cons.mp he with rfl | he
            · exact hdigest
            · exact digests e he
          · rw [events_eq, Run.committed]
            simp
        | malformed error before last answer given_eq bad outputs_eq =>
          refine .malformed error ((decision, outputDigest) :: before) last answer ?_ bad outputs_eq
          exact congrArg ((decision, outputDigest) :: ·) given_eq
      · simp only [Option.all_some, hdigest]
        exact .malformed _ [] decision outputDigest rfl (by simpa using hdigest) rfl

/-- An output is what it was, or it is committed in the journal, over what it was. -/
theorem Journal.changed {outputs outputs' : Outputs} {events : List IncrementalEvent}
    {given : List (IncrementalDecision × String)} {completed : Bool}
    (h : Journal maximum outputs decisions events given completed outputs')
    (hnodup : (decisions.map IncrementalDecision.nodeId).Nodup) (n : String) (p : PartitionKey) :
    outputs'.digest? n p = outputs.digest? n p ∨
      ∃ d ∈ decisions, d.nodeId = n ∧ d.partition = p ∧ ∃ outputDigest,
        .outputCommitted n p outputDigest (outputs.digest? n p) ∈ events ∧
        outputs'.digest? n p = some outputDigest := by
  induction h with
  | done => exact .inl rfl
  | failed => exact .inl rfl
  | @committed outputs outputs' decision rest events events' given completed outputDigest _ _ ih =>
    rw [map_cons, nodup_cons] at hnodup
    rcases ih hnodup.2 with h | ⟨d, hd, hn, hp, outputDigest', hevent, h⟩
    · rw [h, Outputs.digest?_commit]
      by_cases hkey : decision.nodeId = n ∧ decision.partition = p
      · obtain ⟨rfl, rfl⟩ := hkey
        rw [if_pos ⟨rfl, rfl⟩]
        exact .inr ⟨decision, by simp, rfl, rfl, outputDigest, by simp, rfl⟩
      · rw [if_neg hkey]
        exact .inl rfl
    · -- A later node commits it, and that node is not this one.
      have hother : ¬ (decision.nodeId = n ∧ decision.partition = p) := by
        intro hkey
        exact hnodup.1 (mem_map.mpr ⟨d, hd, hn.trans hkey.1.symm⟩)
      rw [Outputs.digest?_commit, if_neg hother] at hevent
      exact .inr ⟨d, mem_cons_of_mem _ hd, hn, hp, outputDigest',
        mem_append_right _ (mem_cons_of_mem _ hevent), h⟩

/-! ## The call as a whole -/

variable {rt : Runtime} {workflow : GeoWorkflow} {change : IncrementalChange} {maxRetries : Nat}
  {s : IncrementalScheduler} {x : χ} {workflowDigest : String}

theorem maximumAttempts_pos (maxRetries : Nat) : 0 < maximumAttempts maxRetries := by
  rw [maximumAttempts, u32Max]
  omega

def runReceipt (rt : Runtime) (change : IncrementalChange) (workflowDigest : String)
    (decisions : List IncrementalDecision) (completed : Bool) (run : Run χ) :
    IncrementalRunReceipt where
  schemaVersion := incrementalReceiptSchemaVersion
  workflowDigest := workflowDigest
  changeDigest := rt.digestCompact change.toJson
  decisions := decisions
  events := run.events
  completed := completed
  stateDigest := rt.digestCompact run.outputs.toJson

theorem execute_refused {error : IncrementalError} (h : plan rt workflow change = .error error) :
    execute rt workflow change maxRetries executor (s, x) = .error (.returned error) (s, x) := by
  rw [execute, bind_apply, h]
  rfl

theorem execute_finished (hplan : plan rt workflow change = .ok (decisions, workflowDigest))
    {completed : Bool} (hrun : runDecisions workflow.steps executor (maximumAttempts maxRetries)
      decisions (admitted s change x) = .ok completed run) :
    execute rt workflow change maxRetries executor (s, x) =
      .ok (runReceipt rt change workflowDigest decisions completed run)
        ({ outputs := run.outputs
           history := s.history ++ [runReceipt rt change workflowDigest decisions completed run] },
          run.executor) := by
  rw [execute, bind_apply, hplan]
  show (zoom _ _ _ >>= _) (s, x) = _
  rw [bind_apply, zoom, bind_apply]
  simp only [hrun]
  rfl

theorem execute_malformed (hplan : plan rt workflow change = .ok (decisions, workflowDigest))
    {error : Halt} (hrun : runDecisions workflow.steps executor (maximumAttempts maxRetries)
      decisions (admitted s change x) = .error error run) :
    execute rt workflow change maxRetries executor (s, x) =
      .error error ({ s with outputs := run.outputs }, run.executor) := by
  rw [execute, bind_apply, hplan]
  show (zoom _ _ _ >>= _) (s, x) = _
  rw [bind_apply, zoom, bind_apply]
  simp only [hrun]

theorem plan_ok (h : plan rt workflow change = .ok (decisions, workflowDigest)) :
    affectedDecisions workflow change = .ok decisions := by
  obtain ⟨_, -, h⟩ := Fallible.bind_iff.mp h
  obtain ⟨_, -, h⟩ := Fallible.bind_iff.mp h
  obtain ⟨planned, hplanned, h⟩ := Fallible.bind_iff.mp h
  obtain ⟨_, -, h⟩ := Fallible.bind_iff.mp h
  obtain ⟨rfl, -⟩ := Prod.mk.inj (Except.ok.inj h)
  exact hplanned

variable (s : IncrementalScheduler)

theorem plan_ran (executor : NodeExecutor χ) (maxRetries : Nat)
    (h : plan rt workflow change = .ok (decisions, workflowDigest)) (x : χ) :
    Ran (maximumAttempts maxRetries) decisions (admitted s change x)
      (answers workflow.steps executor (maximumAttempts maxRetries) decisions x)
      (runDecisions workflow.steps executor (maximumAttempts maxRetries) decisions
        (admitted s change x)) :=
  runDecisions_ran (maximumAttempts_pos maxRetries)
    (fun d hd => (affectedDecisions_ok (plan_ok h)).2.2 d.nodeId (mem_map_of_mem hd)) _

/-- A failed call leaves the scheduler alone, and one that changes an output adds a receipt that has
the change. -/
def Accounts : EStateM.Result Halt (IncrementalScheduler × χ) IncrementalRunReceipt → Prop
  | .error _ s' => s'.1 = s
  | .ok receipt s' => s'.1.history = s.history ++ [receipt] ∧
    ∀ nodeId partition, s'.1.outputs.digest? nodeId partition ≠ s.outputs.digest? nodeId partition →
      ∃ outputDigest,
        .outputCommitted nodeId partition outputDigest (s.outputs.digest? nodeId partition) ∈
          receipt.events ∧
        s'.1.outputs.digest? nodeId partition = some outputDigest

/-- If the last answer is no digest, the answers before it are what is already
committed. -/
def Harmless (given : List (IncrementalDecision × String)) : Prop :=
  ∀ before decision answer, given = before ++ [(decision, answer)] → isDigest answer = false →
    ∀ e ∈ before, s.outputs.digest? e.1.nodeId e.1.partition = some e.2

theorem execute_accounts_iff (rt : Runtime) (workflow : GeoWorkflow) (change : IncrementalChange)
    (maxRetries : Nat) (executor : NodeExecutor χ) (s : IncrementalScheduler) (x : χ) :
    Accounts s (execute rt workflow change maxRetries executor (s, x)) ↔
      ∀ decisions workflowDigest, plan rt workflow change = .ok (decisions, workflowDigest) →
        Harmless s (answers workflow.steps executor (maximumAttempts maxRetries) decisions x) := by
  cases hplan : plan rt workflow change with
  | error error =>
    rw [execute_refused hplan]
    simp [Accounts]
  | ok planned =>
    obtain ⟨decisions, workflowDigest⟩ := planned
    have hnodup := (affectedDecisions_ok (plan_ok hplan)).1
    have hran := plan_ran s executor maxRetries hplan x
    have hone : (∀ d w, (.ok (decisions, workflowDigest) : Except IncrementalError _) =
          .ok (d, w) → Harmless s
            (answers workflow.steps executor (maximumAttempts maxRetries) d x)) ↔
        Harmless s
          (answers workflow.steps executor (maximumAttempts maxRetries) decisions x) := by
      simp
    rw [hone]
    cases hrun : runDecisions workflow.steps executor (maximumAttempts maxRetries) decisions
        (admitted s change x) with
    | ok completed run =>
      rw [execute_finished hplan hrun]
      rw [hrun] at hran
      cases hran with
      | finished digests events_eq journal =>
        refine iff_of_true ⟨rfl, ?_⟩ ?_
        · intro n p hne
          rcases journal.changed hnodup n p with h | ⟨_, -, -, -, outputDigest, hevent, h⟩
          · exact absurd h hne
          · refine ⟨outputDigest, ?_, h⟩
            show _ ∈ run.events
            rw [events_eq]
            exact List.mem_append_right _ hevent
        · intro before decision answer hgiven hbad
          rw [digests (decision, answer) (by rw [hgiven]; simp)] at hbad
          cases hbad
    | error halt run =>
      rw [execute_malformed hplan hrun]
      rw [hrun] at hran
      cases hran with
      | malformed error before decision answer given_eq bad outputs_eq =>
        have hgiven : (before.map fun e => e.1.nodeId).Nodup := by
          have hsublist := (answers_sublist workflow.steps executor (maximumAttempts maxRetries)
            decisions x).map IncrementalDecision.nodeId
          rw [given_eq, List.map_map, List.map_append] at hsublist
          exact (hsublist.nodup hnodup).of_append_left
        have hunchanged : ({ s with outputs := run.outputs } : IncrementalScheduler) = s ↔
            run.outputs = s.outputs := by
          constructor
          · intro h
            exact congrArg IncrementalScheduler.outputs h
          · intro h
            rw [h]
        show ({ s with outputs := run.outputs } : IncrementalScheduler) = s ↔ _
        rw [hunchanged, outputs_eq]
        show s.outputs.commitAll before = s.outputs ↔ _
        rw [Outputs.commitAll_eq_self_iff hgiven]
        constructor
        · intro h before' decision' answer' hlast _
          rw [given_eq] at hlast
          rw [← (List.append_inj' hlast rfl).1]
          exact h
        · intro h
          exact h before decision answer given_eq bad

/-! A graph of two nodes, the second of which answers with something else than a
digest. -/

def ingestWorkflow : GeoWorkflow :=
  { Session.sampleWorkflow "ingest"
      [{ Session.sampleStep "window" "ValidateWindow" [] with inputs := [.input "live-feed"] },
        Session.sampleStep "cursor" "CommitCursor" ["window"]] with
    inputContracts := [{ name := "live-feed", crs := none, coordinateUnit := none,
                         valueUnit := none, sourceSnapshot := none, geoContract := none }] }

def zeroDigest : String := "sha256:0000000000000000000000000000000000000000000000000000000000000000"

def ingestChange : IncrementalChange where
  inputName := "live-feed"
  window := { partition := "ward-1", cursorStart := 10, cursorEnd := 11,
              watermarkStart := "1970-01-01T00:00:00Z", watermarkEnd := "1970-01-01T00:05:00Z" }
  snapshotDigest := zeroDigest
  change := .append

def fresh : IncrementalScheduler := { outputs := ∅, history := [] }

def careless : NodeExecutor Unit := fun node _ _ _ =>
  (.ok (if node.stableId = "window" then zeroDigest else "cursor-11"), ())

theorem execute_careless :
    ∃ error s', execute .reference ingestWorkflow ingestChange 0 careless (fresh, ()) =
        .error (.returned error) s' ∧
      fresh.outputs.digest? "window" "ward-1" = none ∧
      s'.1.outputs.digest? "window" "ward-1" = some zeroDigest ∧ s'.1.history = [] := by
  have hcommits : (match execute .reference ingestWorkflow ingestChange 0 careless (fresh, ()) with
      | .error (.returned _) s' =>
        s'.1.outputs.digest? "window" "ward-1" = some zeroDigest && s'.1.history = []
      | _ => false) = true := by
    decide
  cases hexecute : execute .reference ingestWorkflow ingestChange 0 careless (fresh, ()) with
  | ok receipt s' =>
    rw [hexecute] at hcommits
    cases hcommits
  | error halt s' =>
    rw [hexecute] at hcommits
    cases halt with
    | panicked message => cases hcommits
    | returned error =>
      simp only [Bool.and_eq_true, decide_eq_true_eq] at hcommits
      exact ⟨error, s', rfl, by rfl, hcommits.1, hcommits.2⟩

end IncrementalScheduler
end GeneGIS
