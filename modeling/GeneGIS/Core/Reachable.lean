/-
The active commands of every such bus were logged and its workflows stand under their own
identifiers, so a replay plays exactly the logged commands.
-/
import GeneGIS.Core.RoundTrip

namespace GeneGIS.CommandBus

open Fallible Session Option Except List Keyed

variable {rt : Runtime} {codec : LogCodec} {clock : Nat → DateTime} {bus bus' : CommandBus}
  {p result : Project}

inductive Reachable (rt : Runtime) (codec : LogCodec) : CommandBus → Prop
  | new (p : Project) : Reachable rt codec (CommandBus.new p)
  | call {bus : CommandBus} (reachable : Reachable rt codec bus) (p : Project) (op : Op) :
      Reachable rt codec (perform rt ⟨bus, p⟩ op).bus
  | load {bus bus' : CommandBus} {clock : Nat → DateTime} {log : CommandLog} {text : String}
      (reachable : Reachable rt codec bus) (written : bus.toLog rt clock = .ok log)
      (reads : Reads rt codec log) (persisted : bus.persist rt codec clock = .ok text)
      (loaded : CommandBus.load rt codec text = .ok bus') : Reachable rt codec bus'
  | replay {bus bus' : CommandBus} {clock : Nat → DateTime} {result : Project}
      (reachable : Reachable rt codec bus)
      (replayed : CommandBus.replay rt clock bus = .ok result bus') : Reachable rt codec bus'

structure Logged (bus : CommandBus) : Prop where
  history : ∀ e ∈ bus.history, e ∈ bus.auditLog
  indexed : Indexed GeoWorkflow.id bus.workflows

/-- The session a successful replay ends with, before the cursor is compared. -/
structure Replayed (rt : Runtime) (bus : CommandBus) (p : Project) (script : Script) (s : Session) :
    Prop where
  initial : bus.initialState = some p
  valid : AllValid rt bus.workflows
  plays : Plays rt p script s
  commands : script.map Prod.fst = bus.auditLog
  authorized : ∀ entry ∈ script,
    Authorized rt bus.workflows entry.1 (bus.replayExecutor none) entry.2
  workflows : s.bus.workflows = bus.workflows

theorem replay_replayed (hbus : Logged bus) (h : replay rt clock bus = .ok result bus') :
    ∃ p script s, Replayed rt bus p script s ∧
      bus.activeState rt clock (bus.replayExecutor none) s = .ok result ∧
      bus.checkReplayDigest rt result = .ok () ∧ bus' = adopt s.bus result bus := by
  obtain ⟨p, s, hinitial, hreplayed, hactive, hdigest, hbus'⟩ := replay_ok.mp h
  rw [replayEvents_ok hbus.indexed, replayStream_eq hbus.history] at hreplayed
  obtain ⟨hvalid, happly⟩ := hreplayed
  obtain ⟨script, hcommands, hplays, hauthorized, hworkflows⟩ := applyAll_plays happly
  exact ⟨p, script, s, ⟨hinitial, hvalid, hplays, hcommands, hauthorized, hworkflows⟩, hactive,
    hdigest, hbus'⟩

variable {s : Session}

theorem activeState_ok {executor : Option WorkflowExecutor} :
    bus.activeState rt clock executor s = .ok result ↔
      s.bus.cursor = bus.cursor ∧ result = s.project ∨
      s.bus.cursor ≠ bus.cursor ∧ ∃ initial active, s.bus.initialState = some initial ∧
        replayEvents rt clock executor (s.bus.workflows.toList.map Prod.snd) initial
          bus.replayStream.length (bus.history.take bus.cursor) = .ok active ∧
        result = active.project := by
  by_cases hcursor : s.bus.cursor = bus.cursor
  · rw [activeState_here hcursor]
    simp [hcursor, eq_comm]
  · rw [activeState, if_neg hcursor]
    cases hinitial : s.bus.initialState with
    | none => simp [hcursor]
    | some initial =>
      simp only [bind_iff, hcursor, false_and, ne_eq, not_false_eq_true, true_and, false_or,
        Option.some.injEq]
      constructor
      · intro h
        obtain ⟨active, hactive, h⟩ := h
        exact ⟨initial, active, rfl, hactive, (ok.inj h).symm⟩
      · intro h
        obtain ⟨_, active, rfl, hactive, rfl⟩ := h
        exact ⟨active, hactive, rfl⟩

theorem logged_new (p : Project) : Logged (CommandBus.new p) := by
  refine ⟨?_, indexed_empty _⟩
  intro e he
  cases he

theorem Logged.perform (h : Logged bus) (p : Project) (op : Op) :
    Logged (perform rt ⟨bus, p⟩ op).bus := by
  have hperformed := performed rt ⟨bus, p⟩ op
  generalize Session.perform rt ⟨bus, p⟩ op = s' at hperformed
  cases hperformed with
  | refused => exact h
  | command _ now envelope executor _ _ haccepted =>
    obtain ⟨run, henters, -⟩ := accepted_iff.mp haccepted
    refine ⟨henters.history h.history, ?_⟩
    rw [henters.workflows]
    exact h.indexed
  | register workflow => exact ⟨h.history, h.indexed.insert workflow⟩
  | undo => exact ⟨h.history, h.indexed⟩
  | redo => exact ⟨h.history, h.indexed⟩

variable {log : CommandLog}

theorem toLog_fields (h : bus.toLog rt clock = .ok log) :
    log.commands = bus.history ∧ log.auditLog = bus.auditLog := by
  obtain ⟨state, -, h⟩ := bind_iff.mp h
  cases hinitial : bus.initialState with
  | none => simp [hinitial] at h
  | some initial =>
    rw [hinitial] at h
    cases h
    exact ⟨rfl, rfl⟩

theorem ofLog_fields (h : ofLog rt log = .ok bus') :
    bus'.history = log.commands ∧ bus'.auditLog = log.auditLog ∧
      bus'.workflows = .ofList (log.workflows.map fun w => (w.id, w)) := by
  by_cases hversion : log.schemaVersion = CommandLog.currentSchemaVersion
  · cases hdigest : log.logDigest with
    | none => simp [ofLog, hversion, hdigest] at h
    | some expected =>
      by_cases hexpected : expected = log.digest rt
      · by_cases hcursor : log.commands.length < log.cursor
        · simp [ofLog, hversion, hdigest, hexpected, hcursor] at h
          cases h
        · rw [hexpected] at hdigest
          rw [ofLog_ok hversion hdigest (Nat.not_lt.mp hcursor)] at h
          cases h
          exact ⟨rfl, rfl, rfl⟩
      · simp [ofLog, hversion, hdigest, hexpected] at h
        cases h
  · simp [ofLog, hversion] at h
    cases h

theorem Logged.load {text : String} (h : Logged bus)
    (hwritten : bus.toLog rt clock = .ok log) (hreads : Reads rt codec log)
    (hpersisted : bus.persist rt codec clock = .ok text)
    (hloaded : load rt codec text = .ok bus') : Logged bus' := by
  obtain ⟨hcommands, hauditLog⟩ := toLog_fields hwritten
  rw [persist, hwritten] at hpersisted
  cases hpersisted
  rw [CommandBus.load, hreads] at hloaded
  obtain ⟨hhistory', hauditLog', hworkflows'⟩ := ofLog_fields hloaded
  refine ⟨?_, ?_⟩
  · rw [hhistory', hauditLog']
    show ∀ e ∈ log.commands, e ∈ log.auditLog
    rw [hcommands, hauditLog]
    exact h.history
  · rw [hworkflows']
    exact indexed_ofList _

theorem Logged.replay (h : Logged bus) (hreplay : replay rt clock bus = .ok result bus') :
    Logged bus' := by
  obtain ⟨p, script, s, hreplayed, -, -, rfl⟩ := replay_replayed h hreplay
  refine ⟨?_, h.indexed⟩
  show ∀ e ∈ s.bus.history, e ∈ bus.auditLog
  rw [← hreplayed.commands, ← hreplayed.plays.auditLog]
  exact hreplayed.plays.history

theorem Reachable.logged (h : Reachable rt codec bus) : Logged bus := by
  induction h with
  | new p => exact logged_new p
  | call _ p op ih => exact ih.perform p op
  | load _ hwritten hreads hpersisted hloaded ih =>
    exact ih.load hwritten hreads hpersisted hloaded
  | replay _ hreplay ih => exact ih.replay hreplay

/-! ## The cursor after a replay -/

def logCursor (events : List CommandEnvelope) : Nat :=
  events.foldl (fun cursor event => if event.command = .undo then cursor - 1 else cursor + 1) 0

theorem logCursor_snoc (events : List CommandEnvelope) (event : CommandEnvelope) :
    logCursor (events ++ [event]) =
      if event.command = .undo then logCursor events - 1 else logCursor events + 1 := by
  rw [logCursor, foldl_append]
  rfl

variable {script : Script}

theorem plays_cursor (h : Plays rt p script s) : s.bus.cursor = logCursor s.bus.auditLog := by
  induction h with
  | start => rfl
  | @enter script s s' now envelope run hplays henters ih =>
    rw [henters.auditLog, logCursor_snoc, ← ih]
    cases henters with
    | undo _ hcommand =>
      rw [if_pos hcommand]
      rfl
    | redo _ hcommand =>
      rw [hcommand, if_neg (by simp)]
      rfl
    | mutation _ hundo =>
      obtain ⟨t, ht, -⟩ := hplays.represents
      have hle := ht.cursor_le
      rw [if_neg hundo]
      show (s.bus.history.take s.bus.cursor).length + 1 = _
      rw [length_take]
      omega
  | register _ _ ih => exact ih

theorem Replayed.consistent (h : Replayed rt bus p script s) : Consistent script := by
  intro e₁ d₁ x₁ e₂ d₂ x₂ h₁ h₂ hid
  obtain ⟨r₁, hr₁, heq₁⟩ := authorized_recorded (h.authorized _ h₁) d₁ x₁ rfl
  obtain ⟨r₂, hr₂, heq₂⟩ := authorized_recorded (h.authorized _ h₂) d₂ x₂ rfl
  simp only at hr₁ hr₂ heq₁ heq₂
  rw [hid, hr₂] at hr₁
  rw [heq₁, heq₂, hid, some.inj hr₁]

/-- What a replay should leave: the state at the cursor, the cursor of before, and a bus that can be
loaded and replayed. -/
structure Settled (rt : Runtime) (codec : LogCodec) (bus bus' : CommandBus) (result : Project) :
    Prop where
  state : ∃ initial state, bus'.initialState = some initial ∧
    snapshot initial bus' bus'.cursor = some state ∧
    state.canonicalStateJson rt = result.canonicalStateJson rt
  cursor : bus'.cursor = bus.cursor
  again : ∀ clock clock', ∃ log, bus'.toLog rt clock = .ok log ∧ (Reads rt codec log →
    ∃ text bus₁ result' bus₂, bus'.persist rt codec clock = .ok text ∧
      load rt codec text = .ok bus₁ ∧ replay rt clock' bus₁ = .ok result' bus₂ ∧
      result'.canonicalStateJson rt = result.canonicalStateJson rt)

theorem Replayed.again (hbus : Logged bus)
    (h : Replayed rt bus p script s) (clock₁ clock₂ : Nat → DateTime) :
    let bus' := adopt s.bus s.project bus
    ∃ log, bus'.toLog rt clock₁ = .ok log ∧ (Reads rt codec log →
      ∃ text bus₁ result' bus₂, bus'.persist rt codec clock₁ = .ok text ∧
        load rt codec text = .ok bus₁ ∧ replay rt clock₂ bus₁ = .ok result' bus₂ ∧
        result'.canonicalStateJson rt = s.project.canonicalStateJson rt) := by
  intro bus'
  obtain ⟨t, ht, -⟩ := h.plays.represents
  have hinitial : bus'.initialState = some p := h.plays.initialState
  have hrecords : bus'.workflowExecutions = recordsOf script := h.plays.executions
  refine ⟨logOf rt bus' p s.project, toLog_ok hinitial rfl, fun hreads => ?_⟩
  have hindexed : Indexed WorkflowExecutionRecord.commandId bus'.workflowExecutions := by
    rw [hrecords]
    exact recordsOf_indexed script
  obtain ⟨text, hpersist, hload⟩ :=
    load_persist clock₁ hinitial rfl ht.cursor_le hbus.indexed hindexed hreads
  let bus₁ := reloaded rt bus' s.project
  have hauthorized : ∀ entry ∈ script,
      Authorized rt bus₁.workflows entry.1 (bus₁.replayExecutor none) entry.2 := by
    intro entry hentry
    refine authorized_replayed (h.authorized entry hentry)
      (fun id w _ hw hadmits => ⟨w, hw, hadmits⟩) ?_
    show Recorded bus'.workflowExecutions (entry.1, entry.2)
    rw [hrecords]
    exact h.consistent.recorded entry hentry
  have hlog : bus₁.auditLog = s.bus.auditLog := by
    rw [h.plays.auditLog, h.commands]
    rfl
  obtain ⟨result', bus₂, hreplay, hsimilar, -, -⟩ := replay_reloaded bus₁ clock₂ h.plays rfl rfl
    hlog hinitial hbus.indexed h.valid rfl hauthorized
  exact ⟨text, bus₁, result', bus₂, hpersist, hload, hreplay, hsimilar.canonicalStateJson rt⟩

theorem perform_accepted {s s' : Session} {op : Op} (h : Accepts rt s op s') :
    perform rt s op = s' := by
  cases op with
  | apply now envelope =>
    obtain ⟨r, h⟩ := h
    rw [perform, h]
    rfl
  | applyWithExecutor now envelope executor =>
    obtain ⟨r, h⟩ := h
    rw [perform, h]
    rfl
  | registerWorkflow workflow =>
    obtain ⟨digest, h⟩ := h
    rw [perform, h]
    rfl
  | undo =>
    rw [perform, show Session.undo s = .ok () s' from h]
    rfl
  | redo =>
    rw [perform, show Session.redo s = .ok () s' from h]
    rfl

theorem reachable_path {trace : List (Session × Op)}
    (path : Path (Accepts rt) (start p) trace s) : Reachable rt codec s.bus := by
  induction path with
  | nil => exact .new p
  | @snoc trace s s' op _ haccepts ih =>
    have hcall := ih.call s.project op
    rw [show (⟨s.bus, s.project⟩ : Session) = s from rfl, perform_accepted haccepts] at hcall
    exact hcall

def measuredLog : CommandLog := logOf .reference measured.bus sampleProject measured.project

/-- The bus of `measured`, read back from its file. -/
def measuredBus : CommandBus := reloaded .reference measured.bus measured.project

theorem played_measured : ∃ script, Played .reference sampleProject measureTrace script measured := by
  refine path_played path_measured ?_ (by decide)
  intro x hx
  simp only [measureTrace, mem_cons, not_mem_nil, or_false] at hx
  rcases hx with rfl | rfl
  · simp
  · simp

theorem reachable_measuredBus : Reachable .reference (codecFor measuredLog) measuredBus := by
  obtain ⟨script, h⟩ := played_measured
  obtain ⟨text, hpersist, hload⟩ := h.load (reads_codecFor measuredLog) fun _ => ⟨0⟩
  exact (reachable_path path_measured).load (toLog_ok h.plays.initialState h.plays.currentState)
    (reads_codecFor measuredLog) hpersist hload

theorem replay_measuredBus :
    ∃ result bus', replay .reference (fun _ => ⟨0⟩) measuredBus = .ok result bus' ∧
      Project.Similar measured.project result := by
  obtain ⟨script, h⟩ := played_measured
  obtain ⟨result, bus', hreplay, hsimilar, -, -⟩ := h.replay (h.consistent (by decide)) fun _ => ⟨0⟩
  exact ⟨result, bus', hreplay, hsimilar⟩

/-- A layer is added and the addition is undone by a direct call. -/
def undoneBus : CommandBus :=
  (Session.run .reference [.apply ⟨0⟩ addRoads, .undo] (start sampleProject)).bus

def cursorAfter {ε α : Type} : EStateM.Result ε CommandBus α → Nat
  | .ok _ bus => bus.cursor
  | .error _ _ => 0

theorem similar_checkReplayDigest {state state' : Project} (h : Project.Similar state state')
    (hcheck : bus.checkReplayDigest rt state = .ok ()) :
    bus.checkReplayDigest rt state' = .ok () := by
  simp only [checkReplayDigest] at hcheck ⊢
  rw [h.stateDigest rt]
  exact hcheck

/-- Every logged command on the workflow is one that the workflow admits. -/
def AdmitsLogged (rt : Runtime) (workflow : GeoWorkflow) (bus : CommandBus) : Prop :=
  ∀ e ∈ bus.auditLog, referredWorkflow e.command = some workflow.id → Admits rt workflow e

variable {workflow : GeoWorkflow}

def withWorkflow (workflow : GeoWorkflow) (bus : CommandBus) : CommandBus :=
  { bus with workflows := bus.workflows.insert workflow.id workflow }

theorem getElem?_withWorkflow {id : Uuid} (hid : id ≠ workflow.id) :
    (bus.withWorkflow workflow).workflows[id]? = bus.workflows[id]? := by
  exact getElem?_insert_ne hid

theorem getElem?_withWorkflow_self :
    (bus.withWorkflow workflow).workflows[workflow.id]? = some workflow :=
  Std.ExtTreeMap.getElem?_insert_self

/-- A command keeps its execution under the new registration if the new graph
admits it. -/
theorem authorized_withWorkflow {envelope : CommandEnvelope} {run : Option Run}
    (h : Authorized rt bus.workflows envelope (bus.replayExecutor none) run)
    (hadmits : referredWorkflow envelope.command = some workflow.id → Admits rt workflow envelope) :
    Authorized rt (bus.withWorkflow workflow).workflows envelope
      ((bus.withWorkflow workflow).replayExecutor none) run := by
  refine authorized_replayed h ?_ (authorized_recorded h)
  intro id w hreferred hw hold
  by_cases hid : id = workflow.id
  · rw [hid] at hreferred ⊢
    exact ⟨workflow, getElem?_withWorkflow_self, hadmits hreferred⟩
  · exact ⟨w, by rw [getElem?_withWorkflow hid, hw], hold⟩

theorem allValid_withWorkflow (h : AllValid rt bus.workflows)
    (hworkflow : workflow.validate rt = .ok ()) :
    AllValid rt (bus.withWorkflow workflow).workflows := by
  intro id w hw
  by_cases hid : id = workflow.id
  · rw [hid, getElem?_withWorkflow_self] at hw
    rw [← some.inj hw]
    exact hworkflow
  · rw [getElem?_withWorkflow hid] at hw
    exact h id w hw

theorem applyAll_withWorkflow {a : Session} (hplays : Plays rt p script a)
    (hauthorized : ∀ entry ∈ script,
      Authorized rt bus.workflows entry.1 (bus.replayExecutor none) entry.2)
    (hlogged : ∀ e ∈ script.map Prod.fst, e ∈ bus.auditLog)
    (hadmits : AdmitsLogged rt workflow bus) (clock : Nat → DateTime) (index : Nat) :
    ∃ b, applyAll rt clock ((bus.withWorkflow workflow).replayExecutor none) index
        (script.map Prod.fst) (startWith (bus.withWorkflow workflow).workflows p) = .ok b ∧
      Mirrors a b ∧ b.bus.workflows = (bus.withWorkflow workflow).workflows := by
  refine hplays.applyAll clock index ?_
  intro entry hentry
  refine authorized_withWorkflow (hauthorized entry hentry) (hadmits entry.1 (hlogged _ ?_))
  exact mem_map.mpr ⟨entry, hentry, rfl⟩

theorem replay_withWorkflow (hbus : Logged bus) (hworkflow : workflow.validate rt = .ok ())
    (hreplay : replay rt clock bus = .ok result bus') (hadmits : AdmitsLogged rt workflow bus)
    (clock' : Nat → DateTime) :
    ∃ result' bus'', replay rt clock' (bus.withWorkflow workflow) = .ok result' bus'' ∧
      Project.Similar result result' := by
  obtain ⟨p, script, a, h, hactive, hdigest, -⟩ := replay_replayed hbus hreplay
  have hindexed : Indexed GeoWorkflow.id (bus.withWorkflow workflow).workflows :=
    hbus.indexed.insert workflow
  have hvalid := allValid_withWorkflow h.valid hworkflow
  have hlogged : ∀ e ∈ script.map Prod.fst, e ∈ bus.auditLog := by
    rw [h.commands]
    exact fun e he => he
  obtain ⟨b, happly, hmirrors, hworkflows⟩ :=
    applyAll_withWorkflow h.plays h.authorized hlogged hadmits clock' 0
  obtain ⟨script', -, hplays', -, -⟩ := applyAll_plays happly
  have hstream : (bus.withWorkflow workflow).replayStream = script.map Prod.fst := by
    rw [h.commands]
    exact replayStream_eq hbus.history
  have hreplayed := (replayEvents_ok hindexed).mpr ⟨hvalid, happly⟩
  rw [← hstream] at hreplayed
  -- The state at the cursor: the end of the log, or a second replay of the history.
  have hsame : ∃ result', (bus.withWorkflow workflow).activeState rt clock'
      ((bus.withWorkflow workflow).replayExecutor none) b = .ok result' ∧
      Project.Similar result result' := by
    rcases activeState_ok.mp hactive with ⟨hcursor, rfl⟩ | ⟨hcursor, q, active, hq, hevents, rfl⟩
    · exact ⟨b.project, activeState_here (hmirrors.cursor.trans hcursor), hmirrors.project⟩
    · rw [h.workflows, replayEvents_ok hbus.indexed] at hevents
      rw [h.plays.initialState] at hq
      cases hq
      obtain ⟨script₂, hcommands₂, hplays₂, hauthorized₂, -⟩ := applyAll_plays hevents.2
      have hlogged₂ : ∀ e ∈ script₂.map Prod.fst, e ∈ bus.auditLog := by
        rw [hcommands₂]
        exact fun e he => hbus.history e (mem_of_mem_take he)
      obtain ⟨b₂, happly₂, hmirrors₂, -⟩ := applyAll_withWorkflow hplays₂ hauthorized₂ hlogged₂
        hadmits clock' (bus.withWorkflow workflow).replayStream.length
      rw [hcommands₂] at happly₂
      refine ⟨b₂.project, activeState_ok.mpr (.inr ⟨?_, p, b₂, hplays'.initialState, ?_, rfl⟩),
        hmirrors₂.project⟩
      · rw [hmirrors.cursor]
        exact hcursor
      · rw [hworkflows]
        exact (replayEvents_ok hindexed).mpr ⟨hvalid, happly₂⟩
  obtain ⟨result', hactive', hsimilar⟩ := hsame
  refine ⟨result', _, replay_ok.mpr ⟨p, b, h.initial, hreplayed, hactive', ?_, rfl⟩, hsimilar⟩
  exact similar_checkReplayDigest hsimilar hdigest

theorem admitsLogged_of_replay (hbus : Logged bus)
    (hreplay : replay rt clock (bus.withWorkflow workflow) = .ok result bus') :
    AdmitsLogged rt workflow bus := by
  have hlogged : Logged (bus.withWorkflow workflow) := ⟨hbus.history, hbus.indexed.insert workflow⟩
  obtain ⟨p, script, s, h, -, -, -⟩ := replay_replayed hlogged hreplay
  intro e he hreferred
  have hmem : e ∈ script.map Prod.fst := by
    rw [h.commands]
    exact he
  obtain ⟨entry, hentry, rfl⟩ := mem_map.mp hmem
  have hauthorized := h.authorized entry hentry
  rw [Authorized, hreferred] at hauthorized
  obtain ⟨w, hw, hadmits, -⟩ := hauthorized
  rw [getElem?_withWorkflow_self] at hw
  rw [some.inj hw]
  exact hadmits

/-- After a workflow was registered, a bus is still replayed to the same state exactly if the
workflow admits the logged commands of its identifier. -/
theorem replay_after_register_iff (rt : Runtime) (codec : LogCodec) (clock : Nat → DateTime)
    {bus bus' bus₁ : CommandBus} {result : Project} {workflow : GeoWorkflow}
    {digest : WorkflowDigest} (hreachable : Reachable rt codec bus)
    (hreplay : replay rt clock bus = .ok result bus')
    (hregister : CommandBus.registerWorkflow rt workflow bus = .ok digest bus₁) :
    (∀ clock', ∃ result' bus₁', replay rt clock' bus₁ = .ok result' bus₁' ∧
        result'.canonicalStateJson rt = result.canonicalStateJson rt) ↔
      AdmitsLogged rt workflow bus := by
  have hbus := hreachable.logged
  obtain ⟨hworkflow, rfl⟩ := registerWorkflow_ok.mp ⟨digest, hregister⟩
  constructor
  · intro h
    obtain ⟨result', bus₁', hreplay', -⟩ := h clock
    exact admitsLogged_of_replay hbus hreplay'
  · intro hadmits clock'
    obtain ⟨result', bus₁', hreplay', hsimilar⟩ :=
      replay_withWorkflow hbus hworkflow hreplay hadmits clock'
    exact ⟨result', bus₁', hreplay', hsimilar.canonicalStateJson rt⟩

theorem registerWorkflow_withWorkflow (hworkflow : workflow.validate rt = .ok ()) :
    ∃ digest, CommandBus.registerWorkflow rt workflow bus = .ok digest (bus.withWorkflow workflow) :=
  registerWorkflow_ok.mpr ⟨hworkflow, rfl⟩

theorem auditLog_measuredBus : measuredBus.auditLog = [runMeasure] := rfl

/-- Registering the same workflow again. -/
theorem replay_after_register_measureWorkflow : ∃ result bus' digest,
      replay .reference (fun _ => ⟨0⟩) measuredBus = .ok result bus' ∧
      CommandBus.registerWorkflow .reference measureWorkflow measuredBus =
        .ok digest (measuredBus.withWorkflow measureWorkflow) ∧
      ∃ result' bus₁', replay .reference (fun _ => ⟨0⟩) (measuredBus.withWorkflow measureWorkflow) =
          .ok result' bus₁' ∧
        result'.canonicalStateJson .reference = result.canonicalStateJson .reference := by
  obtain ⟨result, bus', hreplay, -⟩ := replay_measuredBus
  obtain ⟨digest, hregister⟩ := @registerWorkflow_withWorkflow .reference measuredBus _
    measureWorkflow_valid
  refine ⟨result, bus', digest, hreplay, hregister, ?_⟩
  refine (replay_after_register_iff .reference _ _ reachable_measuredBus hreplay hregister).mpr ?_ _
  intro e he _
  rw [auditLog_measuredBus, mem_singleton] at he
  rw [he]
  exact admits_runMeasure

def remeasureWorkflow : GeoWorkflow :=
  sampleWorkflow "measure again" [sampleStep "measure" "Measure" []]

theorem remeasureWorkflow_valid : remeasureWorkflow.validate .reference = .ok () := by
  rfl

theorem remeasureWorkflow_digest :
    WorkflowDigest.new (remeasureWorkflow.stableDigestUnchecked .reference) ≠ measureDigest := by
  decide +kernel

/-- A graph with another digest takes the place of the one that was run. -/
theorem replay_after_register_remeasureWorkflow : ∃ result bus' digest,
      Reachable .reference (codecFor measuredLog) measuredBus ∧
      runMeasure ∈ measuredBus.auditLog ∧
      replay .reference (fun _ => ⟨0⟩) measuredBus = .ok result bus' ∧
      CommandBus.registerWorkflow .reference remeasureWorkflow measuredBus =
        .ok digest (measuredBus.withWorkflow remeasureWorkflow) ∧
      ∀ clock result' bus₁', replay .reference clock (measuredBus.withWorkflow remeasureWorkflow) ≠
          .ok result' bus₁' := by
  obtain ⟨result, bus', hreplay, -⟩ := replay_measuredBus
  obtain ⟨digest, hregister⟩ := @registerWorkflow_withWorkflow .reference measuredBus _
    remeasureWorkflow_valid
  refine ⟨result, bus', digest, reachable_measuredBus, by simp [auditLog_measuredBus], hreplay,
    hregister, ?_⟩
  intro clock result' bus₁' hreplay'
  have hadmits := admitsLogged_of_replay reachable_measuredBus.logged hreplay' runMeasure
    (by simp [auditLog_measuredBus]) rfl
  obtain ⟨digest', hrun⟩ := hadmits.2 measureWorkflow.id rfl
  obtain ⟨henvelope, hdigest⟩ := validateRun_digest hrun
  refine remeasureWorkflow_digest ?_
  rw [← hdigest]
  exact (some.inj henvelope).symm

end GeneGIS.CommandBus
