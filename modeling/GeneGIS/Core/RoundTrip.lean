/-
`Reads` says that the JSON library reads back the document that is written.
-/
import GeneGIS.Core.Replay

namespace GeneGIS
namespace CommandBus

open Fallible Session

variable {rt : Runtime} {codec : LogCodec} {clock : Nat → DateTime}
  {executor : Option WorkflowExecutor} {bus bus' : CommandBus} {p : Project}
  {workflows : Std.ExtTreeMap Uuid GeoWorkflow} {s : Session}

def registered (list : List GeoWorkflow) (bus : CommandBus) : CommandBus :=
  { bus with workflows := list.foldl (fun m w => m.insert w.id w) bus.workflows }

theorem registerAll_ok {list : List GeoWorkflow} : registerAll rt list bus = .ok bus' ↔
      (∀ workflow ∈ list, workflow.validate rt = .ok ()) ∧ bus' = registered list bus := by
  induction list generalizing bus with
  | nil => simp [registerAll, registered, eq_comm]
  | cons workflow rest ih =>
    rw [registerAll, List.forall_mem_cons]
    cases hregister : CommandBus.registerWorkflow rt workflow bus with
    | ok digest bus₁ =>
      obtain ⟨hvalid, rfl⟩ := registerWorkflow_ok.mp ⟨digest, hregister⟩
      simp only [ih, hvalid, true_and]
      rfl
    | error e bus₁ =>
      have hinvalid : workflow.validate rt ≠ .ok () := by
        intro hvalid
        obtain ⟨digest, hok⟩ := registerWorkflow_ok.mpr ⟨hvalid, rfl⟩
        rw [hregister] at hok
        cases hok
      simp [hinvalid]

def AllValid (rt : Runtime) (workflows : Std.ExtTreeMap Uuid GeoWorkflow) : Prop :=
  ∀ (id : Uuid) (workflow : GeoWorkflow), workflows[id]? = some workflow →
    workflow.validate rt = .ok ()

theorem replayEvents_ok (hindexed : Keyed.Indexed GeoWorkflow.id workflows) {index : Nat}
    {events : List CommandEnvelope} :
    replayEvents rt clock executor (workflows.toList.map Prod.snd) p index events = .ok s ↔
      AllValid rt workflows ∧
        applyAll rt clock executor index events (startWith workflows p) = .ok s := by
  have hvalid : (∀ workflow ∈ workflows.toList.map Prod.snd, workflow.validate rt = .ok ()) ↔
      AllValid rt workflows := by
    constructor
    · intro h id workflow hworkflow
      have hentry := Std.ExtTreeMap.mem_toList_iff_getElem?_eq_some.mpr hworkflow
      exact h workflow (List.mem_map.mpr ⟨_, hentry, rfl⟩)
    · intro h workflow hworkflow
      obtain ⟨⟨id, _⟩, hentry, rfl⟩ := List.mem_map.mp hworkflow
      exact h id _ (Std.ExtTreeMap.mem_toList_iff_getElem?_eq_some.mp hentry)
  have hrebuilt : registered (workflows.toList.map Prod.snd) (CommandBus.new p) =
      (startWith workflows p).bus := by
    rw [registered, show (CommandBus.new p).workflows = ∅ from rfl, hindexed.foldl_insert]
    rfl
  rw [replayEvents, bind_iff]
  simp only [registerAll_ok, hvalid, hrebuilt]
  constructor
  · intro h
    obtain ⟨bus, ⟨hall, rfl⟩, happly⟩ := h
    exact ⟨hall, happly⟩
  · intro h
    exact ⟨_, ⟨h.1, rfl⟩, h.2⟩

theorem replay_ok {result : Project} : replay rt clock bus = .ok result bus' ↔
      ∃ initial replayed, bus.initialState = some initial ∧
        replayEvents rt clock (bus.replayExecutor none) (bus.workflows.toList.map Prod.snd) initial
          0 bus.replayStream = .ok replayed ∧
        bus.activeState rt clock (bus.replayExecutor none) replayed = .ok result ∧
        bus.checkReplayDigest rt result = .ok () ∧ bus' = adopt replayed.bus result bus := by
  rw [replay, replayInner, bind_ok]
  constructor
  · intro h
    obtain ⟨_, _, hget, h⟩ := h
    obtain ⟨rfl, rfl⟩ := get_ok.mp hget
    cases hinitial : bus.initialState with
    | none => simp [hinitial] at h
    | some initial =>
      simp only [hinitial, bind_ok, lift_ok, modify_ok, pure_ok] at h
      obtain ⟨replayed, _, ⟨hreplayed, rfl⟩, active, _, ⟨hactive, rfl⟩, _, _, ⟨hdigest, rfl⟩, _, _,
        rfl, rfl, rfl⟩ := h
      exact ⟨initial, replayed, rfl, hreplayed, hactive, hdigest, rfl⟩
  · intro h
    obtain ⟨initial, replayed, hinitial, hreplayed, hactive, hdigest, rfl⟩ := h
    refine ⟨bus, bus, get_ok.mpr ⟨rfl, rfl⟩, ?_⟩
    simp only [hinitial, bind_ok, lift_ok, modify_ok, pure_ok]
    exact ⟨replayed, bus, ⟨hreplayed, rfl⟩, result, bus, ⟨hactive, rfl⟩, (), bus, ⟨hdigest, rfl⟩, ⟨⟩,
      _, rfl, rfl, rfl⟩

theorem replayStream_eq (h : ∀ e ∈ bus.history, e ∈ bus.auditLog) :
    bus.replayStream = bus.auditLog := by
  rw [replayStream]
  cases hlog : bus.auditLog with
  | nil =>
    rw [hlog] at h
    exact List.eq_nil_iff_forall_not_mem.mpr fun e he => by cases h e he
  | cons first rest => rfl

theorem activeState_here {replayed : Session} (h : replayed.bus.cursor = bus.cursor) :
    bus.activeState rt clock executor replayed = .ok replayed.project := by
  rw [activeState, if_pos h]
  rfl

theorem checkReplayDigest_ok {state result : Project}
    (hexpected : bus.expectedReplayDigest = some (state.stateDigest rt))
    (h : Project.Similar state result) : bus.checkReplayDigest rt result = .ok () := by
  simp only [checkReplayDigest, hexpected, h.stateDigest rt, ne_eq, not_true_eq_false, if_false]

/-! ## Log files -/

def Reads (rt : Runtime) (codec : LogCodec) (log : CommandLog) : Prop :=
  codec.fromStr (codec.toStringPretty ((sealLog rt log).toJson rt)) = .ok (sealLog rt log)

/-- The log of a bus that knows its current state. -/
def logOf (rt : Runtime) (bus : CommandBus) (initial state : Project) : CommandLog :=
  { schemaVersion := CommandLog.currentSchemaVersion, initialState := initial,
    commands := bus.history, auditLog := bus.auditLog, cursor := bus.cursor,
    workflows := bus.workflows.toList.map Prod.snd,
    workflowExecutions := bus.workflowExecutions.toList.map Prod.snd,
    stateDigest := state.stateDigest rt, logDigest := none }

def reloaded (rt : Runtime) (bus : CommandBus) (state : Project) : CommandBus :=
  { bus with
    beforeStates := [], afterStates := [], currentState := none
    expectedReplayDigest := some (state.stateDigest rt) }

variable {initial state : Project}

theorem toLog_ok (hinitial : bus.initialState = some initial)
    (hcurrent : bus.currentState = some state) :
    bus.toLog rt clock = .ok (logOf rt bus initial state) := by
  simp only [toLog, currentProjectForPersistence, hcurrent, hinitial]
  rfl

theorem ofLog_ok {log : CommandLog} (hversion : log.schemaVersion = CommandLog.currentSchemaVersion)
    (hdigest : log.logDigest = some (log.digest rt)) (hcursor : log.cursor ≤ log.commands.length) :
    ofLog rt log = .ok
      { history := log.commands, cursor := log.cursor, beforeStates := [], afterStates := [],
        initialState := some log.initialState, currentState := none, auditLog := log.auditLog,
        workflows := .ofList (log.workflows.map fun w => (w.id, w)),
        workflowExecutions := .ofList (log.workflowExecutions.map fun r => (r.commandId, r)),
        expectedReplayDigest := some log.stateDigest } := by
  simp only [ofLog, hversion, hdigest, ne_eq, not_true_eq_false, if_false,
    if_neg (Nat.not_lt.mpr hcursor)]
  rfl

theorem ofLog_sealed (hinitial : bus.initialState = some initial)
    (hcursor : bus.cursor ≤ bus.history.length)
    (hworkflows : Keyed.Indexed GeoWorkflow.id bus.workflows)
    (hrecords : Keyed.Indexed WorkflowExecutionRecord.commandId bus.workflowExecutions) :
    ofLog rt (sealLog rt (logOf rt bus initial state)) = .ok (reloaded rt bus state) := by
  rw [ofLog_ok rfl rfl hcursor]
  simp only [sealLog, logOf, hworkflows.ofList, hrecords.ofList, ← hinitial]
  rfl

theorem load_persist (clock : Nat → DateTime) (hinitial : bus.initialState = some initial)
    (hcurrent : bus.currentState = some state) (hcursor : bus.cursor ≤ bus.history.length)
    (hworkflows : Keyed.Indexed GeoWorkflow.id bus.workflows)
    (hrecords : Keyed.Indexed WorkflowExecutionRecord.commandId bus.workflowExecutions)
    (hreads : Reads rt codec (logOf rt bus initial state)) :
    ∃ text, bus.persist rt codec clock = .ok text ∧
      load rt codec text = .ok (reloaded rt bus state) := by
  refine ⟨codec.toStringPretty ((sealLog rt (logOf rt bus initial state)).toJson rt), ?_, ?_⟩
  · rw [persist, toLog_ok hinitial hcurrent]
    rfl
  · rw [load, hreads]
    exact ofLog_sealed hinitial hcursor hworkflows hrecords

theorem replay_reloaded (bus : CommandBus) (clock : Nat → DateTime) {a : Session} {script : Script}
    (hplays : Plays rt p script a) (hhistory : bus.history = a.bus.history)
    (hcursor : bus.cursor = a.bus.cursor)
    (hlog : bus.auditLog = a.bus.auditLog) (hinitial : bus.initialState = some p)
    (hindexed : Keyed.Indexed GeoWorkflow.id bus.workflows) (hvalid : AllValid rt bus.workflows)
    (hexpected : bus.expectedReplayDigest = some (a.project.stateDigest rt))
    (hauthorized : ∀ entry ∈ script,
      Authorized rt bus.workflows entry.1 (bus.replayExecutor none) entry.2) :
    ∃ result bus', replay rt clock bus = .ok result bus' ∧ Project.Similar a.project result ∧
      bus'.history = a.bus.history ∧ bus'.cursor = a.bus.cursor := by
  obtain ⟨b, happly, hmirrors, hworkflows⟩ := hplays.applyAll clock 0 hauthorized
  have hstream : bus.replayStream = script.map Prod.fst := by
    rw [replayStream_eq, hlog, hplays.auditLog]
    rw [hhistory, hlog]
    exact hplays.history
  have hreplayed : replayEvents rt clock (bus.replayExecutor none)
      (bus.workflows.toList.map Prod.snd) p 0 bus.replayStream = .ok b := by
    rw [replayEvents_ok hindexed, hstream]
    exact ⟨hvalid, happly⟩
  have hactive : bus.activeState rt clock (bus.replayExecutor none) b = .ok b.project :=
    activeState_here (by rw [hmirrors.cursor, hcursor])
  have hdigest : bus.checkReplayDigest rt b.project = .ok () :=
    checkReplayDigest_ok hexpected hmirrors.project
  exact ⟨b.project, _, replay_ok.mpr ⟨p, b, hinitial, hreplayed, hactive, hdigest, rfl⟩,
    hmirrors.project, hmirrors.history, hmirrors.cursor⟩

end CommandBus

/-! ## Runs of commands -/

namespace Session

open CommandBus

variable {rt : Runtime} {envelope : CommandEnvelope} {executor : Option WorkflowExecutor}
  {run : Option Run} {p : Project} {s : Session} {trace : List (Session × Op)}

def Op.workflow? : Op → Option GeoWorkflow
  | .registerWorkflow workflow => some workflow
  | _ => none

def envelopes (trace : List (Session × Op)) : List CommandEnvelope :=
  trace.filterMap fun step => step.2.envelope?

def registrations (trace : List (Session × Op)) : List GeoWorkflow :=
  trace.filterMap fun step => step.2.workflow?

theorem authorized_mono {workflows workflows' : Std.ExtTreeMap Uuid GeoWorkflow}
    (h : Authorized rt workflows envelope executor run)
    (hsub : ∀ (id : Uuid) (w : GeoWorkflow), workflows[id]? = some w → workflows'[id]? = some w) :
    Authorized rt workflows' envelope executor run := by
  rw [Authorized] at h ⊢
  cases hreferred : referredWorkflow envelope.command with
  | none =>
    rw [hreferred] at h
    exact h
  | some id =>
    rw [hreferred] at h
    obtain ⟨w, hw, hadmits, hruns⟩ := h
    exact ⟨w, hsub id w hw, hadmits, hruns⟩

/-- What a run of commands and registrations leaves, if it registers no
identifier twice. -/
structure Played (rt : Runtime) (p : Project) (trace : List (Session × Op)) (script : Script)
    (s : Session) : Prop where
  plays : Plays rt p script s
  commands : script.map Prod.fst = envelopes trace
  authorized : ∀ entry ∈ script,
    ∃ executor, Authorized rt s.bus.workflows entry.1 executor entry.2
  indexed : Keyed.Indexed GeoWorkflow.id s.bus.workflows
  valid : AllValid rt s.bus.workflows
  registered : ∀ (id : Uuid) (w : GeoWorkflow), s.bus.workflows[id]? = some w →
    id ∈ (registrations trace).map GeoWorkflow.id

theorem path_played (path : Path (Accepts rt) (start p) trace s)
    (hcommands : ∀ x ∈ trace, x.2 ≠ .undo ∧ x.2 ≠ .redo)
    (hregistrations : ((registrations trace).map GeoWorkflow.id).Nodup) :
    ∃ script, Played rt p trace script s := by
  induction path with
  | nil =>
    refine ⟨[], .start ∅, rfl, ?_, Keyed.indexed_empty _, ?_, ?_⟩
    · intro entry hentry
      cases hentry
    · intro id w hw
      simp [start, CommandBus.new] at hw
    · intro id w hw
      simp [start, CommandBus.new] at hw
  | @snoc trace s s' op path haccepts ih =>
    have henvelopes : envelopes (trace ++ [(s, op)]) = envelopes trace ++ op.envelope?.toList := by
      rw [envelopes, List.filterMap_append]
      cases op <;> rfl
    have hregistered : registrations (trace ++ [(s, op)]) =
        registrations trace ++ op.workflow?.toList := by
      rw [registrations, List.filterMap_append]
      cases op <;> rfl
    rw [hregistered, List.map_append] at hregistrations
    obtain ⟨script, h⟩ := ih (fun x hx => hcommands x (List.mem_append_left _ hx))
      (List.nodup_append.mp hregistrations).1
    rcases haccepts.called with ⟨_, now, envelope, executor, _, his, haccepted⟩ | ⟨workflow, hvalid⟩ |
      _ | _
    · obtain ⟨run, henters, hauthorized⟩ := accepted_iff.mp haccepted
      have hworkflows := henters.workflows
      refine ⟨script ++ [(envelope, run)], h.plays.enter henters, ?_, ?_, ?_, ?_, ?_⟩
      · rw [henvelopes, his, List.map_append, h.commands]
        rfl
      · intro entry hentry
        rw [hworkflows]
        rcases List.mem_append.mp hentry with hentry | hentry
        · exact h.authorized entry hentry
        · rw [List.mem_singleton.mp hentry]
          exact ⟨executor, hauthorized⟩
      · rw [hworkflows]
        exact h.indexed
      · rw [hworkflows]
        exact h.valid
      · intro id w hw
        rw [hworkflows] at hw
        rw [hregistered, List.map_append]
        exact List.mem_append_left _ (h.registered id w hw)
    · -- The identifier is new, so no registered workflow is replaced.
      have hfresh : ∀ (id : Uuid) (w : GeoWorkflow), s.bus.workflows[id]? = some w →
          id ≠ workflow.id := by
        intro id w hw heq
        have hmem := h.registered id w hw
        exact (List.nodup_append.mp hregistrations).2.2 _ hmem workflow.id (by simp [Op.workflow?])
          heq
      have hsub : ∀ (id : Uuid) (w : GeoWorkflow), s.bus.workflows[id]? = some w →
          (s.bus.workflows.insert workflow.id workflow)[id]? = some w := by
        intro id w hw
        rw [Keyed.getElem?_insert_ne (hfresh id w hw), hw]
      have hsplit : ∀ (id : Uuid) (w : GeoWorkflow),
          (s.bus.workflows.insert workflow.id workflow)[id]? = some w →
          id = workflow.id ∧ w = workflow ∨ s.bus.workflows[id]? = some w := by
        intro id w hw
        rcases Keyed.insert_cases hw with hnew | hold
        · exact .inl hnew
        · exact .inr hold.2
      refine ⟨script, h.plays.register _, ?_, ?_, ?_, ?_, ?_⟩
      · rw [henvelopes, h.commands]
        exact (List.append_nil _).symm
      · intro entry hentry
        obtain ⟨executor, hauthorized⟩ := h.authorized entry hentry
        exact ⟨executor, authorized_mono hauthorized hsub⟩
      · exact h.indexed.insert workflow
      · intro id w hw
        rcases hsplit id w hw with ⟨-, rfl⟩ | hw
        · exact hvalid
        · exact h.valid id w hw
      · intro id w hw
        rw [hregistered, List.map_append]
        rcases hsplit id w hw with ⟨rfl, -⟩ | hw
        · exact List.mem_append_right _ (by simp [Op.workflow?])
        · exact List.mem_append_left _ (h.registered id w hw)
    · exact absurd rfl (hcommands (s, .undo) (by simp)).1
    · exact absurd rfl (hcommands (s, .redo) (by simp)).2

variable {script : Script}

theorem consistent_of_nodup (h : ((script.map Prod.fst).map CommandEnvelope.id).Nodup) :
    Consistent script := by
  intro e₁ d₁ x₁ e₂ d₂ x₂ h₁ h₂ hid
  rw [List.map_map] at h
  have heq := Keyed.eq_of_mem h h₁ h₂ hid
  simp only [Prod.mk.injEq, Option.some.injEq] at heq
  rw [heq.1, heq.2.1, heq.2.2]

theorem Played.consistent (h : Played rt p trace script s)
    (hids : ((envelopes trace).map CommandEnvelope.id).Nodup) : Consistent script :=
  consistent_of_nodup (by rw [h.commands]; exact hids)

theorem Played.replay (h : Played rt p trace script s)
    (hconsistent : Consistent script) (clock : Nat → DateTime) :
    ∃ result bus', CommandBus.replay rt clock (reloaded rt s.bus s.project) = .ok result bus' ∧
      Project.Similar s.project result ∧ bus'.history = s.bus.history ∧
      bus'.cursor = s.bus.cursor := by
  refine replay_reloaded (reloaded rt s.bus s.project) clock h.plays rfl rfl rfl
    h.plays.initialState h.indexed h.valid rfl ?_
  intro entry hentry
  obtain ⟨executor, hentered⟩ := h.authorized entry hentry
  refine authorized_replayed hentered (fun id w _ hw hadmits => ⟨w, hw, hadmits⟩) ?_
  show Recorded s.bus.workflowExecutions (entry.1, entry.2)
  rw [h.plays.executions]
  exact hconsistent.recorded entry hentry

theorem Played.load (h : Played rt p trace script s) {codec : LogCodec}
    (hreads : CommandBus.Reads rt codec (logOf rt s.bus p s.project)) (clock : Nat → DateTime) :
    ∃ text, s.bus.persist rt codec clock = .ok text ∧
      CommandBus.load rt codec text = .ok (reloaded rt s.bus s.project) := by
  obtain ⟨t, ht, -⟩ := h.plays.represents
  refine load_persist clock h.plays.initialState h.plays.currentState ht.cursor_le h.indexed ?_
    hreads
  rw [h.plays.executions]
  exact recordsOf_indexed script

/-- The log of a run is loaded again, and its replay has the state digest, the history and the
cursor of the live bus. -/
theorem path_replays (rt : Runtime) (codec : LogCodec) (p : Project) {trace : List (Session × Op)}
    {s : Session} (path : Path (Accepts rt) (start p) trace s)
    (hcommands : ∀ x ∈ trace, x.2 ≠ .undo ∧ x.2 ≠ .redo)
    (hids : ((envelopes trace).map CommandEnvelope.id).Nodup)
    (hregistrations : ((registrations trace).map GeoWorkflow.id).Nodup)
    (hreads : CommandBus.Reads rt codec (logOf rt s.bus p s.project))
    (clock clock' : Nat → DateTime) :
    ∃ text bus result bus', s.bus.persist rt codec clock = .ok text ∧
      load rt codec text = .ok bus ∧ replay rt clock' bus = .ok result bus' ∧
      result.stateDigest rt = s.project.stateDigest rt ∧
      bus'.history = s.bus.history ∧ bus'.cursor = s.bus.cursor := by
  obtain ⟨script, h⟩ := path_played path hcommands hregistrations
  obtain ⟨text, hpersist, hload⟩ := h.load hreads clock
  obtain ⟨result, bus', hreplay, hsimilar, hhistory, hcursor⟩ := h.replay (h.consistent hids) clock'
  exact ⟨text, _, result, bus', hpersist, hload, hreplay, hsimilar.stateDigest rt, hhistory,
    hcursor⟩

/-! A workflow is registered and run. -/

def measureExecution : WorkflowExecution :=
  { resultDigest := "sha256:0", output := .null, evidence := .null, events := [] }

def measureDigest : WorkflowDigest :=
  WorkflowDigest.new (measureWorkflow.stableDigestUnchecked .reference)

def runMeasure : CommandEnvelope :=
  { sampleEnvelope 1 (.runWorkflow measureWorkflow.id) with workflowDigest := some measureDigest }

def measureReady : Session := (start sampleProject).register measureWorkflow

def measured : Session := measureReady.commit runMeasure (some (measureDigest, measureExecution))
    (mutated runMeasure (some (measureDigest, measureExecution)) sampleProject)

def measureTrace : List (Session × Op) := [(start sampleProject, .registerWorkflow measureWorkflow),
    (measureReady, .applyWithExecutor ⟨0⟩ runMeasure fun _ _ => .ok measureExecution)]

theorem measureReady_workflow :
    measureReady.bus.workflows[measureWorkflow.id]? = some measureWorkflow := by
  show ((∅ : Std.ExtTreeMap Uuid GeoWorkflow).insert _ _)[_]? = _
  rw [Std.ExtTreeMap.getElem?_insert_self]

theorem admits_runMeasure : Admits .reference measureWorkflow runMeasure := by
  refine ⟨?_, ?_⟩
  · intro binding operation h
    cases h
  · intro workflowId _
    exact ⟨_, validateRun_ok measureWorkflow_valid rfl rfl⟩

theorem path_measured : Path (Accepts .reference) (start sampleProject) measureTrace measured := by
  have hregister : Accepts .reference (start sampleProject) (.registerWorkflow measureWorkflow)
      measureReady := session_registerWorkflow_ok.mpr ⟨measureWorkflow_valid, rfl⟩
  have hauthorized : Authorized .reference measureReady.bus.workflows runMeasure
      (some fun _ _ => .ok measureExecution) (some (measureDigest, measureExecution)) :=
    ⟨measureWorkflow, measureReady_workflow, admits_runMeasure, _, measureDigest, measureExecution,
      rfl, rfl, rfl, by decide, rfl⟩
  have haccepted : Accepted .reference ⟨0⟩ runMeasure (some fun _ _ => .ok measureExecution)
      measureReady measured :=
    .mutation _ _ (by decide) (by decide) (authorize_ok.mpr hauthorized) (mutates_mutated rfl)
  exact (Path.nil.snoc hregister).snoc (dispatch_ok.mpr haccepted)

/-- A codec that writes canonical text and reads the file of one log. -/
def codecFor (log : CommandLog) : LogCodec :=
  let write := fun v => String.ofList (Runtime.reference.canonicalJson v)
  { toStringPretty := write
    fromStr := fun text =>
      if text = write ((sealLog .reference log).toJson .reference) then
        .ok (sealLog .reference log)
      else .error "unexpected document" }

theorem reads_codecFor (log : CommandLog) : CommandBus.Reads .reference (codecFor log) log := by
  rw [CommandBus.Reads, codecFor]
  simp only [if_true]

theorem path_replays_measured : ∃ text bus result bus',
      measured.bus.persist .reference (codecFor (logOf .reference measured.bus sampleProject
        measured.project)) (fun _ => ⟨0⟩) = .ok text ∧
      load .reference (codecFor (logOf .reference measured.bus sampleProject measured.project))
        text = .ok bus ∧
      replay .reference (fun _ => ⟨0⟩) bus = .ok result bus' ∧
      result.stateDigest .reference = measured.project.stateDigest .reference ∧
      bus'.history = measured.bus.history ∧ bus'.cursor = measured.bus.cursor := by
  refine path_replays .reference _ sampleProject path_measured ?_ ?_ ?_ (reads_codecFor _) _ _
  · intro x hx
    simp only [measureTrace, List.mem_cons, List.not_mem_nil, or_false] at hx
    rcases hx with rfl | rfl
    · simp
    · simp
  · decide
  · decide

end Session
end GeneGIS
