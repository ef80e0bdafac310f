/-
Replay, persistence and loading of a command bus.

A log file is its text.
-/
import GeneGIS.Core.Bus

namespace GeneGIS

namespace Session

/-- Dispatch events in order; the first failure ends the replay. -/
def applyAll (rt : Runtime) (clock : Nat → DateTime) (executor : Option WorkflowExecutor) :
    Nat → List CommandEnvelope → Session → Except CommandError Session
  | _, [], s => .ok s
  | index, event :: rest, s =>
    match dispatch rt (clock index) event executor s with
    | .ok _ s' => applyAll rt clock executor (index + 1) rest s'
    | .error e _ => .error e

end Session

namespace CommandBus

/-- Workflow outputs captured at command time. -/
def recordedExecutor (records : Std.ExtTreeMap Uuid WorkflowExecutionRecord) : WorkflowExecutor :=
  fun _ context =>
    match records[context.commandId]? with
    | none =>
      .error (.failed ("persisted workflow execution missing for command " ++
        context.commandId.toText))
    | some record =>
      if record.workflowDigest ≠ context.workflowDigest then
        .error (.failed "persisted workflow execution digest differs from command")
      else
        .ok { resultDigest := record.resultDigest, output := record.output,
              evidence := record.evidence, events := record.events }

def registerAll (rt : Runtime) : List GeoWorkflow → CommandBus → Except CommandError CommandBus
  | [], bus => .ok bus
  | workflow :: rest, bus =>
    match registerWorkflow rt workflow bus with
    | .ok _ bus' => registerAll rt rest bus'
    | .error e _ => .error e

variable (rt : Runtime) (clock : Nat → DateTime) (executor : Option WorkflowExecutor)

/-- Apply events to a fresh bus that knows the given workflows. -/
def replayEvents (workflows : List GeoWorkflow) (initial : Project) (index : Nat)
    (events : List CommandEnvelope) : Except CommandError Session := do
  let bus ← registerAll rt workflows (new initial)
  Session.applyAll rt clock executor index events { bus := bus, project := initial }

variable (bus : CommandBus)

/-- Commands a replay starts from; logs without an audit stream carry only the
active commands. -/
def replayStream : List CommandEnvelope :=
  if bus.auditLog.isEmpty then bus.history else bus.auditLog

def replayExecutor : Option WorkflowExecutor → Option WorkflowExecutor
  | some executor => some executor
  | none =>
    if bus.workflowExecutions.isEmpty then none
    else some (recordedExecutor bus.workflowExecutions)

/-- The project at the cursor of the bus, when the replay ended elsewhere. -/
def activeState (bus : CommandBus) (replayed : Session) : Except CommandError Project := do
  if replayed.bus.cursor = bus.cursor then
    return replayed.project
  match replayed.bus.initialState with
  | none => throw .missingStateSnapshot
  | some initial =>
    let active ← replayEvents rt clock executor (replayed.bus.workflows.toList.map Prod.snd)
      initial bus.replayStream.length (bus.history.take bus.cursor)
    return active.project

def checkReplayDigest (result : Project) : Except CommandError Unit :=
  match bus.expectedReplayDigest with
  | none => .ok ()
  | some expected =>
    let observed := result.stateDigest rt
    if expected ≠ observed then .error (.replayDigestMismatch expected observed) else .ok ()

def adopt (replayed : CommandBus) (result : Project) (bus : CommandBus) : CommandBus :=
  { bus with
    history := replayed.history
    beforeStates := replayed.beforeStates
    afterStates := replayed.afterStates
    cursor := replayed.cursor
    initialState := replayed.initialState
    workflowExecutions := replayed.workflowExecutions
    currentState := some result }

def replayInner : Fallible CommandError CommandBus Project := do
  let bus ← get
  match bus.initialState with
  | none => throw .missingStateSnapshot
  | some initial =>
    let executor := bus.replayExecutor executor
    let replayed ← Fallible.lift (replayEvents rt clock executor
      (bus.workflows.toList.map Prod.snd) initial 0 bus.replayStream)
    let result ← Fallible.lift (bus.activeState rt clock executor replayed)
    Fallible.lift (bus.checkReplayDigest rt result)
    modify (adopt replayed.bus result)
    return result

def replay : Fallible CommandError CommandBus Project := replayInner rt clock none

def replayWithExecutor (executor : WorkflowExecutor) : Fallible CommandError CommandBus Project :=
  replayInner rt clock (some executor)

def currentProjectForPersistence : Except CommandError Project :=
  match bus.currentState with
  | some state => .ok state
  | none =>
    match replay rt clock bus with
    | .ok state _ => .ok state
    | .error e _ => .error e

/-- The log document of a bus, without its digest. -/
def toLog : Except CommandError CommandLog := do
  let state ← bus.currentProjectForPersistence rt clock
  match bus.initialState with
  | none => throw .missingStateSnapshot
  | some initial =>
    return { schemaVersion := CommandLog.currentSchemaVersion, initialState := initial,
             commands := bus.history, auditLog := bus.auditLog, cursor := bus.cursor,
             workflows := bus.workflows.toList.map Prod.snd,
             workflowExecutions := bus.workflowExecutions.toList.map Prod.snd,
             stateDigest := state.stateDigest rt, logDigest := none }

def sealLog (log : CommandLog) : CommandLog :=
  { log with logDigest := some (log.digest rt) }

def persist (codec : LogCodec) (clock : Nat → DateTime) (bus : CommandBus) :
    Except CommandError String := do
  let log ← bus.toLog rt clock
  return codec.toStringPretty ((sealLog rt log).toJson rt)

def ofLog (log : CommandLog) : Except CommandError CommandBus := do
  if log.schemaVersion ≠ CommandLog.currentSchemaVersion then
    throw (.unsupportedLogSchema log.schemaVersion)
  match log.logDigest with
  | none => throw .missingLogDigest
  | some expected =>
    let observed := log.digest rt
    if expected ≠ observed then throw (.logDigestMismatch expected observed)
    if log.commands.length < log.cursor then
      throw (.json "command cursor exceeds command history")
    return { history := log.commands, cursor := log.cursor, beforeStates := [], afterStates := [],
             initialState := some log.initialState, currentState := none,
             auditLog := log.auditLog,
             workflows := .ofList (log.workflows.map fun w => (w.id, w)),
             workflowExecutions := .ofList (log.workflowExecutions.map fun r => (r.commandId, r)),
             expectedReplayDigest := some log.stateDigest }

def load (codec : LogCodec) (text : String) : Except CommandError CommandBus := do
  let log ← (codec.fromStr text).mapError CommandError.json
  ofLog rt log

end CommandBus
end GeneGIS
