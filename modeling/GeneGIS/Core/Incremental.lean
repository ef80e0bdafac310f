/-
`affectedDecisions` plans the nodes downstream of a changed partition, and `execute` asks the
executor for one after the other, with retries.  Outputs are updated in place, and the executor may
have a state.
-/
import GeneGIS.Data.Fallible
import GeneGIS.Workflow.Graph

namespace GeneGIS

open Std

abbrev PartitionKey := String

structure IncrementalInputWindow where
  partition : PartitionKey
  cursorStart : Nat
  cursorEnd : Nat
  watermarkStart : String
  watermarkEnd : String

inductive IncrementalChangeKind where
  | append
  | late (latenessSeconds : Nat)
  | replacement (replacedSnapshotDigest : String)

structure IncrementalChange where
  inputName : String
  window : IncrementalInputWindow
  snapshotDigest : String
  change : IncrementalChangeKind

structure IncrementalDecision where
  nodeId : String
  partition : PartitionKey
  reason : String
  deriving DecidableEq

inductive IncrementalEvent where
  | windowAdmitted (window : IncrementalInputWindow)
  | lateDataAccepted (partition : PartitionKey) (latenessSeconds : Nat)
  | inputReplacement (partition : PartitionKey)
      (replacedSnapshotDigest replacementSnapshotDigest : String)
  | attempt (nodeId : String) (partition : PartitionKey) (attempt : Nat)
  | retry (nodeId : String) (partition : PartitionKey) (failedAttempt : Nat) (error : String)
  | outputCommitted (nodeId : String) (partition : PartitionKey) (outputDigest : String)
      (replacedOutputDigest : Option String)
  | failed (nodeId : String) (partition : PartitionKey) (attempts : Nat) (error : String)

structure IncrementalRunReceipt where
  schemaVersion : String
  workflowDigest : String
  changeDigest : String
  decisions : List IncrementalDecision
  events : List IncrementalEvent
  completed : Bool
  stateDigest : String

/-- Why a workflow or a change was refused. -/
inductive InvalidReason where
  | text (reason : String)
  | workflow (error : WorkflowValidationError)
  deriving DecidableEq

/-- The documents that are hashed always have a text, so the other error of the
source does not occur. -/
inductive IncrementalError where
  | invalid (reason : InvalidReason)
  deriving DecidableEq

/-- How a run ends without a receipt. -/
inductive Halt where
  | returned (error : IncrementalError)
  | panicked (message : String)

abbrev Outputs := ExtTreeMap String (ExtTreeMap PartitionKey String)

structure IncrementalScheduler where
  outputs : Outputs
  history : List IncrementalRunReceipt

def incrementalReceiptSchemaVersion : String := "0.1.0"

namespace IncrementalInputWindow

def toJson (w : IncrementalInputWindow) : Json :=
  .obj [("partition", .str w.partition), ("cursor_start", .num (.int w.cursorStart)),
    ("cursor_end", .num (.int w.cursorEnd)), ("watermark_start", .str w.watermarkStart),
    ("watermark_end", .str w.watermarkEnd)]

end IncrementalInputWindow

namespace IncrementalChangeKind

def toJson : IncrementalChangeKind → Json
  | .append => .obj [("kind", .str "append")]
  | .late latenessSeconds =>
    .obj [("kind", .str "late"), ("lateness_seconds", .num (.int latenessSeconds))]
  | .replacement replaced =>
    .obj [("kind", .str "replacement"), ("replaced_snapshot_digest", .str replaced)]

def reason : IncrementalChangeKind → String
  | .append => "input_append"
  | .late _ => "late_data_invalidation"
  | .replacement _ => "replacement_invalidation"

end IncrementalChangeKind

def IncrementalChange.toJson (c : IncrementalChange) : Json :=
  .obj [("input_name", .str c.inputName), ("window", c.window.toJson),
    ("snapshot_digest", .str c.snapshotDigest), ("change", c.change.toJson)]

namespace Outputs

variable (outputs : Outputs)

def toJson : Json := .obj (outputs.toList.map fun node =>
    (node.1, .obj (node.2.toList.map fun output => (output.1, .str output.2))))

def digest? (nodeId : String) (partition : PartitionKey) : Option String :=
  outputs[nodeId]?.bind fun partitions => partitions[partition]?

def commit (nodeId : String) (partition : PartitionKey) (outputDigest : String) : Outputs :=
  outputs.insert nodeId ((outputs.getD nodeId ∅).insert partition outputDigest)

end Outputs

namespace IncrementalScheduler

/-- A SHA-256 digest: the prefix and sixty-four hexadecimal digits. -/
def isDigest (value : String) : Bool :=
  match Text.withoutPrefix "sha256:" value with
  | none => false
  | some hex => hex.toList.length = 64 && hex.toList.all Text.isHexDigit

def refuse {α : Type} (reason : String) : Except IncrementalError α :=
  .error (.invalid (.text reason))

def requireDigest (value label : String) : Except IncrementalError Unit :=
  if isDigest value then .ok () else refuse ("invalid " ++ label)

def parseWatermark (rt : Runtime) (text reason : String) : Except IncrementalError DateTime :=
  match rt.parseRfc3339 text with
  | none => refuse reason
  | some t => .ok t

def validateReplacement (change : IncrementalChange) : Except IncrementalError Unit :=
  match change.change with
  | .replacement replaced => do
    requireDigest replaced "replaced snapshot digest"
    if replaced = change.snapshotDigest then refuse "replacement snapshot must differ"
  | _ => .ok ()

def validateChange (rt : Runtime) (workflow : GeoWorkflow) (change : IncrementalChange) :
    Except IncrementalError Unit := do
  if Text.isBlank change.inputName || Text.isBlank change.window.partition ||
      !(workflow.inputContracts.any fun input => input.name = change.inputName) ||
      change.window.cursorEnd < change.window.cursorStart then
    refuse "input, partition, or cursor window is invalid"
  requireDigest change.snapshotDigest "snapshot digest"
  let start ← parseWatermark rt change.window.watermarkStart "invalid start watermark"
  let finish ← parseWatermark rt change.window.watermarkEnd "invalid end watermark"
  if finish.nanos < start.nanos then
    refuse "watermark regressed"
  validateReplacement change

variable (steps : List WorkflowStep)

def consumers (inputName : String) : ExtTreeSet String := .ofList ((steps.filter fun step =>
    step.inputs.any fun input => input.node = none && input.port = inputName).map
      WorkflowStep.stableId)

/-- The nodes found so far; the queue holds those whose successors are not yet
known. -/
structure Invalidation where
  queue : List String
  affected : ExtTreeSet String

namespace Invalidation

def reach (s : Invalidation) (id : String) : Invalidation :=
  if s.affected.contains id then s
  else { queue := s.queue ++ [id], affected := s.affected.insert id }

def downstream (steps : List WorkflowStep) (source : String) : List String :=
  (steps.filter fun step => source ∈ step.dependsOn).map WorkflowStep.stableId

def step (steps : List WorkflowStep) (s : Invalidation) : Option Invalidation :=
  match s.queue with
  | [] => none
  | source :: rest => some ((downstream steps source).foldl reach { s with queue := rest })

end Invalidation

/-- Every node enters the queue once, so the search ends within the number of
steps. -/
def affectedNodes (direct : ExtTreeSet String) : ExtTreeSet String :=
  (Loop.run (Invalidation.step steps) steps.length
    { queue := direct.toList, affected := direct }).affected

/-- The first remaining step whose dependencies are settled. -/
def nextReady (remaining : ExtTreeSet String)
    (ordered : List IncrementalDecision) : Option WorkflowStep :=
  (steps.filter fun step => remaining.contains step.stableId).find? fun step =>
    step.dependsOn.all fun dependency =>
      !remaining.contains dependency || ordered.any fun d => d.nodeId = dependency

/-- Every round takes one node out of those that remain. -/
def orderDecisions (steps : List WorkflowStep) (partition : PartitionKey) (reason : String) :
    Nat → ExtTreeSet String → List IncrementalDecision →
      Except IncrementalError (List IncrementalDecision)
  | 0, _, ordered => .ok ordered
  | rounds + 1, remaining, ordered =>
    if remaining.isEmpty then .ok ordered
    else
      match nextReady steps remaining ordered with
      | none => refuse "affected graph is cyclic"
      | some ready =>
        orderDecisions steps partition reason rounds (remaining.erase ready.stableId)
          (ordered ++ [{ nodeId := ready.stableId, partition := partition, reason := reason }])

def affectedDecisions (workflow : GeoWorkflow) (change : IncrementalChange) :
    Except IncrementalError (List IncrementalDecision) :=
  let direct := consumers workflow.steps change.inputName
  if direct.isEmpty then refuse "no workflow node consumes changed input"
  else
    let affected := affectedNodes workflow.steps direct
    orderDecisions workflow.steps change.window.partition change.change.reason affected.size
      affected []

/-! ## Execution -/

/-- What a run changes: the outputs, its events and the state of the executor. -/
structure Run (χ : Type) where
  outputs : Outputs
  events : List IncrementalEvent
  executor : χ

/-- The executor gets the node, the partition and the number of the attempt. -/
abbrev NodeExecutor (χ : Type) := WorkflowStep → PartitionKey → Nat → χ → Except String String × χ

variable {χ : Type}

def record (event : IncrementalEvent) : Fallible Halt (Run χ) Unit :=
  modify fun run => { run with events := run.events ++ [event] }

def ask (executor : NodeExecutor χ) (node : WorkflowStep) (partition : PartitionKey)
    (attempt : Nat) : Fallible Halt (Run χ) (Except String String) := fun run =>
  let answer := executor node partition attempt run.executor
  .ok answer.1 { run with executor := answer.2 }

/-- Attempts from `attempt` on, until one succeeds. -/
def attempts (executor : NodeExecutor χ) (node : WorkflowStep) (decision : IncrementalDecision)
    (maximumAttempts : Nat) : Nat → Nat → Fallible Halt (Run χ) (Option String)
  | 0, _ => return none
  | remaining + 1, attempt => do
    record (.attempt decision.nodeId decision.partition attempt)
    match ← ask executor node decision.partition attempt with
    | .ok outputDigest =>
      Fallible.lift ((requireDigest outputDigest "output digest").mapError .returned)
      return some outputDigest
    | .error error =>
      record (if attempt < maximumAttempts then
        .retry decision.nodeId decision.partition attempt error
        else .failed decision.nodeId decision.partition attempt error)
      attempts executor node decision maximumAttempts remaining (attempt + 1)

def commit (decision : IncrementalDecision) (outputDigest : String) : Fallible Halt (Run χ) Unit :=
  modify fun run =>
    { run with
      outputs := run.outputs.commit decision.nodeId decision.partition outputDigest
      events := run.events ++ [.outputCommitted decision.nodeId decision.partition outputDigest
        (run.outputs.digest? decision.nodeId decision.partition)] }

/-- Run the planned nodes in order; the result tells whether all committed. -/
def runDecisions (steps : List WorkflowStep) (executor : NodeExecutor χ)
    (maximumAttempts : Nat) : List IncrementalDecision → Fallible Halt (Run χ) Bool
  | [] => return true
  | decision :: rest =>
    match steps.find? fun node => node.stableId = decision.nodeId with
    | none => throw (.panicked "planned node exists")
    | some node => do
      match ← attempts executor node decision maximumAttempts maximumAttempts 1 with
      | none => return false
      | some outputDigest =>
        commit decision outputDigest
        runDecisions steps executor maximumAttempts rest

def u32Max : Nat := 4294967295

/-- `max_retries.saturating_add(1)`. -/
def maximumAttempts (maxRetries : Nat) : Nat := min (maxRetries + 1) u32Max

/-- The events of a run before its first attempt. -/
def admissionEvents (change : IncrementalChange) : List IncrementalEvent :=
  .windowAdmitted change.window ::
    match change.change with
    | .append => []
    | .late latenessSeconds => [.lateDataAccepted change.window.partition latenessSeconds]
    | .replacement replaced =>
      [.inputReplacement change.window.partition replaced change.snapshotDigest]

def admitted (s : IncrementalScheduler) (change : IncrementalChange) (x : χ) : Run χ :=
  { outputs := s.outputs, events := admissionEvents change, executor := x }

/-- The checks and the planning of `execute`, before anything is changed. -/
def plan (rt : Runtime) (workflow : GeoWorkflow) (change : IncrementalChange) :
    Except IncrementalError (List IncrementalDecision × String) := do
  (workflow.validate rt).mapError fun e => .invalid (.workflow e)
  validateChange rt workflow change
  let decisions ← affectedDecisions workflow change
  let workflowDigest ← (workflow.stableDigest rt).mapError fun e => .invalid (.workflow e)
  return (decisions, workflowDigest)

def execute (rt : Runtime) (workflow : GeoWorkflow) (change : IncrementalChange)
    (maxRetries : Nat) (executor : NodeExecutor χ) :
    Fallible Halt (IncrementalScheduler × χ) IncrementalRunReceipt := do
  let (decisions, workflowDigest) ← Fallible.lift ((plan rt workflow change).mapError .returned)
  let (completed, events) ← Fallible.zoom (fun s => admitted s.1 change s.2)
    (fun s run => ({ s.1 with outputs := run.outputs }, run.executor))
    (do
      let completed ← runDecisions workflow.steps executor (maximumAttempts maxRetries) decisions
      return (completed, (← get).events))
  let state ← get
  let receipt : IncrementalRunReceipt :=
    { schemaVersion := incrementalReceiptSchemaVersion
      workflowDigest := workflowDigest
      changeDigest := rt.digestCompact change.toJson
      decisions := decisions
      events := events
      completed := completed
      stateDigest := rt.digestCompact state.1.outputs.toJson }
  modify fun s => ({ s.1 with history := s.1.history ++ [receipt] }, s.2)
  return receipt

end IncrementalScheduler
end GeneGIS
