/-
`Automerge` is the document library and `CollabLibrary` adds the text formats, of which only what
was once read is assumed to be read back.
-/
import GeneGIS.Data.OpSet
import GeneGIS.Core.Project

namespace GeneGIS

open OpSet

/-- A scalar of a document; `other` is one that reads neither as a text nor as an
integer. -/
inductive Scalar (τ : Type) where
  | str (text : τ)
  | int (n : Int)
  | other

/-- Some operation was added that writes the key. -/
def Wrote {α τ : Type} [LinearOrder α] (author : α) (p : Place α) (k : String)
    (c : Content (Scalar τ)) (d d' : List (Op α String (Scalar τ))) : Prop :=
  ∃ s : Stamp α, s.author = author ∧ New s d ∧ d' = write s p k c d

structure Automerge (α τ : Type) [LinearOrder α] where
  Doc : Type
  Bytes : Type
  /-- An empty document of a new author. -/
  new : α → Doc
  /-- Read a document back, under a new author. -/
  load : α → Bytes → Except String Doc
  save : Doc → Bytes
  merge : Doc → Doc → Except String Doc
  get : Doc → Place α → String → Except String (Option (Item α (Scalar τ)))
  keys : Doc → Place α → List String
  put : Doc → Place α → String → Scalar τ → Except String Doc
  putMap : Doc → Place α → String → Except String (Doc × Place α)
  ops : Doc → List (Op α String (Scalar τ))
  actor : Doc → α
  wellFormed : ∀ d, WellFormed (ops d)
  ops_new : ∀ a, ops (new a) = []
  actor_new : ∀ a, actor (new a) = a
  load_save : ∀ a d, ∃ d', load a (save d) = .ok d' ∧ ops d' = ops d
  load_actor : ∀ a b d, load a b = .ok d → actor d = a
  load_ops : ∀ a a' b d d', load a b = .ok d → load a' b = .ok d' → ops d = ops d'
  merge_ops : ∀ d u m, merge d u = .ok m → IsUnion (ops m) (ops d) (ops u)
  merge_actor : ∀ d u m, merge d u = .ok m → actor m = actor d
  get_ops : ∀ d p k, IsMap (ops d) p → get d p k = .ok (OpSet.get (ops d) p k)
  keys_ops : ∀ d p, keys d p = OpSet.keys (ops d) p
  /-- A value the key shows already may be left as it is. -/
  put_ops : ∀ d p k v, IsMap (ops d) p →
    ∃ d', put d p k v = .ok d' ∧ actor d' = actor d ∧
      (Wrote (actor d) p k (.scalar v) (ops d) (ops d') ∨
        OpSet.get (ops d) p k = some (.scalar v) ∧ ops d' = ops d)
  putMap_ops : ∀ d p k, IsMap (ops d) p →
    ∃ d' s, putMap d p k = .ok (d', .inside s) ∧ actor d' = actor d ∧ s.author = actor d ∧
      New s (ops d) ∧ ops d' = write s p k .map (ops d)

structure MapComment where
  id : Uuid
  threadId : Uuid
  author : String
  body : String
  createdAt : DateTime
  layerId : Option Uuid
  mapAnchor : Option (F64 × F64)
  agentRunId : Option Uuid
  agentStepId : Option Uuid
  deriving DecidableEq

structure ProjectBranch where
  id : Uuid
  name : String
  parent : Option String
  createdAt : DateTime
  description : String
  deriving DecidableEq

/-- The state of a collaboration, with the document it was read from in `ε` where it
is sent along. -/
structure CollabDocument (ε : Type) where
  schemaVersion : Nat
  activeBranch : String
  project : Project
  comments : List MapComment
  branches : List ProjectBranch
  automergeSnapshot : Option ε

/-- The arguments of a call that records an agent run, with the identifier and the time
drawn for its entry. -/
structure AgentRun where
  id : Uuid
  now : DateTime
  runId : Uuid
  workflowId : Option String
  plannerMode : String
  planOnly : Bool
  verificationPassed : Bool
  verifyAttempts : Nat
  prompt : String

variable (r : AgentRun)

def AgentRun.action : String :=
  if r.verificationPassed then "agent_run_verified"
  else if r.planOnly then "agent_plan_pending"
  else "agent_run_failed"

def AgentRun.details : Value :=
  .object [("prompt", .str r.prompt), ("planner_mode", .str r.plannerMode),
    ("verify_attempts", .ofNat r.verifyAttempts), ("plan_only", .bool r.planOnly)]

def AgentRun.entry : ProvenanceEntry where
  id := r.id
  timestamp := r.now
  actor := "agent"
  action := r.action
  target := r.workflowId.getD "unknown"
  details := r.details
  agentRunId := some r.runId
  workflowId := some (r.workflowId.getD "unknown")

def AgentRun.record (s : ProvenanceStore) : ProvenanceStore :=
  s.recordAgentRun r.id r.now r.runId (r.workflowId.getD "unknown") "agent" r.action r.details

def Project.recordAgentRun (p : Project) : Project :=
  p.modifyWorkspace fun w => { w with provenance := r.record w.provenance }

structure CollabLibrary (α : Type) [LinearOrder α] where
  /-- Texts kept in a document. -/
  Text : Type
  /-- Base64 texts. -/
  Encoded : Type
  /-- JSON texts of a whole session. -/
  Export : Type
  ofString : String → Text
  asString : Text → String
  automerge : Automerge α Text
  encode : automerge.Bytes → Encoded
  decode : Encoded → Except String automerge.Bytes
  commentText : MapComment → Text
  parseComment : Text → Except String MapComment
  branchText : ProjectBranch → Text
  parseBranch : Text → Except String ProjectBranch
  projectText : Project → Text
  parseProject : Text → Except String Project
  documentText : CollabDocument Encoded → Export
  parseDocument : Export → Except String (CollabDocument Encoded)

namespace CollabLibrary

variable {α : Type} [LinearOrder α] (lib : CollabLibrary α)

abbrev Doc := lib.automerge.Doc

abbrev Document := CollabDocument lib.Encoded

/-- A document whose project and comments were read from texts. -/
structure Readable (doc : lib.Document) : Prop where
  project : ∃ t, lib.parseProject t = .ok doc.project
  comments : ∀ c ∈ doc.comments, ∃ t, lib.parseComment t = .ok c

/-- What is written reads back. -/
structure Lawful : Prop where
  asString_ofString : ∀ s, lib.asString (lib.ofString s) = s
  decode_encode : ∀ b, lib.decode (lib.encode b) = .ok b
  comment : ∀ t c, lib.parseComment t = .ok c → lib.parseComment (lib.commentText c) = .ok c
  commentId : ∀ c c', lib.parseComment (lib.commentText c) = .ok c' → c'.id = c.id
  branch : ∀ b, lib.parseBranch (lib.branchText b) = .ok b
  project : ∀ t p, lib.parseProject t = .ok p → lib.parseProject (lib.projectText p) = .ok p
  recorded : ∀ t p r, lib.parseProject t = .ok p →
    lib.parseProject (lib.projectText (p.recordAgentRun r)) = .ok (p.recordAgentRun r)
  document : ∀ doc, lib.Readable doc → lib.parseDocument (lib.documentText doc) = .ok doc

end CollabLibrary
end GeneGIS
