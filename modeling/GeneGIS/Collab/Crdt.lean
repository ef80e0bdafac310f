/-
A session is three scalars and two maps with values as JSON text.  Functions that change it keep
the document reached so far; drawn authors are arguments.
-/
import GeneGIS.Collab.Automerge

namespace GeneGIS

open OpSet Fallible

inductive CollabError where
  | json (reason : String)
  | branchNotFound (name : String)
  | invalidBranch (reason : String)
  | invalidComment (reason : String)
  | remote (reason : String)
  | automerge (reason : String)
  deriving DecidableEq

def MapComment.validate (c : MapComment) : Except CollabError Unit :=
  if Text.isBlank c.author then .error (.invalidComment "author must not be empty")
  else if Text.isBlank c.body then .error (.invalidComment "body must not be empty")
  else .ok ()

namespace Collab

variable {α : Type} [LinearOrder α] (lib : CollabLibrary α)

abbrev Crdt := Fallible CollabError lib.Doc

def automergeResult {β : Type} (r : Except String β) : Except CollabError β := r.mapError .automerge

def jsonResult {β : Type} (r : Except String β) : Except CollabError β := r.mapError .json

def put (place : Place α) (key : String) (value : Scalar lib.Text) : Crdt lib Unit := do
  let doc ← get
  let doc' ← lift (automergeResult (lib.automerge.put doc place key value))
  set doc'

/-- The map a root key shows, made where it shows none. -/
def ensureMap (key : String) : Crdt lib (Place α) := do
  let doc ← get
  let value ← lift (automergeResult (lib.automerge.get doc .root key))
  match value with
  | some (.map place) => return place
  | _ =>
    let made ← lift (automergeResult (lib.automerge.putMap doc .root key))
    set made.1
    return made.2

def forEach {β : Type} (write : β → Crdt lib Unit) : List β → Crdt lib Unit
  | [] => pure ()
  | b :: rest => do
    write b
    forEach write rest

def writeComment (comments : Place α) (c : MapComment) : Crdt lib Unit :=
  put lib comments c.id.toText (.str (lib.commentText c))

def writeBranch (branches : Place α) (b : ProjectBranch) : Crdt lib Unit :=
  put lib branches b.name (.str (lib.branchText b))

def applyDocument (doc : lib.Document) : Crdt lib Unit := do
  put lib .root "schema_version" (.int doc.schemaVersion)
  put lib .root "active_branch" (.str (lib.ofString doc.activeBranch))
  put lib .root "project_json" (.str (lib.projectText doc.project))
  let comments ← ensureMap lib "comments"
  forEach lib (writeComment lib comments) doc.comments
  let branches ← ensureMap lib "branches"
  forEach lib (writeBranch lib branches) doc.branches

def fromDocument (actor : α) (doc : lib.Document) : Except CollabError lib.Doc :=
  match applyDocument lib doc (lib.automerge.new actor) with
  | .ok _ d => .ok d
  | .error e _ => .error e

def addComment (c : MapComment) : Crdt lib Unit := do
  lift c.validate
  let comments ← ensureMap lib "comments"
  writeComment lib comments c

def merge (other : lib.Doc) : Crdt lib Unit := do
  let doc ← get
  let merged ← lift (automergeResult (lib.automerge.merge doc other))
  set merged

/-- The document of a base64 snapshot, under a new author. -/
def loadSnapshot (actor : α) (encoded : lib.Encoded) : Except CollabError lib.Doc := do
  let bytes ← automergeResult (lib.decode encoded)
  automergeResult (lib.automerge.load actor bytes)

def mergeSnapshotBase64 (actor : α) (encoded : lib.Encoded) : Crdt lib Unit := do
  let other ← lift (loadSnapshot lib actor encoded)
  merge lib other

def snapshotBase64 (d : lib.Doc) : lib.Encoded := lib.encode (lib.automerge.save d)

/-! ## Reading -/

def readString (d : lib.Doc) (place : Place α) (key : String) :
    Except CollabError (Option lib.Text) := do
  let value ← automergeResult (lib.automerge.get d place key)
  match value with
  | some (.scalar (.str text)) => return some text
  | some (.scalar (.int n)) => return some (lib.ofString (toString n))
  | some (.scalar .other) => throw (.automerge (key ++ " must be a string or integer"))
  | some _ => throw (.automerge (key ++ " must be a scalar"))
  | none => return none

def unsigned : List Char → List Char
  | '+' :: rest => rest
  | chars => chars

/-- `u64::from_str`. -/
def parseU64 (s : String) : Except String Nat :=
  let digits := unsigned s.toList
  if s.toList.isEmpty then .error "cannot parse integer from empty string"
  else if digits.isEmpty || !digits.all Char.isDigit then .error "invalid digit found in string"
  else
    let n := digits.foldl (fun n c => 10 * n + (c.toNat - '0'.toNat)) 0
    if n < 2 ^ 64 then .ok n else .error "number too large to fit in target type"

def readU64 (d : lib.Doc) (place : Place α) (key : String) : Except CollabError (Option Nat) := do
  match ← readString lib d place key with
  | none => return none
  | some text =>
    let n ← automergeResult (parseU64 (lib.asString text))
    return some n

def childMap (d : lib.Doc) (key : String) : Except CollabError (Option (Place α)) := do
  let value ← automergeResult (lib.automerge.get d .root key)
  match value with
  | some (.map place) => return some place
  | some _ => throw (.automerge (key ++ " must be a map"))
  | none => return none

/-- The values under the keys of a map, each by its own identity. -/
def readEntries {β κ : Type} [Ord κ] [Std.TransOrd κ] (parse : lib.Text → Except String β)
    (id : β → κ) (d : lib.Doc) (place : Place α) :
    List String → Std.ExtTreeMap κ β → Except CollabError (Std.ExtTreeMap κ β)
  | [], entries => .ok entries
  | key :: rest, entries => do
    match ← readString lib d place key with
    | none => readEntries parse id d place rest entries
    | some text =>
      let entry ← jsonResult (parse text)
      readEntries parse id d place rest (entries.insert (id entry) entry)

def readComments (d : lib.Doc) : Except CollabError (List MapComment) := do
  match ← childMap lib d "comments" with
  | none => return []
  | some place =>
    let entries ← readEntries lib lib.parseComment MapComment.id d place
      (lib.automerge.keys d place) ∅
    return entries.toList.map Prod.snd

variable (main : ProjectBranch)

def readBranches (d : lib.Doc) : Except CollabError (List ProjectBranch) := do
  match ← childMap lib d "branches" with
  | none => return [main]
  | some place =>
    let entries ← readEntries lib lib.parseBranch ProjectBranch.name d place
      (lib.automerge.keys d place) ∅
    return if entries.isEmpty then [main] else entries.toList.map Prod.snd

def projectDocument (d : lib.Doc) : Except CollabError lib.Document := do
  let schemaVersion := ((← readU64 lib d .root "schema_version").getD 1) % 2 ^ 32
  let activeBranch := ((← readString lib d .root "active_branch").map lib.asString).getD "main"
  match ← readString lib d .root "project_json" with
  | none => throw (.automerge "missing project_json")
  | some text =>
    let project ← jsonResult (lib.parseProject text)
    let comments ← readComments lib d
    let branches ← readBranches lib main d
    return { schemaVersion := schemaVersion, activeBranch := activeBranch, project := project
             comments := comments, branches := branches, automergeSnapshot := none }

def comments (main : ProjectBranch) (d : lib.Doc) : Except CollabError (List MapComment) := do
  let doc ← projectDocument lib main d
  return doc.comments

/-- A copy in a new document; an error stands for the panic of `clone`. -/
def cloneSession (actor : α) (d : lib.Doc) : Except CollabError lib.Doc := do
  let doc ← projectDocument lib main d
  fromDocument lib actor doc

def recordAgentRunProvenance (r : AgentRun) : Crdt lib Unit := do
  let session ← get
  let doc ← lift (projectDocument lib main session)
  applyDocument lib { doc with project := doc.project.recordAgentRun r }

def mergeJson (actor : α) (json : lib.Export) : Crdt lib Unit := do
  let incoming ← lift (jsonResult (lib.parseDocument json))
  match incoming.automergeSnapshot with
  | some snapshot => mergeSnapshotBase64 lib actor snapshot
  | none => pure ()
  forEach lib (addComment lib) incoming.comments

def exportJson (d : lib.Doc) : Except CollabError lib.Export := do
  let doc ← projectDocument lib main d
  return lib.documentText doc

structure CollabUpload where
  session : lib.Export
  automergeSnapshot : Option lib.Encoded

/-- Outcomes of the file system calls. -/
structure Disk where
  createDir : Except String Unit
  writeJson : Except String Unit
  writeSnapshot : Except String Unit

def persistLocked (disk : Disk) : Crdt lib Unit := do
  lift (jsonResult disk.createDir)
  let session ← get
  let _ ← lift (exportJson lib main session)
  lift (jsonResult disk.writeJson)
  lift (automergeResult disk.writeSnapshot)

/-- The authors drawn for the documents of one upload. -/
structure UploadActors (α : Type) where
  snapshot : α
  nested : α
  clone : α

def mergeUpload (actors : UploadActors α) (disk : Disk)
    (upload : CollabUpload lib) : Crdt lib lib.Doc := do
  match upload.automergeSnapshot with
  | some snapshot => mergeSnapshotBase64 lib actors.snapshot snapshot
  | none => pure ()
  mergeJson lib actors.nested upload.session
  persistLocked lib main disk
  let session ← get
  lift (cloneSession lib main actors.clone session)

def pushUpload (actor : α) (d : lib.Doc) : Except CollabError (CollabUpload lib) := do
  let session ← cloneSession lib main actor d
  let json ← exportJson lib main session
  return { session := json, automergeSnapshot := some (snapshotBase64 lib session) }

/-- The authors drawn for the documents of one pull. -/
structure PullActors (α : Type) where
  snapshot : α
  payload : α
  client : α
  nested : α

/-- The session a client makes of the server's answer. -/
def pullSession (actors : PullActors α) (server : lib.Doc) : Except CollabError lib.Doc := do
  let snapshot ← cloneSession lib main actors.snapshot server
  let payload ← cloneSession lib main actors.payload snapshot
  let json ← exportJson lib main payload
  let session ← loadSnapshot lib actors.client (snapshotBase64 lib payload)
  match mergeJson lib actors.nested json session with
  | .ok _ d => return d
  | .error e _ => throw e

end Collab
end GeneGIS
