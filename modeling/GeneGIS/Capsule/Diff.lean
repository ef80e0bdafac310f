/-
Subjects are compared by path: JSON documents leaf by leaf, other files by digest.  A change
carries the role that the old manifest gives.
-/
import GeneGIS.Capsule.Verify

namespace GeneGIS

inductive SemanticCategory where
  | source
  | contract
  | workflow
  | result
  | verification
  | policy
  | artifact
  | unclassified
  deriving DecidableEq

inductive ChangeKind where
  | added
  | removed
  | modified

structure SemanticChange where
  category : SemanticCategory
  subjectRole : String
  path : String
  kind : ChangeKind
  old : Option Json
  new : Option Json

structure SemanticDiffReport where
  oldResultDigest : String
  newResultDigest : String
  changes : List SemanticChange
  unclassifiedChanges : Nat

namespace SemanticCategory

def asStr : SemanticCategory → String
  | .source => "source"
  | .contract => "contract"
  | .workflow => "workflow"
  | .result => "result"
  | .verification => "verification"
  | .policy => "policy"
  | .artifact => "artifact"
  | .unclassified => "unclassified"

def rank : SemanticCategory → Nat
  | .source => 0
  | .contract => 1
  | .workflow => 2
  | .result => 3
  | .verification => 4
  | .policy => 5
  | .artifact => 6
  | .unclassified => 7

end SemanticCategory

def ChangeKind.asStr : ChangeKind → String
  | .added => "added"
  | .removed => "removed"
  | .modified => "modified"

def SemanticChange.toJson (c : SemanticChange) : Json :=
  .obj ([("category", .str c.category.asStr), ("subject_role", .str c.subjectRole),
    ("path", .str c.path), ("kind", .str c.kind.asStr)] ++
    Json.optional "old" (fun j => j) c.old ++ Json.optional "new" (fun j => j) c.new)

def SemanticDiffReport.toJson (r : SemanticDiffReport) : Json :=
  .obj [("old_result_digest", .str r.oldResultDigest),
    ("new_result_digest", .str r.newResultDigest),
    ("changes", .arr (r.changes.map SemanticChange.toJson)),
    ("unclassified_changes", .num (.int r.unclassifiedChanges))]

namespace Capsule

def containsText (needle text : String) : Bool := decide (needle.toList <:+: text.toList)

def categoryFor (role path : String) : SemanticCategory :=
  if role = "verification-policy" then .policy
  else if role = "verification-graph" then .verification
  else if role = "source-assurance" then .source
  else if role = "map-artifact" then .artifact
  else if role = "trust-report" then .verification
  else if role = "adapter-receipt" || role = "edit-receipt" || role = "io-receipt" then .workflow
  else if role = "trust-ux-report" then .verification
  else if role = "command" || role = "workflow" then
    if containsText "contract" path then .contract else .workflow
  else if role = "analysis-result" then
    if containsText "source" path || containsText "citation" path then .source
    else if containsText "contract" path then .contract
    else .result
  else if role = "execution-receipt" then
    if containsText "verification_policy" path then .policy
    else if containsText "source" path then .source
    else if containsText "trust" path || containsText "check" path ||
        containsText "verification_graph" path then .verification
    else .workflow
  else .unclassified

/-- The members that a run leaves in a document. -/
def runtimeMembers : List String :=
  ["id", "workflow_id", "command_id", "command_timestamp", "timestamp", "retrieved_at",
    "observed_at", "retrieval_events", "state_digest"]

def escapeKey (key : String) : String := String.ofList (key.toList.flatMap fun c =>
    if c = '~' then ['~', '0'] else if c = '/' then ['~', '1'] else [c])

def leafChange (role path : String) (kind : ChangeKind) (old new : Option Json) : SemanticChange :=
  { category := categoryFor role path, subjectRole := role, path := path, kind := kind
    old := old, new := new }

/-- Equality of two numbers: there are two zeros, and a whole number is no float. -/
def sameNumber : Number → Number → Bool
  | .int a, .int b => a == b
  | .float x _, .float y _ => F64.eq x y
  | _, _ => false

/-- Equality of two documents that are not both arrays and not both objects. -/
def sameScalar : Json → Json → Bool
  | .null, .null => true
  | .bool a, .bool b => a == b
  | .num a, .num b => sameNumber a b
  | .str a, .str b => a == b
  | _, _ => false

variable (role : String)

mutual
def diffJson (old new : Json) (pointer : String) : List SemanticChange :=
  match old, new with
  | .obj old, .obj new => diffMembers old new pointer
  | .arr old, .arr new => diffItems old new pointer 0
  | old, new =>
    if sameScalar old new then [] else [leafChange role pointer .modified (some old) (some new)]
  termination_by sizeOf old + sizeOf new

/-- The loop over the keys of both objects.  Objects list their members in key order. -/
def diffMembers (old new : List (String × Json)) (pointer : String) : List SemanticChange :=
  match old, new with
  | [], [] => []
  | (key, value) :: old, [] =>
    leafChange role (pointer ++ "/" ++ escapeKey key) .removed (some value) none ::
      diffMembers old [] pointer
  | [], (key, value) :: new =>
    leafChange role (pointer ++ "/" ++ escapeKey key) .added none (some value) ::
      diffMembers [] new pointer
  | (key, value) :: old, (key', value') :: new =>
    match compare key key' with
    | .lt => leafChange role (pointer ++ "/" ++ escapeKey key) .removed (some value) none ::
        diffMembers old ((key', value') :: new) pointer
    | .gt => leafChange role (pointer ++ "/" ++ escapeKey key') .added none (some value') ::
        diffMembers ((key, value) :: old) new pointer
    | .eq => diffJson value value' (pointer ++ "/" ++ escapeKey key) ++ diffMembers old new pointer
  termination_by sizeOf old + sizeOf new

def diffItems (old new : List Json) (pointer : String) (index : Nat) : List SemanticChange :=
  match old, new with
  | [], [] => []
  | value :: old, [] =>
    leafChange role (pointer ++ "/" ++ toString index) .removed (some value) none ::
      diffItems old [] pointer (index + 1)
  | [], value :: new =>
    leafChange role (pointer ++ "/" ++ toString index) .added none (some value) ::
      diffItems [] new pointer (index + 1)
  | value :: old, value' :: new =>
    diffJson value value' (pointer ++ "/" ++ toString index) ++
      diffItems old new pointer (index + 1)
  termination_by sizeOf old + sizeOf new
end

variable (readers : Readers)

def isJson (entry : CapsuleEntry) : Bool :=
  "application/json".toList.isPrefixOf entry.mediaType.toList

def subjectChange (entry : CapsuleEntry) (path : String) (kind : ChangeKind) : SemanticChange :=
  { category := categoryFor entry.role path, subjectRole := entry.role, path := path, kind := kind
    old := none, new := none }

def compareSubject (oldRoot newRoot : Directory) (path : String) :
    Option CapsuleEntry → Option CapsuleEntry → Verifying (List SemanticChange)
  | some old, some new =>
    if old.sha256 = new.sha256 then .ok []
    else if isJson old && isJson new then do
      let oldValue ← readJson readers.value oldRoot path
      let newValue ← readJson readers.value newRoot path
      return diffJson old.role (oldValue.strip runtimeMembers).json
        (newValue.strip runtimeMembers).json ""
    else .ok [subjectChange old path .modified]
  | some entry, none => .ok [subjectChange entry path .removed]
  | none, some entry => .ok [subjectChange entry path .added]
  | none, none => .ok []

def entriesByPath (manifest : CapsuleManifest) : Std.ExtTreeMap String CapsuleEntry :=
  .ofList (manifest.entries.map fun entry => (entry.path, entry))

def compareSubjects (oldRoot newRoot : Directory)
    (old new : Std.ExtTreeMap String CapsuleEntry) : List String → Verifying (List SemanticChange)
  | [] => .ok []
  | path :: rest => do
    let changes ← compareSubject readers oldRoot newRoot path old[path]? new[path]?
    let others ← compareSubjects oldRoot newRoot old new rest
    return changes ++ others

def resultChange (old new : CapsuleManifest) : List SemanticChange :=
  if old.subjectResultDigest = new.subjectResultDigest then []
  else [{ category := .result, subjectRole := "capsule-manifest", path := "/subject_result_digest"
          kind := .modified, old := some (.str old.subjectResultDigest)
          new := some (.str new.subjectResultDigest) }]

/-- By category, then by role, then by path. -/
def notAfter (a b : SemanticChange) : Bool :=
  if a.category.rank = b.category.rank then
    if a.subjectRole = b.subjectRole then decide (a.path ≤ b.path)
    else decide (a.subjectRole < b.subjectRole)
  else decide (a.category.rank < b.category.rank)

def diffCapsules (oldRoot newRoot : Directory) : Verifying SemanticDiffReport := do
  let old ← readJson readers.manifest oldRoot manifestPath
  let new ← readJson readers.manifest newRoot manifestPath
  let paths : Std.ExtTreeSet String :=
    .ofList (old.entries.map CapsuleEntry.path ++ new.entries.map CapsuleEntry.path)
  let subjects ← compareSubjects readers oldRoot newRoot (entriesByPath old) (entriesByPath new)
    paths.toList
  let changes := (subjects ++ resultChange old new).insertionSort fun a b => notAfter a b
  return { oldResultDigest := old.subjectResultDigest, newResultDigest := new.subjectResultDigest
           changes := changes
           unclassifiedChanges :=
             (changes.filter fun change => change.category == .unclassified).length }

end Capsule
end GeneGIS
