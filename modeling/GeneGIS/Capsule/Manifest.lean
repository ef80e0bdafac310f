/-
A directory maps portable paths to files, and its manifest lists their sizes and digests.  The JSON
reader of each kind of document is a parameter.
-/
import GeneGIS.Analysis.Receipt
import GeneGIS.Plugin.Registry

namespace GeneGIS

open Std

inductive FileType where
  | file
  | directory
  | symlink
  | other
  deriving DecidableEq

/-- What a file is without following links, and the bytes that reading it gives. -/
structure Directory where
  fileType : String → Except String FileType
  read : String → Except String Bytes

structure CapsuleEntry where
  path : String
  role : String
  mediaType : String
  sha256 : String
  bytes : Nat

def CapsuleEntry.toJson (entry : CapsuleEntry) : Value :=
  .object [("path", .str entry.path), ("role", .str entry.role),
    ("media_type", .str entry.mediaType), ("sha256", .str entry.sha256),
    ("bytes", .ofNat entry.bytes)]

structure CapsuleManifest where
  schemaVersion : String
  profile : String
  subjectResultDigest : String
  entries : List CapsuleEntry

inductive OperationalEvidenceKind where
  | adapter
  | edit
  | io
  | trustUx
  deriving DecidableEq

structure OperationalEvidence where
  schemaVersion : String
  evidenceId : String
  kind : OperationalEvidenceKind
  producer : String
  payloadDigest : String
  payload : Value

structure CapsuleVerification where
  schemaVersion : String
  resultDigest : String
  verificationGraphDigest : String
  trust : TrustAssessment
  verifiedEntries : Nat
  operationalEvidence : List OperationalEvidenceKind

structure DigestIdentities where
  resultDigest : String
  workflowDigest : String
  policyDigest : String
  verificationGraphDigest : String
  mapHtmlDigest : String
  mapPngDigest : String

/-- An error of a workflow or of a graph is kept in the place of its text. -/
inductive CapsuleError where
  | io (path source : String)
  | json (reason : String)
  | verification (message : String)
  | workflow (error : WorkflowValidationError)
  | graph (error : VerificationGraphError)

/-- The JSON readers of the documents. -/
structure Readers where
  manifest : Bytes → Except String CapsuleManifest
  evidence : Bytes → Except String OperationalEvidence
  receipt : Bytes → Except String ExecutionReceipt
  command : Bytes → Except String CommandEnvelope
  policy : Bytes → Except String VerificationPolicy
  graph : Bytes → Except String VerificationGraph
  assurance : Bytes → Except String SourceAssurance
  analysis : Bytes → Except String AnalysisResult
  workflow : Bytes → Except String GeoWorkflow
  value : Bytes → Except String Value

namespace OperationalEvidenceKind

def role : OperationalEvidenceKind → String
  | .adapter => "adapter-receipt"
  | .edit => "edit-receipt"
  | .io => "io-receipt"
  | .trustUx => "trust-ux-report"

def requiredFields : OperationalEvidenceKind → List String
  | .adapter =>
    ["manifest_digest", "operation_id", "backend", "parameters", "output_digest", "elapsed_ns"]
  | .edit => ["before_revision", "after_revision", "changed_features"]
  | .io => ["schema_version", "format", "object_digest", "requests", "transferred_bytes",
      "whole_object_fallback", "peak_rss_bytes"]
  | .trustUx => ["schema_version", "corpus_version", "corpus_digest", "admitted_human_reviewers",
      "admitted_tasks", "correctness", "median_diagnosis_seconds",
      "median_interactions_to_decisive_evidence", "passed"]

def rank : OperationalEvidenceKind → Nat
  | .adapter => 0
  | .edit => 1
  | .io => 2
  | .trustUx => 3

instance : Ord OperationalEvidenceKind := ⟨compareOn rank⟩

instance : TransOrd OperationalEvidenceKind := inferInstanceAs (TransCmp (compareOn rank))

end OperationalEvidenceKind

/-! ## Policies -/

theorem AuthorityClass.rank_inj {a b : AuthorityClass} (h : a.rank = b.rank) : a = b := by
  cases a <;> cases b <;> first | rfl | cases h

instance : LawfulEqOrd AuthorityClass where
  eq_of_compare h := AuthorityClass.rank_inj (LawfulEqOrd.eq_of_compare h)

theorem IndependenceClass.rank_inj {a b : IndependenceClass} (h : a.rank = b.rank) : a = b := by
  cases a <;> cases b <;> first | rfl | cases h

instance : LawfulEqOrd IndependenceClass where
  eq_of_compare h := IndependenceClass.rank_inj (LawfulEqOrd.eq_of_compare h)

deriving instance DecidableEq for AssurancePolicy, CheckRequirement, VerificationPolicy

def CheckRequirement.toJson (r : CheckRequirement) : Json := .obj ([("check_id", .str r.checkId),
    ("accepted_independence", .arr (r.acceptedIndependence.toList.map fun c => .str c.asStr))] ++
    Json.optional "max_error_ppm" (fun n : Nat => .num (.int n)) r.maxErrorPpm)

def AssurancePolicy.toJson (p : AssurancePolicy) : Json := .obj ([("accepted_authority_classes",
      .arr (p.acceptedAuthorityClasses.toList.map fun c => .str c.asStr))] ++
    Json.optional "max_age_days" (fun n : Nat => .num (.int n)) p.maxAgeDays ++
    [("required_checks", .arr (p.requiredChecks.toList.map fun c => .str c.asStr)),
     ("minimum_independent_corroborations", .num (.int p.minimumIndependentCorroborations)),
     ("require_uncertainty", .bool p.requireUncertainty),
     ("require_limitations", .bool p.requireLimitations),
     ("allow_unresolved_disputes", .bool p.allowUnresolvedDisputes)])

def VerificationPolicy.toJson (p : VerificationPolicy) : Json :=
  .obj ([("schema_version", .str p.schemaVersion), ("policy_id", .str p.policyId),
    ("geo_contract_schema_version", .str p.geoContractSchemaVersion),
    ("required_contracts", .arr (p.requiredContracts.toList.map .str)),
    ("required_checks", .arr (p.requiredChecks.map CheckRequirement.toJson)),
    ("require_verified_sources", .bool p.requireVerifiedSources),
    ("require_source_version", .bool p.requireSourceVersion),
    ("require_license", .bool p.requireLicense)] ++
    Json.optional "source_assurance" AssurancePolicy.toJson p.sourceAssurance ++
    [("minimum_artifact_count", .num (.int p.minimumArtifactCount)),
     ("accepted_attesters", .arr (p.acceptedAttesters.toList.map .str))])

namespace Capsule

abbrev Verifying (α : Type) := Except CapsuleError α

def verifyUnless (failed : Bool) (message : String) : Verifying Unit :=
  if failed then .error (.verification message) else .ok ()

theorem verifyUnless_ok {failed : Bool} {message : String} {u : Unit} :
    verifyUnless failed message = .ok u ↔ failed = false :=
  Fallible.except_refuse_ok

theorem verify_then {β : Type} {failed : Bool} {message : String} {f : Unit → Verifying β} {b : β}
    (h : failed = false) (hf : f () = .ok b) : (verifyUnless failed message >>= f) = .ok b :=
  Fallible.then_ok (verifyUnless_ok.mpr h) hf

def required {α : Type} (value : Option α) (message : String) : Verifying α :=
  match value with
  | some a => .ok a
  | none => .error (.verification message)

theorem required_ok {α : Type} {value : Option α} {message : String} {a : α} :
    required value message = .ok a ↔ value = some a := by
  cases value with
  | none => exact iff_of_false nofun (by simp)
  | some b => rw [required, Except.ok.injEq, Option.some.injEq]

def schemaVersion : String := "0.1.0"

def manifestPath : String := "capsule.json"

def analysisPath : String := "metadata/analysis.json"

def commandPath : String := "metadata/command.json"

def workflowPath : String := "metadata/workflow.json"

def receiptPath : String := "metadata/receipt.json"

def policyPath : String := "metadata/verification-policy.json"

def graphPath : String := "metadata/verification-graph.json"

def htmlPath : String := "artifacts/map.html"

def pngPath : String := "artifacts/map.png"

def trustReportPath : String := "reports/trust.html"

def readFile (d : Directory) (path : String) : Verifying Bytes := (d.read path).mapError (.io path)

def readJson {α : Type} (parse : Bytes → Except String α) (d : Directory) (path : String) :
    Verifying α := do
  let bytes ← readFile d path
  (parse bytes).mapError .json

def validateRelativePath (path : String) : Verifying Unit :=
  verifyUnless (path.isEmpty || !PluginManifest.isNormalized path) ("unsafe capsule path: " ++ path)

def operationalKindForRole (role : String) : Option OperationalEvidenceKind :=
  if role = "adapter-receipt" then some .adapter
  else if role = "edit-receipt" then some .edit
  else if role = "io-receipt" then some .io
  else if role = "trust-ux-report" then some .trustUx
  else none

def requiredSubjects : List String :=
  [analysisPath, commandPath, workflowPath, receiptPath, policyPath, graphPath, htmlPath, pngPath,
    trustReportPath]

/-- The text of a page with the five special characters replaced. -/
def escapeHtml (value : String) : String := String.ofList (value.toList.flatMap fun c =>
    if c = '&' then "&amp;".toList
    else if c = '<' then "&lt;".toList
    else if c = '>' then "&gt;".toList
    else if c = '"' then "&quot;".toList
    else if c.toNat = 39 then "&#39;".toList
    else [c])

def levelText : TrustLevel → String
  | .exploratory => "exploratory"
  | .replayable => "replayable"
  | .verified => "verified"
  | .attested => "attested"

def trustReportHtml (trust : TrustAssessment) (identities : DigestIdentities) : String :=
  "<!doctype html>\n<html lang=\"en\"><head><meta charset=\"utf-8\"><title>GeneGIS trust report" ++
  "</title></head><body>\n<h1>GeneGIS trust report</h1>\n<dl><dt>Trust</dt><dd>" ++
  escapeHtml (levelText trust.level) ++ "</dd><dt>Policy</dt><dd>" ++ escapeHtml trust.policyId ++
  "</dd><dt>Result digest</dt><dd>" ++ escapeHtml identities.resultDigest ++
  "</dd><dt>Workflow digest</dt><dd>" ++ escapeHtml identities.workflowDigest ++
  "</dd><dt>Policy digest</dt><dd>" ++ escapeHtml identities.policyDigest ++
  "</dd><dt>Verification graph digest</dt><dd>" ++
  escapeHtml identities.verificationGraphDigest ++
  "</dd><dt>Map HTML digest</dt><dd>" ++ escapeHtml identities.mapHtmlDigest ++
  "</dd><dt>Map PNG digest</dt><dd>" ++ escapeHtml identities.mapPngDigest ++
  "</dd></dl>\n</body></html>\n"

end Capsule
end GeneGIS
