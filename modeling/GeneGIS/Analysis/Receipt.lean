/-
The digest leaves out the times of the sources and rounds every number to nine decimals.  The parts
of an analysis are kept in the form in which they are digested.
-/
import GeneGIS.Contract.Verification
import GeneGIS.Core.Command
import GeneGIS.Data.Bytes

namespace GeneGIS

deriving instance DecidableEq for TrustAssessment

structure EngineIdentity where
  name : String
  version : String
  build : String

structure ExecutionReceipt where
  commandId : Uuid
  workflowId : Uuid
  workflowDigest : WorkflowDigest
  verificationPassed : Bool
  verificationPolicy : Option VerificationPolicy
  verificationGraph : Option VerificationGraph
  verificationGraphDigest : Option String
  trustAssessment : Option TrustAssessment
  trustEvidence : Option TrustEvidence
  evidence : Value
  engine : EngineIdentity
  resultDigest : String

structure AnalysisResult where
  workflow : GeoWorkflow
  features : List Value
  style : Value
  verification : Value
  citations : List Value

structure NagoyaArtifactDigests where
  htmlSha256 : Option String
  pngSha256 : Option String
  htmlBytes : Nat
  pngBytes : Nat

structure NagoyaExecutionOutput where
  analysis : AnalysisResult
  verificationPassed : Bool
  html : String
  pngBase64 : String
  artifactDigests : NagoyaArtifactDigests

/-- The libraries that an offline check calls besides. -/
structure Offline extends Runtime where
  /-- Lower-case hexadecimal SHA-256 of the bytes. -/
  sha256Bytes : Bytes → String
  encodeBase64 : Bytes → String
  decodeBase64 : String → Option Bytes
  /-- The number that is read from the text of a number with nine decimals. -/
  nineDecimals : { x : F64 // x.isFinite = true } → { x : F64 // x.isFinite = true }

variable (lib : Offline)

def Offline.digestBytes (bytes : Bytes) : String := "sha256:" ++ lib.sha256Bytes bytes

namespace Json

def asStr? : Json → Option String
  | .str s => some s
  | _ => none

def asArray? : Json → Option (List Json)
  | .arr items => some items
  | _ => none

/-! ## Rounding -/

variable (nine : { x : F64 // x.isFinite = true } → { x : F64 // x.isFinite = true })

mutual
def normalizeFloatNoise : Json → Json
  | .num (.float x finite) => .num (.float (nine ⟨x, finite⟩).1 (nine ⟨x, finite⟩).2)
  | .num (.int n) => .num (.int n)
  | .arr items => .arr (normalizeItems items)
  | .obj members => .obj (normalizeMembers members)
  | .null => .null
  | .bool b => .bool b
  | .str s => .str s

def normalizeItems : List Json → List Json
  | [] => []
  | item :: rest => normalizeFloatNoise item :: normalizeItems rest

def normalizeMembers : List (String × Json) → List (String × Json)
  | [] => []
  | (key, value) :: rest => (key, normalizeFloatNoise value) :: normalizeMembers rest
end

theorem map_fst_normalizeMembers (members : List (String × Json)) :
    (normalizeMembers nine members).map Prod.fst = members.map Prod.fst := by
  induction members with
  | nil => rfl
  | cons m rest ih => rw [normalizeMembers, List.map_cons, List.map_cons, ih]

mutual
theorem ordered_normalizeFloatNoise : ∀ j : Json, j.Ordered → (normalizeFloatNoise nine j).Ordered
  | .null, _ | .bool _, _ | .num (.int _), _ | .num (.float _ _), _ | .str _, _ => trivial
  | .arr items, h => ordered_normalizeItems items h
  | .obj members, h => by
    refine ⟨?_, ordered_normalizeMembers members h.2⟩
    have hkeys : ((normalizeMembers nine members).map Prod.fst).Pairwise
        fun a b => compare a b = .lt := by
      rw [map_fst_normalizeMembers, List.pairwise_map]
      exact h.1
    exact List.pairwise_map.mp hkeys

theorem ordered_normalizeItems :
    ∀ items : List Json, OrderedItems items → OrderedItems (normalizeItems nine items)
  | [], _ => trivial
  | item :: rest, h =>
    ⟨ordered_normalizeFloatNoise item h.1, ordered_normalizeItems rest h.2⟩

theorem ordered_normalizeMembers : ∀ members : List (String × Json), OrderedMembers members →
      OrderedMembers (normalizeMembers nine members)
  | [], _ => trivial
  | (_, value) :: rest, h =>
    ⟨ordered_normalizeFloatNoise value h.1, ordered_normalizeMembers rest h.2⟩
end

end Json

def Value.normalizeFloatNoise (lib : Offline) (v : Value) : Value :=
  ⟨v.json.normalizeFloatNoise lib.nineDecimals,
    Json.ordered_normalizeFloatNoise lib.nineDecimals v.json v.ordered⟩

def wardCode (feature : Value) : Option String := (feature.json.get? "ward_code").bind Json.asStr?

/-- No code comes before every code. -/
def noLaterWard (a b : Value) : Bool :=
  match wardCode a, wardCode b with
  | none, _ => true
  | some _, none => false
  | some s, some t => decide (s ≤ t)

def canonicalAnalysisResultDigest (result : AnalysisResult) : String :=
  let value := Value.object [
    ("features", .ofList (fun v => v) (result.features.insertionSort fun a b => noLaterWard a b)),
    ("style", result.style), ("verification", result.verification),
    ("citations", .ofList (fun v => v) result.citations)]
  lib.digestJson ((value.normalizeFloatNoise lib).strip ["retrieved_at"])

def NagoyaArtifactDigests.toJson (a : NagoyaArtifactDigests) : Value :=
  .object [("html_sha256", .ofOption .str a.htmlSha256),
    ("png_sha256", .ofOption .str a.pngSha256), ("html_bytes", .ofNat a.htmlBytes),
    ("png_bytes", .ofNat a.pngBytes)]

/-- A payload that is no base64 is represented by the digest of its text. -/
def canonicalNagoyaExecutionDigest (output : NagoyaExecutionOutput) (evidence : Value) : String :=
  let actualPngDigest :=
    if output.pngBase64.isEmpty then none
    else some (match lib.decodeBase64 output.pngBase64 with
      | some bytes => lib.digestBytes bytes
      | none => lib.digestBytes (Bytes.ofText output.pngBase64))
  let actualHtmlDigest :=
    if output.html.isEmpty then none else some (lib.digestBytes (Bytes.ofText output.html))
  let document := Value.object [
    ("analysis_result_digest", .str (canonicalAnalysisResultDigest lib output.analysis)),
    ("verification_passed", .bool output.verificationPassed),
    ("artifact_digests", output.artifactDigests.toJson),
    ("actual_artifact_digests", .object [("html_sha256", .ofOption .str actualHtmlDigest),
      ("png_sha256", .ofOption .str actualPngDigest)]),
    ("evidence", evidence)]
  lib.digestJson ((document.normalizeFloatNoise lib).strip ["retrieved_at", "observed_at"])

end GeneGIS
