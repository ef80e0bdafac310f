/-
A policy derives a level of trust from evidence by passing gates in order, each of which lists what
it misses.  The first one that misses something ends the derivation.
-/
import GeneGIS.Contract.Assurance
import GeneGIS.Contract.Compatibility

namespace GeneGIS

inductive TrustLevel where
  | exploratory
  | replayable
  | verified
  | attested
  deriving DecidableEq

def TrustLevel.rank : TrustLevel → Nat
  | .exploratory => 0
  | .replayable => 1
  | .verified => 2
  | .attested => 3

instance : LE TrustLevel := ⟨fun a b => a.rank ≤ b.rank⟩

instance : DecidableRel fun a b : TrustLevel => a ≤ b :=
  fun a b => inferInstanceAs (Decidable (a.rank ≤ b.rank))

inductive IndependenceClass where
  | sameImplementation
  | differentAlgorithmSameEngine
  | differentEngine
  | authoritativeExternalOracle
  | domainInvariant
  deriving DecidableEq

def IndependenceClass.asStr : IndependenceClass → String
  | .sameImplementation => "same_implementation"
  | .differentAlgorithmSameEngine => "different_algorithm_same_engine"
  | .differentEngine => "different_engine"
  | .authoritativeExternalOracle => "authoritative_external_oracle"
  | .domainInvariant => "domain_invariant"

def IndependenceClass.rank : IndependenceClass → Nat
  | .sameImplementation => 0
  | .differentAlgorithmSameEngine => 1
  | .differentEngine => 2
  | .authoritativeExternalOracle => 3
  | .domainInvariant => 4

instance : Ord IndependenceClass := ⟨compareOn IndependenceClass.rank⟩

instance : Std.TransOrd IndependenceClass :=
  inferInstanceAs (Std.TransCmp (compareOn IndependenceClass.rank))

structure CheckRequirement where
  checkId : String
  acceptedIndependence : Std.ExtTreeSet IndependenceClass
  maxErrorPpm : Option Nat

structure VerificationPolicy where
  schemaVersion : String
  policyId : String
  geoContractSchemaVersion : String
  requiredContracts : Std.ExtTreeSet String
  requiredChecks : List CheckRequirement
  requireVerifiedSources : Bool
  requireSourceVersion : Bool
  requireLicense : Bool
  sourceAssurance : Option AssurancePolicy
  minimumArtifactCount : Nat
  acceptedAttesters : Std.ExtTreeSet String

structure ReplayEvidence where
  workflowDigest : Option String
  resultDigest : Option String
  backendIdentity : Option String
  artifactDigests : List String

structure ContractEvidence where
  contractId : String
  schemaVersion : String
  valid : Bool
  compatibility : CompatibilityStatus

structure SourceEvidence where
  sourceId : String
  checksumStatus : ChecksumVerification
  sourceVersionPresent : Bool
  licensePresent : Bool
  snapshotDigest : Option String
  assurance : Option SourceAssurance
  assuranceDigest : Option String

structure VerificationEvidence where
  checkId : String
  passed : Bool
  independence : IndependenceClass
  observedErrorPpm : Option Nat
  evidenceDigest : Option String

structure AttestationEvidence where
  signer : String
  signatureVerified : Bool

structure TrustEvidence where
  replay : ReplayEvidence
  contracts : List ContractEvidence
  sources : List SourceEvidence
  checks : List VerificationEvidence
  attestation : Option AttestationEvidence

inductive TrustGate where
  | replay
  | verification
  | attestation
  deriving DecidableEq

structure TrustFailure where
  gate : TrustGate
  code : String
  subject : String
  detail : String
  deriving DecidableEq

structure TrustAssessment where
  level : TrustLevel
  policyId : String
  failures : List TrustFailure

namespace VerificationPolicy

def currentSchemaVersion : String := "0.1.0"

def new (policyId : String) : VerificationPolicy :=
  { schemaVersion := currentSchemaVersion, policyId := policyId
    geoContractSchemaVersion := GeoContract.currentSchemaVersion, requiredContracts := ∅
    requiredChecks := [], requireVerifiedSources := true, requireSourceVersion := true
    requireLicense := true, sourceAssurance := none, minimumArtifactCount := 1
    acceptedAttesters := ∅ }

def failure (gate : TrustGate) (code subject detail : String) : TrustFailure :=
  { gate := gate, code := code, subject := subject, detail := detail }

/-- One failure, unless a condition holds. -/
def failUnless (ok : Bool) (gate : TrustGate) (code subject detail : String) : List TrustFailure :=
  if ok then [] else [failure gate code subject detail]

def validDigest (value : String) : Bool := Text.isSha256 value

def validIdentity (value : String) : Bool :=
  !Text.isBlank value && (validDigest value || value.toList.contains ':')

/-- The loop over the required checks, with the identifiers that were there before. -/
def requirementFailures : List String → List CheckRequirement → List TrustFailure
  | _, [] => []
  | seen, check :: rest =>
    failUnless (!(Text.isBlank check.checkId || decide (check.checkId ∈ seen))) .verification
      "invalid_check_requirement" check.checkId
      "required check identifier is empty or duplicated" ++
    failUnless (!check.acceptedIndependence.isEmpty) .verification "missing_independence_policy"
      check.checkId "required check has no accepted independence class" ++
    -- A blank identifier is not remembered, and it is never in the set.
    requirementFailures (if Text.isBlank check.checkId then seen else check.checkId :: seen) rest

variable (p : VerificationPolicy)

def validatePolicy : List TrustFailure :=
  failUnless (p.schemaVersion = currentSchemaVersion) .replay "unsupported_policy_schema"
    p.schemaVersion "verification policy schema version is not supported" ++
  failUnless (!Text.isBlank p.policyId) .replay "missing_policy_id" "policy"
    "policy identifier is empty" ++
  failUnless (p.geoContractSchemaVersion = GeoContract.currentSchemaVersion) .verification
    "unsupported_contract_schema" p.geoContractSchemaVersion
    "policy requires an unsupported GeoContract schema" ++
  requirementFailures [] p.requiredChecks

def identityFailure (code subject : String) (value : Option String) : List TrustFailure :=
  failUnless (value.any validIdentity) .replay code subject
    "required stable replay identity is missing or malformed"

def validArtifacts (replay : ReplayEvidence) : Nat :=
  (replay.artifactDigests.filter validDigest).length

def replayFailures (replay : ReplayEvidence) : List TrustFailure :=
  identityFailure "missing_workflow_digest" "workflow" replay.workflowDigest ++
  identityFailure "missing_result_digest" "result" replay.resultDigest ++
  identityFailure "missing_backend_identity" "backend" replay.backendIdentity ++
  failUnless (p.minimumArtifactCount ≤ validArtifacts replay) .replay
    "insufficient_artifact_digests" "artifacts"
    (toString (validArtifacts replay) ++ " valid artifact digests; policy requires " ++
      toString p.minimumArtifactCount)

/-! ## Contracts, sources and checks -/

def contractFailures (contracts : List ContractEvidence) (required : String) : List TrustFailure :=
  match contracts.find? fun contract => contract.contractId = required with
  | none =>
    failUnless false .verification "missing_contract_evidence" required
      "required GeoContract evidence is missing"
  | some contract =>
    failUnless (!(!contract.valid || decide (contract.schemaVersion ≠ p.geoContractSchemaVersion) ||
        decide (contract.compatibility ≠ .compatible))) .verification "contract_not_compatible"
      required "required GeoContract is invalid, unsupported, or not fully compatible"

variable (rt : Runtime)

/-- A dossier that is there is bound to the snapshot and by its digest, required or not. -/
def bindingFailures (source : SourceEvidence) : List TrustFailure :=
  match source.assurance with
  | none => []
  | some assurance =>
    failUnless (source.snapshotDigest = some assurance.snapshotDigest) .verification
      "source_assurance_snapshot_mismatch" source.sourceId
      "source assurance snapshot digest differs from source admission evidence" ++
    failUnless (source.assuranceDigest = some (assurance.digest rt)) .verification
      "source_assurance_digest_mismatch" source.sourceId
      "source assurance dossier is not bound by its computed digest"

def assuranceFailures (p : VerificationPolicy) (source : SourceEvidence) : List TrustFailure :=
  match p.sourceAssurance with
  | none => []
  | some policy =>
    match source.assurance with
    | none =>
      failUnless false .verification "missing_source_assurance" source.sourceId
        "policy requires a source assurance dossier"
    | some assurance =>
      if assurance.sourceId ≠ source.sourceId then
        failUnless false .verification "source_assurance_identity_mismatch" source.sourceId
          "source assurance dossier identifies a different source"
      else
        let report := Assurance.assess rt policy assurance
        if report.passed then []
        else report.failures.map fun f =>
          failure .verification ("source_assurance_" ++ f.code) f.subject f.detail

def sourceFailures (p : VerificationPolicy) (source : SourceEvidence) : List TrustFailure :=
  failUnless (!p.requireVerifiedSources || decide (source.checksumStatus = .verified)) .verification
    "source_not_verified" source.sourceId
    "source bytes were not verified against their snapshot identity" ++
  failUnless (!p.requireSourceVersion || source.sourceVersionPresent) .verification
    "missing_source_version" source.sourceId "stable source version is missing" ++
  failUnless (!p.requireLicense || source.licensePresent) .verification "missing_source_license"
    source.sourceId "source license is missing" ++
  bindingFailures rt source ++
  assuranceFailures rt p source

/-- An empty list of sources is missing where one of three flags is set. -/
def missingSources (sources : List SourceEvidence) : List TrustFailure :=
  failUnless (!((p.requireVerifiedSources || p.requireSourceVersion || p.requireLicense) &&
      sources.isEmpty)) .verification "missing_source_evidence" "sources"
    "policy requires source evidence but none was supplied"

def toleranceFailures (r : CheckRequirement) (check : VerificationEvidence) : List TrustFailure :=
  match r.maxErrorPpm with
  | none => []
  | some maximum =>
    match check.observedErrorPpm with
    | none =>
      failUnless false .verification "missing_check_error" r.checkId
        "policy requires a numeric error observation"
    | some observed =>
      failUnless (observed ≤ maximum) .verification "check_tolerance_exceeded" r.checkId
        ("observed " ++ toString observed ++ " ppm exceeds " ++ toString maximum ++ " ppm")

def checkFailures (checks : List VerificationEvidence) (r : CheckRequirement) : List TrustFailure :=
  match checks.find? fun check => check.checkId = r.checkId with
  | none =>
    failUnless false .verification "missing_check_evidence" r.checkId
      "required verification check is missing"
  | some check =>
    if !check.passed then
      failUnless false .verification "check_failed" r.checkId "required verification check failed"
    else if !r.acceptedIndependence.contains check.independence then
      failUnless false .verification "insufficient_verifier_independence" r.checkId
        "verifier independence class is not accepted by policy"
    else if !check.evidenceDigest.any validDigest then
      failUnless false .verification "missing_check_digest" r.checkId
        "check evidence is not content-addressed"
    else toleranceFailures r check

def verificationFailures (p : VerificationPolicy) (e : TrustEvidence) : List TrustFailure :=
  p.requiredContracts.toList.flatMap (contractFailures p e.contracts) ++
  e.sources.flatMap (sourceFailures rt p) ++
  missingSources p e.sources ++
  p.requiredChecks.flatMap (checkFailures e.checks)

def attestationFailures (attestation : Option AttestationEvidence) : List TrustFailure :=
  if p.acceptedAttesters.isEmpty then
    [failure .attestation "attestation_not_required" "attestation"
      "policy does not identify an accepted attester"]
  else
    match attestation with
    | none =>
      [failure .attestation "missing_attestation" "attestation"
        "no signed attestation was supplied"]
    | some attestation =>
      if !attestation.signatureVerified then
        [failure .attestation "invalid_attestation_signature" attestation.signer
          "attestation signature or subject integrity did not verify"]
      else if !p.acceptedAttesters.contains attestation.signer then
        [failure .attestation "unaccepted_attester" attestation.signer
          "attestation signer is not accepted by policy"]
      else []

def assess (p : VerificationPolicy) (e : TrustEvidence) : TrustAssessment :=
  let failures := validatePolicy p ++ replayFailures p e.replay
  if failures ≠ [] then
    { level := .exploratory, policyId := p.policyId, failures := failures }
  else if verificationFailures rt p e ≠ [] then
    { level := .replayable, policyId := p.policyId, failures := verificationFailures rt p e }
  else if attestationFailures p e.attestation ≠ [] then
    { level := .verified, policyId := p.policyId
      failures := attestationFailures p e.attestation }
  else { level := .attested, policyId := p.policyId, failures := [] }

end VerificationPolicy
end GeneGIS
