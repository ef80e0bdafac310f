/-
A dossier says how a source was assessed, and a policy for one use of the source accepts it or
lists what it misses.  The dossier is bound by the digest of its document.
-/
import GeneGIS.Runtime
import Std.Data.ExtTreeSet.Lemmas

namespace GeneGIS

open Std

inductive AuthorityClass where
  | primaryOfficial
  | delegatedOfficial
  | peerReviewed
  | communityMaintained
  | commercial
  | unknown
  deriving DecidableEq

def AuthorityClass.asStr : AuthorityClass → String
  | .primaryOfficial => "primary_official"
  | .delegatedOfficial => "delegated_official"
  | .peerReviewed => "peer_reviewed"
  | .communityMaintained => "community_maintained"
  | .commercial => "commercial"
  | .unknown => "unknown"

def AuthorityClass.rank : AuthorityClass → Nat
  | .primaryOfficial => 0
  | .delegatedOfficial => 1
  | .peerReviewed => 2
  | .communityMaintained => 3
  | .commercial => 4
  | .unknown => 5

instance : Ord AuthorityClass := ⟨compareOn AuthorityClass.rank⟩

instance : TransOrd AuthorityClass := inferInstanceAs (TransCmp (compareOn AuthorityClass.rank))

inductive AssuranceCheckKind where
  | schema
  | completeness
  | spatialCoverage
  | temporalConsistency
  | anomalyDetection
  | crossSourceAgreement
  deriving DecidableEq

def AssuranceCheckKind.asStr : AssuranceCheckKind → String
  | .schema => "schema"
  | .completeness => "completeness"
  | .spatialCoverage => "spatial_coverage"
  | .temporalConsistency => "temporal_consistency"
  | .anomalyDetection => "anomaly_detection"
  | .crossSourceAgreement => "cross_source_agreement"

def AssuranceCheckKind.debug : AssuranceCheckKind → String
  | .schema => "Schema"
  | .completeness => "Completeness"
  | .spatialCoverage => "SpatialCoverage"
  | .temporalConsistency => "TemporalConsistency"
  | .anomalyDetection => "AnomalyDetection"
  | .crossSourceAgreement => "CrossSourceAgreement"

def AssuranceCheckKind.rank : AssuranceCheckKind → Nat
  | .schema => 0
  | .completeness => 1
  | .spatialCoverage => 2
  | .temporalConsistency => 3
  | .anomalyDetection => 4
  | .crossSourceAgreement => 5

instance : Ord AssuranceCheckKind := ⟨compareOn AssuranceCheckKind.rank⟩

instance : TransOrd AssuranceCheckKind :=
  inferInstanceAs (TransCmp (compareOn AssuranceCheckKind.rank))

theorem AssuranceCheckKind.rank_inj {a b : AssuranceCheckKind} (h : a.rank = b.rank) : a = b := by
  cases a <;> cases b <;> first | rfl | cases h

instance : LawfulEqOrd AssuranceCheckKind where
  eq_of_compare h := AssuranceCheckKind.rank_inj (LawfulEqOrd.eq_of_compare h)

structure AssuranceCheck where
  checkId : String
  kind : AssuranceCheckKind
  passed : Bool
  evidenceDigest : String
  verifierIdentity : String
  deriving DecidableEq

inductive CorroborationIndependence where
  | samePublication
  | sameOrganization
  | independentPublisher
  | independentMeasurement
  deriving DecidableEq

def CorroborationIndependence.asStr : CorroborationIndependence → String
  | .samePublication => "same_publication"
  | .sameOrganization => "same_organization"
  | .independentPublisher => "independent_publisher"
  | .independentMeasurement => "independent_measurement"

def CorroborationIndependence.isIndependent : CorroborationIndependence → Bool
  | .independentPublisher => true
  | .independentMeasurement => true
  | _ => false

structure CorroborationEvidence where
  sourceId : String
  snapshotDigest : String
  independence : CorroborationIndependence
  agrees : Bool
  evidenceDigest : String
  deriving DecidableEq

inductive DisputeStatus where
  | opened
  | acknowledged
  | resolved
  deriving DecidableEq

def DisputeStatus.asStr : DisputeStatus → String
  | .opened => "open"
  | .acknowledged => "acknowledged"
  | .resolved => "resolved"

structure DisputeRecord where
  disputeId : String
  status : DisputeStatus
  summary : String
  evidenceDigest : Option String
  deriving DecidableEq

structure SourceUncertainty where
  method : String
  relativePpm : Option Nat
  scope : String
  deriving DecidableEq

structure SourceAssurance where
  schemaVersion : String
  sourceId : String
  snapshotDigest : String
  publisher : String
  authorityClass : AuthorityClass
  publishedAt : Option String
  assessedAt : String
  observedAgeDays : Option Nat
  checks : List AssuranceCheck
  corroborations : List CorroborationEvidence
  uncertainty : Option SourceUncertainty
  disputes : List DisputeRecord
  limitations : List String
  deriving DecidableEq

structure AssurancePolicy where
  acceptedAuthorityClasses : ExtTreeSet AuthorityClass
  maxAgeDays : Option Nat
  requiredChecks : ExtTreeSet AssuranceCheckKind
  minimumIndependentCorroborations : Nat
  requireUncertainty : Bool
  requireLimitations : Bool
  allowUnresolvedDisputes : Bool

inductive AssuranceLevel where
  | unassessed
  | identified
  | checked
  | corroborated

structure AssuranceFailure where
  code : String
  subject : String
  detail : String

structure AssuranceReport where
  level : AssuranceLevel
  passed : Bool
  assuranceDigest : Option String
  failures : List AssuranceFailure
  scopeStatement : String

namespace Json

/-- A member that is left out where there is no value. -/
def optional {α : Type} (key : String) (f : α → Json) : Option α → List (String × Json)
  | none => []
  | some a => [(key, f a)]

end Json

def AssuranceCheck.toJson (c : AssuranceCheck) : Json :=
  .obj [("check_id", .str c.checkId), ("kind", .str c.kind.asStr), ("passed", .bool c.passed),
    ("evidence_digest", .str c.evidenceDigest), ("verifier_identity", .str c.verifierIdentity)]

def CorroborationEvidence.toJson (c : CorroborationEvidence) : Json :=
  .obj [("source_id", .str c.sourceId), ("snapshot_digest", .str c.snapshotDigest),
    ("independence", .str c.independence.asStr), ("agrees", .bool c.agrees),
    ("evidence_digest", .str c.evidenceDigest)]

def DisputeRecord.toJson (d : DisputeRecord) : Json :=
  .obj ([("dispute_id", .str d.disputeId), ("status", .str d.status.asStr),
    ("summary", .str d.summary)] ++ Json.optional "evidence_digest" .str d.evidenceDigest)

def SourceUncertainty.toJson (u : SourceUncertainty) : Json :=
  .obj ([("method", .str u.method)] ++
    Json.optional "relative_ppm" (fun n : Nat => .num (.int n)) u.relativePpm ++
    [("scope", .str u.scope)])

namespace SourceAssurance

def toJson (a : SourceAssurance) : Json :=
  .obj ( [("schema_version", .str a.schemaVersion), ("source_id", .str a.sourceId),
     ("snapshot_digest", .str a.snapshotDigest), ("publisher", .str a.publisher),
     ("authority_class", .str a.authorityClass.asStr)] ++
    Json.optional "published_at" .str a.publishedAt ++
    [("assessed_at", .str a.assessedAt)] ++
    Json.optional "observed_age_days" (fun n : Nat => .num (.int n)) a.observedAgeDays ++
    [("checks", .arr (a.checks.map AssuranceCheck.toJson)),
     ("corroborations", .arr (a.corroborations.map CorroborationEvidence.toJson))] ++
    Json.optional "uncertainty" SourceUncertainty.toJson a.uncertainty ++
    [("disputes", .arr (a.disputes.map DisputeRecord.toJson)),
     ("limitations", .arr (a.limitations.map .str))])

/-- The serialization of a dossier does not fail. -/
def digest (rt : Runtime) (a : SourceAssurance) : String := rt.digestCompact a.toJson

end SourceAssurance

/-! ## Assessment -/

namespace Assurance

def currentSchemaVersion : String := "0.1.0"

def validDigest (value : String) : Bool := Text.isSha256 value

/-- One failure, unless a condition holds. -/
def failUnless (ok : Bool) (code subject detail : String) : List AssuranceFailure :=
  if ok then [] else [{ code := code, subject := subject, detail := detail }]

def identityFailures (a : SourceAssurance) : List AssuranceFailure :=
  failUnless (a.schemaVersion = currentSchemaVersion) "unsupported_assurance_schema"
    a.schemaVersion "source assurance schema version is not supported" ++
  failUnless (!Text.isBlank a.sourceId) "missing_source_id" "source"
    "required source identity evidence is missing or malformed" ++
  failUnless (validDigest a.snapshotDigest) "invalid_snapshot_digest" a.sourceId
    "required source identity evidence is missing or malformed" ++
  failUnless (!Text.isBlank a.publisher) "missing_publisher" a.sourceId
    "required source identity evidence is missing or malformed" ++
  failUnless (!Text.isBlank a.assessedAt) "missing_assessed_at" a.sourceId
    "required source identity evidence is missing or malformed" ++
  failUnless (!a.publishedAt.any Text.isBlank) "invalid_published_at" a.sourceId
    "published_at is present but empty"

variable (p : AssurancePolicy)

def authorityFailures (a : SourceAssurance) : List AssuranceFailure :=
  failUnless (p.acceptedAuthorityClasses.isEmpty ||
      p.acceptedAuthorityClasses.contains a.authorityClass) "authority_not_accepted" a.publisher
    "publisher authority class is not accepted for this use case"

def freshnessFailures (a : SourceAssurance) : List AssuranceFailure :=
  match p.maxAgeDays with
  | none => []
  | some maximum =>
    match a.publishedAt, a.observedAgeDays with
    | some _, some age =>
      failUnless (age ≤ maximum) "source_stale" a.sourceId
        ("observed age " ++ toString age ++ " days exceeds policy maximum " ++ toString maximum ++
          " days")
    | _, _ =>
      failUnless false "source_freshness_unknown" a.sourceId
        "policy requires freshness but publication date or observed age is unknown"

/-- The loop over the checks of a dossier, with the identifiers that were there before. -/
def checkFailures : List String → List AssuranceCheck → List AssuranceFailure
  | _, [] => []
  | seen, check :: rest =>
    failUnless (!(Text.isBlank check.checkId || decide (check.checkId ∈ seen)))
      "invalid_assurance_check" check.checkId "check identifier is empty or duplicated" ++
    failUnless (!(Text.isBlank check.verifierIdentity || !validDigest check.evidenceDigest))
      "check_evidence_not_replayable" check.checkId
      "check lacks verifier identity or a valid evidence digest" ++
    -- A blank identifier is not remembered, and it is never in the set.
    checkFailures (if Text.isBlank check.checkId then seen else check.checkId :: seen) rest

def requiredCheckFailures (a : SourceAssurance) (required : AssuranceCheckKind) :
    List AssuranceFailure :=
  match a.checks.find? fun check => check.kind = required with
  | none =>
    failUnless false "required_assurance_check_missing" required.debug
      "required source-assurance check is missing"
  | some check =>
    failUnless check.passed "required_assurance_check_failed" check.checkId
      "required source-assurance check failed"

def uncertaintyFailures (a : SourceAssurance) : List AssuranceFailure :=
  failUnless (!p.requireUncertainty ||
      a.uncertainty.any fun u => !Text.isBlank u.method && !Text.isBlank u.scope)
    "uncertainty_not_documented" a.sourceId "policy requires uncertainty method and scope"

def limitationFailures (a : SourceAssurance) : List AssuranceFailure :=
  failUnless (!p.requireLimitations || a.limitations.any fun limit => !Text.isBlank limit)
    "limitations_not_documented" a.sourceId "policy requires an explicit limitation or non-claim"

def disputeFailures (a : SourceAssurance) : List AssuranceFailure :=
  if p.allowUnresolvedDisputes then []
  else
    (a.disputes.filter fun dispute => dispute.status ≠ .resolved).map fun dispute =>
      { code := "unresolved_source_dispute", subject := dispute.disputeId
        detail := "an unresolved source challenge prevents assurance policy from passing" }

def policyFailures (a : SourceAssurance) : List AssuranceFailure :=
  authorityFailures p a ++ freshnessFailures p a ++ checkFailures [] a.checks ++
    p.requiredChecks.toList.flatMap (requiredCheckFailures a) ++ uncertaintyFailures p a ++
    limitationFailures p a ++ disputeFailures p a

/-- The agreeing independent comparisons, counted in 32 bits. -/
def independentCount (a : SourceAssurance) : Nat := (a.corroborations.filter fun item =>
    item.independence.isIndependent && item.agrees && validDigest item.snapshotDigest &&
      validDigest item.evidenceDigest && decide (item.sourceId ≠ a.sourceId)).length % 2 ^ 32

def report (level : AssuranceLevel) (passed : Bool) (digest : String)
    (failures : List AssuranceFailure) : AssuranceReport :=
  { level := level, passed := passed, assuranceDigest := some digest, failures := failures
    scopeStatement := "This assessment verifies declared evidence against a use-case policy; it does not prove universal truth." }

def assess (rt : Runtime) (p : AssurancePolicy) (a : SourceAssurance) : AssuranceReport :=
  let digest := a.digest rt
  if identityFailures a ≠ [] then report .unassessed false digest (identityFailures a)
  else if policyFailures p a ≠ [] then report .identified false digest (policyFailures p a)
  else if independentCount a < p.minimumIndependentCorroborations then
    report .checked false digest
      [{ code := "insufficient_independent_corroboration", subject := a.sourceId
         detail := toString (independentCount a) ++
           " independent agreeing sources; policy requires " ++
           toString p.minimumIndependentCorroborations }]
  else
    report (if 0 < p.minimumIndependentCorroborations then .corroborated else .checked) true digest
      []

end Assurance
end GeneGIS
