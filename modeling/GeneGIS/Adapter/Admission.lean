/-
An invocation is admitted when it matches the manifest of the adapter and the policy of the host;
every reason against it is reported.
-/
import GeneGIS.Contract

namespace GeneGIS

inductive BackendFamily where
  | gdal
  | duckDbSpatial
  | postgis
  | grass
  | qgisProcessing
  | ogcWebService
  | geocoding
  | liveFeed
  deriving DecidableEq

def BackendFamily.debug : BackendFamily → String
  | .gdal => "Gdal"
  | .duckDbSpatial => "DuckDbSpatial"
  | .postgis => "Postgis"
  | .grass => "Grass"
  | .qgisProcessing => "QgisProcessing"
  | .ogcWebService => "OgcWebService"
  | .geocoding => "Geocoding"
  | .liveFeed => "LiveFeed"

/-- The components are listed in the order of their names. -/
structure BackendIdentity where
  family : BackendFamily
  engineVersion : String
  buildDigest : String
  components : List (String × String)
  deriving DecidableEq

inductive Capability where
  | fileRead
  | fileWrite
  | networkRead
  | networkWrite
  | databaseRead
  | databaseWrite
  | processSpawn
  | nativeCode
  | gpu
  deriving DecidableEq

def Capability.debug : Capability → String
  | .fileRead => "FileRead"
  | .fileWrite => "FileWrite"
  | .networkRead => "NetworkRead"
  | .networkWrite => "NetworkWrite"
  | .databaseRead => "DatabaseRead"
  | .databaseWrite => "DatabaseWrite"
  | .processSpawn => "ProcessSpawn"
  | .nativeCode => "NativeCode"
  | .gpu => "Gpu"

inductive EvidenceHook where
  | inputDigests
  | outputDigests
  | parameters
  | queryPlanDigest
  | warnings
  | componentIdentity
  | environmentDigest
  | ioMetrics
  | transactionContext
  deriving DecidableEq

def EvidenceHook.debug : EvidenceHook → String
  | .inputDigests => "InputDigests"
  | .outputDigests => "OutputDigests"
  | .parameters => "Parameters"
  | .queryPlanDigest => "QueryPlanDigest"
  | .warnings => "Warnings"
  | .componentIdentity => "ComponentIdentity"
  | .environmentDigest => "EnvironmentDigest"
  | .ioMetrics => "IoMetrics"
  | .transactionContext => "TransactionContext"

inductive Determinism where
  | deterministic
  | seeded
  | toleranceBounded
  | unknown
  deriving DecidableEq

/-- The sets of an operation, an invocation and a policy are lists in the order of the set. -/
structure AdapterOperation where
  operationId : String
  operationVersion : String
  inputs : List GeoContract
  outputs : List GeoContract
  capabilities : List Capability
  determinism : Determinism
  evidenceHooks : List EvidenceHook
  isOpaque : Bool

structure AdapterManifest where
  schemaVersion : String
  adapterId : String
  adapterVersion : String
  backend : BackendIdentity
  license : String
  operations : List AdapterOperation

structure AdapterInvocation where
  adapterId : String
  adapterVersion : String
  operationId : String
  operationVersion : String
  backend : BackendIdentity
  requestedCapabilities : List Capability

structure CapabilityPolicy where
  acceptedAdapters : List String
  allowedCapabilities : List Capability
  requiredEvidenceHooks : List EvidenceHook
  rejectOpaque : Bool
  rejectUnknownDeterminism : Bool

structure AdmissionFailure where
  code : String
  subject : String

structure AdmissionReport where
  admitted : Bool
  verificationEligible : Bool
  failures : List AdmissionFailure

/-- A conservative policy for allowlisted read-only web-service access. -/
def CapabilityPolicy.readOnlyNetwork (adapterId : String) : CapabilityPolicy where
  acceptedAdapters := [adapterId]
  allowedCapabilities := [.networkRead]
  requiredEvidenceHooks :=
    [.inputDigests, .outputDigests, .parameters, .componentIdentity, .environmentDigest, .ioMetrics]
  rejectOpaque := true
  rejectUnknownDeterminism := true

namespace Admission

def manifestSchemaVersion : String := "0.1.0"

def failUnless (holds : Bool) (code subject : String) : List AdmissionFailure :=
  if holds then [] else [⟨code, subject⟩]

def contractFailures (c : GeoContract) : List AdmissionFailure :=
  match c.validate with
  | .ok () => []
  | .error _ => [⟨"invalid_operation_contract", c.id⟩]

/-- The loop over the operations, with the identifiers before. -/
def operationFailures : List String → List AdapterOperation → List AdmissionFailure
  | _, [] => []
  | ids, op :: rest =>
    failUnless (!(Text.isBlank op.operationId || Text.isBlank op.operationVersion ||
      ids.contains op.operationId)) "invalid_operation_identity" op.operationId ++
    failUnless (!(op.inputs.isEmpty || op.outputs.isEmpty)) "missing_operation_contract"
      op.operationId ++
    (op.inputs ++ op.outputs).flatMap contractFailures ++
    operationFailures (op.operationId :: ids) rest

def validateManifest (m : AdapterManifest) : List AdmissionFailure :=
  failUnless (m.schemaVersion == manifestSchemaVersion) "unsupported_manifest_schema" "manifest" ++
  failUnless (!Text.isBlank m.adapterId) "missing_adapter_id" "manifest" ++
  failUnless (!Text.isBlank m.adapterVersion) "missing_adapter_version" m.adapterId ++
  failUnless (!Text.isBlank m.backend.engineVersion) "missing_backend_version" m.adapterId ++
  failUnless (Text.isSha256 m.backend.buildDigest) "invalid_backend_digest" m.adapterId ++
  failUnless (!Text.isBlank m.license) "missing_license" m.adapterId ++
  failUnless (!m.operations.isEmpty) "missing_operations" m.adapterId ++
  operationFailures [] m.operations

def admissionReport (failures : List AdmissionFailure) (eligible : Bool) : AdmissionReport :=
  { admitted := failures.isEmpty, verificationEligible := failures.isEmpty && eligible
    failures := failures }

def admitInvocation (m : AdapterManifest) (i : AdapterInvocation) (p : CapabilityPolicy) :
    AdmissionReport :=
  let failures := validateManifest m ++
    failUnless (i.adapterId == m.adapterId && i.adapterVersion == m.adapterVersion)
      "adapter_identity_mismatch" i.adapterId ++
    failUnless (p.acceptedAdapters.contains m.adapterId) "adapter_not_accepted" m.adapterId ++
    failUnless (decide (i.backend = m.backend)) "backend_identity_mismatch" i.backend.family.debug
  match m.operations.find? fun op => op.operationId == i.operationId with
  | none => admissionReport (failures ++ [⟨"operation_not_declared", i.operationId⟩]) false
  | some op =>
    admissionReport
      (failures ++
        failUnless (op.operationVersion == i.operationVersion) "operation_version_mismatch"
          i.operationId ++
        failUnless (decide (i.requestedCapabilities = op.capabilities))
          "capability_declaration_mismatch" i.operationId ++
        (i.requestedCapabilities.flatMap fun c =>
          failUnless (decide (c ∈ p.allowedCapabilities)) "capability_denied" c.debug) ++
        (p.requiredEvidenceHooks.flatMap fun hook =>
          failUnless (decide (hook ∈ op.evidenceHooks)) "required_evidence_hook_missing"
            hook.debug) ++
        failUnless (!(p.rejectOpaque && op.isOpaque)) "opaque_operation_denied" op.operationId ++
        failUnless (!(p.rejectUnknownDeterminism && decide (op.determinism = .unknown)))
          "unknown_determinism_denied" op.operationId)
      (!op.isOpaque && decide (op.determinism ≠ .unknown))

end Admission
end GeneGIS
