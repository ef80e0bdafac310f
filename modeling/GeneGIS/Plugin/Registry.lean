/-
Plugin manifests.

Validation restricts identifier and version to a small alphabet, without the `@` that stands
between them in the key of a release (`validate_alphabet`).
-/
import GeneGIS.Data.Fallible
import GeneGIS.Runtime

namespace GeneGIS

open Fallible

inductive PluginCapability where
  | readCatalog
  | readStorage
  | analysisStep
  | renderHook
  | exportArtifact
  | publishStac
  deriving DecidableEq

def PluginCapability.asStr : PluginCapability → String
  | .readCatalog => "read_catalog"
  | .readStorage => "read_storage"
  | .analysisStep => "analysis_step"
  | .renderHook => "render_hook"
  | .exportArtifact => "export_artifact"
  | .publishStac => "publish_stac"

structure WasmModuleSpec where
  entry : String
  deriving DecidableEq

structure PluginManifest where
  id : String
  name : String
  version : String
  apiVersion : String
  description : String
  author : String
  capabilities : List PluginCapability
  artifactDigest : String
  wasm : Option WasmModuleSpec
  deriving DecidableEq

/-- The text of `invalidSemver` shows the value between quotes. -/
inductive PluginApiError where
  | invalidManifest (reason : String)
  | invalidSemver (field value : String)
  | unsupportedApiVersion (manifest host : String)

namespace PluginManifest

def pluginApiVersion : String := "1.0.0"

def wasmMembers : Option WasmModuleSpec → List (String × Json)
  | none => []
  | some wasm => [("wasm", .obj [("entry", .str wasm.entry)])]

def toJson (m : PluginManifest) : Json :=
  .obj ( [("id", .str m.id), ("name", .str m.name), ("version", .str m.version),
     ("api_version", .str m.apiVersion), ("description", .str m.description),
     ("author", .str m.author),
     ("capabilities", .arr (m.capabilities.map fun c => .str c.asStr)),
     ("artifact_digest", .str m.artifactDigest)] ++ wasmMembers m.wasm)

abbrev Check := Except PluginApiError Unit

def require (holds : Bool) (error : PluginApiError) : Check :=
  if holds then .ok () else .error error

/-- `char::is_ascii_digit`. -/
def isDigit (c : Char) : Bool := '0' ≤ c && c ≤ '9'

def isIdChar (c : Char) : Bool := ('a' ≤ c && c ≤ 'z') || isDigit c || c == '-'

def validateId (id : String) : Check := do
  require (!id.isEmpty) (.invalidManifest "id must not be empty")
  require (id.toList.all isIdChar)
    (.invalidManifest "id must use lowercase ASCII letters, digits, and hyphens")

def isNumeric (part : List Char) : Bool := !part.isEmpty && part.all isDigit

def validateSemver (value field : String) : Check := do
  let parts := value.toList.splitOn '.'
  require (parts.length = 3) (.invalidSemver field value)
  require (parts.all isNumeric) (.invalidSemver field value)

/-- `str::parse::<u64>`. -/
def parseU64 (text : List Char) : Option Nat :=
  let digits := if text.head? = some '+' then text.tail else text
  let value : Nat := digits.foldl (fun n c => 10 * n + (c.toNat - 48)) 0
  if isNumeric digits && decide (value < 2 ^ 64) then some value else none

def major (version : String) : Option Nat :=
  match version.toList.splitOn '.' with
  | [] => none
  | value :: _ => parseU64 value

def compatibleMajor (manifest host : String) : Bool :=
  match major manifest, major host with
  | some left, some right => decide (0 < left) && decide (left = right)
  | _, _ => false

def isApiCompatible (apiVersion : String) : Bool := compatibleMajor apiVersion pluginApiVersion

/-- Every component of the path is a normal one and the path has no root. Empty components and later
dots are dropped. -/
def isNormalized (entry : String) : Bool :=
  let components := entry.toList.splitOn '/'
  decide (entry.toList.head? ≠ some '/') && decide (components.head? ≠ some ['.']) &&
    !components.contains ['.', '.']

def validateWasm (wasm : WasmModuleSpec) : Check := do
  require (!Text.isBlank wasm.entry && isNormalized wasm.entry)
    (.invalidManifest "wasm.entry must be a normalized relative bundle path")
  require (".wasm".toList.isSuffixOf wasm.entry.toList)
    (.invalidManifest "wasm.entry must end with .wasm")

def validate (m : PluginManifest) : Check := do
  validateId m.id
  validateSemver m.version "version"
  validateSemver m.apiVersion "api_version"
  require (!m.capabilities.isEmpty && decide m.capabilities.Nodup)
    (.invalidManifest "capabilities must be non-empty and unique")
  require (Text.isSha256 m.artifactDigest) (.invalidManifest
      "artifact_digest must be sha256:<64 lowercase or uppercase hex characters>")
  require (isApiCompatible m.apiVersion) (.unsupportedApiVersion m.apiVersion pluginApiVersion)
  match m.wasm with
  | none => .ok ()
  | some wasm => validateWasm wasm

@[simp] theorem require_ok {holds : Bool} {error : PluginApiError} {u : Unit} :
    require holds error = .ok u ↔ holds = true :=
  except_guard_ok

theorem validateId_alphabet {id : String} {u : Unit} (h : validateId id = .ok u) :
    '@' ∉ id.toList := by
  obtain ⟨v, -, h⟩ := bind_iff.mp h
  intro hmem
  have hchar := List.all_eq_true.mp (require_ok.mp h) '@' hmem
  exact absurd hchar (by decide)

theorem validateSemver_alphabet {value field : String} {u : Unit}
    (h : validateSemver value field = .ok u) : '@' ∉ value.toList := by
  obtain ⟨v, -, h⟩ := bind_iff.mp h
  have hparts := List.all_eq_true.mp (require_ok.mp h)
  intro hmem
  rcases Text.mem_splitOn (s := '.') hmem with hsep | hpart
  · exact absurd hsep (by decide)
  · obtain ⟨part, hpart, hchar⟩ := hpart
    have hnumeric := hparts part hpart
    rw [isNumeric, Bool.and_eq_true] at hnumeric
    exact absurd (List.all_eq_true.mp hnumeric.2 '@' hchar) (by decide)

theorem validate_alphabet {m : PluginManifest} {u : Unit} (h : m.validate = .ok u) :
    '@' ∉ m.id.toList ∧ '@' ∉ m.version.toList := by
  obtain ⟨v, hid, h⟩ := bind_iff.mp h
  obtain ⟨w, hversion, -⟩ := bind_iff.mp h
  exact ⟨validateId_alphabet hid, validateSemver_alphabet hversion⟩

end PluginManifest
end GeneGIS

/-! ## The plugin registry

A registry holds signed releases under the key `id@version`.  The signature scheme is a parameter. -/

namespace GeneGIS

/-- The libraries behind a signature.  Keys and signatures are their bytes. -/
structure Ed25519 where
  /-- Base64 with padding. -/
  decode : String → Option (List UInt8)
  /-- Thirty-two bytes that are a point of the curve. -/
  isKey : List UInt8 → Bool
  /-- The bytes have the form of a signature. -/
  isSignature : List UInt8 → Bool
  /-- The signature of a text verifies under a key. -/
  verify : List UInt8 → List Char → List UInt8 → Bool
  /-- Lower-case hexadecimal SHA-256 of an artifact. -/
  sha256 : List UInt8 → String

structure PluginReleaseSignature where
  keyId : String
  algorithm : String
  signatureBase64 : String

structure PluginRegistryPolicy where
  schemaVersion : String
  trustedSigners : Std.ExtTreeMap String String

structure PluginRevocation where
  pluginId : String
  version : String
  reason : String
  revokedAt : String
  signature : PluginReleaseSignature
  revocationDigest : String

structure PluginRegistryEntry where
  manifest : PluginManifest
  manifestDigest : String
  signature : PluginReleaseSignature
  publishedAt : String
  revocation : Option PluginRevocation

structure PluginRegistry where
  schemaVersion : String
  policy : PluginRegistryPolicy
  entries : Std.ExtTreeMap String PluginRegistryEntry

inductive PluginHostError where
  | manifest (error : PluginApiError)
  | bundle (reason : String)
  | notFound (key : String)

def PluginReleaseSignature.toJson (s : PluginReleaseSignature) : Json :=
  .obj [("key_id", .str s.keyId), ("algorithm", .str s.algorithm),
    ("signature_base64", .str s.signatureBase64)]

def PluginRevocation.toJson (r : PluginRevocation) : Json :=
  .obj [("plugin_id", .str r.pluginId), ("version", .str r.version), ("reason", .str r.reason),
    ("revoked_at", .str r.revokedAt), ("signature", r.signature.toJson),
    ("revocation_digest", .str r.revocationDigest)]

namespace PluginRegistry

open Fallible

variable (rt : Runtime) (ed : Ed25519)

def require (holds : Bool) (reason : String) : Except PluginHostError Unit :=
  if holds then .ok () else .error (.bundle reason)

def expect {α : Type} (value : Option α) (reason : String) : Except PluginHostError α :=
  match value with
  | some a => .ok a
  | none => .error (.bundle reason)

def decodeKey (value : String) : Except PluginHostError (List UInt8) := do
  let bytes ← expect (ed.decode value) "invalid trusted signer base64"
  require (bytes.length = 32) "trusted signer must be 32 bytes"
  require (ed.isKey bytes) "invalid trusted signer key"
  return bytes

def verifySignedBytes (policy : PluginRegistryPolicy) (signature : PluginReleaseSignature)
    (payload : List Char) : Except PluginHostError Unit := do
  require (signature.algorithm = "ed25519") "unsupported plugin signature algorithm"
  let trusted ← expect policy.trustedSigners[signature.keyId]? "plugin signer is not trusted"
  let key ← decodeKey ed trusted
  let bytes ← expect (ed.decode signature.signatureBase64) "invalid plugin signature base64"
  require (ed.isSignature bytes) "invalid plugin signature bytes"
  require (ed.verify key payload bytes) "plugin signature did not verify"

def releaseKey (pluginId version : String) : String := pluginId ++ "@" ++ version

def canonical (document : Json) : List Char := document.compactChars rt.floatText

def revocationPayload (pluginId version reason revokedAt : String) : List Char :=
  canonical rt (.arr [.str pluginId, .str version, .str reason, .str revokedAt])

def revocationDigest (r : PluginRevocation) : String :=
  rt.digestCompact { r with revocationDigest := "" }.toJson

def parseTime (value : String) : Except PluginHostError Unit := do
  let _ ← expect (rt.parseRfc3339 value) "timestamp must be RFC 3339"

abbrev Registered := Fallible PluginHostError PluginRegistry

def new (policy : PluginRegistryPolicy) : Except PluginHostError PluginRegistry := do
  require (!(policy.schemaVersion != "1.0.0" || policy.trustedSigners.isEmpty ||
      policy.trustedSigners.toList.any fun signer =>
        Text.isBlank signer.1 || !(decodeKey ed signer.2).isOk))
    "plugin registry policy is invalid"
  return { schemaVersion := "1.0.0", policy := policy, entries := ∅ }

def publish (manifest : PluginManifest) (signature : PluginReleaseSignature)
    (publishedAt : String) : Registered PluginRegistryEntry := do
  lift (manifest.validate.mapError .manifest)
  lift (parseTime rt publishedAt)
  let s ← get
  lift (verifySignedBytes ed s.policy signature (canonical rt manifest.toJson))
  let key := releaseKey manifest.id manifest.version
  check (!s.entries.contains key) (.bundle "plugin release already exists and is immutable")
  let entry : PluginRegistryEntry :=
    { manifest := manifest, manifestDigest := rt.digestCompact manifest.toJson
      signature := signature, publishedAt := publishedAt, revocation := none }
  set { s with entries := s.entries.insert key entry }
  return entry

def revoke (revocation : PluginRevocation) : Registered Unit := do
  lift (parseTime rt revocation.revokedAt)
  check (!(Text.isBlank revocation.reason ||
      revocation.revocationDigest != revocationDigest rt revocation))
    (.bundle "plugin revocation is invalid")
  let s ← get
  lift (verifySignedBytes ed s.policy revocation.signature
    (revocationPayload rt revocation.pluginId revocation.version revocation.reason
      revocation.revokedAt))
  let key := releaseKey revocation.pluginId revocation.version
  match s.entries[key]? with
  | none => throw (.notFound key)
  | some entry =>
    check entry.revocation.isNone (.bundle "plugin release is already revoked")
    set { s with entries := s.entries.insert key { entry with revocation := some revocation } }

variable (s : PluginRegistry)

def resolve (pluginId version : String) : Except PluginHostError PluginRegistryEntry := do
  let key := releaseKey pluginId version
  match s.entries[key]? with
  | none => .error (.notFound key)
  | some entry =>
    require entry.revocation.isNone "plugin release has been revoked"
    require (rt.digestCompact entry.manifest.toJson = entry.manifestDigest)
      "plugin manifest digest mismatch"
    verifySignedBytes ed s.policy entry.signature (canonical rt entry.manifest.toJson)
    return entry

def verifyArtifact (pluginId version : String) (bytes : List UInt8) :
    Except PluginHostError Unit := do
  let entry ← resolve rt ed s pluginId version
  require ("sha256:" ++ ed.sha256 bytes = entry.manifest.artifactDigest)
    "plugin artifact digest mismatch"

inductive Op where
  | publish (manifest : PluginManifest) (signature : PluginReleaseSignature) (publishedAt : String)
  | revoke (revocation : PluginRevocation)

def perform : Op → Registered Unit
  | .publish manifest signature publishedAt => do
    let _ ← publish rt ed manifest signature publishedAt
  | .revoke revocation => revoke rt ed revocation

def Calls (op : Op) (s' : PluginRegistry) : Prop := after (perform rt ed op) s = s'

end PluginRegistry
end GeneGIS
