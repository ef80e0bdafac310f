/-
An approval names the digests of four documents, and the files that the manifest lists are not read
again.  So it binds them exactly when they still have their sizes and digests.
-/
import GeneGIS.Capsule.Diff
import GeneGIS.Contract.Sufficient

namespace GeneGIS

open List Bool Option Except

structure AnalysisApproval where
  schemaVersion : String
  reviewer : String
  approvedAt : String
  capsuleManifestDigest : String
  resultDigest : String
  workflowDigest : String
  policyDigest : String
  verificationGraphDigest : String
  semanticDiffDigest : Option String

structure ApprovalContext where
  capsuleManifestDigest : String
  resultDigest : String
  workflowDigest : String
  policyDigest : String
  verificationGraphDigest : String
  semanticDiffDigest : Option String

namespace Capsule

open Fallible

variable (lib : Offline) (readers : Readers) (root : Directory)

def approvalContext (diff : Option SemanticDiffReport) : Verifying ApprovalContext := do
  let manifestBytes ← readFile root manifestPath
  let manifest ← (readers.manifest manifestBytes).mapError .json
  let workflow ← readJson readers.workflow root workflowPath
  let policy ← readJson readers.policy root policyPath
  let graph ← readJson readers.graph root graphPath
  let workflowDigest ← (workflow.stableDigest lib.toRuntime).mapError .workflow
  let graphDigest ← (graph.stableDigest lib.toRuntime).mapError .graph
  return { capsuleManifestDigest := lib.digestBytes manifestBytes
           resultDigest := manifest.subjectResultDigest, workflowDigest := workflowDigest
           policyDigest := lib.digestCompact policy.toJson, verificationGraphDigest := graphDigest
           semanticDiffDigest := diff.map fun report => lib.digestCompact report.toJson }

def createApproval (reviewer approvedAt : String)
    (diff : Option SemanticDiffReport) : Verifying AnalysisApproval := do
  verifyUnless (Text.isBlank reviewer || Text.isBlank approvedAt)
    "approval reviewer and time are required"
  let context ← approvalContext lib readers root diff
  return { schemaVersion := "0.1.0", reviewer := reviewer, approvedAt := approvedAt
           capsuleManifestDigest := context.capsuleManifestDigest
           resultDigest := context.resultDigest, workflowDigest := context.workflowDigest
           policyDigest := context.policyDigest
           verificationGraphDigest := context.verificationGraphDigest
           semanticDiffDigest := context.semanticDiffDigest }

def verifyApproval (approval : AnalysisApproval)
    (diff : Option SemanticDiffReport) : Verifying Unit := do
  verifyUnless (approval.schemaVersion != "0.1.0") "unsupported approval schema version"
  let context ← approvalContext lib readers root diff
  verifyUnless (approval.capsuleManifestDigest != context.capsuleManifestDigest ||
      approval.resultDigest != context.resultDigest ||
      approval.workflowDigest != context.workflowDigest ||
      approval.policyDigest != context.policyDigest ||
      approval.verificationGraphDigest != context.verificationGraphDigest ||
      approval.semanticDiffDigest != context.semanticDiffDigest)
    "approval is stale for the capsule or semantic diff"

/-! ## What an approval binds -/

variable {lib readers} {root later : Directory} {diff : Option SemanticDiffReport}

theorem approvalContext_manifest {context : ApprovalContext}
    (h : approvalContext lib readers root diff = .ok context) :
    ∃ bytes, root.read manifestPath = .ok bytes ∧
      context.capsuleManifestDigest = lib.digestBytes bytes := by
  obtain ⟨bytes, hread, h⟩ := bind_iff.mp h
  obtain ⟨manifest, -, h⟩ := bind_iff.mp h
  obtain ⟨workflow, -, h⟩ := bind_iff.mp h
  obtain ⟨policy, -, h⟩ := bind_iff.mp h
  obtain ⟨graph, -, h⟩ := bind_iff.mp h
  obtain ⟨workflowDigest, -, h⟩ := bind_iff.mp h
  obtain ⟨graphDigest, -, h⟩ := bind_iff.mp h
  refine ⟨bytes, readFile_ok.mp hread, ?_⟩
  rw [← ok.inj h]

theorem createApproval_manifest {reviewer approvedAt : String} {approval : AnalysisApproval}
    (h : createApproval lib readers root reviewer approvedAt diff = .ok approval) :
    ∃ bytes, root.read manifestPath = .ok bytes ∧
      approval.capsuleManifestDigest = lib.digestBytes bytes := by
  obtain ⟨_, -, h⟩ := bind_iff.mp h
  obtain ⟨context, hcontext, h⟩ := bind_iff.mp h
  obtain ⟨bytes, hread, hdigest⟩ := approvalContext_manifest hcontext
  refine ⟨bytes, hread, ?_⟩
  rw [← ok.inj h]
  exact hdigest

theorem verifyApproval_manifest {approval : AnalysisApproval} {u : Unit}
    (h : verifyApproval lib readers root approval diff = .ok u) :
    ∃ bytes, root.read manifestPath = .ok bytes ∧
      approval.capsuleManifestDigest = lib.digestBytes bytes := by
  obtain ⟨_, -, h⟩ := bind_iff.mp h
  obtain ⟨context, hcontext, h⟩ := bind_iff.mp h
  obtain ⟨bytes, hread, hdigest⟩ := approvalContext_manifest hcontext
  rw [verifyUnless_ok] at h
  simp only [or_eq_false_iff, bne_eq_false_iff_eq] at h
  exact ⟨bytes, hread, h.1.1.1.1.1.trans hdigest⟩

/-- No file of one state has the digest of other bytes of the file in the other state. -/
def NoCollision (lib : Offline) (root later : Directory) : Prop :=
  ∀ path a b, root.read path = .ok a → later.read path = .ok b →
    lib.digestBytes a = lib.digestBytes b → a = b

/-- Every file that the manifest lists has the bytes that it had. -/
def Unchanged (readers : Readers) (root later : Directory) : Prop :=
  ∀ manifest, readJson readers.manifest root manifestPath = .ok manifest →
    ∀ entry ∈ manifest.entries, later.read entry.path = root.read entry.path

/-- Every file that the manifest lists has the size and the digest listed. -/
def FilesIntact (lib : Offline) (readers : Readers) (later : Directory) : Prop :=
  ∀ manifest, readJson readers.manifest later manifestPath = .ok manifest →
    ∀ entry ∈ manifest.entries, Intact lib later entry

theorem manifest_unchanged {reviewer approvedAt : String} {diff' : Option SemanticDiffReport}
    {approval : AnalysisApproval} {u : Unit}
    (hcreate : createApproval lib readers root reviewer approvedAt diff = .ok approval)
    (hlater : verifyApproval lib readers later approval diff' = .ok u)
    (hcollision : NoCollision lib root later) :
    later.read manifestPath = root.read manifestPath := by
  obtain ⟨a, hroot, ha⟩ := createApproval_manifest hcreate
  obtain ⟨b, hread, hb⟩ := verifyApproval_manifest hlater
  have hsame := hcollision manifestPath a b hroot hread (ha.symm.trans hb)
  rw [hread, hroot, hsame]

theorem approval_binds_iff (lib : Offline) (readers : Readers) (root later : Directory)
    (expectedPolicy : Option VerificationPolicy) (v : CapsuleVerification)
    (hverified : verifyNagoyaCapsule lib readers root expectedPolicy = .ok v)
    (reviewer approvedAt : String) (diff diff' : Option SemanticDiffReport)
    (approval : AnalysisApproval)
    (hcreate : createApproval lib readers root reviewer approvedAt diff = .ok approval)
    (hlater : verifyApproval lib readers later approval diff' = .ok ())
    (hcollision : NoCollision lib root later) :
    Unchanged readers root later ↔ FilesIntact lib readers later := by
  obtain ⟨manifest, hmanifest, hlisted, -⟩ := accepted_manifest hverified
  have hread := manifest_unchanged hcreate hlater hcollision
  have hsame : readJson readers.manifest later manifestPath = .ok manifest := by
    rw [readJson, readFile, hread]
    exact hmanifest
  constructor
  · intro hunchanged manifest' hmanifest' entry hentry
    rw [hsame, Except.ok.injEq] at hmanifest'
    rw [← hmanifest'] at hentry
    obtain ⟨bytes, hbytes, hintact⟩ := (hlisted entry hentry).intact
    rw [← hunchanged manifest hmanifest entry hentry] at hbytes
    exact ⟨bytes, hbytes, hintact⟩
  · intro hintact manifest' hmanifest' entry hentry
    rw [hmanifest, Except.ok.injEq] at hmanifest'
    rw [← hmanifest'] at hentry
    obtain ⟨a, ha, -, hdigest⟩ := (hlisted entry hentry).intact
    obtain ⟨b, hb, -, hdigest'⟩ := hintact manifest hsame entry hentry
    have hbytes := hcollision entry.path a b ha hb (hdigest.trans hdigest'.symm)
    rw [ha, hb, hbytes]

namespace Sample

/-! The documents of one capsule, each with the text that it is read from. -/

def rt : Runtime := Runtime.reference

def png : Bytes := [0x89, 0x50, 0x4e, 0x47, 0x0d, 0x0a, 0x1a, 0x0a]

def html : String := "<p>Nagoya</p>"

def library : Offline :=
  { rt with
    sha256Bytes := fun bytes => Sha256.hexBytes (bytes.map UInt8.toNat)
    encodeBase64 := Base64.encode
    decodeBase64 := Base64.decode
    nineDecimals := fun x => x }

def write (v : Value) : Bytes := Bytes.ofText (String.ofList (rt.canonicalJson v))

def source : SourceMetadata := SourceMetadata.new "fixture://wards"

def workflow : GeoWorkflow :=
  { id := Uuid.ofNat 7, goal := "Population density", assumptions := ["Census of 2020"]
    inputs := [], inputContracts := []
    steps :=
      [{ id := Uuid.ofNat 1, stableId := "density", operation := "CalculateDensity"
         parameters := .null, expectedSchema := none, validation := none, provenance := none
         dependsOn := [], inputs := [], outputs := [.output "density" "result"]
         outputContracts := [] }]
    outputs := [], outputRefs := [], citations := [], reviewStatus := .approved }

def workflowDigest : String := workflow.stableDigestUnchecked rt

def command : CommandEnvelope :=
  { id := Uuid.ofNat 8, origin := .cli, timestamp := ⟨0⟩, workflowDigest := some ⟨workflowDigest⟩
    sourceSnapshots := [], inputSnapshots := [], command := .runWorkflow workflow.id }

def analysis : AnalysisResult :=
  { workflow := workflow, features := []
    style := .object [("field", .str "density"), ("unit", .str "people_per_km2"),
      ("breaks", .ofList id []), ("colors", .ofList id []), ("legend", .ofList id [])]
    verification := .object [("crs", .str "EPSG:6668"), ("coordinate_unit", .str "degrees"),
      ("area_unit", .str "km2"), ("area_method", .str "geodesic"),
      ("density_unit", .str "people_per_km2"), ("source", source.toJson),
      ("checks", .ofList id [])]
    citations := [.object [("title", .str "Wards"), ("url", .str "https://example.org/wards"),
      ("license", .str "CC BY 4.0")]] }

def analysisDocument : Value :=
  .object [("workflow", analysis.workflow.toJson), ("features", .ofList id analysis.features),
    ("style", analysis.style), ("verification", analysis.verification),
    ("citations", .ofList id analysis.citations)]

def graph : VerificationGraph := VerificationGraph.Sample.graph

def policy : VerificationPolicy := VerificationPolicy.new "nagoya-release-v1"

def evidence : Value := .object [("density", .object [("status", .str "completed")])]

def output (passed : Bool) : NagoyaExecutionOutput :=
  { analysis := analysis, verificationPassed := passed, html := html
    pngBase64 := library.encodeBase64 png
    artifactDigests := artifactsOf library (Bytes.ofText html) png }

/-- No source is admitted, so the result is not verified. -/
def resultDigest : String := canonicalNagoyaExecutionDigest library (output false) evidence

def engine : EngineIdentity := { name := "genegis-analysis", version := "0.1.0", build := "0.1.0" }

def replay : ReplayEvidence :=
  { workflowDigest := some workflowDigest, resultDigest := some resultDigest
    backendIdentity := some (engineText engine)
    artifactDigests := [library.digestBytes (Bytes.ofText html), library.digestBytes png] }

def trustEvidence : TrustEvidence :=
  { replay := replay, contracts := [], sources := [], checks := [], attestation := none }

def graphDigest : String := rt.digestJson graph.document

def receipt : ExecutionReceipt :=
  { commandId := command.id, workflowId := workflow.id, workflowDigest := ⟨workflowDigest⟩
    verificationPassed := false, verificationPolicy := some policy
    verificationGraph := some graph, verificationGraphDigest := some graphDigest
    trustAssessment := some (policy.assess rt trustEvidence)
    trustEvidence := some trustEvidence, evidence := evidence, engine := engine
    resultDigest := resultDigest }

def gateText : TrustGate → String
  | .replay => "replay"
  | .verification => "verification"
  | .attestation => "attestation"

def assessmentDocument (trust : TrustAssessment) : Value :=
  .object [("level", .str (levelText trust.level)), ("policy_id", .str trust.policyId),
    ("failures", .ofList (fun f : TrustFailure => .object [("gate", .str (gateText f.gate)),
      ("code", .str f.code), ("subject", .str f.subject), ("detail", .str f.detail)])
      trust.failures)]

def policyDocument : Value :=
  .object [("schema_version", .str policy.schemaVersion), ("policy_id", .str policy.policyId),
    ("geo_contract_schema_version", .str policy.geoContractSchemaVersion),
    ("required_contracts", .ofList id []), ("required_checks", .ofList id []),
    ("require_verified_sources", .bool true), ("require_source_version", .bool true),
    ("require_license", .bool true), ("minimum_artifact_count", .ofNat 1),
    ("accepted_attesters", .ofList id [])]

def receiptDocument : Value :=
  .object [("command_id", .str command.id.toText), ("command_timestamp", rt.dateTime ⟨0⟩),
    ("workflow_id", .str workflow.id.toText), ("workflow_digest", .str workflowDigest),
    ("source_snapshots", .ofList id []), ("input_snapshots", .ofList id []),
    ("crs", .str "EPSG:6668"), ("coordinate_unit", .str "degrees"),
    ("value_unit", .str "people_per_km2"), ("area_method", .str "geodesic"),
    ("verifier", .str "recount"), ("verification_passed", .bool false),
    ("checks", .ofList id []), ("verification_policy", policyDocument),
    ("verification_graph", graph.document), ("verification_graph_digest", .str graphDigest),
    ("trust_assessment", assessmentDocument (policy.assess rt trustEvidence)),
    ("trust_evidence", .object [("replay", .object [("workflow_digest", .str workflowDigest),
        ("result_digest", .str resultDigest), ("backend_identity", .str (engineText engine)),
        ("artifact_digests", .ofList .str replay.artifactDigests)]),
      ("contracts", .ofList id []), ("sources", .ofList id []), ("checks", .ofList id [])]),
    ("evidence", evidence), ("retrieval_events", .ofList id []),
    ("engine", .object [("name", .str engine.name), ("version", .str engine.version),
      ("build", .str engine.build)]),
    ("state_digest", .str (rt.digestJson .null)), ("result_digest", .str resultDigest)]

def identities : DigestIdentities :=
  { resultDigest := resultDigest, workflowDigest := workflowDigest
    policyDigest := library.digestCompact policy.toJson, verificationGraphDigest := graphDigest
    mapHtmlDigest := library.digestBytes (Bytes.ofText html)
    mapPngDigest := library.digestBytes png }

def report : Bytes := Bytes.ofText (trustReportHtml (policy.assess rt trustEvidence) identities)

/-- A file that the profile does not ask for. -/
structure Note where
  role : String
  mediaType : String
  bytes : Bytes

def notePath : String := "notes.txt"

def wardDocument (id : String) : Value := .object [("id", .str id)]

def wards : Note :=
  { role := "note", mediaType := "text/plain", bytes := Bytes.ofText "Wards of 2025." }

def wardsAppendix : Note := { wards with role := "appendix", mediaType := "text/markdown" }

def oldWards : Note :=
  { role := "appendix", mediaType := "text/plain", bytes := Bytes.ofText "Wards of 2020." }

def wardNote (id : String) : Note :=
  { role := "note", mediaType := "application/json", bytes := write (wardDocument id) }

def notes : List Note := [wards, wardsAppendix, oldWards, wardNote "chikusa", wardNote "higashi"]

/-- The path, the role, the media type and the bytes of every file. -/
def files (note : Note) : List (String × String × String × Bytes) := [
  (htmlPath, "map-artifact", "text/html; charset=utf-8", Bytes.ofText html),
  (pngPath, "map-artifact", "image/png", png),
  (analysisPath, "analysis-result", "application/json", write analysisDocument),
  (commandPath, "command", "application/json", write (command.toJson rt)),
  (receiptPath, "execution-receipt", "application/json", write receiptDocument),
  (graphPath, "verification-graph", "application/json", write graph.document),
  (policyPath, "verification-policy", "application/json", write policyDocument),
  (workflowPath, "workflow", "application/json", write workflow.toJson),
  (trustReportPath, "trust-report", "text/html; charset=utf-8", report),
  (notePath, note.role, note.mediaType, note.bytes)]

def entryOf (f : String × String × String × Bytes) : CapsuleEntry :=
  { path := f.1, role := f.2.1, mediaType := f.2.2.1, sha256 := library.digestBytes f.2.2.2
    bytes := f.2.2.2.length }

def manifest (note : Note) : CapsuleManifest :=
  { schemaVersion := schemaVersion
    profile := "https://genegis.org/profiles/proof-carrying-spatial-analysis/0.1"
    subjectResultDigest := resultDigest, entries := (files note).map entryOf }

def manifestDocument (manifest : CapsuleManifest) : Value :=
  .object [("schema_version", .str manifest.schemaVersion), ("profile", .str manifest.profile),
    ("subject_result_digest", .str manifest.subjectResultDigest),
    ("entries", .ofList CapsuleEntry.toJson manifest.entries)]

def manifestText (manifest : CapsuleManifest) : Bytes := write (manifestDocument manifest)

variable {α : Type}

def reading (text : Bytes) (a : α) (bytes : Bytes) : Except String α :=
  if bytes = text then .ok a else .error "expected value at line 1 column 1"

def parse (text : α → Bytes) (all : List α) (bytes : Bytes) : Except String α :=
  match all.find? fun a => text a == bytes with
  | some a => .ok a
  | none => .error "expected value at line 1 column 1"

def documents : List Value :=
  [analysisDocument, command.toJson rt, receiptDocument, graph.document, policyDocument,
    workflow.toJson, wardDocument "chikusa", wardDocument "higashi"]

def manifests : List CapsuleManifest := notes.map manifest

def serde : Readers :=
  { manifest := parse manifestText manifests
    evidence := fun _ => .error "expected value at line 1 column 1"
    receipt := reading (write receiptDocument) receipt
    command := reading (write (command.toJson rt)) command
    policy := reading (write policyDocument) policy
    graph := reading (write graph.document) graph
    assurance := fun _ => .error "expected value at line 1 column 1"
    analysis := reading (write analysisDocument) analysis
    workflow := reading (write workflow.toJson) workflow
    value := parse write documents }

def readFrom (files : List (String × Bytes)) (path : String) : Except String Bytes :=
  match files.lookup path with
  | some bytes => .ok bytes
  | none => .error "No such file or directory (os error 2)"

def directoryOf (files : List (String × Bytes)) : Directory where
  fileType path := (readFrom files path).map fun _ => .file
  read := readFrom files

def contents (note : Note) : List (String × Bytes) :=
  (manifestPath, manifestText (manifest note)) :: (files note).map fun f => (f.1, f.2.2.2)

def capsule (note : Note) : Directory := directoryOf (contents note)

/-! Each file is read back. -/

variable {note : Note}

theorem lookup_manifest : (contents note).lookup manifestPath =
    some (manifestText (manifest note)) := by
  simp [contents]

theorem lookup_file : ∀ f ∈ files note, (contents note).lookup f.1 = some f.2.2.2 := by
  simp [contents, files, lookup_cons, manifestPath, htmlPath, pngPath, analysisPath,
    commandPath, receiptPath, graphPath, policyPath, workflowPath, trustReportPath, notePath]

theorem read_of_lookup {path : String} {bytes : Bytes}
    (h : (contents note).lookup path = some bytes) :
    (capsule note).read path = .ok bytes := by
  show readFrom (contents note) path = _
  rw [readFrom, h]

theorem read_file {path role mediaType : String} {bytes : Bytes}
    (h : (path, role, mediaType, bytes) ∈ files note) :
    (capsule note).read path = .ok bytes := read_of_lookup (lookup_file _ h)

theorem reading_self (text : Bytes) (a : α) : reading text a text = .ok a := if_pos rfl

theorem html_mem : (htmlPath, "map-artifact", "text/html; charset=utf-8", Bytes.ofText html) ∈
    files note := .head _

theorem png_mem : (pngPath, "map-artifact", "image/png", png) ∈ files note := .tail _ (.head _)

theorem analysis_mem : (analysisPath, "analysis-result", "application/json",
    write analysisDocument) ∈ files note := .tail _ (.tail _ (.head _))

theorem command_mem : (commandPath, "command", "application/json", write (command.toJson rt)) ∈
    files note := .tail _ (.tail _ (.tail _ (.head _)))

theorem receipt_mem : (receiptPath, "execution-receipt", "application/json",
    write receiptDocument) ∈ files note := .tail _ (.tail _ (.tail _ (.tail _ (.head _))))

theorem graph_mem : (graphPath, "verification-graph", "application/json",
    write graph.document) ∈ files note :=
  .tail _ (.tail _ (.tail _ (.tail _ (.tail _ (.head _)))))

theorem policy_mem : (policyPath, "verification-policy", "application/json",
    write policyDocument) ∈ files note :=
  .tail _ (.tail _ (.tail _ (.tail _ (.tail _ (.tail _ (.head _))))))

theorem workflow_mem : (workflowPath, "workflow", "application/json", write workflow.toJson) ∈
    files note :=
  .tail _ (.tail _ (.tail _ (.tail _ (.tail _ (.tail _ (.tail _ (.head _)))))))

theorem report_mem : (trustReportPath, "trust-report", "text/html; charset=utf-8", report) ∈
    files note :=
  .tail _ (.tail _ (.tail _ (.tail _ (.tail _ (.tail _ (.tail _ (.tail _ (.head _))))))))

theorem note_mem : (notePath, note.role, note.mediaType, note.bytes) ∈ files note :=
  .tail _ (.tail _ (.tail _ (.tail _ (.tail _ (.tail _ (.tail _ (.tail _ (.tail _ (.head _)))))))))

theorem readJson_reading {root : Directory} {path : String} {text : Bytes} (a : α)
    (h : root.read path = .ok text) : Capsule.readJson (reading text a) root path = .ok a :=
  readJson_ok.mpr ⟨text, h, reading_self text a⟩

theorem readJson_file {path role mediaType : String} {text : Bytes} (a : α)
    (h : (path, role, mediaType, text) ∈ files note) :
    Capsule.readJson (reading text a) (capsule note) path = .ok a :=
  readJson_reading a (read_file h)

theorem write_inj {v w : Value} (h : write v = write w) : v = w := by
  have htext := congrArg Bytes.toText? h
  rw [write, write, Bytes.toText?_ofText, Bytes.toText?_ofText, Option.some.injEq] at htext
  exact Value.canonicalJson_inj Runtime.floatText_reference (String.ofList_injective htext)

theorem str_inj {a b : String} (h : (Value.str a).json = (Value.str b).json) : a = b :=
  Json.str.inj h

theorem ofNat_inj {m n : Nat} (h : (Value.ofNat m).json = (Value.ofNat n).json) : m = n :=
  Int.ofNat.inj (Number.int.inj (Json.num.inj h))

theorem toJson_inj {a b : CapsuleEntry} (h : a.toJson.json = b.toJson.json) : a = b := by
  have hmember : ∀ key, a.toJson.json.get? key = b.toJson.json.get? key := fun key => by rw [h]
  simp only [CapsuleEntry.toJson] at hmember
  have hread : ∀ c : CapsuleEntry, ([("path", Value.str c.path), ("role", .str c.role),
      ("media_type", .str c.mediaType), ("sha256", .str c.sha256),
      ("bytes", .ofNat c.bytes)].map Prod.fst).Nodup := fun c => by
    simp
  have hpath := hmember "path"
  have hrole := hmember "role"
  have htype := hmember "media_type"
  have hsha := hmember "sha256"
  have hbytes := hmember "bytes"
  rw [Value.get?_object (hread a), Value.get?_object (hread b)] at hpath hrole htype hsha hbytes
  cases a
  cases b
  rw [CapsuleEntry.mk.injEq]
  exact ⟨str_inj (some.inj hpath), str_inj (some.inj hrole),
    str_inj (some.inj htype), str_inj (some.inj hsha),
    ofNat_inj (some.inj hbytes)⟩

theorem manifestText_inj {a b : CapsuleManifest} (h : manifestText a = manifestText b) : a = b := by
  have hdocument : manifestDocument a = manifestDocument b := write_inj h
  have hmember : ∀ key, (manifestDocument a).json.get? key = (manifestDocument b).json.get? key :=
    fun key => by rw [hdocument]
  simp only [manifestDocument] at hmember
  have hread : ∀ m : CapsuleManifest, ([("schema_version", Value.str m.schemaVersion),
      ("profile", .str m.profile), ("subject_result_digest", .str m.subjectResultDigest),
      ("entries", .ofList CapsuleEntry.toJson m.entries)].map Prod.fst).Nodup := fun m => by
    simp
  have hversion := hmember "schema_version"
  have hprofile := hmember "profile"
  have hresult := hmember "subject_result_digest"
  have hentries := hmember "entries"
  rw [Value.get?_object (hread a), Value.get?_object (hread b)] at hversion hprofile hresult hentries
  have hlist : (Value.ofList CapsuleEntry.toJson a.entries).json =
      (Value.ofList CapsuleEntry.toJson b.entries).json := some.inj hentries
  have hsame : a.entries = b.entries :=
    map_injective_iff.mpr (fun _ _ => toJson_inj) (Json.arr.inj hlist)
  cases a
  cases b
  rw [CapsuleManifest.mk.injEq]
  exact ⟨str_inj (some.inj hversion), str_inj (some.inj hprofile),
    str_inj (some.inj hresult), hsame⟩

theorem parse_of_mem {text : α → Bytes} {all : List α} {a : α}
    (hdistinct : ∀ {b}, text b = text a → b = a) (h : a ∈ all) :
    parse text all (text a) = .ok a := by
  rw [parse]
  cases hfind : all.find? fun b => text b == text a with
  | none => exact absurd (beq_self_eq_true _) (find?_eq_none.mp hfind a h)
  | some b =>
    have htext : text b = text a := eq_of_beq (find?_some hfind :)
    exact congrArg Except.ok (hdistinct htext)

theorem serde_manifest : serde.manifest = parse manifestText manifests := by
  rw [serde]

theorem parse_manifest (h : note ∈ notes) :
    serde.manifest (manifestText (manifest note)) = .ok (manifest note) := by
  rw [serde_manifest]
  exact parse_of_mem manifestText_inj (mem_map_of_mem h)

theorem readJson_manifest (h : note ∈ notes) :
    Capsule.readJson serde.manifest (capsule note) manifestPath = .ok (manifest note) :=
  readJson_ok.mpr ⟨_, read_of_lookup lookup_manifest, parse_manifest h⟩

theorem paths_distinct : ((manifest note).entries.map CapsuleEntry.path).Nodup := by
  simp [manifest, files, entryOf, htmlPath, pngPath, analysisPath, commandPath, receiptPath,
    graphPath, policyPath, workflowPath, trustReportPath, notePath]

theorem listed_file : ∀ entry ∈ (manifest note).entries, Listed library (capsule note) entry := by
  have hsafe : ∀ f ∈ files note, f.1.isEmpty = false ∧
      PluginManifest.isNormalized f.1 = true := by
    simp [files, htmlPath, pngPath, analysisPath, commandPath, receiptPath, graphPath, policyPath,
      workflowPath, trustReportPath, notePath]
    decide
  intro entry hentry
  obtain ⟨f, hf, rfl⟩ := mem_map.mp hentry
  refine ⟨hsafe f hf, ?_, ⟨_, read_of_lookup (lookup_file f hf), rfl, rfl⟩⟩
  show (readFrom (contents note) f.1).map _ = _
  rw [readFrom, lookup_file f hf]
  rfl

theorem note_role : note ∈ notes → note.role ≠ "source-assurance" ∧
    operationalKindForRole note.role = none := by
  revert note
  simp only [notes, forall_mem_cons]
  decide

theorem workflow_valid : workflow.validate rt = .ok () := by
  decide

theorem stableDigest_workflow : workflow.stableDigest rt = .ok workflowDigest :=
  then_ok workflow_valid rfl

theorem graph_valid : graph.validateAgainstPolicy policy = .ok () := by
  decide

theorem stableDigest_graph : graph.stableDigest rt = .ok graphDigest := by
  have hvalid : graph.validate = .ok () := by
    decide
  exact then_ok hvalid rfl

theorem assess_level : decide (.verified ≤ (policy.assess rt trustEvidence).level) = false := by
  have hsources : VerificationPolicy.verificationFailures rt policy trustEvidence ≠ [] :=
    cons_ne_nil _ _
  rw [VerificationPolicy.assess]
  by_cases hreplay : VerificationPolicy.validatePolicy policy ++
      VerificationPolicy.replayFailures policy trustEvidence.replay ≠ []
  · rw [if_pos hreplay]
    rfl
  · rw [if_neg hreplay, if_pos hsources]
    rfl

theorem checkTrust_capsule (h : note.role ≠ "source-assurance") :
    checkTrust library serde (capsule note) (manifest note) receipt policy graph =
      .ok (graphDigest, trustEvidence, policy.assess rt trustEvidence) := by
  have hassurance : ((manifest note).entries.filter fun entry =>
      entry.role == "source-assurance") = [] := by
    simp [manifest, files, entryOf, h]
  refine verify_then ?_ ?_
  · exact or_eq_false_iff.mpr ⟨bne_self_eq_false _, bne_self_eq_false _⟩
  refine bind_iff.mpr ⟨(), mapError_iff.mpr graph_valid, ?_⟩
  refine bind_iff.mpr ⟨graphDigest, mapError_iff.mpr stableDigest_graph, ?_⟩
  refine verify_then (bne_self_eq_false _) ?_
  dsimp only [receipt]
  rw [hassurance]
  refine then_ok rfl ?_
  refine then_ok rfl ?_
  refine verify_then ?_ rfl
  refine or_eq_false_iff.mpr ⟨bne_self_eq_false _, ?_⟩
  rw [show library.toRuntime = rt from rfl, assess_level]
  rfl

theorem checkWorkflow_capsule :
    checkWorkflow library receipt command analysis workflow = .ok workflowDigest := by
  refine verify_then (bne_self_eq_false _) ?_
  refine bind_iff.mpr ⟨_, mapError_iff.mpr stableDigest_workflow, ?_⟩
  refine verify_then ?_ ?_
  · simp only [or_eq_false_iff]
    exact ⟨⟨⟨bne_self_eq_false _, bne_self_eq_false _⟩, bne_self_eq_false _⟩, bne_self_eq_false _⟩
  refine bind_iff.mpr ⟨_, mapError_iff.mpr stableDigest_workflow, ?_⟩
  refine verify_then ?_ rfl
  exact or_eq_false_iff.mpr ⟨bne_self_eq_false _, bne_self_eq_false _⟩

theorem checkResult_capsule : checkResult library (manifest note) receipt trustEvidence analysis
    (Bytes.ofText html) png = .ok resultDigest := by
  rw [checkResult, Bytes.toText?_ofText]
  refine verify_then ?_ ?_
  · exact or_eq_false_iff.mpr ⟨bne_self_eq_false _, bne_self_eq_false _⟩
  exact verify_then (bne_self_eq_false _) rfl

def verification (note : Note) : CapsuleVerification :=
  { schemaVersion := schemaVersion, resultDigest := resultDigest
    verificationGraphDigest := graphDigest, trust := policy.assess rt trustEvidence
    verifiedEntries := (manifest note).entries.length
    operationalEvidence := (kindsOf []).toList }

theorem accepted (h : note ∈ notes) :
    verifyNagoyaCapsule library serde (capsule note) none = .ok (verification note) := by
  obtain ⟨hassurance, hkind⟩ := note_role h
  have hroles : ∀ f ∈ files note, operationalKindForRole f.2.1 = none := by
    simp only [files, forall_mem_cons]
    exact ⟨rfl, rfl, rfl, rfl, rfl, rfl, rfl, rfl, rfl, hkind, by simp⟩
  have hevidence : readEvidence library serde (capsule note) (manifest note).entries =
      .ok [] := by
    apply readEvidence_none
    intro entry hentry
    obtain ⟨f, hf, rfl⟩ := mem_map.mp hentry
    exact hroles f hf
  have hsha : Text.isSha256 resultDigest = true := Sha256.isSha256_hexBytes _
  refine bind_iff.mpr ⟨_, readJson_manifest h, ?_⟩
  refine bind_iff.mpr ⟨(), rfl, ?_⟩
  refine verify_then ?_ ?_
  · show (!Text.isSha256 resultDigest) = false
    rw [hsha]
    rfl
  refine bind_iff.mpr ⟨(), checkEntries_ok.mpr ⟨?_, paths_distinct⟩, ?_⟩
  · exact fun entry hentry => ⟨listed_file entry hentry, not_mem_nil⟩
  refine bind_iff.mpr ⟨(), rfl, ?_⟩
  refine then_ok hevidence ?_
  refine then_ok rfl ?_
  refine then_ok (readJson_file receipt receipt_mem) ?_
  refine then_ok (readJson_file command command_mem) ?_
  refine then_ok (readJson_file policy policy_mem) ?_
  refine then_ok (readJson_file graph graph_mem) ?_
  refine then_ok rfl ?_
  refine then_ok (checkTrust_capsule hassurance) ?_
  refine then_ok (readJson_file analysis analysis_mem) ?_
  refine then_ok (readJson_file workflow workflow_mem) ?_
  refine then_ok checkWorkflow_capsule ?_
  refine then_ok (readFile_ok.mpr (read_file html_mem)) ?_
  refine then_ok (readFile_ok.mpr (read_file png_mem)) ?_
  refine bind_iff.mpr ⟨_, readFile_ok.mpr (read_file report_mem), ?_⟩
  refine verify_then (bne_self_eq_false _) ?_
  refine verify_then ?_ ?_
  · simp only [or_eq_false_iff]
    exact ⟨⟨bne_self_eq_false _, bne_self_eq_false _⟩, bne_self_eq_false _⟩
  exact then_ok checkResult_capsule rfl

/-! The map is edited after the approval, and the manifest is left alone. -/

def context (note : Note) : ApprovalContext :=
  { capsuleManifestDigest := library.digestBytes (manifestText (manifest note))
    resultDigest := resultDigest, workflowDigest := workflowDigest
    policyDigest := library.digestCompact policy.toJson, verificationGraphDigest := graphDigest
    semanticDiffDigest := none }

def approval (note : Note) : AnalysisApproval :=
  { schemaVersion := "0.1.0", reviewer := "reviewer@example.org"
    approvedAt := "2026-08-23T12:00:00+09:00"
    capsuleManifestDigest := (context note).capsuleManifestDigest
    resultDigest := (context note).resultDigest
    workflowDigest := (context note).workflowDigest
    policyDigest := (context note).policyDigest
    verificationGraphDigest := (context note).verificationGraphDigest
    semanticDiffDigest := none }

def edited : Directory := directoryOf ((pngPath, png ++ [0]) :: contents wards)

theorem read_edited {path : String} (h : path ≠ pngPath) :
    edited.read path = (capsule wards).read path := by
  have hbeq : (path == pngPath) = false := beq_eq_false_iff_ne.mpr h
  show readFrom _ path = readFrom _ path
  rw [readFrom, readFrom, lookup_cons, hbeq]

theorem approvalContext_capsule (root : Directory) (h : note ∈ notes)
    (hread : ∀ path, path ≠ pngPath → root.read path = (capsule note).read path) :
    approvalContext library serde root none = .ok (context note) := by
  have hfile : ∀ {role mediaType : String} {text : Bytes} {path : String}, path ≠ pngPath →
      (path, role, mediaType, text) ∈ files note → root.read path = .ok text := by
    intro role mediaType text path hpath hmem
    rw [hread path hpath]
    exact read_file hmem
  have hbytes : root.read manifestPath = .ok (manifestText (manifest note)) := by
    rw [hread manifestPath (by decide)]
    exact read_of_lookup lookup_manifest
  refine then_ok (readFile_ok.mpr hbytes) ?_
  refine then_ok (mapError_iff.mpr (parse_manifest h)) ?_
  refine then_ok (readJson_reading workflow (hfile (by decide) workflow_mem)) ?_
  refine then_ok (readJson_reading policy (hfile (by decide) policy_mem)) ?_
  refine then_ok (readJson_reading graph (hfile (by decide) graph_mem)) ?_
  refine bind_iff.mpr ⟨_, mapError_iff.mpr stableDigest_workflow, ?_⟩
  exact bind_iff.mpr ⟨_, mapError_iff.mpr stableDigest_graph, rfl⟩

theorem createApproval_capsule (h : note ∈ notes) :
    createApproval library serde (capsule note) "reviewer@example.org"
      "2026-08-23T12:00:00+09:00" none = .ok (approval note) := by
  refine verify_then (by decide) ?_
  exact bind_iff.mpr ⟨_, approvalContext_capsule _ h (fun _ _ => rfl), rfl⟩

theorem verifyApproval_capsule (root : Directory) (h : note ∈ notes)
    (hread : ∀ path, path ≠ pngPath → root.read path = (capsule note).read path) :
    verifyApproval library serde root (approval note) none = .ok () := by
  refine verify_then (bne_self_eq_false _) ?_
  refine bind_iff.mpr ⟨_, approvalContext_capsule root h hread, ?_⟩
  rw [verifyUnless_ok]
  simp only [or_eq_false_iff]
  exact ⟨⟨⟨⟨⟨bne_self_eq_false _, bne_self_eq_false _⟩, bne_self_eq_false _⟩,
    bne_self_eq_false _⟩, bne_self_eq_false _⟩, bne_self_eq_false _⟩

theorem digest_edited : library.digestBytes png ≠ library.digestBytes (png ++ [0]) := by
  decide +kernel

theorem noCollision_edited : NoCollision library (capsule wards) edited := by
  intro path a b ha hb hdigest
  by_cases hpath : path = pngPath
  · rw [hpath] at ha hb
    have hpng : Except.ok png = Except.ok a := (read_file png_mem).symm.trans ha
    have hnew : edited.read pngPath = .ok (png ++ [0]) := rfl
    rw [hnew, Except.ok.injEq] at hb
    rw [← Except.ok.inj hpng, ← hb] at hdigest
    exact absurd hdigest digest_edited
  · rw [read_edited hpath, ha] at hb
    exact Except.ok.inj hb

theorem noCollision_self (lib : Offline) (root : Directory) : NoCollision lib root root := by
  intro path a b ha hb _
  rw [ha] at hb
  exact Except.ok.inj hb

/-- Nothing has changed, so the files are still the listed ones. -/
theorem unedited_binds : Unchanged serde (capsule wards) (capsule wards) ↔
    FilesIntact library serde (capsule wards) :=
  approval_binds_iff library serde _ _ none _ (accepted mem_cons_self) _ _ none none _
    (createApproval_capsule mem_cons_self)
    (verifyApproval_capsule _ mem_cons_self (fun _ _ => rfl))
    (noCollision_self _ _)

/-- The approval is accepted for the edited directory, and its map is not the approved one. -/
theorem edited_map_approved : verifyNagoyaCapsule library serde (capsule wards) none =
        .ok (verification wards) ∧
      createApproval library serde (capsule wards) "reviewer@example.org"
        "2026-08-23T12:00:00+09:00" none = .ok (approval wards) ∧
      verifyApproval library serde edited (approval wards) none = .ok () ∧
      NoCollision library (capsule wards) edited ∧
      ¬ Unchanged serde (capsule wards) edited := by
  refine ⟨accepted mem_cons_self, createApproval_capsule mem_cons_self,
    verifyApproval_capsule _ mem_cons_self (fun _ => read_edited), noCollision_edited, ?_⟩
  intro hunchanged
  have hentry : entryOf (pngPath, "map-artifact", "image/png", png) ∈
      (manifest wards).entries := mem_map_of_mem png_mem
  have hread := hunchanged _ (readJson_manifest mem_cons_self) _ hentry
  have hold : (capsule wards).read pngPath = .ok png := read_file png_mem
  have hnew : edited.read pngPath = .ok (png ++ [0]) := rfl
  rw [entryOf, hold, hnew] at hread
  exact absurd (ok.inj hread) (by decide)

end Sample

end Capsule
end GeneGIS
