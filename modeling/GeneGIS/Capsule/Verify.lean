/-
Every file is compared with its size and its digest, and the documents among them must agree with
each other and with the digest of the result.
-/
import GeneGIS.Capsule.Manifest

namespace GeneGIS.Capsule

open Fallible List

variable (lib : Offline) (readers : Readers) (d : Directory)

/-- The loop over the manifest, with the paths before. -/
def checkEntries : List String → List CapsuleEntry → Verifying Unit
  | _, [] => .ok ()
  | paths, entry :: rest => do
    validateRelativePath entry.path
    verifyUnless (paths.contains entry.path) ("duplicate manifest path: " ++ entry.path)
    let fileType ← (d.fileType entry.path).mapError (.io entry.path)
    verifyUnless (fileType != .file) ("subject is not a regular file: " ++ entry.path)
    let bytes ← readFile d entry.path
    verifyUnless (bytes.length != entry.bytes || lib.digestBytes bytes != entry.sha256)
      ("subject digest/size mismatch: " ++ entry.path)
    checkEntries (entry.path :: paths) rest

def requireSubjects (paths : List String) : List String → Verifying Unit
  | [] => .ok ()
  | required :: rest => do
    verifyUnless (!paths.contains required) ("required subject is missing: " ++ required)
    requireSubjects paths rest

def isIdentityChar (c : Char) : Bool :=
  ('a' ≤ c && c ≤ 'z') || ('A' ≤ c && c ≤ 'Z') || ('0' ≤ c && c ≤ '9') || c == '-' || c == '_' ||
    c == '.'

def isObject : Json → Bool
  | .obj _ => true
  | _ => false

def requireFields (payload : Json) (role : String) : List String → Verifying Unit
  | [] => .ok ()
  | field :: rest => do
    verifyUnless (payload.get? field).isNone (role ++ " evidence omitted required field /" ++ field)
    requireFields payload role rest

def validateEvidence (evidence : OperationalEvidence) : Verifying Unit := do
  verifyUnless (evidence.schemaVersion != "0.1.0") "unsupported operational evidence schema"
  verifyUnless (evidence.evidenceId.isEmpty || !evidence.evidenceId.toList.all isIdentityChar)
    "unsafe operational evidence identity"
  verifyUnless (Text.isBlank evidence.producer) "operational evidence producer is empty"
  verifyUnless (!isObject evidence.payload.json) "operational evidence payload is not an object"
  verifyUnless (evidence.payloadDigest != lib.digestJson evidence.payload)
    "operational evidence payload digest mismatch"
  requireFields evidence.payload.json evidence.kind.role evidence.kind.requiredFields

/-- Read the evidence among the entries.  The role of an entry is that of its envelope. -/
def readEvidence : List CapsuleEntry → Verifying (List OperationalEvidence)
  | [] => .ok []
  | entry :: rest =>
    match operationalKindForRole entry.role with
    | none => readEvidence rest
    | some kind => do
      let evidence ← readJson readers.evidence d entry.path
      validateEvidence lib evidence
      verifyUnless (kind != evidence.kind) "operational evidence role differs from envelope kind"
      let others ← readEvidence rest
      return evidence :: others

def distinctEvidence : List String → List OperationalEvidence → Verifying Unit
  | _, [] => .ok ()
  | identities, item :: rest => do
    validateEvidence lib item
    verifyUnless (identities.contains item.evidenceId) "duplicate operational evidence identity"
    distinctEvidence (item.evidenceId :: identities) rest

def kindsOf (evidence : List OperationalEvidence) : Std.ExtTreeSet OperationalEvidenceKind :=
  .ofList (evidence.map OperationalEvidence.kind)

def completeKinds : Std.ExtTreeSet OperationalEvidenceKind :=
  .ofList [OperationalEvidenceKind.adapter, .edit, .io, .trustUx]

def validateOperationalEvidenceSet (evidence : List OperationalEvidence)
    (requireComplete : Bool) : Verifying Unit :=
  if evidence.isEmpty then verifyUnless requireComplete "operational evidence set is empty"
  else do
    distinctEvidence lib [] evidence
    verifyUnless (kindsOf evidence != completeKinds)
      "operational evidence set does not contain every required class"

/-- The loop over the assurance subjects, with the sources before. -/
def checkAssurances (sources : List SourceEvidence) :
    List String → List CapsuleEntry → Verifying Unit
  | _, [] => .ok ()
  | seen, entry :: rest => do
    let assurance ← readJson readers.assurance d entry.path
    verifyUnless (seen.contains assurance.sourceId) "duplicate source assurance identity"
    match sources.find? fun source => source.sourceId == assurance.sourceId with
    | none => .error (.verification "source assurance has no matching trust evidence")
    | some source =>
      verifyUnless (source.assurance != some assurance)
        "source assurance subject differs from trust evidence"
      verifyUnless (source.assuranceDigest != some (assurance.digest lib.toRuntime) ||
          source.snapshotDigest != some assurance.snapshotDigest)
        "source assurance digest or snapshot binding mismatch"
      checkAssurances sources (assurance.sourceId :: seen) rest

/-! ## Documents -/

def engineText (engine : EngineIdentity) : String :=
  engine.name ++ ":" ++ engine.version ++ ":" ++ engine.build

def artifactsOf (html png : Bytes) : NagoyaArtifactDigests where
  htmlSha256 := some (lib.digestBytes html)
  pngSha256 := some (lib.digestBytes png)
  htmlBytes := html.length
  pngBytes := png.length

/-- The policy and the graph of the receipt, and the trust that the policy derives. -/
def checkTrust (manifest : CapsuleManifest) (receipt : ExecutionReceipt)
    (policy : VerificationPolicy) (graph : VerificationGraph) :
    Verifying (String × TrustEvidence × TrustAssessment) := do
  verifyUnless (receipt.verificationPolicy != some policy ||
    receipt.verificationGraph != some graph) "receipt policy/graph differs from capsule subjects"
  (graph.validateAgainstPolicy policy).mapError .graph
  let graphDigest ← (graph.stableDigest lib.toRuntime).mapError .graph
  verifyUnless (receipt.verificationGraphDigest != some graphDigest)
    "verification graph digest mismatch"
  match receipt.trustEvidence with
  | none => .error (.verification "receipt has no normalized trust evidence")
  | some evidence =>
    let assuranceEntries := manifest.entries.filter fun entry => entry.role == "source-assurance"
    verifyUnless (assuranceEntries.length !=
        (evidence.sources.filter fun source => source.assurance.isSome).length)
      "source assurance subject count differs from trust evidence"
    checkAssurances lib readers d evidence.sources [] assuranceEntries
    let trust := policy.assess lib.toRuntime evidence
    verifyUnless (receipt.trustAssessment != some trust ||
        receipt.verificationPassed != decide (.verified ≤ trust.level))
      "stored trust state differs from policy derivation"
    return (graphDigest, evidence, trust)

/-- The command runs the workflow of the receipt and of the analysis. -/
def checkWorkflow (receipt : ExecutionReceipt) (command : CommandEnvelope)
    (analysis : AnalysisResult) (workflow : GeoWorkflow) : Verifying String := do
  verifyUnless (command.command != .runWorkflow workflow.id)
    "command does not authorize the capsule workflow"
  let workflowDigest ← (workflow.stableDigest lib.toRuntime).mapError .workflow
  verifyUnless (command.workflowDigest != some receipt.workflowDigest ||
      command.workflowDigest.map WorkflowDigest.text != some workflowDigest ||
      receipt.workflowId != workflow.id || receipt.commandId != command.id)
    "command, workflow, and receipt identities do not agree"
  let analysisDigest ← (analysis.workflow.stableDigest lib.toRuntime).mapError .workflow
  verifyUnless (analysisDigest != workflowDigest || receipt.workflowDigest.text != workflowDigest)
    "workflow identities do not agree"
  return workflowDigest

/-- The replay evidence names the receipt and the artifacts. -/
def checkReplay (receipt : ExecutionReceipt) (replay : ReplayEvidence) (html png : Bytes) :
    Verifying Unit :=
  verifyUnless (replay.workflowDigest != some receipt.workflowDigest.text ||
      replay.backendIdentity != some (engineText receipt.engine) ||
      (.ofList replay.artifactDigests : Std.ExtTreeSet String) !=
        .ofList [lib.digestBytes html, lib.digestBytes png])
    "trust replay evidence differs from receipt or artifact subjects"

/-- The result has the digest that the manifest, the receipt and the evidence name. -/
def checkResult (manifest : CapsuleManifest) (receipt : ExecutionReceipt)
    (evidence : TrustEvidence) (analysis : AnalysisResult) (html png : Bytes) :
    Verifying String := do
  match Bytes.toText? html with
  | none => .error (.verification "HTML artifact is not UTF-8")
  | some text =>
    let output : NagoyaExecutionOutput :=
      { analysis := analysis, verificationPassed := receipt.verificationPassed, html := text
        pngBase64 := lib.encodeBase64 png, artifactDigests := artifactsOf lib html png }
    let resultDigest := canonicalNagoyaExecutionDigest lib output receipt.evidence
    verifyUnless (resultDigest != manifest.subjectResultDigest ||
      resultDigest != receipt.resultDigest) "canonical execution result digest mismatch"
    verifyUnless (evidence.replay.resultDigest != some resultDigest)
      "trust evidence names a different result digest"
    return resultDigest

def verifyNagoyaCapsule (expectedPolicy : Option VerificationPolicy) :
    Verifying CapsuleVerification := do
  let manifest ← readJson readers.manifest d manifestPath
  verifyUnless (manifest.schemaVersion != schemaVersion) "unsupported capsule schema version"
  verifyUnless (!Text.isSha256 manifest.subjectResultDigest) "malformed subject result digest"
  checkEntries lib d [] manifest.entries
  requireSubjects (manifest.entries.map CapsuleEntry.path) requiredSubjects
  let operationalEvidence ← readEvidence lib readers d manifest.entries
  validateOperationalEvidenceSet lib operationalEvidence false
  let receipt ← readJson readers.receipt d receiptPath
  let command ← readJson readers.command d commandPath
  let policy ← readJson readers.policy d policyPath
  let graph ← readJson readers.graph d graphPath
  verifyUnless (expectedPolicy.any fun expected => expected != policy)
    "embedded policy differs from required policy"
  let (graphDigest, evidence, trust) ← checkTrust lib readers d manifest receipt policy graph
  let analysis ← readJson readers.analysis d analysisPath
  let workflow ← readJson readers.workflow d workflowPath
  let workflowDigest ← checkWorkflow lib receipt command analysis workflow
  let html ← readFile d htmlPath
  let png ← readFile d pngPath
  let report ← readFile d trustReportPath
  verifyUnless (report != Bytes.ofText (trustReportHtml trust
      { resultDigest := receipt.resultDigest, workflowDigest := workflowDigest
        policyDigest := lib.digestCompact policy.toJson, verificationGraphDigest := graphDigest
        mapHtmlDigest := lib.digestBytes html, mapPngDigest := lib.digestBytes png }))
    "trust HTML differs from policy-derived state or digest identities"
  checkReplay lib receipt evidence.replay html png
  let resultDigest ← checkResult lib manifest receipt evidence analysis html png
  return { schemaVersion := manifest.schemaVersion, resultDigest := resultDigest
           verificationGraphDigest := graphDigest, trust := trust
           verifiedEntries := manifest.entries.length
           operationalEvidence := (kindsOf operationalEvidence).toList }

/-! ## Listed files -/

variable {lib readers d} {entries : List CapsuleEntry} {paths : List String}

/-- The file has the size and the digest of the entry. -/
def Intact (lib : Offline) (d : Directory) (entry : CapsuleEntry) : Prop :=
  ∃ bytes, d.read entry.path = .ok bytes ∧ bytes.length = entry.bytes ∧
    lib.digestBytes bytes = entry.sha256

structure Listed (lib : Offline) (d : Directory) (entry : CapsuleEntry) : Prop where
  safe : entry.path.isEmpty = false ∧ PluginManifest.isNormalized entry.path = true
  regular : d.fileType entry.path = .ok .file
  intact : Intact lib d entry

theorem readFile_ok {path : String} {bytes : Bytes} :
    readFile d path = .ok bytes ↔ d.read path = .ok bytes := mapError_iff

theorem readJson_ok {α : Type} {parse : Bytes → Except String α} {path : String} {a : α} :
    readJson parse d path = .ok a ↔ ∃ bytes, d.read path = .ok bytes ∧ parse bytes = .ok a := by
  rw [readJson, bind_iff]
  constructor
  · intro h
    obtain ⟨bytes, hread, hparse⟩ := h
    exact ⟨bytes, readFile_ok.mp hread, mapError_iff.mp hparse⟩
  · intro h
    obtain ⟨bytes, hread, hparse⟩ := h
    exact ⟨bytes, readFile_ok.mpr hread, mapError_iff.mpr hparse⟩

theorem validateRelativePath_ok {path : String} {u : Unit} : validateRelativePath path = .ok u ↔
    path.isEmpty = false ∧ PluginManifest.isNormalized path = true := by
  rw [validateRelativePath, verifyUnless_ok, Bool.or_eq_false_iff, Bool.not_eq_false']

theorem checkEntries_cons {entry : CapsuleEntry} {u : Unit} :
    checkEntries lib d paths (entry :: entries) = .ok u ↔
      (Listed lib d entry ∧ entry.path ∉ paths) ∧
        checkEntries lib d (entry.path :: paths) entries = .ok u := by
  rw [checkEntries]
  constructor
  · intro h
    obtain ⟨_, hsafe, h⟩ := bind_iff.mp h
    obtain ⟨_, hnew, h⟩ := bind_iff.mp h
    obtain ⟨fileType, htype, h⟩ := bind_iff.mp h
    obtain ⟨_, hregular, h⟩ := bind_iff.mp h
    obtain ⟨bytes, hread, h⟩ := bind_iff.mp h
    obtain ⟨_, hsame, h⟩ := bind_iff.mp h
    rw [verifyUnless_ok, contains_eq_mem, decide_eq_false_iff_not] at hnew
    rw [verifyUnless_ok, bne_eq_false_iff_eq] at hregular
    rw [verifyUnless_ok, Bool.or_eq_false_iff, bne_eq_false_iff_eq, bne_eq_false_iff_eq] at hsame
    rw [hregular] at htype
    exact ⟨⟨⟨validateRelativePath_ok.mp hsafe, mapError_iff.mp htype,
      ⟨bytes, readFile_ok.mp hread, hsame.1, hsame.2⟩⟩, hnew⟩, h⟩
  · intro h
    obtain ⟨⟨⟨hsafe, hregular, bytes, hread, hlength, hdigest⟩, hnew⟩, h⟩ := h
    refine bind_iff.mpr ⟨(), validateRelativePath_ok.mpr hsafe, ?_⟩
    refine verify_then ?_ ?_
    · rw [contains_eq_mem, decide_eq_false_iff_not]
      exact hnew
    refine bind_iff.mpr ⟨.file, mapError_iff.mpr hregular, ?_⟩
    refine verify_then (bne_self_eq_false _) ?_
    refine bind_iff.mpr ⟨bytes, readFile_ok.mpr hread, ?_⟩
    refine verify_then ?_ h
    rw [hlength, hdigest, bne_self_eq_false, bne_self_eq_false]
    rfl

theorem checkEntries_ok {u : Unit} : checkEntries lib d paths entries = .ok u ↔
    (∀ entry ∈ entries, Listed lib d entry ∧ entry.path ∉ paths) ∧
      (entries.map CapsuleEntry.path).Nodup := by
  induction entries generalizing paths with
  | nil => exact iff_of_true rfl ⟨by simp, nodup_nil⟩
  | cons entry rest ih =>
    rw [checkEntries_cons, ih, forall_mem_cons, map_cons, nodup_cons]
    constructor
    · intro h
      obtain ⟨hentry, hrest, hdistinct⟩ := h
      refine ⟨⟨hentry, fun e he => ⟨(hrest e he).1, ?_⟩⟩, ?_, hdistinct⟩
      · intro hmem
        exact (hrest e he).2 (.tail _ hmem)
      · intro hmem
        obtain ⟨e, he, hpath⟩ := mem_map.mp hmem
        exact (hrest e he).2 (hpath ▸ mem_cons_self)
    · intro h
      obtain ⟨⟨hentry, hrest⟩, hnew, hdistinct⟩ := h
      refine ⟨hentry, fun e he => ⟨(hrest e he).1, ?_⟩, hdistinct⟩
      intro hmem
      rcases mem_cons.mp hmem with hpath | hmem
      · exact hnew (hpath ▸ mem_map_of_mem he)
      · exact (hrest e he).2 hmem

theorem readEvidence_none (h : ∀ entry ∈ entries, operationalKindForRole entry.role = none) :
    readEvidence lib readers d entries = .ok [] := by
  induction entries with
  | nil => rfl
  | cons entry rest ih =>
    rw [readEvidence, h entry mem_cons_self]
    exact ih fun e he => h e (.tail _ he)

theorem accepted_manifest {expectedPolicy : Option VerificationPolicy} {v : CapsuleVerification}
    (h : verifyNagoyaCapsule lib readers d expectedPolicy = .ok v) :
    ∃ manifest, readJson readers.manifest d manifestPath = .ok manifest ∧
      (∀ entry ∈ manifest.entries, Listed lib d entry) ∧
      (manifest.entries.map CapsuleEntry.path).Nodup := by
  obtain ⟨manifest, hmanifest, h⟩ := bind_iff.mp h
  obtain ⟨_, -, h⟩ := bind_iff.mp h
  obtain ⟨_, -, h⟩ := bind_iff.mp h
  obtain ⟨_, hentries, -⟩ := bind_iff.mp h
  obtain ⟨hlisted, hdistinct⟩ := checkEntries_ok.mp hentries
  exact ⟨manifest, hmanifest, fun entry hentry => (hlisted entry hentry).1, hdistinct⟩

end GeneGIS.Capsule
