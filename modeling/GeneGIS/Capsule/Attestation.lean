/-
The subjects of a statement are the outputs of the manifest.  The verifier counts them and looks
each of them up by name; it asks for no distinct names, and looks at no file.
-/
import GeneGIS.Capsule.Approval

namespace GeneGIS

open List Text
open Option hiding or_self

structure DsseSignature where
  keyid : String
  sig : String

structure DsseEnvelope where
  payloadType : String
  payload : String
  signatures : List DsseSignature

namespace Capsule

/-- The signature scheme. -/
structure Ed25519 where
  sign : Bytes → Bytes → Bytes
  validKey : Bytes → Bool
  validSignature : Bytes → Bool
  verify : Bytes → Bytes → Bytes → Bool

open Fallible

section

variable (lib : Offline) (ed : Ed25519) (readers : Readers)

/-! ## Statements -/

def isStandardOutputRole (role : String) : Bool :=
  role == "map-artifact" || role == "analysis-result" || (operationalKindForRole role).isSome

def outputsOf (manifest : CapsuleManifest) : List CapsuleEntry :=
  manifest.entries.filter fun entry => isStandardOutputRole entry.role

variable (entry : CapsuleEntry)

def subjectDocument : Value := .object [("name", .str entry.path),
    ("digest", .object [("sha256", .ofOption .str (withoutPrefix "sha256:" entry.sha256))])]

def predicateDocument (receipt : ExecutionReceipt) : Value :=
  .object [("policy", .ofOption (fun p => .str p.policyId) receipt.verificationPolicy),
    ("trust", .ofOption (fun t => .str (levelText t.level)) receipt.trustAssessment),
    ("resultDigest", .str receipt.resultDigest),
    ("workflowDigest", .str receipt.workflowDigest.text),
    ("verificationGraphDigest", .ofOption .str receipt.verificationGraphDigest),
    ("integrityClaim", .str ("Signature authenticates this statement and subject digests; " ++
      "it does not independently prove spatial truth."))]

def statementType : String := "https://in-toto.io/Statement/v1"

def predicateType : String := "https://genegis.org/attestation/proof-carrying-spatial-analysis/v0.1"

def statementOf (subjects : List CapsuleEntry) (receipt : ExecutionReceipt) : Value :=
  .object [("_type", .str statementType), ("subject", .ofList subjectDocument subjects),
    ("predicateType", .str predicateType), ("predicate", predicateDocument receipt)]

def intotoStatement (manifest : CapsuleManifest) (receipt : ExecutionReceipt) : Value :=
  statementOf (outputsOf manifest) receipt

def subjectName (subject : Json) : Option String := (subject.get? "name").bind Json.asStr?

def signedDigest (subject : Json) : Option String :=
  ((subject.get? "digest").bind (Json.get? "sha256")).bind Json.asStr?

def expectedDigest (manifest : CapsuleManifest) (name : String) : Option String :=
  (manifest.entries.find? fun entry => entry.path == name).bind fun entry =>
    withoutPrefix "sha256:" entry.sha256

def validateSubjects (manifest : CapsuleManifest) : List Json → Verifying Unit
  | [] => .ok ()
  | subject :: rest => do
    let name ← required (subjectName subject) "in-toto subject name is missing"
    verifyUnless (signedDigest subject != expectedDigest manifest name)
      ("in-toto subject digest mismatch: " ++ name)
    validateSubjects manifest rest

def validateIntotoStatement (statement : Json) (manifest : CapsuleManifest) : Verifying Unit := do
  verifyUnless ((statement.get? "_type").bind Json.asStr? != some statementType ||
      (statement.get? "predicateType").bind Json.asStr? != some predicateType)
    "in-toto Statement type is invalid"
  let subjects ← required ((statement.get? "subject").bind Json.asArray?)
    "in-toto subjects are missing"
  verifyUnless (subjects.length != (outputsOf manifest).length) "in-toto subject count mismatch"
  validateSubjects manifest subjects
  verifyUnless subjects.isEmpty "in-toto Statement has no subjects"

def dssePayloadType : String := "application/vnd.in-toto+json"

def dssePae (payloadType : String) (payload : Bytes) : Bytes :=
  Bytes.ofText ("DSSEv1 " ++ toString payloadType.utf8ByteSize ++ " " ++ payloadType ++ " " ++
    toString payload.length ++ " ") ++ payload

variable (statement : Value)

def statementBytes : Bytes := Bytes.ofText (String.ofList (lib.canonicalJson statement))

def createDsseAttestation (root : Directory) (signingKey : Bytes) (keyid : String) :
    Verifying DsseEnvelope := do
  let manifest ← readJson readers.manifest root manifestPath
  let receipt ← readJson readers.receipt root receiptPath
  let statement := intotoStatement manifest receipt
  validateIntotoStatement statement.json manifest
  let payload := statementBytes lib statement
  let signature := ed.sign signingKey (dssePae dssePayloadType payload)
  return { payloadType := dssePayloadType, payload := lib.encodeBase64 payload
           signatures := [{ keyid := keyid, sig := lib.encodeBase64 signature }] }

/-- The loop over the signatures.  One that verifies is enough, and each has to be well formed. -/
def checkSignatures (key pae : Bytes) : Bool → List DsseSignature → Verifying Bool
  | verified, [] => .ok verified
  | verified, candidate :: rest => do
    let bytes ← required (lib.decodeBase64 candidate.sig) "invalid DSSE signature base64"
    verifyUnless (!ed.validSignature bytes) "invalid Ed25519 signature bytes"
    checkSignatures key pae (verified || ed.verify key pae bytes) rest

def verifyDsseAttestation (root : Directory) (envelope : DsseEnvelope) (verifyingKey : Bytes) :
    Verifying Value := do
  verifyUnless (envelope.payloadType != dssePayloadType || envelope.signatures.isEmpty)
    "unsupported or unsigned DSSE envelope"
  let payload ← required (lib.decodeBase64 envelope.payload) "invalid DSSE payload base64"
  verifyUnless (!ed.validKey verifyingKey) "invalid Ed25519 verifying key"
  let verified ← checkSignatures lib ed verifyingKey (dssePae envelope.payloadType payload) false
    envelope.signatures
  verifyUnless (!verified) "DSSE signature did not verify"
  let statement ← (readers.value payload).mapError .json
  let manifest ← readJson readers.manifest root manifestPath
  validateIntotoStatement statement.json manifest
  return statement

/-! ## What is checked -/

def signedSubjects : List Json := ((statement.json.get? "subject").bind Json.asArray?).getD []

def signedNames : List String := (signedSubjects statement).filterMap subjectName

def predicateText (name : String) : Option String :=
  ((statement.json.get? "predicate").bind (Json.get? name)).bind Json.asStr?

variable {lib ed readers} {root : Directory} {manifest : CapsuleManifest} {statement : Value}

theorem validateSubjects_ok {subjects : List Json} {u : Unit} :
    validateSubjects manifest subjects = .ok u ↔ ∀ subject ∈ subjects, ∃ name,
      subjectName subject = some name ∧ signedDigest subject = expectedDigest manifest name := by
  induction subjects with
  | nil => simp [validateSubjects]
  | cons subject rest ih =>
    rw [forall_mem_cons, ← ih]
    constructor
    · intro h
      obtain ⟨name, hname, h⟩ := bind_iff.mp h
      obtain ⟨_, hdigest, h⟩ := bind_iff.mp h
      rw [verifyUnless_ok, bne_eq_false_iff_eq] at hdigest
      exact ⟨⟨name, required_ok.mp hname, hdigest⟩, h⟩
    · intro ⟨⟨name, hname, hdigest⟩, h⟩
      refine bind_iff.mpr ⟨name, required_ok.mpr hname, ?_⟩
      refine verify_then ?_ h
      rw [bne_eq_false_iff_eq]
      exact hdigest

theorem validateIntotoStatement_ok {u : Unit} :
    validateIntotoStatement statement.json manifest = .ok u ↔
      (statement.json.get? "_type").bind Json.asStr? = some statementType ∧
      (statement.json.get? "predicateType").bind Json.asStr? = some predicateType ∧
      (signedSubjects statement).length = (outputsOf manifest).length ∧
      (∀ subject ∈ signedSubjects statement, ∃ name, subjectName subject = some name ∧
        signedDigest subject = expectedDigest manifest name) ∧
      signedSubjects statement ≠ [] := by
  constructor
  · intro h
    obtain ⟨_, htype, h⟩ := bind_iff.mp h
    obtain ⟨subjects, hsubjects, h⟩ := bind_iff.mp h
    obtain ⟨_, hcount, h⟩ := bind_iff.mp h
    obtain ⟨_, hall, h⟩ := bind_iff.mp h
    have hsigned : signedSubjects statement = subjects := by
      rw [signedSubjects, required_ok.mp hsubjects]
      rfl
    rw [verifyUnless_ok, Bool.or_eq_false_iff, bne_eq_false_iff_eq, bne_eq_false_iff_eq] at htype
    rw [verifyUnless_ok, bne_eq_false_iff_eq] at hcount
    rw [verifyUnless_ok, isEmpty_eq_false_iff] at h
    rw [hsigned]
    exact ⟨htype.1, htype.2, hcount, validateSubjects_ok.mp hall, h⟩
  · intro ⟨htype, hpredicate, hcount, hall, hne⟩
    have hsubjects : (statement.json.get? "subject").bind Json.asArray? =
        some (signedSubjects statement) := by
      rw [signedSubjects] at hne ⊢
      cases hget : (statement.json.get? "subject").bind Json.asArray? with
      | none =>
        rw [hget] at hne
        exact absurd rfl hne
      | some subjects => rfl
    refine verify_then ?_ ?_
    · rw [htype, hpredicate]
      exact Bool.or_eq_false_iff.mpr ⟨bne_self_eq_false _, bne_self_eq_false _⟩
    refine bind_iff.mpr ⟨_, required_ok.mpr hsubjects, ?_⟩
    refine verify_then (bne_eq_false_iff_eq.mpr hcount) ?_
    refine bind_iff.mpr ⟨(), validateSubjects_ok.mpr hall, ?_⟩
    exact verifyUnless_ok.mpr (isEmpty_eq_false_iff.mpr hne)

theorem verifyDsseAttestation_ok {envelope : DsseEnvelope} {key : Bytes}
    (h : verifyDsseAttestation lib ed readers root envelope key = .ok statement)
    (hmanifest : readJson readers.manifest root manifestPath = .ok manifest) :
    ∃ payload, lib.decodeBase64 envelope.payload = some payload ∧
      readers.value payload = .ok statement ∧
      validateIntotoStatement statement.json manifest = .ok () := by
  obtain ⟨_, -, h⟩ := bind_iff.mp h
  obtain ⟨payload, hpayload, h⟩ := bind_iff.mp h
  obtain ⟨_, -, h⟩ := bind_iff.mp h
  obtain ⟨_, -, h⟩ := bind_iff.mp h
  obtain ⟨_, -, h⟩ := bind_iff.mp h
  obtain ⟨statement', hvalue, h⟩ := bind_iff.mp h
  obtain ⟨manifest', hmanifest', h⟩ := bind_iff.mp h
  obtain ⟨_, hvalid, h⟩ := bind_iff.mp h
  rw [hmanifest, Except.ok.injEq] at hmanifest'
  rw [← hmanifest', Except.ok.inj h] at hvalid
  rw [Except.ok.inj h] at hvalue
  exact ⟨payload, required_ok.mp hpayload, mapError_iff.mp hvalue, hvalid⟩

/-! ## What an attestation binds -/

/-- The predicate names the digests of the manifest, the workflow and the graph. -/
def NamesDigests (lib : Offline) (readers : Readers) (root : Directory) (statement : Value) : Prop :=
  ∃ context, approvalContext lib readers root none = .ok context ∧
    predicateText statement "resultDigest" = some context.resultDigest ∧
    predicateText statement "workflowDigest" = some context.workflowDigest ∧
    predicateText statement "verificationGraphDigest" = some context.verificationGraphDigest

def IsOutput (manifest : CapsuleManifest) (name : String) : Prop :=
  ∃ entry ∈ outputsOf manifest, entry.path = name

structure Attests (lib : Offline) (readers : Readers) (root : Directory)
    (manifest : CapsuleManifest) (statement : Value) : Prop where
  distinct : (signedNames statement).Nodup
  outputs : ∀ name, name ∈ signedNames statement ↔ IsOutput manifest name
  files : ∀ subject ∈ signedSubjects statement, ∃ name bytes hex, subjectName subject = some name ∧
    root.read name = .ok bytes ∧ signedDigest subject = some hex ∧
    lib.digestBytes bytes = "sha256:" ++ hex
  predicate : NamesDigests lib readers root statement

/-- What the verifier does not look at. -/
structure Unchecked (lib : Offline) (readers : Readers) (root : Directory)
    (manifest : CapsuleManifest) (statement : Value) : Prop where
  distinct : (signedNames statement).Nodup
  outputs : ∀ name ∈ signedNames statement, IsOutput manifest name
  files : ∀ name ∈ signedNames statement, ∀ entry,
    (manifest.entries.find? fun entry => entry.path == name) = some entry →
      ∃ bytes, root.read name = .ok bytes ∧ lib.digestBytes bytes = entry.sha256
  predicate : NamesDigests lib readers root statement

theorem mem_signedNames {name : String} : name ∈ signedNames statement ↔
    ∃ subject ∈ signedSubjects statement, subjectName subject = some name := mem_filterMap

theorem length_signedNames
    (h : ∀ subject ∈ signedSubjects statement, ∃ name, subjectName subject = some name) :
    (signedNames statement).length = (signedSubjects statement).length :=
  filterMap_length_eq_length.mpr fun subject hsubject =>
    isSome_iff_exists.mpr (h subject hsubject)

theorem signed_of_output {name : String} (hdistinct : (signedNames statement).Nodup)
    (houtputs : ∀ name ∈ signedNames statement, IsOutput manifest name)
    (hlength : (signedNames statement).length = (outputsOf manifest).length)
    (h : IsOutput manifest name) : name ∈ signedNames statement := by
  have hsubset : signedNames statement ⊆ (outputsOf manifest).map CapsuleEntry.path :=
    fun _ hname => mem_map.mpr (houtputs _ hname)
  have hle : ((outputsOf manifest).map CapsuleEntry.path).length ≤
      (signedNames statement).length := by
    rw [length_map, hlength]
  have hperm := (hdistinct.subperm hsubset).perm_of_length_le hle
  exact hperm.mem_iff.mpr (mem_map.mpr h)

theorem attests_iff (hvalid : validateIntotoStatement statement.json manifest = .ok ()) :
    Attests lib readers root manifest statement ↔
      Unchecked lib readers root manifest statement := by
  obtain ⟨-, -, hcount, hall, -⟩ := validateIntotoStatement_ok.mp hvalid
  have hnamed : ∀ subject ∈ signedSubjects statement, ∃ name, subjectName subject = some name :=
    fun subject hsubject => ⟨_, (hall subject hsubject).choose_spec.1⟩
  have hlength := (length_signedNames hnamed).trans hcount
  constructor
  · intro h
    refine ⟨h.distinct, fun name hname => (h.outputs name).mp hname, ?_, h.predicate⟩
    intro name hname entry hentry
    obtain ⟨subject, hsubject, hsigned⟩ := mem_signedNames.mp hname
    obtain ⟨name', bytes, hex, hname', hbytes, hhex, hdigest⟩ := h.files subject hsubject
    obtain ⟨name'', hname'', hexpected⟩ := hall subject hsubject
    rw [hsigned, Option.some.injEq] at hname' hname''
    rw [← hname''] at hexpected
    rw [hhex, expectedDigest, hentry] at hexpected
    refine ⟨bytes, ?_, ?_⟩
    · rw [hname']
      exact hbytes
    · rw [hdigest]
      exact (withoutPrefix_iff.mp hexpected.symm).symm
  · intro h
    have houtputs : ∀ name, name ∈ signedNames statement ↔ IsOutput manifest name := fun name =>
      ⟨h.outputs name, signed_of_output h.distinct h.outputs hlength⟩
    refine ⟨h.distinct, houtputs, ?_, h.predicate⟩
    intro subject hsubject
    obtain ⟨name, hname, hexpected⟩ := hall subject hsubject
    have hmem : name ∈ signedNames statement := mem_signedNames.mpr ⟨subject, hsubject, hname⟩
    obtain ⟨entry, hentry, hpath⟩ := h.outputs name hmem
    have hfind : (manifest.entries.find? fun entry => entry.path == name).isSome = true := by
      rw [find?_isSome]
      exact ⟨entry, mem_of_mem_filter hentry, beq_iff_eq.mpr hpath⟩
    obtain ⟨listed, hlisted⟩ := isSome_iff_exists.mp hfind
    obtain ⟨bytes, hbytes, hdigest⟩ := h.files name hmem listed hlisted
    have hhex : withoutPrefix "sha256:" listed.sha256 = some (lib.sha256Bytes bytes) :=
      withoutPrefix_iff.mpr hdigest.symm
    refine ⟨name, bytes, lib.sha256Bytes bytes, hname, hbytes, ?_, rfl⟩
    rw [hexpected, expectedDigest, hlisted]
    exact hhex

/-! ## Another capsule -/

variable {subjects : List CapsuleEntry}

theorem statementOf_get {receipt : ExecutionReceipt} {key : String} :
    (statementOf subjects receipt).json.get? key =
      ([("_type", Value.str statementType), ("subject", .ofList subjectDocument subjects),
        ("predicateType", .str predicateType),
        ("predicate", predicateDocument receipt)].lookup key).map Value.json := by
  rw [statementOf, Value.get?_object (by simp)]

theorem predicateText_statementOf {receipt : ExecutionReceipt} :
    predicateText (statementOf subjects receipt) "resultDigest" = some receipt.resultDigest ∧
      predicateText (statementOf subjects receipt) "workflowDigest" =
        some receipt.workflowDigest.text ∧
      predicateText (statementOf subjects receipt) "verificationGraphDigest" =
        receipt.verificationGraphDigest := by
  have hpredicate : (statementOf subjects receipt).json.get? "predicate" =
      some (predicateDocument receipt).json := by
    rw [statementOf_get]
    rfl
  have hread : ∀ key, predicateText (statementOf subjects receipt) key =
      ((predicateDocument receipt).json.get? key).bind Json.asStr? := by
    intro key
    rw [predicateText, hpredicate]
    rfl
  refine ⟨?_, ?_, ?_⟩
  · rw [hread, predicateDocument, Value.get?_object (by simp)]
    rfl
  · rw [hread, predicateDocument, Value.get?_object (by simp)]
    rfl
  · rw [hread, predicateDocument, Value.get?_object (by simp)]
    cases receipt.verificationGraphDigest with
    | none => rfl
    | some digest => rfl

theorem signedSubjects_statementOf {receipt : ExecutionReceipt} :
    signedSubjects (statementOf subjects receipt) =
      subjects.map fun entry => (subjectDocument entry).json := by
  rw [signedSubjects, statementOf_get]
  rfl

theorem subjectName_document : subjectName (subjectDocument entry).json = some entry.path := by
  rw [subjectName, subjectDocument, Value.get?_object (by simp)]
  rfl

theorem signedDigest_document :
    signedDigest (subjectDocument entry).json = withoutPrefix "sha256:" entry.sha256 := by
  have hdigest : (subjectDocument entry).json.get? "digest" = some (Value.object [("sha256",
      .ofOption .str (withoutPrefix "sha256:" entry.sha256))]).json := by
    rw [subjectDocument, Value.get?_object (by simp)]
    rfl
  rw [signedDigest, hdigest, bind_some, Value.get?_object (by simp)]
  cases withoutPrefix "sha256:" entry.sha256 with
  | none => rfl
  | some hex => rfl

theorem signedNames_statementOf {receipt : ExecutionReceipt} :
    signedNames (statementOf subjects receipt) = subjects.map CapsuleEntry.path := by
  rw [signedNames, signedSubjects_statementOf, filterMap_map]
  have hname : (subjectName ∘ fun entry => (subjectDocument entry).json) =
      some ∘ CapsuleEntry.path := funext subjectName_document
  rw [hname, ← filterMap_eq_map]

theorem validate_statementOf {receipt : ExecutionReceipt}
    (hdistinct : (manifest.entries.map CapsuleEntry.path).Nodup)
    (hlisted : ∀ entry ∈ subjects, entry ∈ manifest.entries)
    (hcount : subjects.length = (outputsOf manifest).length) (hne : subjects ≠ []) :
    validateIntotoStatement (statementOf subjects receipt).json manifest = .ok () := by
  rw [validateIntotoStatement_ok, signedSubjects_statementOf, statementOf_get, statementOf_get]
  refine ⟨rfl, rfl, ?_, ?_, ?_⟩
  · rw [length_map, hcount]
  · intro subject hsubject
    obtain ⟨entry, hentry, rfl⟩ := mem_map.mp hsubject
    have hfind : (manifest.entries.find? fun other => other.path == entry.path) = some entry :=
      (Keyed.find?_eq_some hdistinct).mpr ⟨hlisted entry hentry, rfl⟩
    refine ⟨entry.path, subjectName_document entry, ?_⟩
    rw [signedDigest_document, expectedDigest, hfind]
    rfl
  · intro hnil
    exact hne (map_eq_nil_iff.mp hnil)

/-- The envelope of a statement that one key signs. -/
def envelopeOf (lib : Offline) (ed : Ed25519) (signingKey : Bytes) (keyid : String)
    (statement : Value) : DsseEnvelope :=
  { payloadType := dssePayloadType, payload := lib.encodeBase64 (statementBytes lib statement)
    signatures := [{ keyid := keyid
                     sig := lib.encodeBase64 (ed.sign signingKey
                       (dssePae dssePayloadType (statementBytes lib statement))) }] }

theorem verify_envelopeOf {signingKey key : Bytes} {keyid : String}
    (hbase64 : ∀ bytes, lib.decodeBase64 (lib.encodeBase64 bytes) = some bytes)
    (hkey : ed.validKey key = true)
    (hsignature : ∀ message, ed.validSignature (ed.sign signingKey message) = true)
    (hsigned : ∀ message, ed.verify key message (ed.sign signingKey message) = true)
    (hvalue : readers.value (statementBytes lib statement) = .ok statement)
    (hmanifest : readJson readers.manifest root manifestPath = .ok manifest)
    (hvalid : validateIntotoStatement statement.json manifest = .ok ()) :
    verifyDsseAttestation lib ed readers root (envelopeOf lib ed signingKey keyid statement) key =
      .ok statement := by
  refine verify_then ?_ ?_
  · exact Bool.or_eq_false_iff.mpr ⟨bne_self_eq_false _, rfl⟩
  refine bind_iff.mpr ⟨_, required_ok.mpr (hbase64 _), ?_⟩
  refine verify_then ?_ ?_
  · rw [hkey]
    rfl
  refine bind_iff.mpr ⟨true, ?_, ?_⟩
  · refine bind_iff.mpr ⟨_, required_ok.mpr (hbase64 _), ?_⟩
    refine verify_then ?_ ?_
    · rw [hsignature]
      rfl
    · exact congrArg Except.ok (hsigned _)
  refine then_ok rfl ?_
  refine then_ok (mapError_iff.mpr hvalue) ?_
  refine then_ok hmanifest ?_
  exact then_ok hvalid rfl

theorem createDsseAttestation_ok {signingKey : Bytes} {keyid : String} {envelope : DsseEnvelope}
    {receipt : ExecutionReceipt}
    (h : createDsseAttestation lib ed readers root signingKey keyid = .ok envelope)
    (hmanifest : readJson readers.manifest root manifestPath = .ok manifest)
    (hreceipt : readJson readers.receipt root receiptPath = .ok receipt) :
    envelope.payload = lib.encodeBase64 (statementBytes lib (intotoStatement manifest receipt)) := by
  obtain ⟨manifest', hmanifest', h⟩ := bind_iff.mp h
  obtain ⟨receipt', hreceipt', h⟩ := bind_iff.mp h
  obtain ⟨_, -, h⟩ := bind_iff.mp h
  rw [hmanifest, Except.ok.injEq] at hmanifest'
  rw [hreceipt, Except.ok.injEq] at hreceipt'
  rw [← Except.ok.inj h, hmanifest', hreceipt']

/-- The statement of an envelope is read back. -/
def ReadsBack (lib : Offline) (readers : Readers) (statement : Value) : Prop :=
  lib.decodeBase64 (lib.encodeBase64 (statementBytes lib statement)) =
      some (statementBytes lib statement) ∧
    readers.value (statementBytes lib statement) = .ok statement

theorem attestation_binds_iff (lib : Offline) (ed : Ed25519) (readers : Readers) (root : Directory)
    (envelope : DsseEnvelope) (key : Bytes) (statement : Value) (manifest : CapsuleManifest)
    (hverified : verifyDsseAttestation lib ed readers root envelope key = .ok statement)
    (hmanifest : readJson readers.manifest root manifestPath = .ok manifest) :
    (Attests lib readers root manifest statement ↔ Unchecked lib readers root manifest statement) ∧
      ∀ other signingKey keyid otherManifest receipt,
        createDsseAttestation lib ed readers other signingKey keyid = .ok envelope →
        readJson readers.manifest other manifestPath = .ok otherManifest →
        readJson readers.receipt other receiptPath = .ok receipt →
        ReadsBack lib readers (intotoStatement otherManifest receipt) →
        (NamesDigests lib readers root statement ↔
          ∃ context, approvalContext lib readers root none = .ok context ∧
            receipt.resultDigest = context.resultDigest ∧
            receipt.workflowDigest.text = context.workflowDigest ∧
            receipt.verificationGraphDigest = some context.verificationGraphDigest) := by
  obtain ⟨payload, hpayload, hvalue, hvalid⟩ := verifyDsseAttestation_ok hverified hmanifest
  refine ⟨attests_iff hvalid, ?_⟩
  intro other signingKey keyid otherManifest receipt hcreate hother hreceipt ⟨hdecode, hparse⟩
  rw [createDsseAttestation_ok hcreate hother hreceipt, hdecode, Option.some.injEq] at hpayload
  rw [← hpayload, hparse, Except.ok.injEq] at hvalue
  obtain ⟨hresult, hworkflow, hgraph⟩ :=
    @predicateText_statementOf (outputsOf otherManifest) receipt
  rw [← hvalue, intotoStatement, NamesDigests, hresult, hworkflow, hgraph]
  simp only [Option.some.injEq]

end

namespace Sample

/-! A statement of the capsule, and one that names the page three times. -/

/-- A stand-in for the signature scheme, with one key in both places. -/
def scheme : Ed25519 :=
  { sign := fun key message =>
      key ++ List.replicate 31 0 ++ [UInt8.ofNat (message.map UInt8.toNat).sum]
    validKey := fun key => key.length == 32
    validSignature := fun signature => signature.length == 64
    verify := fun key message signature =>
      signature == key ++ List.replicate 31 0 ++ [UInt8.ofNat (message.map UInt8.toNat).sum] }

def signer : Bytes := List.replicate 32 7

def htmlEntry : CapsuleEntry :=
  entryOf (htmlPath, "map-artifact", "text/html; charset=utf-8", Bytes.ofText html)

def statement : Value := intotoStatement (manifest wards) receipt

def repeated : Value := statementOf [htmlEntry, htmlEntry, htmlEntry] receipt

def signedReaders : Readers := { serde with value := parse write [statement, repeated] }

def envelope (statement : Value) : DsseEnvelope :=
  envelopeOf library scheme signer "test-ed25519" statement

theorem outputs_wards : (outputsOf (manifest wards)).length = 3 := by
  decide

theorem htmlEntry_mem : htmlEntry ∈ (manifest wards).entries := .head _

theorem valid_statement : validateIntotoStatement statement.json (manifest wards) = .ok () := by
  refine validate_statementOf paths_distinct (fun _ => mem_of_mem_filter) rfl ?_
  intro hnil
  have hlength := outputs_wards
  rw [hnil] at hlength
  cases hlength

theorem valid_repeated : validateIntotoStatement repeated.json (manifest wards) = .ok () := by
  refine validate_statementOf paths_distinct ?_ outputs_wards.symm (cons_ne_nil _ _)
  intro entry hentry
  simp only [mem_cons, not_mem_nil, or_false, or_self] at hentry
  rw [hentry]
  exact htmlEntry_mem

theorem signed_manifest : signedReaders.manifest = serde.manifest := by
  rw [signedReaders]

theorem signed_value : signedReaders.value = parse write [statement, repeated] := by
  rw [signedReaders]

theorem readJson_signed {root : Directory}
    (h : root.read manifestPath = .ok (manifestText (manifest wards))) :
    readJson signedReaders.manifest root manifestPath = .ok (manifest wards) := by
  rw [signed_manifest]
  exact readJson_ok.mpr ⟨_, h, parse_manifest mem_cons_self⟩

theorem library_base64 (bytes : Bytes) :
    library.decodeBase64 (library.encodeBase64 bytes) = some bytes := Base64.decode_encode bytes

theorem verify_signed {root : Directory} {statement' : Value}
    (hroot : root.read manifestPath = .ok (manifestText (manifest wards)))
    (hmem : statement' ∈ [statement, repeated])
    (hvalid : validateIntotoStatement statement'.json (manifest wards) = .ok ()) :
    verifyDsseAttestation library scheme signedReaders root (envelope statement') signer =
      .ok statement' := by
  have hparse : signedReaders.value (write statement') = .ok statement' := by
    rw [signed_value]
    exact parse_of_mem write_inj hmem
  refine verify_envelopeOf library_base64 rfl ?_ ?_ hparse (readJson_signed hroot) hvalid
  · intro message
    rfl
  · intro message
    exact beq_self_eq_true _

theorem readJson_receipt :
    readJson signedReaders.receipt (capsule wards) receiptPath = .ok receipt := by
  rw [signedReaders, serde]
  exact readJson_file receipt receipt_mem

theorem create_signed : createDsseAttestation library scheme signedReaders (capsule wards) signer
    "test-ed25519" = .ok (envelope statement) := by
  refine then_ok (readJson_signed (read_of_lookup lookup_manifest)) ?_
  refine then_ok readJson_receipt ?_
  exact then_ok valid_statement rfl

theorem reads_back : ReadsBack library signedReaders statement := by
  refine ⟨library_base64 _, ?_⟩
  rw [signed_value]
  exact parse_of_mem write_inj mem_cons_self

/-- The attestation of a capsule, checked for the capsule. -/
theorem signed_binds : (Attests library signedReaders (capsule wards) (manifest wards) statement ↔
        Unchecked library signedReaders (capsule wards) (manifest wards) statement) ∧
      (NamesDigests library signedReaders (capsule wards) statement ↔
        ∃ context, approvalContext library signedReaders (capsule wards) none = .ok context ∧
          receipt.resultDigest = context.resultDigest ∧
          receipt.workflowDigest.text = context.workflowDigest ∧
          receipt.verificationGraphDigest = some context.verificationGraphDigest) := by
  have hmanifest := readJson_signed (read_of_lookup (@lookup_manifest wards))
  obtain ⟨hbinds, hreplay⟩ := attestation_binds_iff library scheme signedReaders (capsule wards)
    (envelope statement) signer statement (manifest wards)
    (verify_signed (read_of_lookup lookup_manifest) mem_cons_self valid_statement) hmanifest
  exact ⟨hbinds, hreplay (capsule wards) signer "test-ed25519" (manifest wards) receipt
    create_signed hmanifest readJson_receipt reads_back⟩

/-- The page stands for all three outputs, and an attestation outlives the map that it names. -/
theorem repeated_attested :
    (verifyDsseAttestation library scheme signedReaders (capsule wards) (envelope repeated) signer =
        .ok repeated ∧
      readJson signedReaders.manifest (capsule wards) manifestPath = .ok (manifest wards) ∧
      ¬ Attests library signedReaders (capsule wards) (manifest wards) repeated) ∧
    createDsseAttestation library scheme signedReaders (capsule wards) signer "test-ed25519" =
        .ok (envelope statement) ∧
      verifyDsseAttestation library scheme signedReaders edited (envelope statement) signer =
        .ok statement ∧
      readJson signedReaders.manifest edited manifestPath = .ok (manifest wards) ∧
      ¬ Attests library signedReaders edited (manifest wards) statement := by
  have hroot : (capsule wards).read manifestPath = .ok (manifestText (manifest wards)) :=
    read_of_lookup lookup_manifest
  have hedited : edited.read manifestPath = .ok (manifestText (manifest wards)) := by
    rw [read_edited (by decide)]
    exact hroot
  refine ⟨⟨verify_signed hroot (.tail _ (.head _)) valid_repeated, readJson_signed hroot, ?_⟩,
    create_signed, verify_signed hedited (.head _) valid_statement, readJson_signed hedited, ?_⟩
  · intro h
    have hdistinct := h.distinct
    rw [repeated, signedNames_statementOf] at hdistinct
    simp at hdistinct
  · intro h
    have hentry : entryOf (pngPath, "map-artifact", "image/png", png) ∈
        outputsOf (manifest wards) := mem_filter.mpr ⟨mem_map_of_mem png_mem, rfl⟩
    have hsubject : (subjectDocument (entryOf (pngPath, "map-artifact", "image/png", png))).json ∈
        signedSubjects statement := by
      rw [statement, intotoStatement, signedSubjects_statementOf]
      exact mem_map_of_mem hentry
    obtain ⟨name, bytes, hex, hname, hbytes, hhex, hdigest⟩ := h.files _ hsubject
    rw [subjectName_document, Option.some.injEq] at hname
    rw [signedDigest_document, withoutPrefix_iff, ← hdigest] at hhex
    have hnew : edited.read pngPath = .ok (png ++ [0]) := rfl
    rw [← hname] at hbytes
    have hsame : png ++ [0] = bytes := Except.ok.inj (hnew.symm.trans hbytes)
    rw [← hsame] at hhex
    exact digest_edited hhex

end Sample

end Capsule
end GeneGIS
