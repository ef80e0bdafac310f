/-
A gate is passed when its list of failures is empty, and `verified_le_level` says that without
failures the level is at least verified.
-/
import GeneGIS.Contract.Policy

namespace GeneGIS

open List Std.ExtTreeSet
open Bool hiding and_assoc not_false not_not not_true true_and

/-! ## Source assurance -/

namespace Assurance

variable {rt : Runtime} {p : AssurancePolicy} {a : SourceAssurance}

theorem failUnless_nil {ok : Bool} {code subject detail : String} :
    failUnless ok code subject detail = [] ↔ ok = true := by
  cases ok with
  | true => exact iff_of_true rfl rfl
  | false => exact iff_of_false nofun (by decide)

theorem passed_iff :
    (assess rt p a).passed = true ↔ identityFailures a = [] ∧ policyFailures p a = [] ∧
      p.minimumIndependentCorroborations ≤ independentCount a := by
  unfold assess
  by_cases hidentity : identityFailures a = []
  · by_cases hpolicy : policyFailures p a = []
    · by_cases hcount : independentCount a < p.minimumIndependentCorroborations
      · simp only [hidentity, hpolicy, hcount, ne_eq, not_true_eq_false, if_false, if_true]
        refine iff_of_false nofun fun h => ?_
        omega
      · simp only [hidentity, hpolicy, hcount, ne_eq, not_true_eq_false, if_false]
        exact iff_of_true rfl ⟨trivial, trivial, by omega⟩
    · simp only [hidentity, hpolicy, ne_eq, not_true_eq_false, not_false_eq_true, if_false, if_true]
      exact iff_of_false nofun fun h => h.2.1
  · simp only [hidentity, ne_eq, not_false_eq_true, if_true]
    exact iff_of_false nofun fun h => h.1

theorem failures_ne_nil (h : (assess rt p a).passed = false) : (assess rt p a).failures ≠ [] := by
  unfold assess at h ⊢
  by_cases hidentity : identityFailures a = []
  · by_cases hpolicy : policyFailures p a = []
    · by_cases hcount : independentCount a < p.minimumIndependentCorroborations
      · simp [hidentity, hpolicy, hcount, report]
      · simp [hidentity, hpolicy, hcount, report] at h
    · simp [hidentity, hpolicy, report]
  · simp [hidentity, report]

theorem freshnessFailures_nil :
    freshnessFailures p a = [] ↔ ∀ maximum, p.maxAgeDays = some maximum →
      a.publishedAt.isSome = true ∧ ∃ age, a.observedAgeDays = some age ∧ age ≤ maximum := by
  unfold freshnessFailures
  cases hmaximum : p.maxAgeDays with
  | none => exact iff_of_true rfl fun m h => by cases h
  | some maximum =>
    simp only [Option.some.injEq, forall_eq']
    cases hpublished : a.publishedAt with
    | none => exact iff_of_false nofun fun h => by cases h.1
    | some published =>
      cases hage : a.observedAgeDays with
      | none =>
        refine iff_of_false nofun fun h => ?_
        obtain ⟨age, hage, -⟩ := h.2
        cases hage
      | some age =>
        simp only [failUnless_nil, decide_eq_true_eq, Option.isSome_some, Option.some.injEq,
          exists_eq_left', true_and]

theorem policyFailures_nil :
    policyFailures p a = [] ↔ authorityFailures p a = [] ∧ freshnessFailures p a = [] ∧
      checkFailures [] a.checks = [] ∧ (∀ k ∈ p.requiredChecks, requiredCheckFailures a k = []) ∧
      uncertaintyFailures p a = [] ∧ limitationFailures p a = [] ∧ disputeFailures p a = [] := by
  simp only [policyFailures, append_eq_nil_iff, flatMap_eq_nil_iff, mem_toList, and_assoc]

end Assurance

namespace VerificationPolicy

variable {rt : Runtime} {p : VerificationPolicy} {e : TrustEvidence}

theorem failUnless_nil {ok : Bool} {gate : TrustGate} {code subject detail : String} :
    failUnless ok gate code subject detail = [] ↔ ok = true := by
  cases ok with
  | true => exact iff_of_true rfl rfl
  | false => exact iff_of_false nofun (by decide)

theorem requirementFailures_nil {seen : List String} {checks : List CheckRequirement}
    (h : requirementFailures seen checks = []) :
    (checks.map CheckRequirement.checkId).Nodup ∧ ∀ r ∈ checks, r.checkId ∉ seen := by
  induction checks generalizing seen with
  | nil => exact ⟨nodup_nil, by simp⟩
  | cons r rest ih =>
    simp only [requirementFailures, append_eq_nil_iff, failUnless_nil, not_eq_true',
      or_eq_false_iff, decide_eq_false_iff_not] at h
    obtain ⟨⟨⟨hnamed, hfresh⟩, -⟩, hrest⟩ := h
    rw [hnamed] at hrest
    obtain ⟨hnodup, hseen⟩ := ih hrest
    constructor
    · rw [map_cons, nodup_cons]
      refine ⟨fun hmem => ?_, hnodup⟩
      obtain ⟨r', hr', hid⟩ := mem_map.mp hmem
      exact hseen r' hr' (by rw [hid]; exact mem_cons_self)
    · rw [forall_mem_cons]
      exact ⟨hfresh, fun r' hr' hmem => hseen r' hr' (mem_cons_of_mem _ hmem)⟩

theorem validatePolicy_distinct (h : validatePolicy p = []) :
    (p.requiredChecks.map CheckRequirement.checkId).Nodup := by
  simp only [validatePolicy, append_eq_nil_iff] at h
  exact (requirementFailures_nil h.2).1

theorem validatePolicy_schema (h : validatePolicy p = []) :
    p.geoContractSchemaVersion = GeoContract.currentSchemaVersion := by
  simp only [validatePolicy, append_eq_nil_iff, failUnless_nil, decide_eq_true_eq] at h
  exact h.1.2

structure ContractOk (p : VerificationPolicy) (c : ContractEvidence) : Prop where
  valid : c.valid = true
  schema : c.schemaVersion = p.geoContractSchemaVersion
  compatible : c.compatibility = .compatible

theorem contractFailures_nil {contracts : List ContractEvidence} {required : String} :
    contractFailures p contracts required = [] ↔
      ∃ c, (contracts.find? fun c => c.contractId = required) = some c ∧ ContractOk p c := by
  unfold contractFailures
  cases hfind : contracts.find? fun c => c.contractId = required with
  | none =>
    refine iff_of_false nofun fun h => ?_
    obtain ⟨c, hc, -⟩ := h
    cases hc
  | some c =>
    simp only [failUnless_nil, not_eq_true', or_eq_false_iff, decide_eq_false_iff_not,
      not_not, Bool.not_eq_false', Option.some.injEq, exists_eq_left']
    constructor
    · intro h
      exact ⟨h.1.1, h.1.2, h.2⟩
    · intro h
      exact ⟨⟨h.valid, h.schema⟩, h.compatible⟩

/-! ## Sources -/

/-- A source meets what a policy requires of sources. -/
structure SourceOk (rt : Runtime) (p : VerificationPolicy) (s : SourceEvidence) : Prop where
  verified : p.requireVerifiedSources = true → s.checksumStatus = .verified
  version : p.requireSourceVersion = true → s.sourceVersionPresent = true
  license : p.requireLicense = true → s.licensePresent = true
  assurance : ∀ policy, p.sourceAssurance = some policy → ∃ a, s.assurance = some a ∧
    a.sourceId = s.sourceId ∧ (Assurance.assess rt policy a).passed = true

theorem assuranceFailures_nil {s : SourceEvidence} :
    assuranceFailures rt p s = [] ↔ ∀ policy, p.sourceAssurance = some policy →
      ∃ a, s.assurance = some a ∧ a.sourceId = s.sourceId ∧
        (Assurance.assess rt policy a).passed = true := by
  unfold assuranceFailures
  cases hpolicy : p.sourceAssurance with
  | none => exact iff_of_true rfl fun policy h => by cases h
  | some policy =>
    simp only [Option.some.injEq, forall_eq']
    cases hassurance : s.assurance with
    | none =>
      refine iff_of_false nofun fun h => ?_
      obtain ⟨a, ha, -⟩ := h
      cases ha
    | some a =>
      simp only [Option.some.injEq, exists_eq_left']
      by_cases hid : a.sourceId = s.sourceId
      · rw [if_neg (not_not.mpr hid)]
        cases hpassed : (Assurance.assess rt policy a).passed with
        | true => exact iff_of_true rfl ⟨hid, rfl⟩
        | false =>
          refine iff_of_false ?_ fun h => by cases h.2
          intro hmap
          exact Assurance.failures_ne_nil hpassed (map_eq_nil_iff.mp hmap)
      · rw [if_pos hid]
        exact iff_of_false nofun fun h => hid h.1

/-- A dossier that is there belongs to the snapshot and has the digest that is stated. -/
def Bound (rt : Runtime) (s : SourceEvidence) : Prop := ∀ a, s.assurance = some a →
    s.snapshotDigest = some a.snapshotDigest ∧ s.assuranceDigest = some (a.digest rt)

theorem bindingFailures_nil {s : SourceEvidence} : bindingFailures rt s = [] ↔ Bound rt s := by
  unfold bindingFailures Bound
  cases hassurance : s.assurance with
  | none => exact iff_of_true rfl fun a h => by cases h
  | some a =>
    simp only [append_eq_nil_iff, failUnless_nil, decide_eq_true_eq, Option.some.injEq, forall_eq']

theorem sourceFailures_nil {s : SourceEvidence} :
    sourceFailures rt p s = [] ↔ SourceOk rt p s ∧ Bound rt s := by
  have himp : ∀ a b : Bool, (!a || b) = true ↔ (a = true → b = true) := by decide
  simp only [sourceFailures, append_eq_nil_iff, failUnless_nil, himp, assuranceFailures_nil,
    bindingFailures_nil, decide_eq_true_eq]
  constructor
  · intro h
    obtain ⟨⟨⟨⟨hverified, hversion⟩, hlicense⟩, hbinding⟩, hassurance⟩ := h
    exact ⟨⟨hverified, hversion, hlicense, hassurance⟩, hbinding⟩
  · intro h
    obtain ⟨hok, hbinding⟩ := h
    exact ⟨⟨⟨⟨hok.verified, hok.version⟩, hok.license⟩, hbinding⟩, hok.assurance⟩

/-- The policy asks something of every source. -/
def flagged (p : VerificationPolicy) : Bool :=
  p.requireVerifiedSources || p.requireSourceVersion || p.requireLicense

theorem missingSources_nil {sources : List SourceEvidence} :
    missingSources p sources = [] ↔ (p.flagged = true → sources ≠ []) := by
  rw [missingSources, failUnless_nil, ← flagged]
  cases hflag : p.flagged with
  | false => simp
  | true => cases sources <;> simp

structure CheckOk (r : CheckRequirement) (c : VerificationEvidence) : Prop where
  passed : c.passed = true
  independence : r.acceptedIndependence.contains c.independence = true
  digest : c.evidenceDigest.any validDigest = true
  tolerance : ∀ maximum, r.maxErrorPpm = some maximum →
    ∃ observed, c.observedErrorPpm = some observed ∧ observed ≤ maximum

theorem toleranceFailures_nil {r : CheckRequirement} {c : VerificationEvidence} :
    toleranceFailures r c = [] ↔ ∀ maximum, r.maxErrorPpm = some maximum →
      ∃ observed, c.observedErrorPpm = some observed ∧ observed ≤ maximum := by
  unfold toleranceFailures
  cases hmaximum : r.maxErrorPpm with
  | none => exact iff_of_true rfl fun m h => by cases h
  | some maximum =>
    simp only [Option.some.injEq, forall_eq']
    cases hobserved : c.observedErrorPpm with
    | none =>
      refine iff_of_false nofun fun h => ?_
      obtain ⟨observed, ho, -⟩ := h
      cases ho
    | some observed => simp only [failUnless_nil, decide_eq_true_eq, Option.some.injEq, exists_eq_left']

theorem checkFailures_nil {checks : List VerificationEvidence} {r : CheckRequirement} :
    checkFailures checks r = [] ↔
      ∃ c, (checks.find? fun c => c.checkId = r.checkId) = some c ∧ CheckOk r c := by
  unfold checkFailures
  cases hfind : checks.find? fun c => c.checkId = r.checkId with
  | none =>
    refine iff_of_false nofun fun h => ?_
    obtain ⟨c, hc, -⟩ := h
    cases hc
  | some c =>
    simp only [Option.some.injEq, exists_eq_left']
    by_cases hpassed : c.passed = true
    · by_cases hindependent : r.acceptedIndependence.contains c.independence = true
      · by_cases hdigest : c.evidenceDigest.any validDigest = true
        · simp only [hpassed, hindependent, hdigest, Bool.not_true, Bool.false_eq_true, if_false,
            toleranceFailures_nil]
          exact ⟨fun h => ⟨hpassed, hindependent, hdigest, h⟩, fun h => h.tolerance⟩
        · simp only [hpassed, hindependent, hdigest, Bool.not_true, Bool.not_false,
            Bool.false_eq_true, if_false, if_true]
          exact iff_of_false nofun fun h => hdigest h.digest
      · simp only [hpassed, hindependent, Bool.not_true, Bool.not_false, Bool.false_eq_true,
          if_false, if_true]
        exact iff_of_false nofun fun h => hindependent h.independence
    · simp only [hpassed, Bool.not_false, if_true]
      exact iff_of_false nofun fun h => hpassed h.passed

def Replays (p : VerificationPolicy) (e : TrustEvidence) : Prop :=
  validatePolicy p = [] ∧ replayFailures p e.replay = []

theorem verificationFailures_nil : verificationFailures rt p e = [] ↔
      (∀ id ∈ p.requiredContracts, contractFailures p e.contracts id = []) ∧
      (∀ s ∈ e.sources, sourceFailures rt p s = []) ∧ missingSources p e.sources = [] ∧
      ∀ r ∈ p.requiredChecks, checkFailures e.checks r = [] := by
  simp only [verificationFailures, append_eq_nil_iff, flatMap_eq_nil_iff, mem_toList, and_assoc]

theorem attestationFailures_nil {attestation : Option AttestationEvidence} :
    attestationFailures p attestation = [] ↔ ∃ a, attestation = some a ∧
      a.signatureVerified = true ∧ a.signer ∈ p.acceptedAttesters := by
  unfold attestationFailures
  by_cases hempty : p.acceptedAttesters.isEmpty = true
  · rw [if_pos hempty]
    refine iff_of_false nofun fun h => ?_
    obtain ⟨a, -, -, hsigner⟩ := h
    rw [isEmpty_iff.mp hempty] at hsigner
    exact not_mem_empty hsigner
  · rw [if_neg hempty]
    cases attestation with
    | none =>
      refine iff_of_false nofun fun h => ?_
      obtain ⟨a, ha, -⟩ := h
      cases ha
    | some a =>
      simp only [Option.some.injEq, exists_eq_left']
      by_cases hverified : a.signatureVerified = true
      · by_cases hsigner : p.acceptedAttesters.contains a.signer = true
        · simp only [hverified, hsigner, Bool.not_true, Bool.false_eq_true, if_false]
          exact iff_of_true trivial ⟨trivial, Std.ExtTreeSet.contains_iff_mem.mp hsigner⟩
        · simp only [hverified, hsigner, Bool.not_true, Bool.not_false, Bool.false_eq_true,
            if_false, if_true]
          exact iff_of_false nofun fun h =>
            hsigner (Std.ExtTreeSet.contains_iff_mem.mpr h.2)
      · simp only [hverified, Bool.not_false, if_true]
        exact iff_of_false nofun fun h => by cases h.1

theorem level_cases (rt : Runtime) (p : VerificationPolicy) (e : TrustEvidence) :
    (¬ Replays p e ∧ (assess rt p e).level = .exploratory) ∨
    (Replays p e ∧ verificationFailures rt p e ≠ [] ∧ (assess rt p e).level = .replayable) ∨
    (Replays p e ∧ verificationFailures rt p e = [] ∧ attestationFailures p e.attestation ≠ [] ∧
      (assess rt p e).level = .verified) ∨
    (Replays p e ∧ verificationFailures rt p e = [] ∧ attestationFailures p e.attestation = [] ∧
      (assess rt p e).level = .attested) := by
  have hreplays : Replays p e ↔ validatePolicy p ++ replayFailures p e.replay = [] := by
    rw [append_eq_nil_iff, Replays]
  rw [hreplays]
  unfold assess
  by_cases hreplay : validatePolicy p ++ replayFailures p e.replay = []
  · by_cases hverification : verificationFailures rt p e = []
    · by_cases hattestation : attestationFailures p e.attestation = []
      · simp [hreplay, hverification, hattestation]
      · simp [hreplay, hverification, hattestation]
    · simp [hreplay, hverification]
  · simp [hreplay]

theorem verified_le_level :
    .verified ≤ (assess rt p e).level ↔ Replays p e ∧ verificationFailures rt p e = [] := by
  rcases level_cases rt p e with h | h | h | h
  · rw [h.2]
    exact iff_of_false (by decide) fun h' => h.1 h'.1
  · rw [h.2.2]
    exact iff_of_false (by decide) fun h' => h.2.1 h'.2
  · rw [h.2.2.2]
    exact iff_of_true (by decide) ⟨h.1, h.2.1⟩
  · rw [h.2.2.2]
    exact iff_of_true (by decide) ⟨h.1, h.2.1⟩

end VerificationPolicy
end GeneGIS
