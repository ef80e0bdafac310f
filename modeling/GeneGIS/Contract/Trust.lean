/-
A stronger policy never raises the level.  The level is sound and independent of the order exactly
when no required identifier has entries that differ and no assurance stands without a source, or
verified is out of reach.
-/
import GeneGIS.Contract.Gates
import GeneGIS.Data.Keyed

namespace GeneGIS.VerificationPolicy

open List

variable {rt : Runtime} {p q : VerificationPolicy} {e e' : TrustEvidence}

theorem find?_partition {α κ : Type} [DecidableEq κ] {key : α → κ} {k : κ} {l : List α}
    {good : α → Bool} (h : ∃ x ∈ l, key x = k ∧ good x = true) :
    ∃ y, ((l.filter good ++ l.filter fun x => !good x).find? fun x => key x = k) = some y ∧
      y ∈ l ∧ key y = k ∧ good y = true := by
  obtain ⟨x, hx, hkey, hgood⟩ := h
  have hsome : ((l.filter good).find? fun x => key x = k).isSome = true := by
    rw [find?_isSome]
    exact ⟨x, mem_filter.mpr ⟨hx, hgood⟩, decide_eq_true hkey⟩
  obtain ⟨y, hy⟩ := Option.isSome_iff_exists.mp hsome
  have hmem := mem_filter.mp (mem_of_find?_eq_some hy)
  refine ⟨y, ?_, hmem.1, by simpa using find?_some hy, hmem.2⟩
  rw [find?_append, hy]
  rfl

theorem exists_find? {α κ : Type} [DecidableEq κ] {key : α → κ} {k : κ} {l : List α}
    {P : α → Prop} (h : ∃ x ∈ l, key x = k) (hall : ∀ x ∈ l, key x = k → P x) :
    ∃ y, (l.find? fun x => key x = k) = some y ∧ P y := by
  obtain ⟨x, hx, hkey⟩ := h
  have hsome : (l.find? fun x => key x = k).isSome = true := by
    rw [find?_isSome]
    exact ⟨x, hx, decide_eq_true hkey⟩
  obtain ⟨y, hy⟩ := Option.isSome_iff_exists.mp hsome
  exact ⟨y, hy, hall y (mem_of_find?_eq_some hy) (by simpa using find?_some hy)⟩

/-! ## Soundness and order -/

/-- The policy requires something of sources. -/
def requiresSources (p : VerificationPolicy) : Bool := p.flagged || p.sourceAssurance.isSome

/-- What a verified level should mean. -/
structure Sound (rt : Runtime) (p : VerificationPolicy) (e : TrustEvidence) : Prop where
  contracts : ∀ id ∈ p.requiredContracts, ∀ c ∈ e.contracts, c.contractId = id → ContractOk p c
  checks : ∀ r ∈ p.requiredChecks, ∀ c ∈ e.checks, c.checkId = r.checkId → CheckOk r c
  sources : p.requiresSources = true → e.sources ≠ [] ∧ ∀ s ∈ e.sources, SourceOk rt p s

/-- The same evidence with its lists in another order. -/
structure Reordered (e e' : TrustEvidence) : Prop where
  workflow : e'.replay.workflowDigest = e.replay.workflowDigest
  result : e'.replay.resultDigest = e.replay.resultDigest
  backend : e'.replay.backendIdentity = e.replay.backendIdentity
  artifacts : e'.replay.artifactDigests.Perm e.replay.artifactDigests
  contracts : e'.contracts.Perm e.contracts
  sources : e'.sources.Perm e.sources
  checks : e'.checks.Perm e.checks
  attestation : e'.attestation = e.attestation

/-- The evidence reaches verified if its entries stand in the right order. -/
structure Attainable (rt : Runtime) (p : VerificationPolicy) (e : TrustEvidence) : Prop where
  replays : Replays p e
  sources : ∀ s ∈ e.sources, SourceOk rt p s ∧ Bound rt s
  present : p.flagged = true → e.sources ≠ []
  contracts : ∀ id ∈ p.requiredContracts, ∃ c ∈ e.contracts, c.contractId = id ∧ ContractOk p c
  checks : ∀ r ∈ p.requiredChecks, ∃ c ∈ e.checks, c.checkId = r.checkId ∧ CheckOk r c

/-- No required identifier has entries of both outcomes, and a required assurance comes with a
source. -/
structure Consistent (p : VerificationPolicy) (e : TrustEvidence) : Prop where
  contracts : ∀ id ∈ p.requiredContracts, ∀ c ∈ e.contracts, ∀ c' ∈ e.contracts,
    c.contractId = id → c'.contractId = id → ContractOk p c → ContractOk p c'
  checks : ∀ r ∈ p.requiredChecks, ∀ c ∈ e.checks, ∀ c' ∈ e.checks,
    c.checkId = r.checkId → c'.checkId = r.checkId → CheckOk r c → CheckOk r c'
  sources : p.sourceAssurance.isSome = true → e.sources ≠ []

theorem attainable_of_verified (h : .verified ≤ (assess rt p e).level) : Attainable rt p e := by
  obtain ⟨hreplays, hverification⟩ := verified_le_level.mp h
  obtain ⟨hcontracts, hsources, hpresent, hchecks⟩ := verificationFailures_nil.mp hverification
  refine ⟨hreplays, fun s hs => sourceFailures_nil.mp (hsources s hs),
    missingSources_nil.mp hpresent, fun id hid => ?_, fun r hr => ?_⟩
  · obtain ⟨c, hc, hok⟩ := contractFailures_nil.mp (hcontracts id hid)
    exact ⟨c, mem_of_find?_eq_some hc, by simpa using find?_some hc, hok⟩
  · obtain ⟨c, hc, hok⟩ := checkFailures_nil.mp (hchecks r hr)
    exact ⟨c, mem_of_find?_eq_some hc, by simpa using find?_some hc, hok⟩

theorem sound_of_consistent (ha : Attainable rt p e) (hc : Consistent p e) : Sound rt p e := by
  refine ⟨fun id hid c hmem hkey => ?_, fun r hr c hmem hkey => ?_, fun hrequires => ?_⟩
  · obtain ⟨c₀, hmem₀, hkey₀, hok⟩ := ha.contracts id hid
    exact hc.contracts id hid c₀ hmem₀ c hmem hkey₀ hkey hok
  · obtain ⟨c₀, hmem₀, hkey₀, hok⟩ := ha.checks r hr
    exact hc.checks r hr c₀ hmem₀ c hmem hkey₀ hkey hok
  · refine ⟨?_, fun s hs => (ha.sources s hs).1⟩
    rcases Bool.or_eq_true_iff.mp hrequires with hflag | hassurance
    · exact ha.present hflag
    · exact hc.sources hassurance

theorem verification_of_attainable (ha : Attainable rt p e) : verificationFailures rt p e = [] ↔
      (∀ id ∈ p.requiredContracts, contractFailures p e.contracts id = []) ∧
      ∀ r ∈ p.requiredChecks, checkFailures e.checks r = [] := by
  have hsources : ∀ s ∈ e.sources, sourceFailures rt p s = [] :=
    fun s hs => sourceFailures_nil.mpr (ha.sources s hs)
  rw [verificationFailures_nil, missingSources_nil]
  exact ⟨fun h => ⟨h.1, h.2.2.2⟩, fun h => ⟨h.1, hsources, ha.present, h.2⟩⟩

theorem verified_of_consistent (ha : Attainable rt p e) (hc : Consistent p e) :
    .verified ≤ (assess rt p e).level := by
  have hsound := sound_of_consistent ha hc
  refine verified_le_level.mpr ⟨ha.replays, (verification_of_attainable ha).mpr
    ⟨fun id hid => ?_, fun r hr => ?_⟩⟩
  · obtain ⟨c, hmem, hkey, -⟩ := ha.contracts id hid
    exact contractFailures_nil.mpr (exists_find? ⟨c, hmem, hkey⟩ (hsound.contracts id hid))
  · obtain ⟨c, hmem, hkey, -⟩ := ha.checks r hr
    exact checkFailures_nil.mpr (exists_find? ⟨c, hmem, hkey⟩ (hsound.checks r hr))

/-! ## Reordering -/

namespace Reordered

theorem replays_iff (h : Reordered e e') : Replays p e' ↔ Replays p e := by
  have hcount : validArtifacts e'.replay = validArtifacts e.replay :=
    (h.artifacts.filter validDigest).length_eq
  simp only [Replays, replayFailures, h.workflow, h.result, h.backend, hcount]

theorem sources_nil (h : Reordered e e') : e'.sources = [] ↔ e.sources = [] := by
  constructor
  · intro hnil
    exact (hnil ▸ h.sources).nil_eq.symm
  · intro hnil
    exact (hnil ▸ h.sources).eq_nil

theorem attainable (h : Reordered e e') (ha : Attainable rt p e) : Attainable rt p e' := by
  refine ⟨h.replays_iff.mpr ha.replays, fun s hs => ha.sources s (h.sources.mem_iff.mp hs), ?_,
    fun id hid => ?_, fun r hr => ?_⟩
  · rw [ne_eq, h.sources_nil]
    exact ha.present
  · obtain ⟨c, hc, hrest⟩ := ha.contracts id hid
    exact ⟨c, h.contracts.mem_iff.mpr hc, hrest⟩
  · obtain ⟨c, hc, hrest⟩ := ha.checks r hr
    exact ⟨c, h.checks.mem_iff.mpr hc, hrest⟩

theorem consistent (h : Reordered e e') (hc : Consistent p e) : Consistent p e' := by
  refine ⟨fun id hid c hm c' hm' => ?_, fun r hr c hm c' hm' => ?_, fun hassurance => ?_⟩
  · exact hc.contracts id hid c (h.contracts.mem_iff.mp hm) c' (h.contracts.mem_iff.mp hm')
  · exact hc.checks r hr c (h.checks.mem_iff.mp hm) c' (h.checks.mem_iff.mp hm')
  · rw [ne_eq, h.sources_nil]
    exact hc.sources hassurance

theorem symm (h : Reordered e e') : Reordered e' e :=
  ⟨h.workflow.symm, h.result.symm, h.backend.symm, h.artifacts.symm, h.contracts.symm,
    h.sources.symm, h.checks.symm, h.attestation.symm⟩

theorem level_eq (h : Reordered e e')
    (hverified : .verified ≤ (assess rt p e').level ↔ .verified ≤ (assess rt p e).level) :
    (assess rt p e').level = (assess rt p e).level := by
  rw [verified_le_level, verified_le_level, h.replays_iff] at hverified
  have hafter := level_cases rt p e'
  rw [h.replays_iff, h.attestation] at hafter
  rcases level_cases rt p e with hb | hb | hb | hb <;> rcases hafter with ha | ha | ha | ha <;>
    simp_all

end Reordered

theorem attainable_reordered (ha : Attainable rt p e) :
    ∃ e', Reordered e e' ∧ .verified ≤ (assess rt p e').level := by
  classical
  -- A check that satisfies one requirement satisfies every requirement of its identifier.
  have hunique : ∀ r ∈ p.requiredChecks, ∀ r' ∈ p.requiredChecks, r.checkId = r'.checkId → r = r' :=
    fun r hr r' hr' => Keyed.eq_of_mem (validatePolicy_distinct ha.replays.1) hr hr'
  let goodContract : ContractEvidence → Bool := fun c => decide (ContractOk p c)
  let goodCheck : VerificationEvidence → Bool := fun c =>
    decide (∀ r ∈ p.requiredChecks, r.checkId = c.checkId → CheckOk r c)
  let sorted : TrustEvidence :=
    { e with
      contracts := e.contracts.filter goodContract ++ e.contracts.filter fun c => !goodContract c
      checks := e.checks.filter goodCheck ++ e.checks.filter fun c => !goodCheck c }
  have hsorted : Reordered e sorted :=
    ⟨rfl, rfl, rfl, Perm.refl _, filter_append_perm goodContract e.contracts,
      Perm.refl _, filter_append_perm goodCheck e.checks, rfl⟩
  refine ⟨sorted, hsorted, verified_le_level.mpr ⟨ha.replays,
    (verification_of_attainable (hsorted.attainable ha)).mpr ⟨fun id hid => ?_, fun r hr => ?_⟩⟩⟩
  · obtain ⟨c, hc, hkey, hok⟩ := ha.contracts id hid
    have hgood : goodContract c = true := decide_eq_true hok
    obtain ⟨y, hy, -, -, hy'⟩ := find?_partition ⟨c, hc, hkey, hgood⟩
    exact contractFailures_nil.mpr ⟨y, hy, of_decide_eq_true hy'⟩
  · obtain ⟨c, hc, hkey, hok⟩ := ha.checks r hr
    have hgood : goodCheck c = true := by
      refine decide_eq_true fun r' hr' hid => ?_
      rw [hunique r' hr' r hr (hid.trans hkey)]
      exact hok
    obtain ⟨y, hy, -, hid, hy'⟩ := find?_partition ⟨c, hc, hkey, hgood⟩
    exact checkFailures_nil.mpr ⟨y, hy, of_decide_eq_true hy' r hr hid.symm⟩

/-- The level is sound and independent of order exactly when evidence that could reach verified is
consistent. -/
theorem level_sound_iff (rt : Runtime) (p : VerificationPolicy) (e : TrustEvidence) :
    ((.verified ≤ (assess rt p e).level → Sound rt p e) ∧
      ∀ e', Reordered e e' → (assess rt p e').level = (assess rt p e).level) ↔
    (Attainable rt p e → Consistent p e) := by
  constructor
  · intro h ha
    obtain ⟨hsound, horder⟩ := h
    obtain ⟨e', hreordered, hverified⟩ := attainable_reordered ha
    rw [horder e' hreordered] at hverified
    have hall := hsound hverified
    refine ⟨fun id hid _ _ c hc _ hkey _ => hall.contracts id hid c hc hkey,
      fun r hr _ _ c hc _ hkey _ => hall.checks r hr c hc hkey, fun hassurance => ?_⟩
    exact (hall.sources (by rw [requiresSources, hassurance, Bool.or_true])).1
  · intro h
    constructor
    · intro hverified
      have ha := attainable_of_verified hverified
      exact sound_of_consistent ha (h ha)
    · intro e' hreordered
      refine hreordered.level_eq ⟨fun hverified => ?_, fun hverified => ?_⟩
      · have ha := hreordered.symm.attainable (attainable_of_verified hverified)
        exact verified_of_consistent ha (h ha)
      · have ha := attainable_of_verified hverified
        exact verified_of_consistent (hreordered.attainable ha) (hreordered.consistent (h ha))

namespace Sample

def digest : String := "sha256:" ++ String.ofList (replicate 64 'a')

/-- A release that requires one contract and nothing of its sources. -/
def release : VerificationPolicy :=
  { new "nagoya-release-v1" with
    requiredContracts := .ofList ["nagoya-density"], requireVerifiedSources := false
    requireSourceVersion := false, requireLicense := false }

def replay : ReplayEvidence :=
  { workflowDigest := some digest, resultDigest := some digest
    backendIdentity := some "genegis:native:0.1.0", artifactDigests := [digest] }

def density (valid : Bool) : ContractEvidence :=
  { contractId := "nagoya-density", schemaVersion := GeoContract.currentSchemaVersion
    valid := valid, compatibility := .compatible }

def hidden : TrustEvidence :=
  { replay := replay, contracts := [density true, density false], sources := [], checks := []
    attestation := none }

/-- A release that requires an assurance of its sources. -/
def assured : VerificationPolicy :=
  { release with
    sourceAssurance := some { acceptedAuthorityClasses := .ofList [AuthorityClass.primaryOfficial]
                              maxAgeDays := some 365, requiredChecks := ∅
                              minimumIndependentCorroborations := 0, requireUncertainty := false
                              requireLimitations := true, allowUnresolvedDisputes := false } }

def unsourced : TrustEvidence := { hidden with contracts := [density true] }

end Sample

/-- A failing entry hides behind a passing one, and a required source assurance is met
without a source. -/
theorem level_not_sound : (¬ ∀ (p : VerificationPolicy) (e : TrustEvidence),
      (.verified ≤ (assess Runtime.reference p e).level → Sound Runtime.reference p e) ∧
      ∀ e', Reordered e e' →
        (assess Runtime.reference p e').level = (assess Runtime.reference p e).level) ∧
    ¬ (.verified ≤ (assess Runtime.reference Sample.assured Sample.unsourced).level →
      Sound Runtime.reference Sample.assured Sample.unsourced) := by
  constructor
  · intro h
    have hverified : .verified ≤ (assess Runtime.reference Sample.release Sample.hidden).level := by
      decide
    have hsound := (h Sample.release Sample.hidden).1 hverified
    have hmem : "nagoya-density" ∈ Sample.release.requiredContracts := by
      rfl
    have hvalid := (hsound.contracts _ hmem (Sample.density false) (by simp [Sample.hidden]) rfl).valid
    cases hvalid
  · intro h
    have hverified :
        .verified ≤ (assess Runtime.reference Sample.assured Sample.unsourced).level := by
      decide
    exact ((h hverified).sources rfl).1 rfl

/-! ## Stronger policies -/

/-- A policy for sources that asks for more.  An empty set of classes accepts every
class. -/
structure StrongerAssurance (a b : AssurancePolicy) : Prop where
  authority : a.acceptedAuthorityClasses.isEmpty = true ∨
    (b.acceptedAuthorityClasses.isEmpty = false ∧
      ∀ c, b.acceptedAuthorityClasses.contains c = true → a.acceptedAuthorityClasses.contains c = true)
  age : ∀ m, a.maxAgeDays = some m → ∃ m', b.maxAgeDays = some m' ∧ m' ≤ m
  checks : ∀ k ∈ a.requiredChecks, k ∈ b.requiredChecks
  corroborations : a.minimumIndependentCorroborations ≤ b.minimumIndependentCorroborations
  uncertainty : a.requireUncertainty = true → b.requireUncertainty = true
  limitations : a.requireLimitations = true → b.requireLimitations = true
  disputes : b.allowUnresolvedDisputes = true → a.allowUnresolvedDisputes = true

/-- The same check with fewer classes and a lower tolerance. -/
structure StrongerCheck (r r' : CheckRequirement) : Prop where
  checkId : r'.checkId = r.checkId
  independence : ∀ c, r'.acceptedIndependence.contains c = true →
    r.acceptedIndependence.contains c = true
  tolerance : ∀ m, r.maxErrorPpm = some m → ∃ m', r'.maxErrorPpm = some m' ∧ m' ≤ m

/-- A policy that asks for more. -/
structure Stronger (p q : VerificationPolicy) : Prop where
  contracts : ∀ id ∈ p.requiredContracts, id ∈ q.requiredContracts
  checks : ∀ r ∈ p.requiredChecks, ∃ r' ∈ q.requiredChecks, StrongerCheck r r'
  verified : p.requireVerifiedSources = true → q.requireVerifiedSources = true
  version : p.requireSourceVersion = true → q.requireSourceVersion = true
  license : p.requireLicense = true → q.requireLicense = true
  assurance : ∀ a, p.sourceAssurance = some a →
    ∃ b, q.sourceAssurance = some b ∧ StrongerAssurance a b
  artifacts : p.minimumArtifactCount ≤ q.minimumArtifactCount
  attesters : ∀ signer ∈ q.acceptedAttesters, signer ∈ p.acceptedAttesters

namespace StrongerAssurance

variable {a b : AssurancePolicy} {dossier : SourceAssurance}

open Assurance

theorem authorityFailures (h : StrongerAssurance a b)
    (hb : Assurance.authorityFailures b dossier = []) :
    Assurance.authorityFailures a dossier = [] := by
  rw [Assurance.authorityFailures, Assurance.failUnless_nil, Bool.or_eq_true_iff] at hb ⊢
  rcases h.authority with hempty | ⟨hsome, hsubset⟩
  · exact .inl hempty
  · rw [hsome] at hb
    rcases hb with hb | hb
    · cases hb
    · exact .inr (hsubset _ hb)

theorem freshnessFailures (h : StrongerAssurance a b)
    (hb : Assurance.freshnessFailures b dossier = []) :
    Assurance.freshnessFailures a dossier = [] := by
  rw [freshnessFailures_nil] at hb ⊢
  intro maximum hmaximum
  obtain ⟨stricter, hstricter, hle⟩ := h.age maximum hmaximum
  obtain ⟨hpublished, age, hage, hagele⟩ := hb stricter hstricter
  exact ⟨hpublished, age, hage, by omega⟩

theorem disputeFailures (h : StrongerAssurance a b)
    (hb : Assurance.disputeFailures b dossier = []) :
    Assurance.disputeFailures a dossier = [] := by
  unfold Assurance.disputeFailures at hb ⊢
  by_cases hallow : a.allowUnresolvedDisputes = true
  · rw [if_pos hallow]
  · rw [if_neg hallow]
    rw [if_neg (mt h.disputes hallow)] at hb
    exact hb

theorem flag {weak strong ok : Bool} (himp : weak = true → strong = true)
    (h : (!strong || ok) = true) : (!weak || ok) = true := by
  cases weak with
  | false => rfl
  | true =>
    rw [himp rfl] at h
    exact h

theorem passed (h : StrongerAssurance a b) (hb : (Assurance.assess rt b dossier).passed = true) :
    (Assurance.assess rt a dossier).passed = true := by
  rw [passed_iff, policyFailures_nil] at hb ⊢
  obtain ⟨hidentity, ⟨hauthority, hfresh, hchecks, hrequired, huncertainty, hlimits, hdisputes⟩,
    hcount⟩ := hb
  refine ⟨hidentity, ⟨h.authorityFailures hauthority, h.freshnessFailures hfresh, hchecks,
    fun k hk => hrequired k (h.checks k hk), ?_, ?_, h.disputeFailures hdisputes⟩, ?_⟩
  · rw [uncertaintyFailures, Assurance.failUnless_nil] at huncertainty ⊢
    exact flag h.uncertainty huncertainty
  · rw [limitationFailures, Assurance.failUnless_nil] at hlimits ⊢
    exact flag h.limitations hlimits
  · have hmin := h.corroborations
    omega

end StrongerAssurance

theorem StrongerCheck.checkOk {r r' : CheckRequirement} {c : VerificationEvidence}
    (h : StrongerCheck r r') (hok : CheckOk r' c) : CheckOk r c := by
  refine ⟨hok.passed, h.independence _ hok.independence, hok.digest, fun maximum hmaximum => ?_⟩
  obtain ⟨stricter, hstricter, hle⟩ := h.tolerance maximum hmaximum
  obtain ⟨observed, hobserved, hole⟩ := hok.tolerance stricter hstricter
  exact ⟨observed, hobserved, by omega⟩

namespace Stronger

theorem replayFailures (h : Stronger p q) {replay : ReplayEvidence}
    (hq : VerificationPolicy.replayFailures q replay = []) :
    VerificationPolicy.replayFailures p replay = [] := by
  simp only [VerificationPolicy.replayFailures, append_eq_nil_iff, failUnless_nil,
    decide_eq_true_eq] at hq ⊢
  refine ⟨hq.1, ?_⟩
  have hcount := hq.2
  have hmin := h.artifacts
  omega

theorem sourceOk (h : Stronger p q) {s : SourceEvidence} (hq : SourceOk rt q s) :
    SourceOk rt p s := by
  refine ⟨fun hp => hq.verified (h.verified hp), fun hp => hq.version (h.version hp),
    fun hp => hq.license (h.license hp), fun a ha => ?_⟩
  obtain ⟨b, hb, hstronger⟩ := h.assurance a ha
  obtain ⟨dossier, hdossier, hid, hpassed⟩ := hq.assurance b hb
  exact ⟨dossier, hdossier, hid, hstronger.passed hpassed⟩

theorem flagged (h : Stronger p q) (hp : p.flagged = true) : q.flagged = true := by
  simp only [VerificationPolicy.flagged, Bool.or_eq_true] at hp ⊢
  rcases hp with (hp | hp) | hp
  · exact .inl (.inl (h.verified hp))
  · exact .inl (.inr (h.version hp))
  · exact .inr (h.license hp)

theorem verificationFailures (h : Stronger p q) (hschema : p.geoContractSchemaVersion =
    q.geoContractSchemaVersion) (hq : VerificationPolicy.verificationFailures rt q e = []) :
    VerificationPolicy.verificationFailures rt p e = [] := by
  rw [verificationFailures_nil] at hq ⊢
  obtain ⟨hcontracts, hsources, hpresent, hchecks⟩ := hq
  refine ⟨fun id hid => ?_, fun s hs => ?_, ?_, fun r hr => ?_⟩
  · obtain ⟨c, hc, hok⟩ := contractFailures_nil.mp (hcontracts id (h.contracts id hid))
    exact contractFailures_nil.mpr ⟨c, hc, hok.valid, hok.schema.trans hschema.symm, hok.compatible⟩
  · obtain ⟨hok, hbound⟩ := sourceFailures_nil.mp (hsources s hs)
    exact sourceFailures_nil.mpr ⟨h.sourceOk hok, hbound⟩
  · rw [missingSources_nil] at hpresent ⊢
    exact fun hflag => hpresent (h.flagged hflag)
  · obtain ⟨r', hr', hstronger⟩ := h.checks r hr
    obtain ⟨c, hc, hok⟩ := checkFailures_nil.mp (hchecks r' hr')
    rw [hstronger.checkId] at hc
    exact checkFailures_nil.mpr ⟨c, hc, hstronger.checkOk hok⟩

theorem attestationFailures (h : Stronger p q) {attestation : Option AttestationEvidence}
    (hq : VerificationPolicy.attestationFailures q attestation = []) :
    VerificationPolicy.attestationFailures p attestation = [] := by
  rw [attestationFailures_nil] at hq ⊢
  obtain ⟨a, ha, hverified, hsigner⟩ := hq
  exact ⟨a, ha, hverified, h.attesters _ hsigner⟩

end Stronger

/-- A stronger policy never raises the level. -/
theorem level_stronger_le {p q : VerificationPolicy} (hp : validatePolicy p = [])
    (hq : validatePolicy q = []) (h : Stronger p q) (e : TrustEvidence) :
    (assess rt q e).level ≤ (assess rt p e).level := by
  have hschema := (validatePolicy_schema hp).trans (validatePolicy_schema hq).symm
  have hreplays : Replays q e → Replays p e := fun hr => ⟨hp, h.replayFailures hr.2⟩
  have hverification := @Stronger.verificationFailures rt p q e h hschema
  have hattestation := @Stronger.attestationFailures p q h e.attestation
  rcases level_cases rt q e with hb | hb | hb | hb
  · rw [hb.2]
    exact Nat.zero_le _
  · rw [hb.2.2]
    rcases level_cases rt p e with ha | ha | ha | ha
    · exact absurd (hreplays hb.1) ha.1
    · rw [ha.2.2]
      decide
    · rw [ha.2.2.2]
      decide
    · rw [ha.2.2.2]
      decide
  · rw [hb.2.2.2]
    exact verified_le_level.mpr ⟨hreplays hb.1, hverification hb.2.1⟩
  · rw [hb.2.2.2]
    rcases level_cases rt p e with ha | ha | ha | ha
    · exact absurd (hreplays hb.1) ha.1
    · exact absurd (hverification hb.2.1) ha.2.1
    · exact absurd (hattestation hb.2.2.1) ha.2.2.1
    · rw [ha.2.2.2]
      decide

theorem level_stronger_le_release :
    (assess Runtime.reference Sample.assured Sample.unsourced).level ≤
      (assess Runtime.reference Sample.release Sample.unsourced).level := by
  refine level_stronger_le (by rfl) (by rfl) ?_ Sample.unsourced
  refine ⟨fun _ h => h, fun r hr => ?_, fun h => h, fun h => h, fun h => h, fun a h => ?_,
    Nat.le_refl _, fun _ h => h⟩
  · cases hr
  · cases h

end GeneGIS.VerificationPolicy
