/-
The assessment looks at the first check of a kind and counts comparisons with one source twice.
`assess_sound_iff` says for which dossiers this makes no difference.
-/
import GeneGIS.Contract.Trust
import Mathlib.Data.List.Dedup
import Mathlib.Data.List.Perm.Lattice

namespace GeneGIS.Assurance

open List
open Bool hiding and_assoc false_ne_true

variable {rt : Runtime} {p : AssurancePolicy} {a b : SourceAssurance}

/-- A comparison that counts: independent and agreeing, with another source. -/
def counts (a : SourceAssurance) (item : CorroborationEvidence) : Bool :=
  item.independence.isIndependent && item.agrees && validDigest item.snapshotDigest &&
    validDigest item.evidenceDigest && decide (item.sourceId ≠ a.sourceId)

/-- The sources of the comparisons that count, each of them once. -/
def agreeingSources (a : SourceAssurance) : List String :=
  ((a.corroborations.filter (counts a)).map CorroborationEvidence.sourceId).dedup

/-- What a pass should mean. -/
structure Sound (p : AssurancePolicy) (a : SourceAssurance) : Prop where
  sources : ∃ ids : List String, ids.Nodup ∧ p.minimumIndependentCorroborations ≤ ids.length ∧
    ∀ id ∈ ids, id ≠ a.sourceId ∧ ∃ item ∈ a.corroborations, item.sourceId = id ∧
      item.independence.isIndependent = true ∧ item.agrees = true ∧
      validDigest item.snapshotDigest = true ∧ validDigest item.evidenceDigest = true
  checks : ∀ kind ∈ p.requiredChecks, ∀ check ∈ a.checks, check.kind = kind → check.passed = true

/-- The same dossier with its checks and its comparisons in another order. -/
structure Reordered (a b : SourceAssurance) : Prop where
  checks : b.checks.Perm a.checks
  corroborations : b.corroborations.Perm a.corroborations
  rest : b = { a with checks := b.checks, corroborations := b.corroborations }

/-- A check that can be replayed. -/
structure Replayable (check : AssuranceCheck) : Prop where
  named : Text.isBlank check.checkId = false
  verifier : Text.isBlank check.verifierIdentity = false
  digest : validDigest check.evidenceDigest = true

/-- The dossier meets the policy if its checks stand in the right order, its comparisons
apart. -/
structure Attainable (p : AssurancePolicy) (a : SourceAssurance) : Prop where
  identified : identityFailures a = []
  authority : authorityFailures p a = []
  freshness : freshnessFailures p a = []
  distinct : (a.checks.map AssuranceCheck.checkId).Nodup
  replayable : ∀ check ∈ a.checks, Replayable check
  required : ∀ kind ∈ p.requiredChecks, ∃ check ∈ a.checks, check.kind = kind ∧ check.passed = true
  uncertainty : uncertaintyFailures p a = []
  limitations : limitationFailures p a = []
  disputes : disputeFailures p a = []

/-- No required kind has checks of both outcomes, and no comparison counted twice makes up the
required number. -/
structure Consistent (p : AssurancePolicy) (a : SourceAssurance) : Prop where
  checks : ∀ kind ∈ p.requiredChecks, ∀ check ∈ a.checks, check.kind = kind → check.passed = true
  sources : independentCount a < p.minimumIndependentCorroborations ∨
    p.minimumIndependentCorroborations ≤ (agreeingSources a).length

/-! ## Checks -/

theorem checkFailures_nil {seen : List String} {checks : List AssuranceCheck} :
    checkFailures seen checks = [] ↔ (checks.map AssuranceCheck.checkId).Nodup ∧
      ∀ check ∈ checks, Replayable check ∧ check.checkId ∉ seen := by
  induction checks generalizing seen with
  | nil => exact iff_of_true rfl ⟨nodup_nil, by simp⟩
  | cons check rest ih =>
    simp only [checkFailures, append_eq_nil_iff, failUnless_nil, not_eq_true',
      or_eq_false_iff, decide_eq_false_iff_not, not_eq_false', map_cons,
      nodup_cons, forall_mem_cons]
    constructor
    · intro h
      obtain ⟨⟨⟨hnamed, hfresh⟩, hverifier, hdigest⟩, hrest⟩ := h
      rw [hnamed, if_neg Bool.false_ne_true] at hrest
      obtain ⟨hnodup, hall⟩ := ih.mp hrest
      refine ⟨⟨fun hmem => ?_, hnodup⟩, ⟨⟨hnamed, hverifier, hdigest⟩, hfresh⟩, fun c hc => ?_⟩
      · obtain ⟨c, hc, hid⟩ := mem_map.mp hmem
        exact (hall c hc).2 (by rw [hid]; exact mem_cons_self)
      · exact ⟨(hall c hc).1, fun hmem => (hall c hc).2 (mem_cons_of_mem _ hmem)⟩
    · intro h
      obtain ⟨⟨hnew, hnodup⟩, ⟨hok, hfresh⟩, hall⟩ := h
      refine ⟨⟨⟨hok.named, hfresh⟩, hok.verifier, hok.digest⟩, ?_⟩
      rw [hok.named, if_neg Bool.false_ne_true]
      refine ih.mpr ⟨hnodup, fun c hc => ⟨(hall c hc).1, fun hmem => ?_⟩⟩
      rcases mem_cons.mp hmem with hid | hseen
      · exact hnew (mem_map.mpr ⟨c, hc, hid⟩)
      · exact (hall c hc).2 hseen

theorem requiredCheckFailures_nil {kind : AssuranceCheckKind} : requiredCheckFailures a kind = [] ↔
      ∃ check, (a.checks.find? fun check => check.kind = kind) = some check ∧
        check.passed = true := by
  unfold requiredCheckFailures
  cases hfind : a.checks.find? fun check => check.kind = kind with
  | none =>
    refine iff_of_false nofun fun h => ?_
    obtain ⟨check, hcheck, -⟩ := h
    cases hcheck
  | some check => simp only [failUnless_nil, Option.some.injEq, exists_eq_left']

theorem policyFailures_of_attainable (h : Attainable p a) :
    policyFailures p a = [] ↔ ∀ kind ∈ p.requiredChecks, requiredCheckFailures a kind = [] := by
  have hchecks : checkFailures [] a.checks = [] :=
    checkFailures_nil.mpr ⟨h.distinct, fun check hc => ⟨h.replayable check hc, not_mem_nil⟩⟩
  rw [policyFailures_nil]
  constructor
  · intro hall
    exact hall.2.2.2.1
  · intro hrequired
    exact ⟨h.authority, h.freshness, hchecks, hrequired, h.uncertainty, h.limitations, h.disputes⟩

theorem attainable_of_policy (hidentity : identityFailures a = [])
    (hpolicy : policyFailures p a = []) : Attainable p a := by
  obtain ⟨hauthority, hfreshness, hchecks, hrequired, huncertainty, hlimitations, hdisputes⟩ :=
    policyFailures_nil.mp hpolicy
  obtain ⟨hdistinct, hall⟩ := checkFailures_nil.mp hchecks
  refine ⟨hidentity, hauthority, hfreshness, hdistinct, fun check hc => (hall check hc).1,
    fun kind hkind => ?_, huncertainty, hlimitations, hdisputes⟩
  obtain ⟨check, hfind, hpassed⟩ := requiredCheckFailures_nil.mp (hrequired kind hkind)
  exact ⟨check, mem_of_find?_eq_some hfind, by simpa using find?_some hfind, hpassed⟩

theorem policy_of_consistent (ha : Attainable p a) (hc : Consistent p a) :
    policyFailures p a = [] := by
  refine (policyFailures_of_attainable ha).mpr fun kind hkind => ?_
  obtain ⟨check, hmem, hkey, -⟩ := ha.required kind hkind
  exact requiredCheckFailures_nil.mpr
    (VerificationPolicy.exists_find? ⟨check, hmem, hkey⟩ (hc.checks kind hkind))

theorem counts_iff {item : CorroborationEvidence} :
    counts a item = true ↔ item.independence.isIndependent = true ∧ item.agrees = true ∧
      validDigest item.snapshotDigest = true ∧ validDigest item.evidenceDigest = true ∧
      item.sourceId ≠ a.sourceId := by
  simp only [counts, Bool.and_eq_true, decide_eq_true_eq, and_assoc]

theorem mem_agreeingSources {id : String} :
    id ∈ agreeingSources a ↔ ∃ item ∈ a.corroborations, counts a item = true ∧
      item.sourceId = id := by
  simp only [agreeingSources, mem_dedup, mem_map, mem_filter, and_assoc]

theorem sources_iff {n : Nat} : (∃ ids : List String, ids.Nodup ∧ n ≤ ids.length ∧
      ∀ id ∈ ids, id ≠ a.sourceId ∧ ∃ item ∈ a.corroborations, item.sourceId = id ∧
        item.independence.isIndependent = true ∧ item.agrees = true ∧
        validDigest item.snapshotDigest = true ∧ validDigest item.evidenceDigest = true) ↔
    n ≤ (agreeingSources a).length := by
  constructor
  · intro h
    obtain ⟨ids, hnodup, hlength, hall⟩ := h
    refine hlength.trans (subperm_of_subset hnodup fun id hid => ?_).length_le
    obtain ⟨hother, item, hitem, hkey, hindependent, hagrees, hsnapshot, hevidence⟩ := hall id hid
    refine mem_agreeingSources.mpr ⟨item, hitem, counts_iff.mpr ?_, hkey⟩
    exact ⟨hindependent, hagrees, hsnapshot, hevidence, by rw [hkey]; exact hother⟩
  · intro h
    refine ⟨agreeingSources a, nodup_dedup _, h, fun id hid => ?_⟩
    obtain ⟨item, hitem, hcounts, hkey⟩ := mem_agreeingSources.mp hid
    obtain ⟨hindependent, hagrees, hsnapshot, hevidence, hother⟩ := counts_iff.mp hcounts
    exact ⟨by rw [← hkey]; exact hother, item, hitem, hkey, hindependent, hagrees, hsnapshot,
      hevidence⟩

namespace Reordered

theorem symm (h : Reordered a b) : Reordered b a := by
  refine ⟨h.checks.symm, h.corroborations.symm, ?_⟩
  rw [h.rest]

theorem sourceId (h : Reordered a b) : b.sourceId = a.sourceId := by rw [h.rest]

theorem identity (h : Reordered a b) : identityFailures b = identityFailures a := by
  rw [h.rest]
  rfl

theorem attainable (h : Reordered a b) (ha : Attainable p a) : Attainable p b := by
  have hrest := h.rest
  refine ⟨h.identity.trans ha.identified, ?_, ?_, ?_, fun check hc => ?_, fun kind hkind => ?_,
    ?_, ?_, ?_⟩
  · rw [hrest]
    exact ha.authority
  · rw [hrest]
    exact ha.freshness
  · exact ((h.checks.map _).nodup_iff).mpr ha.distinct
  · exact ha.replayable check (h.checks.mem_iff.mp hc)
  · obtain ⟨check, hc, hcheck⟩ := ha.required kind hkind
    exact ⟨check, h.checks.mem_iff.mpr hc, hcheck⟩
  · rw [hrest]
    exact ha.uncertainty
  · rw [hrest]
    exact ha.limitations
  · rw [hrest]
    exact ha.disputes

theorem counts_eq (h : Reordered a b) : counts b = counts a := by
  funext item
  rw [counts, counts, h.sourceId]

theorem count (h : Reordered a b) : independentCount b = independentCount a := by
  show (b.corroborations.filter (counts b)).length % 2 ^ 32 =
    (a.corroborations.filter (counts a)).length % 2 ^ 32
  rw [h.counts_eq, (h.corroborations.filter (counts a)).length_eq]

theorem sources (h : Reordered a b) : (agreeingSources b).length = (agreeingSources a).length := by
  have hperm : (agreeingSources b).Perm (agreeingSources a) := by
    rw [agreeingSources, agreeingSources, h.counts_eq]
    exact ((h.corroborations.filter (counts a)).map _).dedup
  exact hperm.length_eq

theorem consistent (h : Reordered a b) (hc : Consistent p a) : Consistent p b := by
  refine ⟨fun kind hkind check hmem => ?_, ?_⟩
  · exact hc.checks kind hkind check (h.checks.mem_iff.mp hmem)
  · rw [h.count, h.sources]
    exact hc.sources

end Reordered

/-! ## The assessment -/

theorem assess_eq (hidentity : identityFailures b = [] ↔ identityFailures a = [])
    (hpolicy : identityFailures a = [] → (policyFailures p b = [] ↔ policyFailures p a = []))
    (hcount : independentCount b = independentCount a) :
    (assess rt p b).level = (assess rt p a).level ∧
      (assess rt p b).passed = (assess rt p a).passed := by
  unfold assess
  by_cases hi : identityFailures a = []
  · have hp := hpolicy hi
    rw [if_neg (not_not.mpr hi), if_neg (not_not.mpr (hidentity.mpr hi))]
    by_cases hq : policyFailures p a = []
    · rw [if_neg (not_not.mpr hq), if_neg (not_not.mpr (hp.mpr hq)), hcount]
      by_cases hc : independentCount a < p.minimumIndependentCorroborations
      · rw [if_pos hc, if_pos hc]
        exact ⟨rfl, rfl⟩
      · rw [if_neg hc, if_neg hc]
        exact ⟨rfl, rfl⟩
    · rw [if_pos hq, if_pos fun h => hq (hp.mp h)]
      exact ⟨rfl, rfl⟩
  · rw [if_pos hi, if_pos fun h => hi (hidentity.mp h)]
    exact ⟨rfl, rfl⟩

/-- The level says whether the dossier meets the policy, its comparisons apart. -/
theorem checked_iff : (assess rt p a).level = .checked ∨ (assess rt p a).level = .corroborated ↔
      identityFailures a = [] ∧ policyFailures p a = [] := by
  unfold assess
  by_cases hi : identityFailures a = []
  · rw [if_neg (not_not.mpr hi)]
    by_cases hq : policyFailures p a = []
    · rw [if_neg (not_not.mpr hq)]
      refine iff_of_true ?_ ⟨hi, hq⟩
      by_cases hc : independentCount a < p.minimumIndependentCorroborations
      · rw [if_pos hc]
        exact .inl rfl
      · rw [if_neg hc]
        by_cases hm : 0 < p.minimumIndependentCorroborations
        · rw [if_pos hm]
          exact .inr rfl
        · rw [if_neg hm]
          exact .inl rfl
    · rw [if_pos hq]
      exact iff_of_false (by intro h; rcases h with h | h <;> cases h) fun h => hq h.2
  · rw [if_pos hi]
    exact iff_of_false (by intro h; rcases h with h | h <;> cases h) fun h => hi h.1

theorem attainable_reordered (ha : Attainable p a) :
    ∃ b, Reordered a b ∧ identityFailures b = [] ∧ policyFailures p b = [] := by
  let sorted : SourceAssurance :=
    { a with
      checks := a.checks.filter AssuranceCheck.passed ++
        a.checks.filter fun check => !check.passed }
  have hsorted : Reordered a sorted :=
    ⟨filter_append_perm AssuranceCheck.passed a.checks, Perm.refl _, rfl⟩
  have hattainable := hsorted.attainable ha
  refine ⟨sorted, hsorted, hattainable.identified, ?_⟩
  refine (policyFailures_of_attainable hattainable).mpr fun kind hkind => ?_
  obtain ⟨y, hy, -, -, hpassed⟩ := VerificationPolicy.find?_partition (ha.required kind hkind)
  exact requiredCheckFailures_nil.mpr ⟨y, hy, hpassed⟩

theorem failing_reordered {kind : AssuranceCheckKind} {check : AssuranceCheck}
    (hkind : kind ∈ p.requiredChecks) (hmem : check ∈ a.checks) (hkey : check.kind = kind)
    (hfails : check.passed = false) : ∃ b, Reordered a b ∧ policyFailures p b ≠ [] := by
  let sorted : SourceAssurance :=
    { a with
      checks := a.checks.filter (fun check => !check.passed) ++
        a.checks.filter fun check => !!check.passed }
  refine ⟨sorted, ⟨filter_append_perm _ a.checks, Perm.refl _, rfl⟩, fun hnil => ?_⟩
  have hfailing : ∃ c ∈ a.checks, c.kind = kind ∧ (!c.passed) = true :=
    ⟨check, hmem, hkey, by rw [hfails]; rfl⟩
  obtain ⟨y, hy, -, -, hy'⟩ := VerificationPolicy.find?_partition hfailing
  obtain ⟨z, hz, hpassed⟩ := requiredCheckFailures_nil.mp
    ((policyFailures_nil.mp hnil).2.2.2.1 kind hkind)
  have hyz : some y = some z := hy.symm.trans hz
  cases hyz
  rw [hpassed] at hy'
  cases hy'

/-- A pass is sound and independent of the order of the dossier exactly when one that could meet the
policy is consistent. -/
theorem assess_sound_iff (rt : Runtime) (p : AssurancePolicy) (a : SourceAssurance) :
    (((assess rt p a).passed = true → Sound p a) ∧
      ∀ b, Reordered a b → (assess rt p b).level = (assess rt p a).level ∧
        (assess rt p b).passed = (assess rt p a).passed) ↔
    (Attainable p a → Consistent p a) := by
  constructor
  · intro h ha
    obtain ⟨hsound, horder⟩ := h
    -- Some order meets the policy, so every order does.
    have hmeets : ∀ b, Reordered a b → policyFailures p b = [] := by
      intro b hb
      obtain ⟨c, hc, hidentity, hpolicy⟩ := attainable_reordered ha
      have hlevel : (assess rt p c).level = .checked ∨ (assess rt p c).level = .corroborated :=
        checked_iff.mpr ⟨hidentity, hpolicy⟩
      rw [(horder c hc).1, ← (horder b hb).1] at hlevel
      exact (checked_iff.mp hlevel).2
    have hself : policyFailures p a = [] := hmeets a ⟨Perm.refl _, Perm.refl _, rfl⟩
    refine ⟨fun kind hkind check hmem hkey => ?_, ?_⟩
    · by_contra hfails
      obtain ⟨b, hb, hne⟩ := failing_reordered hkind hmem hkey (eq_false_iff.mpr hfails)
      exact hne (hmeets b hb)
    · rcases Nat.lt_or_ge (independentCount a) p.minimumIndependentCorroborations with hless | hmin
      · exact .inl hless
      · exact .inr (sources_iff.mp (hsound (passed_iff.mpr ⟨ha.identified, hself, hmin⟩)).sources)
  · intro h
    constructor
    · intro hpassed
      obtain ⟨hidentity, hpolicy, hmin⟩ := passed_iff.mp hpassed
      have hc := h (attainable_of_policy hidentity hpolicy)
      refine ⟨sources_iff.mpr ?_, hc.checks⟩
      rcases hc.sources with hless | hsources
      · omega
      · exact hsources
    · intro b hb
      refine assess_eq (by rw [hb.identity]) (fun hidentity => ⟨fun hpolicy => ?_, fun hpolicy => ?_⟩)
        hb.count
      · have ha := hb.symm.attainable (attainable_of_policy (hb.identity.trans hidentity) hpolicy)
        exact policy_of_consistent ha (h ha)
      · have ha := attainable_of_policy hidentity hpolicy
        exact policy_of_consistent (hb.attainable ha) (hb.consistent (h ha))

namespace Sample

def digest : String := "sha256:" ++ String.ofList (replicate 64 'b')

/-- A use of population data that asks for two other sources. -/
def twoSources : AssurancePolicy :=
  { acceptedAuthorityClasses := .ofList [AuthorityClass.primaryOfficial]
    maxAgeDays := some 365
    requiredChecks := .ofList [AssuranceCheckKind.schema]
    minimumIndependentCorroborations := 2
    requireUncertainty := false
    requireLimitations := true
    allowUnresolvedDisputes := false }

def schemaCheck (checkId : String) (passed : Bool) : AssuranceCheck :=
  { checkId := checkId, kind := .schema, passed := passed, evidenceDigest := digest
    verifierIdentity := "genegis-source-check/0.1.0" }

def estat : CorroborationEvidence :=
  { sourceId := "estat.population.2020", snapshotDigest := digest
    independence := .independentPublisher, agrees := true, evidenceDigest := digest }

def population (checks : List AssuranceCheck) : SourceAssurance :=
  { schemaVersion := currentSchemaVersion
    sourceId := "nagoya.population.2020"
    snapshotDigest := digest
    publisher := "Nagoya City"
    authorityClass := .primaryOfficial
    publishedAt := some "2021-11-30"
    assessedAt := "2022-01-01T00:00:00Z"
    observedAgeDays := some 32
    checks := checks
    corroborations := [estat, estat]
    uncertainty := none
    disputes := []
    limitations := ["Census reference date; not a live population estimate."] }

def repeated : SourceAssurance := population [schemaCheck "schema" true]

/-- A failing schema check behind a passing one. -/
def contradicted : SourceAssurance :=
  population [schemaCheck "schema" true, schemaCheck "schema-2" false]

end Sample

/-- One source compared twice passes for two sources, and a failing check is not seen behind
a passing one. -/
theorem assess_not_sound : (¬ ∀ (p : AssurancePolicy) (a : SourceAssurance),
      ((assess Runtime.reference p a).passed = true → Sound p a) ∧
      ∀ b, Reordered a b →
        (assess Runtime.reference p b).level = (assess Runtime.reference p a).level ∧
          (assess Runtime.reference p b).passed = (assess Runtime.reference p a).passed) ∧
    ¬ ((assess Runtime.reference Sample.twoSources Sample.contradicted).passed = true →
      ∀ check ∈ Sample.contradicted.checks, check.kind = .schema → check.passed = true) := by
  constructor
  · intro h
    have hpassed : (assess Runtime.reference Sample.twoSources Sample.repeated).passed = true := by
      rfl
    have hsound := (h Sample.twoSources Sample.repeated).1 hpassed
    have hlength : 2 ≤ (agreeingSources Sample.repeated).length := sources_iff.mp hsound.sources
    exact absurd hlength (by decide)
  · intro h
    have hpassed :
        (assess Runtime.reference Sample.twoSources Sample.contradicted).passed = true := by
      rfl
    have hfails := h hpassed (Sample.schemaCheck "schema-2" false)
      (mem_cons_of_mem _ mem_cons_self) rfl
    cases hfails

end GeneGIS.Assurance
