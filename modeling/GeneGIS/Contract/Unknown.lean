/-
Two unknown values are equal, so what is required is known exactly where the required contract
leaves nothing unknown, or is not met.
-/
import GeneGIS.Contract.Meets

namespace GeneGIS
namespace GeoContract

structure KnownSpatial (p r : SpatialContract) : Prop where
  crs : r.crs.isSome = true → p.crs.isSome = true
  extent : r.extent.isSome = true → p.extent.isSome = true
  resolution : r.resolution.isSome = true → p.resolution.isSome = true
  geometryKind : p.geometryKind ≠ .unknown ∧ r.geometryKind ≠ .unknown
  axisOrder : p.axisOrder ≠ .unknown ∧ r.axisOrder ≠ .unknown
  coordinateUnit : p.coordinateUnit ≠ .unknown ∧ r.coordinateUnit ≠ .unknown

def KnownTerm (p r : MeasureTerm) : Prop := p.kind ≠ .unknown ∧ r.kind ≠ .unknown

structure KnownMeasure (p r : MeasureContract) : Prop where
  numerator : Provides KnownTerm p.numerator r.numerator
  denominator : Provides KnownTerm p.denominator r.denominator
  populationUniverse : r.populationUniverse.isSome = true → p.populationUniverse.isSome = true
  kind : p.kind ≠ .unknown ∧ r.kind ≠ .unknown
  aggregation : p.aggregation ≠ .unknown ∧ r.aggregation ≠ .unknown

structure KnownTemporal (p r : TemporalContract) : Prop where
  observedAt : r.observedAt.isSome = true → p.observedAt.isSome = true
  granularity : p.granularity ≠ .unknown ∧ r.granularity ≠ .unknown

structure KnownCoverage (p r : CoverageContract) : Prop where
  expectedFeatureCount : r.expectedFeatureCount.isSome = true → p.expectedFeatureCount.isSome = true
  joinKeys : r.joinKeys ≠ [] → p.joinKeys ≠ []
  keyUniqueness : p.keyUniqueness ≠ .unknown ∧ r.keyUniqueness ≠ .unknown
  nullPolicy : p.nullPolicy ≠ .unknown ∧ r.nullPolicy ≠ .unknown

structure KnownSource (p r : SourceContract) : Prop where
  sourceVersion : r.snapshot.sourceVersion.isSome = true → p.snapshot.sourceVersion.isSome = true
  expectedChecksum :
    r.snapshot.expectedChecksum.isSome = true → p.snapshot.expectedChecksum.isSome = true
  authority : r.authority.isSome = true → p.authority.isSome = true

/-- Nothing the required contract constrains is missing, and nothing that is compared is
unknown on either side. -/
structure FullyKnown (p r : GeoContract) : Prop where
  spatial : Provides KnownSpatial p.spatial r.spatial
  measure : Provides KnownMeasure p.measure r.measure
  temporal : Provides KnownTemporal p.temporal r.temporal
  coverage : Provides KnownCoverage p.coverage r.coverage
  source : Provides KnownSource p.source r.source
  tolerances : ∀ t ∈ r.quality.tolerances, ∃ c ∈ p.quality.tolerances, c.metric = t.metric

end GeoContract

/-! ## Unknown values -/

def SpatialContract.hasUnknown (c : SpatialContract) : Bool :=
  decide (c.geometryKind = .unknown) || decide (c.axisOrder = .unknown) ||
    decide (c.coordinateUnit = .unknown)

def MeasureTerm.hasUnknown (t : MeasureTerm) : Bool := decide (t.kind = .unknown)

def MeasureContract.hasUnknown (c : MeasureContract) : Bool :=
  decide (c.kind = .unknown) || decide (c.aggregation = .unknown) ||
    c.numerator.any MeasureTerm.hasUnknown || c.denominator.any MeasureTerm.hasUnknown

def TemporalContract.hasUnknown (c : TemporalContract) : Bool := decide (c.granularity = .unknown)

def CoverageContract.hasUnknown (c : CoverageContract) : Bool :=
  decide (c.keyUniqueness = .unknown) || decide (c.nullPolicy = .unknown)

namespace GeoContract

/-- A section of the contract has an unknown value. -/
def hasUnknown (c : GeoContract) : Bool :=
  c.spatial.any SpatialContract.hasUnknown || c.measure.any MeasureContract.hasUnknown ||
    c.temporal.any TemporalContract.hasUnknown || c.coverage.any CoverageContract.hasUnknown

theorem hasUnknown_false {c : GeoContract} : c.hasUnknown = false ↔
      (∀ s, c.spatial = some s → s.hasUnknown = false) ∧
      (∀ s, c.measure = some s → s.hasUnknown = false) ∧
      (∀ s, c.temporal = some s → s.hasUnknown = false) ∧
      (∀ s, c.coverage = some s → s.hasUnknown = false) := by
  simp only [hasUnknown, Bool.or_eq_false_iff, Option.any_eq_false, and_assoc]

theorem knownSpatial_iff {p r : SpatialContract} (h : MeetsSpatial p r) :
    KnownSpatial p r ↔ r.hasUnknown = false := by
  simp only [SpatialContract.hasUnknown, Bool.or_eq_false_iff, decide_eq_false_iff_not]
  constructor
  · intro hknown
    exact ⟨⟨hknown.geometryKind.2, hknown.axisOrder.2⟩, hknown.coordinateUnit.2⟩
  · intro hknown
    obtain ⟨⟨hkind, haxis⟩, hunit⟩ := hknown
    refine ⟨h.crs.isSome, h.extent.isSome, h.resolution.isSome, ⟨?_, hkind⟩, ⟨?_, haxis⟩, ?_, hunit⟩
    · rw [h.geometryKind]
      exact hkind
    · rw [h.axisOrder]
      exact haxis
    · rw [h.coordinateUnit]
      exact hunit

theorem knownTerm_iff {p r : Option MeasureTerm} (h : Provides (· = ·) p r) :
    Provides KnownTerm p r ↔ r.any MeasureTerm.hasUnknown = false := by
  rw [Option.any_eq_false]
  constructor
  · intro hknown t ht
    obtain ⟨a, -, -, hkind⟩ := hknown t ht
    simpa [MeasureTerm.hasUnknown] using hkind
  · intro hknown
    refine h.mono fun a b _ hb heq => ?_
    have hkind : b.kind ≠ .unknown := by simpa [MeasureTerm.hasUnknown] using hknown b hb
    rw [heq]
    exact ⟨hkind, hkind⟩

theorem knownMeasure_iff {p r : MeasureContract} (h : MeetsMeasure p r) :
    KnownMeasure p r ↔ r.hasUnknown = false := by
  simp only [MeasureContract.hasUnknown, Bool.or_eq_false_iff, decide_eq_false_iff_not,
    ← knownTerm_iff h.numerator, ← knownTerm_iff h.denominator]
  constructor
  · intro hknown
    exact ⟨⟨⟨hknown.kind.2, hknown.aggregation.2⟩, hknown.numerator⟩, hknown.denominator⟩
  · intro hknown
    obtain ⟨⟨⟨hkind, haggregation⟩, hnumerator⟩, hdenominator⟩ := hknown
    refine ⟨hnumerator, hdenominator, h.populationUniverse.isSome, ⟨?_, hkind⟩, ?_, haggregation⟩
    · rw [h.kind]
      exact hkind
    · rw [h.aggregation]
      exact haggregation

theorem knownTemporal_iff {p r : TemporalContract} (h : MeetsTemporal p r) :
    KnownTemporal p r ↔ r.hasUnknown = false := by
  rw [TemporalContract.hasUnknown, decide_eq_false_iff_not]
  constructor
  · intro hknown
    exact hknown.granularity.2
  · intro hgranularity
    refine ⟨h.observedAt.isSome, ?_, hgranularity⟩
    rw [h.granularity]
    exact hgranularity

theorem knownCoverage_iff {p r : CoverageContract} (h : MeetsCoverage p r) :
    KnownCoverage p r ↔ r.hasUnknown = false := by
  simp only [CoverageContract.hasUnknown, Bool.or_eq_false_iff, decide_eq_false_iff_not]
  constructor
  · intro hknown
    exact ⟨hknown.keyUniqueness.2, hknown.nullPolicy.2⟩
  · intro hknown
    obtain ⟨huniqueness, hnull⟩ := hknown
    refine ⟨h.expectedFeatureCount.isSome, fun hkeys => ?_, ⟨?_, huniqueness⟩, ?_, hnull⟩
    · rw [h.joinKeys hkeys]
      exact hkeys
    · rw [h.keyUniqueness]
      exact huniqueness
    · rw [h.nullPolicy]
      exact hnull

theorem known_section {α : Type} {R K : α → α → Prop} {unknown : α → Bool} {p r : Option α}
    (h : Provides R p r) (hiff : ∀ a b, R a b → (K a b ↔ unknown b = false)) :
    Provides K p r ↔ ∀ b, r = some b → unknown b = false := by
  constructor
  · intro hknown b hb
    obtain ⟨a, ha, hK⟩ := hknown b hb
    obtain ⟨a', ha', hR⟩ := h b hb
    rw [ha] at ha'
    rw [← Option.some.inj ha'] at hR
    exact (hiff a b hR).mp hK
  · intro hall
    exact h.mono fun a b _ hb hR => (hiff a b hR).mpr (hall b hb)

theorem fullyKnown_iff {p r : GeoContract} (h : Meets p r) :
    FullyKnown p r ↔ r.hasUnknown = false := by
  have hspatial := known_section h.spatial fun _ _ => knownSpatial_iff
  have hmeasure := known_section h.measure fun _ _ => knownMeasure_iff
  have htemporal := known_section h.temporal fun _ _ => knownTemporal_iff
  have hcoverage := known_section h.coverage fun _ _ => knownCoverage_iff
  rw [hasUnknown_false, ← hspatial, ← hmeasure, ← htemporal, ← hcoverage]
  constructor
  · intro hknown
    exact ⟨hknown.spatial, hknown.measure, hknown.temporal, hknown.coverage⟩
  · intro hknown
    obtain ⟨hspatial, hmeasure, htemporal, hcoverage⟩ := hknown
    refine ⟨hspatial, hmeasure, htemporal, hcoverage, ?_, fun t ht => ?_⟩
    · exact h.source.mono fun a b _ _ hs =>
        ⟨hs.sourceVersion.isSome, hs.expectedChecksum.isSome, hs.authority.isSome⟩
    · obtain ⟨c, hc, -⟩ := h.tolerances t ht
      exact ⟨c, List.mem_of_find?_eq_some hc, by simpa using List.find?_some hc⟩

/-- The contract with every tolerance as strict as it can be. -/
def strictest (c : GeoContract) : GeoContract :=
  { c with quality := { c.quality with
      tolerances := c.quality.tolerances.map fun t => { t with maxErrorPpm := 0 } } }

theorem meets_strictest {c : GeoContract} (h : c.hasNan = false) : Meets c.strictest c := by
  refine meets_of_sections h rfl rfl rfl rfl rfl rfl fun t ht => ?_
  have hfound : (c.strictest.quality.tolerances.find? fun u => u.metric = t.metric).isSome := by
    rw [List.find?_isSome]
    exact ⟨{ t with maxErrorPpm := 0 }, List.mem_map.mpr ⟨t, ht, rfl⟩, decide_eq_true rfl⟩
  obtain ⟨u, hu⟩ := Option.isSome_iff_exists.mp hfound
  obtain ⟨t', -, ht'⟩ := List.mem_map.mp (List.mem_of_find?_eq_some hu)
  refine ⟨u, hu, ?_⟩
  rw [← ht']
  exact Nat.zero_le _

theorem hasNan_of_meets {p r : GeoContract} (h : Meets p r) : r.hasNan = false := by
  rw [hasNan]
  cases hs : r.spatial with
  | none => rfl
  | some s =>
    obtain ⟨q, -, hq⟩ := h.spatial s hs
    rw [Option.any_some, Bool.or_eq_false_iff, Option.any_eq_false, Option.any_eq_false]
    constructor
    · intro e he
      obtain ⟨e', -, heq⟩ := hq.extent e he
      exact SpatialExtent.hasNan_of_eq heq
    · intro e he
      obtain ⟨e', -, heq⟩ := hq.resolution e he
      exact SpatialResolution.hasNan_of_eq heq

/-- A compatible report is about known values exactly when the required contract has no unknown
value or is not met. -/
theorem compatible_known_iff (required : GeoContract) :
    (∀ provided, ((compatibilityWith provided required).status = .compatible →
        FullyKnown provided required) ↔
      (required.hasUnknown = true → ¬ Meets provided required)) ∧
    ((∀ provided, (compatibilityWith provided required).status = .compatible →
        FullyKnown provided required) ↔
      (required.hasUnknown = false ∨ required.hasNan = true)) := by
  simp only [compatible_iff_meets]
  have hone : ∀ provided, (Meets provided required → FullyKnown provided required) ↔
      (required.hasUnknown = true → ¬ Meets provided required) := by
    intro provided
    constructor
    · intro h hunknown hmeets
      rw [(fullyKnown_iff hmeets).mp (h hmeets)] at hunknown
      cases hunknown
    · intro h hmeets
      rw [fullyKnown_iff hmeets, Bool.eq_false_iff]
      exact fun hunknown => h hunknown hmeets
  refine ⟨hone, ?_⟩
  simp only [hone]
  constructor
  · intro h
    by_cases hnan : required.hasNan = true
    · exact .inr hnan
    · refine Or.inl (Bool.eq_false_iff.mpr fun hunknown => ?_)
      exact h _ hunknown (meets_strictest (Bool.eq_false_iff.mpr hnan))
  · intro h provided hunknown hmeets
    rcases h with h | h
    · rw [h] at hunknown
      cases hunknown
    · rw [hasNan_of_meets hmeets] at h
      cases h

/-- A contract of unknown coverage is compatible with itself. -/
theorem unknown_coverage_compatible : ¬ ∀ provided required : GeoContract,
      (compatibilityWith provided required).status = .compatible →
      FullyKnown provided required := by
  intro h
  have hcoverage : (compatibilityWith
      { new "a" with coverage := some ⟨"nagoya", none, [], .unknown, .unknown⟩ }
      { new "a" with coverage := some ⟨"nagoya", none, [], .unknown, .unknown⟩ }).status =
        .compatible := by
    decide
  obtain ⟨q, -, hknown⟩ := (h _ _ hcoverage).coverage _ rfl
  exact hknown.keyUniqueness.2 rfl

end GeoContract
end GeneGIS
