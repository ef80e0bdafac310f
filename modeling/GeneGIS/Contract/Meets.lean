/-
`Meets` is a preorder on valid contracts, so the edges of a workflow can be checked one by one.
Two unknown values are equal, so it does not say that what was compared is known.
-/
import GeneGIS.Contract.Compatibility
import GeneGIS.Data.Fallible
import GeneGIS.Data.Keyed

namespace GeneGIS

open Option List F64

/-- What is required is provided, and related to it. -/
def Provides {α : Type} (R : α → α → Prop) (provided required : Option α) : Prop :=
  ∀ b, required = some b → ∃ a, provided = some a ∧ R a b

namespace Provides

variable {α : Type} {R S : α → α → Prop} {a b c : Option α}

theorem refl_of (h : ∀ x, a = some x → R x x) : Provides R a a := by
  intro x hx
  exact ⟨x, hx, h x hx⟩

theorem trans_of (htrans : ∀ x y z, R x y → R y z → R x z) (hab : Provides R a b)
    (hbc : Provides R b c) : Provides R a c := by
  intro z hz
  obtain ⟨y, hy, hyz⟩ := hbc z hz
  obtain ⟨x, hx, hxy⟩ := hab y hy
  exact ⟨x, hx, htrans x y z hxy hyz⟩

theorem mono (h : Provides R a b) (hRS : ∀ x y, a = some x → b = some y → R x y → S x y) :
    Provides S a b := by
  intro y hy
  obtain ⟨x, hx, hxy⟩ := h y hy
  exact ⟨x, hx, hRS x y hx hy hxy⟩

theorem isSome (h : Provides R a b) (hb : b.isSome = true) : a.isSome = true := by
  obtain ⟨y, hy⟩ := isSome_iff_exists.mp hb
  obtain ⟨x, hx, -⟩ := h y hy
  rw [hx]
  rfl

end Provides

namespace F64

theorem eq_trans {x y z : F64} (hxy : eq x y = true) (hyz : eq y z = true) :
    eq x z = true := by
  simp only [eq, Bool.and_eq_true, Bool.not_eq_true', beq_iff_eq] at hxy hyz ⊢
  exact ⟨⟨hxy.1.1, hyz.1.2⟩, hxy.2.trans hyz.2⟩

theorem eq_self {x : F64} (h : x.isNan = false) : eq x x = true := by
  simp only [eq, h, Bool.not_false, Bool.and_self, beq_self_eq_true]

theorem isNan_of_eq {x y : F64} (h : eq x y = true) : y.isNan = false := by
  simp only [eq, Bool.and_eq_true, Bool.not_eq_true'] at h
  exact h.1.2

theorem isNan_of_isFinite {x : F64} (h : x.isFinite = true) : x.isNan = false := by
  simp only [isFinite, bne_iff_ne, ne_eq] at h
  simp only [isNan, Bool.and_eq_false_iff, beq_eq_false_iff_ne, ne_eq]
  exact .inl h

end F64

namespace SpatialExtent

def hasNan (e : SpatialExtent) : Bool :=
  e.minX.isNan || e.minY.isNan || e.maxX.isNan || e.maxY.isNan

theorem eq_trans {a b c : SpatialExtent} (hab : a.eq b = true) (hbc : b.eq c = true) :
    a.eq c = true := by
  simp only [SpatialExtent.eq, Bool.and_eq_true] at hab hbc ⊢
  obtain ⟨⟨⟨h1, h2⟩, h3⟩, h4⟩ := hab
  obtain ⟨⟨⟨k1, k2⟩, k3⟩, k4⟩ := hbc
  exact ⟨⟨⟨F64.eq_trans h1 k1, F64.eq_trans h2 k2⟩, F64.eq_trans h3 k3⟩, F64.eq_trans h4 k4⟩

theorem eq_self {e : SpatialExtent} (h : e.hasNan = false) : e.eq e = true := by
  simp only [hasNan, Bool.or_eq_false_iff] at h
  obtain ⟨⟨⟨h1, h2⟩, h3⟩, h4⟩ := h
  simp only [SpatialExtent.eq, F64.eq_self h1, F64.eq_self h2, F64.eq_self h3, F64.eq_self h4,
    Bool.and_self]

theorem hasNan_of_eq {a b : SpatialExtent} (h : a.eq b = true) : b.hasNan = false := by
  simp only [SpatialExtent.eq, Bool.and_eq_true] at h
  obtain ⟨⟨⟨h1, h2⟩, h3⟩, h4⟩ := h
  simp only [hasNan, isNan_of_eq h1, isNan_of_eq h2, isNan_of_eq h3,
    isNan_of_eq h4, Bool.or_self]

end SpatialExtent

namespace SpatialResolution

def hasNan (r : SpatialResolution) : Bool := r.x.isNan || r.y.isNan

theorem eq_trans {a b c : SpatialResolution} (hab : a.eq b = true) (hbc : b.eq c = true) :
    a.eq c = true := by
  simp only [SpatialResolution.eq, Bool.and_eq_true] at hab hbc ⊢
  exact ⟨F64.eq_trans hab.1 hbc.1, F64.eq_trans hab.2 hbc.2⟩

theorem eq_self {r : SpatialResolution} (h : r.hasNan = false) : r.eq r = true := by
  simp only [hasNan, Bool.or_eq_false_iff] at h
  simp only [SpatialResolution.eq, F64.eq_self h.1, F64.eq_self h.2, Bool.and_self]

theorem hasNan_of_eq {a b : SpatialResolution} (h : a.eq b = true) : b.hasNan = false := by
  simp only [SpatialResolution.eq, Bool.and_eq_true] at h
  simp only [hasNan, isNan_of_eq h.1, isNan_of_eq h.2, Bool.or_self]

end SpatialResolution

namespace GeoContract

/-! ## Findings -/

def Clean (findings : List CompatibilityFinding) : Prop := ∀ f ∈ findings, f.status = .compatible

theorem clean_nil : Clean [] := by
  intro f hf
  cases hf

theorem clean_append {fs gs : List CompatibilityFinding} :
    Clean (fs ++ gs) ↔ Clean fs ∧ Clean gs := forall_mem_append

theorem clean_singleton {f : CompatibilityFinding} : Clean [f] ↔ f.status = .compatible :=
  forall_mem_singleton

theorem not_clean_indeterminate (field detail : String) : ¬ Clean [indeterminate field detail] := by
  rw [clean_singleton]
  nofun

theorem overallStatus_compatible {findings : List CompatibilityFinding} :
    overallStatus findings = .compatible ↔ Clean findings := by
  unfold overallStatus
  by_cases hbad : (findings.any fun f => f.status = .incompatible) = true
  · rw [if_pos hbad]
    refine iff_of_false (by decide) fun hclean => ?_
    obtain ⟨f, hf, hstatus⟩ := List.any_eq_true.mp hbad
    rw [decide_eq_true_eq, hclean f hf] at hstatus
    cases hstatus
  · rw [if_neg hbad]
    by_cases hopen : (findings.any fun f => f.status = .indeterminate) = true
    · rw [if_pos hopen]
      refine iff_of_false (by decide) fun hclean => ?_
      obtain ⟨f, hf, hstatus⟩ := List.any_eq_true.mp hopen
      rw [decide_eq_true_eq, hclean f hf] at hstatus
      cases hstatus
    · rw [if_neg hopen]
      refine iff_of_true rfl fun f hf => ?_
      simp only [List.any_eq_true, decide_eq_true_eq, not_exists, not_and] at hbad hopen
      cases hstatus : f.status with
      | compatible => rfl
      | incompatible => exact absurd hstatus (hbad f hf)
      | indeterminate => exact absurd hstatus (hopen f hf)

section

variable {α : Type} [Compared α]

theorem clean_compareValue {field : String} {p r : α} :
    Clean (compareValue field (some p) (some r)) ↔ Compared.eq p r = true := by
  rw [compareValue]
  by_cases heq : Compared.eq p r = true
  · rw [if_pos heq, clean_singleton]
    exact iff_of_true rfl heq
  · rw [if_neg heq, clean_singleton]
    refine iff_of_false ?_ heq
    nofun

theorem clean_compareOptional {field : String} {p r : Option α} :
    Clean (compareOptional field p r) ↔ Provides (fun a b => Compared.eq a b = true) p r := by
  cases r with
  | none => exact iff_of_true clean_nil fun b hb => by cases hb
  | some r =>
    cases p with
    | none =>
      refine iff_of_false (not_clean_indeterminate _ _) fun h => ?_
      obtain ⟨a, ha, -⟩ := h r rfl
      cases ha
    | some p =>
      refine clean_compareValue.trans ⟨fun h b hb => ?_, fun h => ?_⟩
      · rw [← some.inj hb]
        exact ⟨p, rfl, h⟩
      · obtain ⟨a, ha, heq⟩ := h r rfl
        rw [← some.inj ha] at heq
        exact heq

end

/-- A type whose comparison is equality. -/
class ExactlyCompared (α : Type) [Compared α] : Prop where
  eq_iff : ∀ a b : α, Compared.eq a b = true ↔ a = b

instance : ExactlyCompared String := ⟨fun _ _ => decide_eq_true_iff⟩
instance : ExactlyCompared (List String) := ⟨fun _ _ => decide_eq_true_iff⟩
instance : ExactlyCompared Nat := ⟨fun _ _ => decide_eq_true_iff⟩
instance : ExactlyCompared GeometryKind := ⟨fun _ _ => decide_eq_true_iff⟩
instance : ExactlyCompared Crs := ⟨fun _ _ => decide_eq_true_iff⟩
instance : ExactlyCompared AxisOrder := ⟨fun _ _ => decide_eq_true_iff⟩
instance : ExactlyCompared CoordinateUnit := ⟨fun _ _ => decide_eq_true_iff⟩
instance : ExactlyCompared MeasureKind := ⟨fun _ _ => decide_eq_true_iff⟩
instance : ExactlyCompared AggregationBasis := ⟨fun _ _ => decide_eq_true_iff⟩
instance : ExactlyCompared MeasureTerm := ⟨fun _ _ => decide_eq_true_iff⟩
instance : ExactlyCompared TemporalGranularity := ⟨fun _ _ => decide_eq_true_iff⟩
instance : ExactlyCompared KeyUniqueness := ⟨fun _ _ => decide_eq_true_iff⟩
instance : ExactlyCompared NullPolicy := ⟨fun _ _ => decide_eq_true_iff⟩

section

variable {α : Type} [Compared α] [ExactlyCompared α]

theorem clean_exactValue {field : String} {p r : α} :
    Clean (compareValue field (some p) (some r)) ↔ p = r := by
  rw [clean_compareValue, ExactlyCompared.eq_iff]

theorem clean_exactOptional {field : String} {p r : Option α} :
    Clean (compareOptional field p r) ↔ Provides (· = ·) p r := by
  simp only [clean_compareOptional, ExactlyCompared.eq_iff]

end

theorem clean_section {α : Type} {findings : Option α → Option α → List CompatibilityFinding}
    {R : α → α → Prop} (hnone : ∀ p, Clean (findings p none))
    (hmissing : ∀ r, ¬ Clean (findings none (some r)))
    (hsome : ∀ p r, Clean (findings (some p) (some r)) ↔ R p r) (p r : Option α) :
    Clean (findings p r) ↔ Provides R p r := by
  cases r with
  | none => exact iff_of_true (hnone p) fun b hb => by cases hb
  | some r =>
    cases p with
    | none =>
      refine iff_of_false (hmissing r) fun h => ?_
      obtain ⟨a, ha, -⟩ := h r rfl
      cases ha
    | some p =>
      refine (hsome p r).trans ⟨fun h b hb => ?_, fun h => ?_⟩
      · rw [← some.inj hb]
        exact ⟨p, rfl, h⟩
      · obtain ⟨a, ha, hR⟩ := h r rfl
        rw [← some.inj ha] at hR
        exact hR

/-! ## Sections -/

structure MeetsSpatial (p r : SpatialContract) : Prop where
  geometryKind : p.geometryKind = r.geometryKind
  crs : Provides (· = ·) p.crs r.crs
  axisOrder : p.axisOrder = r.axisOrder
  coordinateUnit : p.coordinateUnit = r.coordinateUnit
  extent : Provides (fun a b => SpatialExtent.eq a b = true) p.extent r.extent
  resolution : Provides (fun a b => SpatialResolution.eq a b = true) p.resolution r.resolution

structure MeetsMeasure (p r : MeasureContract) : Prop where
  kind : p.kind = r.kind
  unit : p.unit = r.unit
  aggregation : p.aggregation = r.aggregation
  numerator : Provides (· = ·) p.numerator r.numerator
  denominator : Provides (· = ·) p.denominator r.denominator
  populationUniverse : Provides (· = ·) p.populationUniverse r.populationUniverse

structure MeetsTemporal (p r : TemporalContract) : Prop where
  referencePeriod : p.referencePeriod = r.referencePeriod
  granularity : p.granularity = r.granularity
  observedAt : Provides (· = ·) p.observedAt r.observedAt

structure MeetsCoverage (p r : CoverageContract) : Prop where
  scope : p.scope = r.scope
  expectedFeatureCount : Provides (· = ·) p.expectedFeatureCount r.expectedFeatureCount
  joinKeys : r.joinKeys ≠ [] → p.joinKeys = r.joinKeys
  keyUniqueness : p.keyUniqueness = r.keyUniqueness
  nullPolicy : p.nullPolicy = r.nullPolicy

structure MeetsSource (p r : SourceContract) : Prop where
  uri : p.snapshot.uri = r.snapshot.uri
  sourceVersion : Provides (· = ·) p.snapshot.sourceVersion r.snapshot.sourceVersion
  expectedChecksum : Provides (· = ·) p.snapshot.expectedChecksum r.snapshot.expectedChecksum
  authority : Provides (· = ·) p.authority r.authority

/-- The first tolerance of the same metric is at least as strict. -/
def MeetsTolerance (provided : List QualityTolerance) (required : QualityTolerance) : Prop :=
  ∃ candidate, (provided.find? fun c => c.metric = required.metric) = some candidate ∧
    candidate.maxErrorPpm ≤ required.maxErrorPpm

/-- A provided contract has what a required one constrains. -/
structure Meets (p r : GeoContract) : Prop where
  schemaVersion : p.schemaVersion = r.schemaVersion
  spatial : Provides MeetsSpatial p.spatial r.spatial
  measure : Provides MeetsMeasure p.measure r.measure
  temporal : Provides MeetsTemporal p.temporal r.temporal
  coverage : Provides MeetsCoverage p.coverage r.coverage
  source : Provides MeetsSource p.source r.source
  tolerances : ∀ t ∈ r.quality.tolerances, MeetsTolerance p.quality.tolerances t

theorem clean_compareSpatial (p r : Option SpatialContract) :
    Clean (compareSpatial p r) ↔ Provides MeetsSpatial p r := by
  refine clean_section (fun p => by cases p <;> exact clean_nil)
    (fun r => not_clean_indeterminate _ _) (fun p r => ?_) p r
  simp only [compareSpatial, clean_append, clean_exactValue, clean_exactOptional,
    clean_compareOptional]
  constructor
  · intro h
    obtain ⟨⟨⟨⟨⟨hkind, hcrs⟩, haxis⟩, hunit⟩, hextent⟩, hresolution⟩ := h
    exact ⟨hkind, hcrs, haxis, hunit, hextent, hresolution⟩
  · intro h
    exact ⟨⟨⟨⟨⟨h.geometryKind, h.crs⟩, h.axisOrder⟩, h.coordinateUnit⟩, h.extent⟩, h.resolution⟩

theorem clean_compareMeasure (p r : Option MeasureContract) :
    Clean (compareMeasure p r) ↔ Provides MeetsMeasure p r := by
  refine clean_section (fun p => by cases p <;> exact clean_nil)
    (fun r => not_clean_indeterminate _ _) (fun p r => ?_) p r
  simp only [compareMeasure, clean_append, clean_exactValue, clean_exactOptional]
  constructor
  · intro h
    obtain ⟨⟨⟨⟨⟨hkind, hunit⟩, haggregation⟩, hnumerator⟩, hdenominator⟩, huniverse⟩ := h
    exact ⟨hkind, hunit, haggregation, hnumerator, hdenominator, huniverse⟩
  · intro h
    exact ⟨⟨⟨⟨⟨h.kind, h.unit⟩, h.aggregation⟩, h.numerator⟩, h.denominator⟩, h.populationUniverse⟩

theorem clean_compareTemporal (p r : Option TemporalContract) :
    Clean (compareTemporal p r) ↔ Provides MeetsTemporal p r := by
  refine clean_section (fun p => by cases p <;> exact clean_nil)
    (fun r => not_clean_indeterminate _ _) (fun p r => ?_) p r
  simp only [compareTemporal, clean_append, clean_exactValue, clean_exactOptional]
  constructor
  · intro h
    obtain ⟨⟨hperiod, hgranularity⟩, hobserved⟩ := h
    exact ⟨hperiod, hgranularity, hobserved⟩
  · intro h
    exact ⟨⟨h.referencePeriod, h.granularity⟩, h.observedAt⟩

theorem clean_joinKeys {p r : List String} :
    Clean (if r.isEmpty then [] else compareValue "coverage.join_keys" (some p) (some r)) ↔
      (r ≠ [] → p = r) := by
  by_cases hempty : r = []
  · rw [if_pos (List.isEmpty_iff.mpr hempty)]
    exact iff_of_true clean_nil fun h => absurd hempty h
  · rw [if_neg (mt List.isEmpty_iff.mp hempty), clean_exactValue]
    exact ⟨fun h _ => h, fun h => h hempty⟩

theorem clean_compareCoverage (p r : Option CoverageContract) :
    Clean (compareCoverage p r) ↔ Provides MeetsCoverage p r := by
  refine clean_section (fun p => by cases p <;> exact clean_nil)
    (fun r => not_clean_indeterminate _ _) (fun p r => ?_) p r
  simp only [compareCoverage, clean_append, clean_exactValue, clean_exactOptional, clean_joinKeys]
  constructor
  · intro h
    obtain ⟨⟨⟨⟨hscope, hcount⟩, hkeys⟩, huniqueness⟩, hnull⟩ := h
    exact ⟨hscope, hcount, hkeys, huniqueness, hnull⟩
  · intro h
    exact ⟨⟨⟨⟨h.scope, h.expectedFeatureCount⟩, h.joinKeys⟩, h.keyUniqueness⟩, h.nullPolicy⟩

theorem clean_compareSource (p r : Option SourceContract) :
    Clean (compareSource p r) ↔ Provides MeetsSource p r := by
  refine clean_section (fun p => by cases p <;> exact clean_nil)
    (fun r => not_clean_indeterminate _ _) (fun p r => ?_) p r
  simp only [compareSource, clean_append, clean_exactValue, clean_exactOptional]
  constructor
  · intro h
    obtain ⟨⟨⟨huri, hversion⟩, hchecksum⟩, hauthority⟩ := h
    exact ⟨huri, hversion, hchecksum, hauthority⟩
  · intro h
    exact ⟨⟨⟨h.uri, h.sourceVersion⟩, h.expectedChecksum⟩, h.authority⟩

theorem compareTolerance_compatible {provided : List QualityTolerance} {t : QualityTolerance} :
    (compareTolerance provided t).status = .compatible ↔ MeetsTolerance provided t := by
  rw [compareTolerance, MeetsTolerance]
  cases hfind : provided.find? fun c => c.metric = t.metric with
  | none =>
    refine iff_of_false nofun fun h => ?_
    obtain ⟨c, hc, -⟩ := h
    cases hc
  | some candidate =>
    by_cases hle : candidate.maxErrorPpm ≤ t.maxErrorPpm
    · simp only [if_pos hle]
      exact iff_of_true trivial ⟨candidate, rfl, hle⟩
    · simp only [if_neg hle]
      refine iff_of_false nofun fun h => ?_
      obtain ⟨c, hc, hcle⟩ := h
      rw [← some.inj hc] at hcle
      exact hle hcle

theorem compatible_iff_meets {p r : GeoContract} :
    (compatibilityWith p r).status = .compatible ↔ Meets p r := by
  show overallStatus _ = _ ↔ _
  rw [overallStatus_compatible]
  simp only [clean_append, clean_exactValue, clean_compareSpatial, clean_compareMeasure,
    clean_compareTemporal, clean_compareCoverage, clean_compareSource]
  have htolerances : Clean (r.quality.tolerances.map (compareTolerance p.quality.tolerances)) ↔
      ∀ t ∈ r.quality.tolerances, MeetsTolerance p.quality.tolerances t := by
    rw [Clean, List.forall_mem_map]
    simp only [compareTolerance_compatible]
  rw [htolerances]
  constructor
  · intro h
    obtain ⟨⟨⟨⟨⟨⟨hschema, hspatial⟩, hmeasure⟩, htemporal⟩, hcoverage⟩, hsource⟩, hquality⟩ := h
    exact ⟨hschema, hspatial, hmeasure, htemporal, hcoverage, hsource, hquality⟩
  · intro h
    exact ⟨⟨⟨⟨⟨⟨h.schemaVersion, h.spatial⟩, h.measure⟩, h.temporal⟩, h.coverage⟩, h.source⟩,
      h.tolerances⟩

/-! ## A preorder -/

theorem MeetsSpatial.trans {a b c : SpatialContract} (hab : MeetsSpatial a b)
    (hbc : MeetsSpatial b c) : MeetsSpatial a c where
  geometryKind := hab.geometryKind.trans hbc.geometryKind
  crs := hab.crs.trans_of (fun _ _ _ => Eq.trans) hbc.crs
  axisOrder := hab.axisOrder.trans hbc.axisOrder
  coordinateUnit := hab.coordinateUnit.trans hbc.coordinateUnit
  extent := hab.extent.trans_of (fun _ _ _ => SpatialExtent.eq_trans) hbc.extent
  resolution := hab.resolution.trans_of (fun _ _ _ => SpatialResolution.eq_trans) hbc.resolution

theorem MeetsMeasure.trans {a b c : MeasureContract} (hab : MeetsMeasure a b)
    (hbc : MeetsMeasure b c) : MeetsMeasure a c where
  kind := hab.kind.trans hbc.kind
  unit := hab.unit.trans hbc.unit
  aggregation := hab.aggregation.trans hbc.aggregation
  numerator := hab.numerator.trans_of (fun _ _ _ => Eq.trans) hbc.numerator
  denominator := hab.denominator.trans_of (fun _ _ _ => Eq.trans) hbc.denominator
  populationUniverse := hab.populationUniverse.trans_of (fun _ _ _ => Eq.trans) hbc.populationUniverse

theorem MeetsTemporal.trans {a b c : TemporalContract} (hab : MeetsTemporal a b)
    (hbc : MeetsTemporal b c) : MeetsTemporal a c where
  referencePeriod := hab.referencePeriod.trans hbc.referencePeriod
  granularity := hab.granularity.trans hbc.granularity
  observedAt := hab.observedAt.trans_of (fun _ _ _ => Eq.trans) hbc.observedAt

theorem MeetsCoverage.trans {a b c : CoverageContract} (hab : MeetsCoverage a b)
    (hbc : MeetsCoverage b c) : MeetsCoverage a c where
  scope := hab.scope.trans hbc.scope
  expectedFeatureCount :=
    hab.expectedFeatureCount.trans_of (fun _ _ _ => Eq.trans) hbc.expectedFeatureCount
  joinKeys := by
    intro hkeys
    have hmiddle := hbc.joinKeys hkeys
    rw [← hmiddle]
    refine hab.joinKeys ?_
    rw [hmiddle]
    exact hkeys
  keyUniqueness := hab.keyUniqueness.trans hbc.keyUniqueness
  nullPolicy := hab.nullPolicy.trans hbc.nullPolicy

theorem MeetsSource.trans {a b c : SourceContract} (hab : MeetsSource a b)
    (hbc : MeetsSource b c) : MeetsSource a c where
  uri := hab.uri.trans hbc.uri
  sourceVersion := hab.sourceVersion.trans_of (fun _ _ _ => Eq.trans) hbc.sourceVersion
  expectedChecksum := hab.expectedChecksum.trans_of (fun _ _ _ => Eq.trans) hbc.expectedChecksum
  authority := hab.authority.trans_of (fun _ _ _ => Eq.trans) hbc.authority

theorem meetsTolerance_trans {a b : List QualityTolerance} {t : QualityTolerance}
    (hab : ∀ u ∈ b, MeetsTolerance a u) (hbt : MeetsTolerance b t) : MeetsTolerance a t := by
  obtain ⟨u, hu, hule⟩ := hbt
  obtain ⟨v, hv, hvle⟩ := hab u (mem_of_find?_eq_some hu)
  have hmetric : u.metric = t.metric := by simpa using find?_some hu
  rw [hmetric] at hv
  exact ⟨v, hv, by omega⟩

theorem Meets.trans {a b c : GeoContract} (hab : Meets a b) (hbc : Meets b c) : Meets a c where
  schemaVersion := hab.schemaVersion.trans hbc.schemaVersion
  spatial := hab.spatial.trans_of (fun _ _ _ => MeetsSpatial.trans) hbc.spatial
  measure := hab.measure.trans_of (fun _ _ _ => MeetsMeasure.trans) hbc.measure
  temporal := hab.temporal.trans_of (fun _ _ _ => MeetsTemporal.trans) hbc.temporal
  coverage := hab.coverage.trans_of (fun _ _ _ => MeetsCoverage.trans) hbc.coverage
  source := hab.source.trans_of (fun _ _ _ => MeetsSource.trans) hbc.source
  tolerances t ht := meetsTolerance_trans hab.tolerances (hbc.tolerances t ht)

/-- A contract that demands a coordinate or a resolution that is not a number. -/
def hasNan (c : GeoContract) : Bool :=
  c.spatial.any fun s => s.extent.any SpatialExtent.hasNan || s.resolution.any SpatialResolution.hasNan

variable {c : GeoContract} {s : SpatialContract}

theorem hasNan_extent (h : c.hasNan = false)
    (hs : c.spatial = some s) {e : SpatialExtent} (he : s.extent = some e) : e.hasNan = false := by
  rw [hasNan, hs, any_some, Bool.or_eq_false_iff, he, any_some] at h
  exact h.1

theorem hasNan_resolution (h : c.hasNan = false)
    (hs : c.spatial = some s) {r : SpatialResolution} (hr : s.resolution = some r) :
    r.hasNan = false := by
  rw [hasNan, hs, any_some, Bool.or_eq_false_iff, hr, any_some] at h
  exact h.2

theorem meets_of_sections {p r : GeoContract} (hnan : r.hasNan = false)
    (hschema : p.schemaVersion = r.schemaVersion) (hspatial : p.spatial = r.spatial)
    (hmeasure : p.measure = r.measure) (htemporal : p.temporal = r.temporal)
    (hcoverage : p.coverage = r.coverage) (hsource : p.source = r.source)
    (htolerances : ∀ t ∈ r.quality.tolerances, MeetsTolerance p.quality.tolerances t) :
    Meets p r where
  schemaVersion := hschema
  spatial := by
    rw [hspatial]
    refine Provides.refl_of fun s hs => ?_
    exact ⟨rfl, Provides.refl_of fun _ _ => rfl, rfl, rfl,
      Provides.refl_of fun e he => SpatialExtent.eq_self (hasNan_extent hnan hs he),
      Provides.refl_of fun e he => SpatialResolution.eq_self (hasNan_resolution hnan hs he)⟩
  measure := by
    rw [hmeasure]
    exact Provides.refl_of fun s _ => ⟨rfl, rfl, rfl, Provides.refl_of fun _ _ => rfl,
      Provides.refl_of fun _ _ => rfl, Provides.refl_of fun _ _ => rfl⟩
  temporal := by
    rw [htemporal]
    exact Provides.refl_of fun s _ => ⟨rfl, rfl, Provides.refl_of fun _ _ => rfl⟩
  coverage := by
    rw [hcoverage]
    exact Provides.refl_of fun s _ => ⟨rfl, Provides.refl_of fun _ _ => rfl, fun _ => rfl, rfl, rfl⟩
  source := by
    rw [hsource]
    exact Provides.refl_of fun s _ => ⟨rfl, Provides.refl_of fun _ _ => rfl,
      Provides.refl_of fun _ _ => rfl, Provides.refl_of fun _ _ => rfl⟩
  tolerances := htolerances

/-! ## Valid contracts -/

open Fallible in
theorem validateSpatial_finite (h : validateSpatial s = .ok ()) :
    whenSome s.extent validateExtent = .ok () ∧ whenSome s.resolution validateResolution = .ok () := by
  unfold validateSpatial at h
  obtain ⟨_, -, h⟩ := bind_iff.mp h
  obtain ⟨_, -, h⟩ := bind_iff.mp h
  obtain ⟨_, -, h⟩ := bind_iff.mp h
  cases hcrs : s.crs with
  | none =>
    rw [hcrs] at h
    cases h
  | some crs =>
    simp only [hcrs] at h
    cases hknown : crs.requireKnown with
    | error e =>
      rw [hknown] at h
      cases h
    | ok definition =>
      rw [hknown] at h
      obtain ⟨_, -, h⟩ := bind_iff.mp h
      obtain ⟨_, hextent, hresolution⟩ := bind_iff.mp h
      exact ⟨hextent, hresolution⟩

theorem require_ok {known : Bool} {e : ContractValidationError} (h : require known e = .ok ()) :
    known = true :=
  Fallible.except_guard_ok.mp h

theorem validateExtent_hasNan {e : SpatialExtent} (h : validateExtent e = .ok ()) :
    e.hasNan = false := by
  have hknown := require_ok h
  simp only [List.all_cons, List.all_nil, Bool.and_eq_true, and_true] at hknown
  obtain ⟨⟨⟨h1, h2, h3, h4⟩, -⟩, -⟩ := hknown
  simp only [SpatialExtent.hasNan, isNan_of_isFinite h1, isNan_of_isFinite h2,
    isNan_of_isFinite h3, isNan_of_isFinite h4, Bool.or_self]

theorem validateResolution_hasNan {r : SpatialResolution} (h : validateResolution r = .ok ()) :
    r.hasNan = false := by
  have hknown := require_ok h
  simp only [Bool.and_eq_true] at hknown
  obtain ⟨⟨⟨h1, h2⟩, -⟩, -⟩ := hknown
  simp only [SpatialResolution.hasNan, isNan_of_isFinite h1, isNan_of_isFinite h2,
    Bool.or_self]

open Fallible in
theorem requireDistinct_nodup {field : String} {seen values : List String}
    (h : requireDistinct field seen values = .ok ()) :
    values.Nodup ∧ ∀ v ∈ values, v ∉ seen := by
  induction values generalizing seen with
  | nil => exact ⟨nodup_nil, by simp⟩
  | cons v rest ih =>
    rw [requireDistinct] at h
    obtain ⟨_, -, h⟩ := bind_iff.mp h
    obtain ⟨_, hnew, h⟩ := bind_iff.mp h
    have hfresh : v ∉ seen := by simpa using require_ok hnew
    obtain ⟨hnodup, hrest⟩ := ih h
    refine ⟨nodup_cons.mpr ⟨fun hv => ?_, hnodup⟩, ?_⟩
    · exact hrest v hv mem_cons_self
    · rw [forall_mem_cons]
      exact ⟨hfresh, fun w hw hseen => hrest w hw (mem_cons_of_mem v hseen)⟩

open Fallible in
theorem validate_hasNan (h : c.validate = .ok ()) : c.hasNan = false := by
  unfold validate at h
  obtain ⟨_, -, h⟩ := bind_iff.mp h
  obtain ⟨_, -, h⟩ := bind_iff.mp h
  obtain ⟨_, hspatial, -⟩ := bind_iff.mp h
  rw [hasNan]
  cases hs : c.spatial with
  | none => rfl
  | some s =>
    rw [hs] at hspatial
    obtain ⟨hextent, hresolution⟩ := validateSpatial_finite hspatial
    rw [any_some, Bool.or_eq_false_iff]
    constructor
    · cases he : s.extent with
      | none => rfl
      | some e =>
        rw [he] at hextent
        exact validateExtent_hasNan hextent
    · cases hr : s.resolution with
      | none => rfl
      | some r =>
        rw [hr] at hresolution
        exact validateResolution_hasNan hresolution

open Fallible in
theorem validate_metrics (h : c.validate = .ok ()) :
    (c.quality.tolerances.map QualityTolerance.metric).Nodup := by
  unfold validate at h
  iterate 8 obtain ⟨_, -, h⟩ := bind_iff.mp h
  exact (requireDistinct_nodup h).1

theorem meets_self (h : c.validate = .ok ()) : Meets c c := by
  refine meets_of_sections (validate_hasNan h) rfl rfl rfl rfl rfl rfl fun t ht => ?_
  refine ⟨t, ?_, Nat.le_refl _⟩
  exact (Keyed.find?_eq_some (validate_metrics h)).mpr ⟨ht, rfl⟩

/-- Compatibility is a preorder on valid contracts, and a chain of compatible edges makes
its ends compatible. -/
theorem compatible_preorder :
    (∀ c : GeoContract, c.validate = .ok () → (compatibilityWith c c).status = .compatible) ∧
    (∀ a b c : GeoContract, a.validate = .ok () → b.validate = .ok () → c.validate = .ok () →
      (compatibilityWith a b).status = .compatible → (compatibilityWith b c).status = .compatible →
      (compatibilityWith a c).status = .compatible) ∧
    (∀ a b : GeoContract, a.validate = .ok () →
      Relation.ReflTransGen (fun x y => (compatibilityWith x y).status = .compatible) a b →
      (compatibilityWith a b).status = .compatible) := by
  simp only [compatible_iff_meets]
  refine ⟨fun c hc => meets_self hc, fun a b c _ _ _ hab hbc => hab.trans hbc, ?_⟩
  intro a b ha hpath
  induction hpath with
  | refl => exact meets_self ha
  | tail _ hedge ih => exact ih.trans hedge

end GeoContract
end GeneGIS
