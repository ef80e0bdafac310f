/-
Every field that the required contract constrains leaves a finding, and the report is compatible
when every finding is.
-/
import GeneGIS.Contract

namespace GeneGIS

inductive CompatibilityStatus where
  | compatible
  | incompatible
  | indeterminate
  deriving DecidableEq

/-- A value that a finding shows. -/
inductive Semantic where
  | text (value : String)
  | texts (values : List String)
  | number (value : Nat)
  | geometryKind (value : GeometryKind)
  | crs (value : Crs)
  | axisOrder (value : AxisOrder)
  | coordinateUnit (value : CoordinateUnit)
  | extent (value : SpatialExtent)
  | resolution (value : SpatialResolution)
  | measureKind (value : MeasureKind)
  | aggregation (value : AggregationBasis)
  | term (value : MeasureTerm)
  | granularity (value : TemporalGranularity)
  | keyUniqueness (value : KeyUniqueness)
  | nullPolicy (value : NullPolicy)

/-- The explanation of a finding.  A mismatch prints both values. -/
inductive FindingDetail where
  | text (value : String)
  | mismatch (provided required : Semantic)

structure CompatibilityFinding where
  field : String
  status : CompatibilityStatus
  detail : FindingDetail

structure CompatibilityReport where
  status : CompatibilityStatus
  findings : List CompatibilityFinding

/-- What a comparison needs of a type: its equality and its printed form. -/
class Compared (α : Type) where
  eq : α → α → Bool
  semantic : α → Semantic

instance : Compared String := ⟨fun a b => decide (a = b), .text⟩
instance : Compared (List String) := ⟨fun a b => decide (a = b), .texts⟩
instance : Compared Nat := ⟨fun a b => decide (a = b), .number⟩
instance : Compared GeometryKind := ⟨fun a b => decide (a = b), .geometryKind⟩
instance : Compared Crs := ⟨fun a b => decide (a = b), .crs⟩
instance : Compared AxisOrder := ⟨fun a b => decide (a = b), .axisOrder⟩
instance : Compared CoordinateUnit := ⟨fun a b => decide (a = b), .coordinateUnit⟩
instance : Compared MeasureKind := ⟨fun a b => decide (a = b), .measureKind⟩
instance : Compared AggregationBasis := ⟨fun a b => decide (a = b), .aggregation⟩
instance : Compared MeasureTerm := ⟨fun a b => decide (a = b), .term⟩
instance : Compared TemporalGranularity := ⟨fun a b => decide (a = b), .granularity⟩
instance : Compared KeyUniqueness := ⟨fun a b => decide (a = b), .keyUniqueness⟩
instance : Compared NullPolicy := ⟨fun a b => decide (a = b), .nullPolicy⟩

def SpatialExtent.eq (a b : SpatialExtent) : Bool :=
  F64.eq a.minX b.minX && F64.eq a.minY b.minY && F64.eq a.maxX b.maxX && F64.eq a.maxY b.maxY

def SpatialResolution.eq (a b : SpatialResolution) : Bool := F64.eq a.x b.x && F64.eq a.y b.y

instance : Compared SpatialExtent := ⟨SpatialExtent.eq, .extent⟩
instance : Compared SpatialResolution := ⟨SpatialResolution.eq, .resolution⟩

namespace GeoContract

def indeterminate (field detail : String) : CompatibilityFinding :=
  { field := field, status := .indeterminate, detail := .text detail }

section

variable {α : Type} [Compared α]

def compareValue (field : String) (provided required : Option α) : List CompatibilityFinding :=
  match required with
  | none => []
  | some required =>
    match provided with
    | none => [indeterminate field "provided semantic is missing"]
    | some provided =>
      if Compared.eq provided required then
        [{ field := field, status := .compatible
           detail := .text "provided semantic matches requirement" }]
      else
        [{ field := field, status := .incompatible
           detail := .mismatch (Compared.semantic provided) (Compared.semantic required) }]

def compareOptional (field : String) (provided required : Option α) : List CompatibilityFinding :=
  if required.isNone then []
  else
    match provided with
    | none => [indeterminate field "provided semantic is missing"]
    | some provided => compareValue field (some provided) required

end

def compareSpatial (provided required : Option SpatialContract) : List CompatibilityFinding :=
  match required, provided with
  | none, _ => []
  | some _, none => [indeterminate "spatial" "provided spatial semantic is missing"]
  | some required, some provided =>
    compareValue "spatial.geometry_kind" (some provided.geometryKind) (some required.geometryKind) ++
    compareOptional "spatial.crs" provided.crs required.crs ++
    compareValue "spatial.axis_order" (some provided.axisOrder) (some required.axisOrder) ++
    compareValue "spatial.coordinate_unit" (some provided.coordinateUnit)
      (some required.coordinateUnit) ++
    compareOptional "spatial.extent" provided.extent required.extent ++
    compareOptional "spatial.resolution" provided.resolution required.resolution

def compareMeasure (provided required : Option MeasureContract) : List CompatibilityFinding :=
  match required, provided with
  | none, _ => []
  | some _, none => [indeterminate "measure" "provided measure semantic is missing"]
  | some required, some provided =>
    compareValue "measure.kind" (some provided.kind) (some required.kind) ++
    compareValue "measure.unit" (some provided.unit) (some required.unit) ++
    compareValue "measure.aggregation" (some provided.aggregation) (some required.aggregation) ++
    compareOptional "measure.numerator" provided.numerator required.numerator ++
    compareOptional "measure.denominator" provided.denominator required.denominator ++
    compareOptional "measure.population_universe" provided.populationUniverse
      required.populationUniverse

def compareTemporal (provided required : Option TemporalContract) : List CompatibilityFinding :=
  match required, provided with
  | none, _ => []
  | some _, none => [indeterminate "temporal" "provided temporal semantic is missing"]
  | some required, some provided =>
    compareValue "temporal.reference_period" (some provided.referencePeriod)
      (some required.referencePeriod) ++
    compareValue "temporal.granularity" (some provided.granularity) (some required.granularity) ++
    compareOptional "temporal.observed_at" provided.observedAt required.observedAt

def compareCoverage (provided required : Option CoverageContract) : List CompatibilityFinding :=
  match required, provided with
  | none, _ => []
  | some _, none => [indeterminate "coverage" "provided coverage semantic is missing"]
  | some required, some provided =>
    compareValue "coverage.scope" (some provided.scope) (some required.scope) ++
    compareOptional "coverage.expected_feature_count" provided.expectedFeatureCount
      required.expectedFeatureCount ++
    (if required.joinKeys.isEmpty then []
     else compareValue "coverage.join_keys" (some provided.joinKeys) (some required.joinKeys)) ++
    compareValue "coverage.key_uniqueness" (some provided.keyUniqueness)
      (some required.keyUniqueness) ++
    compareValue "coverage.null_policy" (some provided.nullPolicy) (some required.nullPolicy)

def compareSource (provided required : Option SourceContract) : List CompatibilityFinding :=
  match required, provided with
  | none, _ => []
  | some _, none => [indeterminate "source" "provided source is missing"]
  | some required, some provided =>
    compareValue "source.snapshot.uri" (some provided.snapshot.uri) (some required.snapshot.uri) ++
    compareOptional "source.snapshot.source_version" provided.snapshot.sourceVersion
      required.snapshot.sourceVersion ++
    compareOptional "source.snapshot.expected_checksum" provided.snapshot.expectedChecksum
      required.snapshot.expectedChecksum ++
    compareOptional "source.authority" provided.authority required.authority

def compareTolerance (provided : List QualityTolerance) (required : QualityTolerance) :
    CompatibilityFinding :=
  let field := "quality.tolerances." ++ required.metric
  match provided.find? fun candidate => candidate.metric = required.metric with
  | none => indeterminate field "required tolerance is missing"
  | some candidate =>
    if candidate.maxErrorPpm ≤ required.maxErrorPpm then
      { field := field, status := .compatible
        detail := .text "provided tolerance is at least as strict as required" }
    else
      { field := field, status := .incompatible
        detail := .text ("provided maximum " ++ toString candidate.maxErrorPpm ++
          " ppm exceeds required " ++ toString required.maxErrorPpm ++ " ppm") }

def overallStatus (findings : List CompatibilityFinding) : CompatibilityStatus :=
  if findings.any fun f => f.status = .incompatible then .incompatible
  else if findings.any fun f => f.status = .indeterminate then .indeterminate
  else .compatible

def compareContracts (provided required : GeoContract) : CompatibilityReport :=
  let findings :=
    compareValue "schema_version" (some provided.schemaVersion) (some required.schemaVersion) ++
    compareSpatial provided.spatial required.spatial ++
    compareMeasure provided.measure required.measure ++
    compareTemporal provided.temporal required.temporal ++
    compareCoverage provided.coverage required.coverage ++
    compareSource provided.source required.source ++
    required.quality.tolerances.map (compareTolerance provided.quality.tolerances)
  { status := overallStatus findings, findings := findings }

def compatibilityWith (provided required : GeoContract) : CompatibilityReport :=
  compareContracts provided required

end GeoContract
end GeneGIS
