/-
`validate` admits a contract when every meaning it declares is known.  A contract is part of a
workflow's digest document, so `toJson` writes it member by member.
-/
import GeneGIS.Crs

namespace GeneGIS

open Value (optional)

inductive GeometryKind where
  | point
  | line
  | polygon
  | raster
  | pointCloud
  | mixed
  | unknown
  deriving DecidableEq

def GeometryKind.asStr : GeometryKind → String
  | .point => "point"
  | .line => "line"
  | .polygon => "polygon"
  | .raster => "raster"
  | .pointCloud => "point_cloud"
  | .mixed => "mixed"
  | .unknown => "unknown"

inductive AxisOrder where
  | xy
  | longitudeLatitude
  | latitudeLongitude
  | unknown
  deriving DecidableEq

def AxisOrder.asStr : AxisOrder → String
  | .xy => "xy"
  | .longitudeLatitude => "longitude_latitude"
  | .latitudeLongitude => "latitude_longitude"
  | .unknown => "unknown"

structure SpatialExtent where
  minX : F64
  minY : F64
  maxX : F64
  maxY : F64

def SpatialExtent.toJson (e : SpatialExtent) : Value :=
  .object [("min_x", .ofF64 e.minX), ("min_y", .ofF64 e.minY), ("max_x", .ofF64 e.maxX),
    ("max_y", .ofF64 e.maxY)]

structure SpatialResolution where
  x : F64
  y : F64

def SpatialResolution.toJson (r : SpatialResolution) : Value :=
  .object [("x", .ofF64 r.x), ("y", .ofF64 r.y)]

structure SpatialContract where
  geometryKind : GeometryKind
  crs : Option Crs
  axisOrder : AxisOrder
  coordinateUnit : CoordinateUnit
  extent : Option SpatialExtent
  resolution : Option SpatialResolution

def SpatialContract.toJson (c : SpatialContract) : Value :=
  .object ( [("geometry_kind", .str c.geometryKind.asStr)] ++ optional "crs" Crs.toJson c.crs ++
    [("axis_order", .str c.axisOrder.asStr), ("coordinate_unit", c.coordinateUnit.toJson)] ++
    optional "extent" SpatialExtent.toJson c.extent ++
    optional "resolution" SpatialResolution.toJson c.resolution)

inductive MeasureKind where
  | count
  | area
  | length
  | density
  | rate
  | ratio
  | category
  | identifier
  | geometry
  | unknown
  deriving DecidableEq

def MeasureKind.asStr : MeasureKind → String
  | .count => "count"
  | .area => "area"
  | .length => "length"
  | .density => "density"
  | .rate => "rate"
  | .ratio => "ratio"
  | .category => "category"
  | .identifier => "identifier"
  | .geometry => "geometry"
  | .unknown => "unknown"

inductive AggregationBasis where
  | sum
  | mean
  | count
  | ratioOfSums
  | none
  | unknown
  deriving DecidableEq

def AggregationBasis.asStr : AggregationBasis → String
  | .sum => "sum"
  | .mean => "mean"
  | .count => "count"
  | .ratioOfSums => "ratio_of_sums"
  | .none => "none"
  | .unknown => "unknown"

structure MeasureTerm where
  kind : MeasureKind
  unit : String
  deriving DecidableEq

def MeasureTerm.toJson (t : MeasureTerm) : Value :=
  .object [("kind", .str t.kind.asStr), ("unit", .str t.unit)]

structure MeasureContract where
  kind : MeasureKind
  unit : String
  numerator : Option MeasureTerm
  denominator : Option MeasureTerm
  aggregation : AggregationBasis
  populationUniverse : Option String

def MeasureContract.toJson (c : MeasureContract) : Value :=
  .object ( [("kind", .str c.kind.asStr), ("unit", .str c.unit)] ++
    optional "numerator" MeasureTerm.toJson c.numerator ++
    optional "denominator" MeasureTerm.toJson c.denominator ++
    [("aggregation", .str c.aggregation.asStr)] ++
    optional "population_universe" .str c.populationUniverse)

inductive TemporalGranularity where
  | year
  | month
  | day
  | instant
  | interval
  | unknown
  deriving DecidableEq

def TemporalGranularity.asStr : TemporalGranularity → String
  | .year => "year"
  | .month => "month"
  | .day => "day"
  | .instant => "instant"
  | .interval => "interval"
  | .unknown => "unknown"

structure TemporalContract where
  referencePeriod : String
  granularity : TemporalGranularity
  observedAt : Option String

def TemporalContract.toJson (c : TemporalContract) : Value :=
  .object (
    [("reference_period", .str c.referencePeriod), ("granularity", .str c.granularity.asStr)] ++
    optional "observed_at" .str c.observedAt)

inductive KeyUniqueness where
  | unique
  | nonUnique
  | unknown
  deriving DecidableEq

def KeyUniqueness.asStr : KeyUniqueness → String
  | .unique => "unique"
  | .nonUnique => "non_unique"
  | .unknown => "unknown"

inductive NullPolicy where
  | reject
  | preserve
  | drop
  | unknown
  deriving DecidableEq

def NullPolicy.asStr : NullPolicy → String
  | .reject => "reject"
  | .preserve => "preserve"
  | .drop => "drop"
  | .unknown => "unknown"

structure CoverageContract where
  scope : String
  expectedFeatureCount : Option Nat
  joinKeys : List String
  keyUniqueness : KeyUniqueness
  nullPolicy : NullPolicy

def CoverageContract.toJson (c : CoverageContract) : Value :=
  .object ( [("scope", .str c.scope)] ++
    optional "expected_feature_count" .ofNat c.expectedFeatureCount ++
    Value.unlessEmpty "join_keys" .str c.joinKeys ++
    [("key_uniqueness", .str c.keyUniqueness.asStr), ("null_policy", .str c.nullPolicy.asStr)])

structure SourceContract where
  snapshot : SourceSnapshot
  authority : Option String
  maxAgeDays : Option Nat

def SourceContract.toJson (c : SourceContract) : Value :=
  .object ( [("snapshot", c.snapshot.toJson)] ++ optional "authority" .str c.authority ++
    optional "max_age_days" .ofNat c.maxAgeDays)

structure Uncertainty where
  method : String
  absolute : Option F64
  relativePpm : Option Nat

def Uncertainty.toJson (u : Uncertainty) : Value :=
  .object ( [("method", .str u.method)] ++ optional "absolute" .ofF64 u.absolute ++
    optional "relative_ppm" .ofNat u.relativePpm)

structure QualityTolerance where
  metric : String
  maxErrorPpm : Nat
  deriving DecidableEq

def QualityTolerance.toJson (t : QualityTolerance) : Value :=
  .object [("metric", .str t.metric), ("max_error_ppm", .ofNat t.maxErrorPpm)]

structure QualityContract where
  uncertainty : Option Uncertainty
  tolerances : List QualityTolerance

def QualityContract.toJson (c : QualityContract) : Value :=
  .object ( optional "uncertainty" Uncertainty.toJson c.uncertainty ++
    Value.unlessEmpty "tolerances" QualityTolerance.toJson c.tolerances)

structure GeoContract where
  schemaVersion : String
  id : String
  spatial : Option SpatialContract
  measure : Option MeasureContract
  temporal : Option TemporalContract
  coverage : Option CoverageContract
  source : Option SourceContract
  quality : QualityContract

inductive ContractValidationError where
  | unsupportedSchemaVersion (version : String)
  | emptyField (field : String)
  | unknownSemantic (field : String)
  | coordinateUnitMismatch (crs : String) (expected actual : CoordinateUnit)
  | invalidExtent
  | invalidResolution
  | missingMeasureTerms
  | duplicateValue (field value : String)
  | invalidQuality (field : String)
  | invalidCrs (error : CrsError)
  deriving DecidableEq

namespace GeoContract

def currentSchemaVersion : String := "0.1.0"

def new (id : String) : GeoContract :=
  { schemaVersion := currentSchemaVersion, id := id, spatial := none, measure := none,
    temporal := none, coverage := none, source := none,
    quality := { uncertainty := none, tolerances := [] } }

def toJson (c : GeoContract) : Value :=
  .object ( [("schema_version", .str c.schemaVersion), ("id", .str c.id)] ++
    optional "spatial" SpatialContract.toJson c.spatial ++
    optional "measure" MeasureContract.toJson c.measure ++
    optional "temporal" TemporalContract.toJson c.temporal ++
    optional "coverage" CoverageContract.toJson c.coverage ++
    optional "source" SourceContract.toJson c.source ++
    [("quality", c.quality.toJson)])

/-! ## Validation -/

abbrev Check := Except ContractValidationError Unit

def requireText (value field : String) : Check :=
  if Text.isBlank value || Text.toAsciiLowercase (Text.trim value) = "unknown" then
    .error (.emptyField field)
  else .ok ()

def require (known : Bool) (error : ContractValidationError) : Check :=
  if known then .ok () else .error error

/-- Run a check on a section that is present. -/
def whenSome {α : Type} (section? : Option α) (check : α → Check) : Check :=
  match section? with
  | some a => check a
  | none => .ok ()

/-- Texts of a list are required and pairwise distinct; the first offence in
list order is reported. -/
def requireDistinct (field : String) : List String → List String → Check
  | _, [] => .ok ()
  | seen, value :: rest => do
    requireText value field
    require (value ∉ seen) (.duplicateValue field value)
    requireDistinct field (value :: seen) rest

def validateExtent (e : SpatialExtent) : Check :=
  require ([e.minX, e.minY, e.maxX, e.maxY].all F64.isFinite &&
    !F64.lt e.maxX e.minX && !F64.lt e.maxY e.minY) .invalidExtent

def validateResolution (r : SpatialResolution) : Check :=
  require (r.x.isFinite && r.y.isFinite && !F64.le r.x .zero && !F64.le r.y .zero)
    .invalidResolution

def validateSpatial (c : SpatialContract) : Check := do
  require (c.geometryKind ≠ .unknown) (.unknownSemantic "spatial.geometry_kind")
  require (c.axisOrder ≠ .unknown) (.unknownSemantic "spatial.axis_order")
  require (c.coordinateUnit ≠ .unknown) (.unknownSemantic "spatial.coordinate_unit")
  match c.crs with
  | none => .error (.unknownSemantic "spatial.crs")
  | some crs =>
    match crs.requireKnown with
    | .error error => .error (.invalidCrs error)
    | .ok definition =>
      require (definition.unit = c.coordinateUnit)
        (.coordinateUnitMismatch crs.identifier definition.unit c.coordinateUnit)
      whenSome c.extent validateExtent
      whenSome c.resolution validateResolution

def validateTerm (field : String) (t : MeasureTerm) : Check := do
  require (t.kind ≠ .unknown) (.unknownSemantic field)
  requireText t.unit field

def validateMeasure (c : MeasureContract) : Check := do
  require (c.kind ≠ .unknown) (.unknownSemantic "measure.kind")
  requireText c.unit "measure.unit"
  require (c.aggregation ≠ .unknown) (.unknownSemantic "measure.aggregation")
  require (!(c.kind = .density || c.kind = .rate || c.kind = .ratio) ||
    (c.numerator.isSome && c.denominator.isSome)) .missingMeasureTerms
  whenSome c.numerator (validateTerm "measure.numerator.unit")
  whenSome c.denominator (validateTerm "measure.denominator.unit")
  whenSome c.populationUniverse fun value => requireText value "measure.population_universe"

def validateTemporal (c : TemporalContract) : Check := do
  requireText c.referencePeriod "temporal.reference_period"
  require (c.granularity ≠ .unknown) (.unknownSemantic "temporal.granularity")
  whenSome c.observedAt fun observedAt => requireText observedAt "temporal.observed_at"

def validateCoverage (c : CoverageContract) : Check := do
  requireText c.scope "coverage.scope"
  require (c.keyUniqueness ≠ .unknown) (.unknownSemantic "coverage.key_uniqueness")
  require (c.nullPolicy ≠ .unknown) (.unknownSemantic "coverage.null_policy")
  require (c.expectedFeatureCount ≠ some 0) (.invalidQuality "coverage.expected_feature_count")
  requireDistinct "coverage.join_keys" [] c.joinKeys

def validateSource (c : SourceContract) : Check := do
  requireText c.snapshot.uri "source.snapshot.uri"
  whenSome c.authority fun authority => requireText authority "source.authority"
  require (c.maxAgeDays ≠ some 0) (.invalidQuality "source.max_age_days")

def validateUncertainty (u : Uncertainty) : Check := do
  requireText u.method "quality.uncertainty.method"
  whenSome u.absolute fun absolute =>
    require (absolute.isFinite && !F64.lt absolute .zero)
      (.invalidQuality "quality.uncertainty.absolute")

def validate (c : GeoContract) : Check := do
  require (c.schemaVersion = currentSchemaVersion) (.unsupportedSchemaVersion c.schemaVersion)
  requireText c.id "id"
  whenSome c.spatial validateSpatial
  whenSome c.measure validateMeasure
  whenSome c.temporal validateTemporal
  whenSome c.coverage validateCoverage
  whenSome c.source validateSource
  whenSome c.quality.uncertainty validateUncertainty
  requireDistinct "quality.tolerances.metric" [] (c.quality.tolerances.map QualityTolerance.metric)

end GeoContract
end GeneGIS
