/-
Coordinate reference systems and source snapshots.
-/
import GeneGIS.Data.Json

namespace GeneGIS

/-- Coordinate system family of a definition. -/
inductive CrsKind where
  | geographic
  | projected
  | unknown

/-- Unit of the coordinate axes. -/
inductive CoordinateUnit where
  | degrees
  | metres
  | unknown
  deriving DecidableEq

namespace CoordinateUnit

def asStr : CoordinateUnit → String
  | .degrees => "degrees"
  | .metres => "metres"
  | .unknown => "unknown"

def toJson (u : CoordinateUnit) : Value := .str u.asStr

end CoordinateUnit

/-- Built-in definition of a known code. -/
structure CrsDefinition where
  code : Nat
  kind : CrsKind
  unit : CoordinateUnit

inductive CrsError where
  | unsupported (identifier : String)
  | nonFiniteCoordinate (x y : F64)
  | coordinateOutOfRange (x y : F64)
  deriving DecidableEq

/-- A normalized authority and code. -/
structure Crs where
  authority : String
  code : Nat
  deriving DecidableEq

namespace Crs

def new (authority : String) (code : Nat) : Crs :=
  { authority := Text.toAsciiUppercase (Text.trim authority), code := code }

def epsg (code : Nat) : Crs := { authority := "EPSG", code := code }

def wgs84Epsg : Nat := 4326

def jgd2011Epsg : Nat := 6668

def nagoyaProjectedEpsg : Nat := 6675

def nagoyaProjected : Crs := epsg nagoyaProjectedEpsg

variable (crs : Crs)

def identifier : String := crs.authority ++ ":" ++ toString crs.code

def toJson : Value := .str crs.identifier

def geographicDefinition (code : Nat) : CrsDefinition :=
  { code := code, kind := .geographic, unit := .degrees }

def projected (code : Nat) : CrsDefinition :=
  { code := code, kind := .projected, unit := .metres }

/-- The built-in registry.  The named projected codes of the source fall in the
ranges below or are listed beside them. -/
def definition : Option CrsDefinition :=
  if crs.authority ≠ "EPSG" then none
  else if crs.code = wgs84Epsg || crs.code = jgd2011Epsg || crs.code = 4612 then
    some (geographicDefinition crs.code)
  else if crs.code = 3857 ||
      (6669 ≤ crs.code && crs.code ≤ 6687) || (2443 ≤ crs.code && crs.code ≤ 2461) ||
      (6688 ≤ crs.code && crs.code ≤ 6692) || (3097 ≤ crs.code && crs.code ≤ 3101) ||
      (32601 ≤ crs.code && crs.code ≤ 32660) || (32701 ≤ crs.code && crs.code ≤ 32760) then
    some (projected crs.code)
  else none

def coordinateUnit : CoordinateUnit :=
  match crs.definition with
  | some definition => definition.unit
  | none => .unknown

def requireKnown : Except CrsError CrsDefinition :=
  match crs.definition with
  | some definition => .ok definition
  | none => .error (.unsupported crs.identifier)

/-- `(-bound..=bound).contains(&x)`. -/
def within (bound : Nat) (x : F64) : Bool :=
  F64.le (F64.neg (F64.ofNat bound)) x && F64.le x (F64.ofNat bound)

/-- The axis domain is checked for the two longitude/latitude systems only. -/
def validateCoordinate (x y : F64) : Except CrsError Unit := do
  let definition ← crs.requireKnown
  if !x.isFinite || !y.isFinite then
    throw (.nonFiniteCoordinate x y)
  if (definition.code = wgs84Epsg || definition.code = jgd2011Epsg) &&
      (!within 180 x || !within 90 y) then
    throw (.coordinateOutOfRange x y)

end Crs

/-- State of content-digest verification. -/
inductive ChecksumVerification where
  | verified
  | declared
  | unknown
  | mismatch
  deriving DecidableEq

def ChecksumVerification.asStr : ChecksumVerification → String
  | .verified => "verified"
  | .declared => "declared"
  | .unknown => "unknown"
  | .mismatch => "mismatch"

/-- A source identity attached to results and receipts. -/
structure SourceMetadata where
  datasetId : Option String
  uri : String
  license : Option String
  checksum : Option String
  expectedChecksum : Option String
  observedChecksum : Option String
  retrievedAt : Option String
  sourceVersion : Option String
  checksumStatus : ChecksumVerification
  deriving DecidableEq

abbrev SourceSnapshot := SourceMetadata

namespace SourceMetadata

def new (uri : String) : SourceMetadata :=
  { datasetId := none, uri := uri, license := none, checksum := none, expectedChecksum := none,
    observedChecksum := none, retrievedAt := none, sourceVersion := none,
    checksumStatus := .unknown }

def toJson (s : SourceMetadata) : Value :=
  .object ( Value.optional "dataset_id" .str s.datasetId ++ [("uri", .str s.uri)] ++
    Value.optional "license" .str s.license ++
    Value.optional "checksum" .str s.checksum ++
    Value.optional "expected_checksum" .str s.expectedChecksum ++
    Value.optional "observed_checksum" .str s.observedChecksum ++
    Value.optional "retrieved_at" .str s.retrievedAt ++
    Value.optional "source_version" .str s.sourceVersion ++
    [("checksum_status", .str s.checksumStatus.asStr)])

/-- Retrieval time describes one fetch, not the immutable source. -/
def sameSourceIdentity (left right : SourceMetadata) : Bool :=
  { left with retrievedAt := none } = { right with retrievedAt := none }

end SourceMetadata
end GeneGIS
