/-
A geometry is a byte order, a kind and a body.  The reader takes both orders and the codes of other
dimensions, whose further ordinates it drops.
-/
import GeneGIS.Data.Bytes
import GeneGIS.Data.Reads
import GeneGIS.Toolkit.Geometry

namespace GeneGIS.Toolkit.Wkb

open Fallible

def header (kind : Nat) : Bytes := 1 :: Bytes.ofNat 4 kind

def float (x : F64) : Bytes := Bytes.ofNat 8 x.bits.toNat

def coord (c : Coord) : Bytes := float c.x ++ float c.y

/-- The count as a number of thirty-two bits. -/
def count (n : Nat) : Bytes := Bytes.ofNat 4 n

def ring (line : LineString) : Bytes := count line.length ++ line.flatMap coord

def polygonBody (polygon : Polygon) : Bytes := count (1 + polygon.interiors.length) ++
    (ring polygon.exterior.coords ++ polygon.interiors.flatMap fun r => ring r.coords)

variable (outlines : Outlines)

mutual
def writeGeometry : Geometry → Bytes
  | .point p => header 1 ++ coord p
  | .lineString l => header 2 ++ ring l
  | .line start stop => header 2 ++ (count 2 ++ (coord start ++ coord stop))
  | .polygon p => header 3 ++ polygonBody p
  | .rect r => header 3 ++ polygonBody (outlines.ofRect r)
  | .triangle t => header 3 ++ polygonBody (outlines.ofTriangle t)
  | .multiPoint points =>
    header 4 ++ (count points.length ++ points.flatMap fun p => header 1 ++ coord p)
  | .multiLineString lines =>
    header 5 ++ (count lines.length ++ lines.flatMap fun l => header 2 ++ ring l)
  | .multiPolygon polygons =>
    header 6 ++ (count polygons.length ++ polygons.flatMap fun p => header 3 ++ polygonBody p)
  | .collection parts => header 7 ++ (count parts.length ++ writeParts parts)

def writeParts : List Geometry → Bytes
  | [] => []
  | part :: rest => writeGeometry part ++ writeParts rest
end

abbrev Reader (α : Type) := Fallible String Bytes α

def take (n : Nat) : Reader Bytes := fun bytes =>
  if n ≤ bytes.length then .ok (bytes.take n) (bytes.drop n)
  else .error "truncated geometry" bytes

variable (little : Bool)

def number (bytes : Bytes) : Nat :=
  if little then Bytes.toNat bytes else Bytes.toNat bytes.reverse

def u32 : Reader Nat := do
  let bytes ← take 4
  return number little bytes

def f64 : Reader F64 := do
  let bytes ← take 8
  return ⟨BitVec.ofNat 64 (number little bytes)⟩

def readCoord (dims : Nat) : Reader Coord := do
  let x ← f64 little
  let y ← f64 little
  let _ ← repeated (f64 little) (dims - 2)
  return { x := x, y := y }

def readLine (total : Nat) (little : Bool) (dims : Nat) : Reader LineString := do
  let n ← u32 little
  check (n ≤ total / 16 + 1) "implausible coordinate count"
  repeated (readCoord little dims) n

def readPolygon (total : Nat) (little : Bool) (dims : Nat) : Reader Polygon := do
  let rings ← u32 little
  if rings = 0 then return Polygon.new [] []
  else
    let exterior ← readLine total little dims
    let interiors ← repeated (readLine total little dims) (rings - 1)
    return Polygon.new exterior interiors

def asPoint : Geometry → Option Coord
  | .point p => some p
  | _ => none

def asLine : Geometry → Option LineString
  | .lineString l => some l
  | _ => none

def asPolygon : Geometry → Option Polygon
  | .polygon p => some p
  | _ => none

def child {α : Type} (geometry : Reader Geometry) (kind : Geometry → Option α) : Reader α := do
  let member ← geometry
  match kind member with
  | some a => return a
  | none => throw "multi-geometry member has the wrong type"

def byteOrder (order : Nat) : Except String Bool :=
  if order = 0 then .ok false
  else if order = 1 then .ok true
  else .error ("invalid byte order " ++ toString order)

/-- The coordinates of the code.  The high bits and the thousands name further dimensions. -/
def dimensions (raw : Nat) : Nat :=
  let iso := raw % 2 ^ 28 / 1000
  2 + (raw.testBit 31 || iso == 1 || iso == 3).toNat +
    (raw.testBit 30 || iso == 2 || iso == 3).toNat

def body (total : Nat) (geometry : Reader Geometry) (little : Bool) (dims base : Nat) :
    Reader Geometry :=
  match base with
  | 1 => do
    let p ← readCoord little dims
    return .point p
  | 2 => do
    let l ← readLine total little dims
    return .lineString l
  | 3 => do
    let p ← readPolygon total little dims
    return .polygon p
  | 4 => do
    let n ← u32 little
    let points ← repeated (child geometry asPoint) n
    return .multiPoint points
  | 5 => do
    let n ← u32 little
    let lines ← repeated (child geometry asLine) n
    return .multiLineString lines
  | 6 => do
    let n ← u32 little
    let polygons ← repeated (child geometry asPolygon) n
    return .multiPolygon polygons
  | 7 => do
    let n ← u32 little
    let parts ← repeated geometry n
    return .collection parts
  | other => throw ("unsupported WKB geometry type " ++ toString other)

/-- The depth is that of the nested geometries.  Each of them takes bytes, so the number of
bytes is enough. -/
def geometryTo (total : Nat) : Nat → Reader Geometry
  | 0 => throw "truncated geometry"
  | depth + 1 => do
    let order ← take 1
    let little ← lift (byteOrder (Bytes.toNat order))
    let raw ← u32 little
    if raw.testBit 29 then
      let _ ← u32 little
      body total (geometryTo total depth) little (dimensions raw) (raw % 2 ^ 28 % 1000)
    else
      body total (geometryTo total depth) little (dimensions raw) (raw % 2 ^ 28 % 1000)

/-- `Reader::geometry` at the start of a buffer. -/
def geometry : Reader Geometry := fun bytes => geometryTo bytes.length bytes.length bytes

def read (bytes : Bytes) : Except String Geometry :=
  match geometry bytes with
  | .ok g _ => .ok g
  | .error e _ => .error e

end GeneGIS.Toolkit.Wkb
