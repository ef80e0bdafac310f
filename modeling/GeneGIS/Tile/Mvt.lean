/-
Polygons are projected, clipped and written as rings of commands.  Attributes are pairs of indices:
a key has its entry in a map, a value its place in a list.  The tangent, the cosine and the
logarithm are the library's.
-/
import GeneGIS.Data.Binary64
import GeneGIS.Data.Bytes
import GeneGIS.Data.Fallible
import GeneGIS.Data.Intern
import Mathlib.Data.List.Destutter
import Std.Data.ExtTreeMap.Lemmas

namespace GeneGIS

inductive TileValue where
  | text (text : String)
  | u64 (number : UInt64)
  | f64 (number : F64)
  deriving DecidableEq

/-- `==`, which compares numbers and not their bits. -/
def TileValue.eq : TileValue → TileValue → Bool
  | .text a, .text b => a == b
  | .u64 a, .u64 b => a == b
  | .f64 a, .f64 b => F64.eq a b
  | _, _ => false

abbrev PlanePoint := F64 × F64

structure TilePolygonPart where
  exterior : List PlanePoint
  holes : List (List PlanePoint)

structure TilePolygonFeature where
  id : UInt64
  parts : List TilePolygonPart
  properties : List (String × TileValue)

structure Libm where
  tan : F64 → F64
  cos : F64 → F64
  ln : F64 → F64

namespace Mvt

variable (libm : Libm)

def pi : F64 := ⟨0x400921fb54442d18#64⟩

/-- `85.051_129` degrees. -/
def mercatorLatLimitDeg : F64 := .ofRatio 85051129 1000000

def lonlatToTileFraction (lon lat : F64) (z : Nat) : PlanePoint :=
  let scale := F64.ofNat (2 ^ min z 15)
  let x := ((lon.add (.ofNat 180)).div (.ofNat 360)).mul scale
  let lat := lat.clamp mercatorLatLimitDeg.neg mercatorLatLimitDeg
  let radians := lat.mul (pi.div (.ofNat 180))
  let northing := libm.ln ((libm.tan radians).add ((F64.ofNat 1).div (libm.cos radians)))
  let y := (((F64.ofNat 1).sub (northing.div pi)).div (.ofNat 2)).mul scale
  (x, y)

inductive ClipEdge where
  | minX (value : F64)
  | maxX (value : F64)
  | minY (value : F64)
  | maxY (value : F64)

def ClipEdge.inside : ClipEdge → PlanePoint → Bool
  | .minX value, point => value.le point.1
  | .maxX value, point => point.1.le value
  | .minY value, point => value.le point.2
  | .maxY value, point => point.2.le value

def ClipEdge.crossing (edge : ClipEdge) (start stop : PlanePoint) : PlanePoint :=
  let delta : PlanePoint := (stop.1.sub start.1, stop.2.sub start.2)
  let t := match edge with
    | .minX value => (value.sub start.1).div delta.1
    | .maxX value => (value.sub start.1).div delta.1
    | .minY value => (value.sub start.2).div delta.2
    | .maxY value => (value.sub start.2).div delta.2
  let t := if t.isFinite then t.clamp .zero (.ofNat 1) else .zero
  (start.1.add (t.mul delta.1), start.2.add (t.mul delta.2))

/-- The loop over the points of a ring, each with the one before it. -/
def clipPoints (edge : ClipEdge) : PlanePoint → List PlanePoint → List PlanePoint
  | _, [] => []
  | previous, point :: rest =>
    (if edge.inside point != edge.inside previous then [edge.crossing previous point] else []) ++
      (if edge.inside point then [point] else []) ++ clipPoints edge point rest

def clipEdges : List ClipEdge → List PlanePoint → List PlanePoint
  | [], output => if output.length < 3 then [] else output
  | edge :: edges, output =>
    match output.getLast? with
    | none => []
    | some last => if output.length < 3 then [] else clipEdges edges (clipPoints edge last output)

def clipRing (ring : List PlanePoint) (minimum maximum : PlanePoint) : List PlanePoint :=
  clipEdges [.minX minimum.1, .maxX maximum.1, .minY minimum.2, .maxY maximum.2] ring

def projectRing (ring : List PlanePoint) (z x y extent : Nat) : List (Int × Int) :=
  let scale := F64.ofNat extent
  let project := fun point : PlanePoint =>
    let fraction := lonlatToTileFraction libm point.1 point.2 z
    ((fraction.1.sub (.ofNat x)).mul scale, (fraction.2.sub (.ofNat y)).mul scale)
  let toTile := fun v : F64 => (v.roundHalfAway.clamp .zero scale).toI64
  let projected := (clipRing (ring.map project) (.zero, .zero) (scale, scale)).map
    fun point => (toTile point.1, toTile point.2)
  let opened := if projected.length > 1 && projected.head? == projected.getLast? then
    projected.dropLast else projected
  opened.destutter (· ≠ ·)

/-! ## Rings -/

variable (ring : List (Int × Int))

/-- Twice the area, as the sum of sixty-four bits wraps. -/
def doubleArea : Int :=
  let cross := fun e : (Int × Int) × (Int × Int) => e.1.1 * e.2.2 - e.2.1 * e.1.2
  ((ring.zip (ring.rotateLeft 1)).map cross).sum.bmod (2 ^ 64)

def signedArea : Int := (doubleArea ring).tdiv 2

def prepareRing (exterior : Bool) : Option (List (Int × Int)) :=
  if ring.length < 3 then none
  else
    let area := signedArea ring
    let orientedCorrectly := if exterior then decide (area > 0) else decide (area < 0)
    some (if area != 0 && !orientedCorrectly then ring.reverse else ring)

def pushVarint (value : Nat) : Bytes := Varint.encode value

def pushTag (field wire : Nat) : Bytes := pushVarint (field <<< 3 ||| wire)

def pushLenField (field : Nat) (payload : Bytes) : Bytes :=
  pushTag field 2 ++ pushVarint payload.length ++ payload

/-- The two's complement shifts of a number of fewer than sixty-three bits. -/
def zigzag (value : Int) : Nat :=
  if 0 ≤ value then (2 * value).toNat else (-2 * value - 1).toNat

def pushZigzagDelta (cursor target : Int × Int) : Bytes :=
  pushVarint (zigzag (target.1 - cursor.1)) ++ pushVarint (zigzag (target.2 - cursor.2))

def pushDeltas : Int × Int → List (Int × Int) → Bytes
  | _, [] => []
  | cursor, point :: rest => pushZigzagDelta cursor point ++ pushDeltas point rest

/-- The commands of a ring, and the cursor at its last point. -/
def encodeRingCommands (cursor : Int × Int) : Bytes × (Int × Int) :=
  match ring with
  | [] => ([], cursor)
  | first :: rest =>
    (pushVarint (1 ||| 1 <<< 3) ++ pushZigzagDelta cursor first ++ (if rest.isEmpty then [] else
        pushVarint (2 ||| rest.length <<< 3) ++ pushDeltas first rest) ++
      pushVarint (7 ||| 1 <<< 3), (first :: rest).getLast (List.cons_ne_nil _ _))

def encodeHoles (z x y extent : Nat) (cursor : Int × Int) :
    List (List PlanePoint) → Bytes × (Int × Int)
  | [] => ([], cursor)
  | hole :: rest =>
    match prepareRing (projectRing libm hole z x y extent) false with
    | none => encodeHoles z x y extent cursor rest
    | some ring =>
      let (commands, cursor) := encodeRingCommands ring cursor
      let (more, cursor) := encodeHoles z x y extent cursor rest
      (commands ++ more, cursor)

def encodeParts (z x y extent : Nat) (cursor : Int × Int) : List TilePolygonPart → Bytes
  | [] => []
  | part :: rest =>
    match prepareRing (projectRing libm part.exterior z x y extent) true with
    | none => encodeParts z x y extent cursor rest
    | some exterior =>
      let (commands, cursor) := encodeRingCommands exterior cursor
      let (holes, cursor) := encodeHoles libm z x y extent cursor part.holes
      commands ++ holes ++ encodeParts z x y extent cursor rest

def encodeFeatureGeometry (feature : TilePolygonFeature) (z x y extent : Nat) : Option Bytes :=
  let buffer := encodeParts libm z x y extent (0, 0) feature.parts
  if buffer.isEmpty then none else some buffer

structure Tables where
  keyTable : Std.ExtTreeMap String Nat
  valueTable : List TileValue

def keyIndex (table : Std.ExtTreeMap String Nat) (key : String) : Nat × Std.ExtTreeMap String Nat :=
  match table[key]? with
  | some index => (index, table)
  | none => (table.size, table.insert key table.size)

def valueIndex (table : List TileValue) (value : TileValue) : Nat × List TileValue :=
  Intern.intern TileValue.eq table value

/-- The tag pairs of the properties, with the tables after them. -/
def encodeTags : Tables → List (String × TileValue) → Bytes × Tables
  | tables, [] => ([], tables)
  | tables, (key, value) :: rest =>
    let (keyIdx, keyTable) := keyIndex tables.keyTable key
    let (valueIdx, valueTable) := valueIndex tables.valueTable value
    let (tags, tables) := encodeTags ⟨keyTable, valueTable⟩ rest
    (pushVarint keyIdx ++ pushVarint valueIdx ++ tags, tables)

def featureMessage (id : UInt64) (tags geometry : Bytes) : Bytes :=
  pushTag 1 0 ++ pushVarint id.toNat ++ (if tags.isEmpty then [] else pushLenField 2 tags) ++
    pushTag 3 0 ++ pushVarint 3 ++ pushLenField 4 geometry

/-- The loop over the features. -/
def encodeFeatures (z x y extent : Nat) : Tables → List TilePolygonFeature → List Bytes × Tables
  | tables, [] => ([], tables)
  | tables, feature :: rest =>
    match encodeFeatureGeometry libm feature z x y extent with
    | none => encodeFeatures z x y extent tables rest
    | some geometry =>
      let (tags, tables) := encodeTags tables feature.properties
      let (messages, tables) := encodeFeatures z x y extent tables rest
      (featureMessage feature.id tags geometry :: messages, tables)

def encodeValue : TileValue → Bytes
  | .text text => pushLenField 1 (Bytes.ofText text)
  | .f64 number => pushTag 3 1 ++ Bytes.ofNat 8 number.bits.toNat
  | .u64 number => pushTag 5 0 ++ pushVarint number.toNat

def encodePolygonTile (layerName : String) (z x y extent : Nat)
    (features : List TilePolygonFeature) : Bytes :=
  let (messages, tables) := encodeFeatures libm z x y extent ⟨∅, []⟩ features
  if messages.isEmpty then []
  else
    let layer := pushTag 15 0 ++ pushVarint 2 ++ pushLenField 1 (Bytes.ofText layerName) ++
      messages.flatMap (pushLenField 2) ++
      tables.keyTable.keys.flatMap (fun key => pushLenField 3 (Bytes.ofText key)) ++
      tables.valueTable.flatMap (fun value => pushLenField 4 (encodeValue value)) ++
      pushTag 5 0 ++ pushVarint extent
    pushLenField 3 layer

end Mvt
end GeneGIS

/-! ## Reading the attributes of a vector tile

A reader takes keys and values as they stand, and looks the index pairs of a feature up in them. -/

namespace GeneGIS.Mvt

open Wire Varint
open List hiding isEmpty_iff

def bytesOf (number : Nat) (f : Field) : Option Bytes :=
  match f.payload with
  | .bytes content => if f.number = number then some content else none
  | _ => none

def valueOf (f : Field) : Option TileValue :=
  match f with
  | ⟨1, .bytes content⟩ => (Bytes.toText? content).map .text
  | ⟨3, .fixed64 word⟩ => some (.f64 ⟨word⟩)
  | ⟨5, .varint n⟩ => some (.u64 (UInt64.ofNat n))
  | _ => none

def readValue (message : Bytes) : Option TileValue := do
  let fields ← readAll message
  fields.findSome? valueOf

/-- The packed tags of a feature, none when it has no such field. -/
def readTags (message : Bytes) : Option (List Nat) := do
  let fields ← readAll message
  match fields.findSome? (bytesOf 2) with
  | none => some []
  | some packed => unpack packed.length packed

def lookupTags (keys : List String) (values : List TileValue) :
    List Nat → Option (List (String × TileValue))
  | [] => some []
  | [_] => none
  | key :: value :: rest => do
    let key ← keys[key]?
    let value ← values[value]?
    let properties ← lookupTags keys values rest
    return (key, value) :: properties

/-- The properties of every feature of a layer. -/
def readLayer (layer : Bytes) : Option (List (List (String × TileValue))) := do
  let fields ← readAll layer
  let keys ← (fields.filterMap (bytesOf 3)).mapM Bytes.toText?
  let values ← (fields.filterMap (bytesOf 4)).mapM readValue
  let tags ← (fields.filterMap (bytesOf 2)).mapM readTags
  tags.mapM (lookupTags keys values)

def readProperties (tile : Bytes) : Option (List (List (String × TileValue))) := do
  let fields ← readAll tile
  let layers ← (fields.filterMap (bytesOf 3)).mapM readLayer
  return layers.flatten

theorem pushTag_eq {number wire : Nat} (h : wire < 8) :
    pushTag number wire = encode (8 * number + wire) := by
  have hor := Nat.two_pow_add_eq_or_of_lt (i := 3) h number
  rw [pushTag, pushVarint, Nat.shiftLeft_eq, Nat.mul_comm, ← hor]

theorem pushLenField_eq (number : Nat) (payload : Bytes) :
    pushLenField number payload = Field.write ⟨number, .bytes payload⟩ := by
  rw [pushLenField, pushTag_eq (by omega), append_assoc]
  rfl

theorem pushVarintField_eq (number n : Nat) :
    pushTag number 0 ++ pushVarint n = Field.write ⟨number, .varint n⟩ := by
  rw [pushTag_eq (by omega)]
  rfl

theorem flatMap_pushLenField {α : Type} (number : Nat) (payload : α → Bytes) (l : List α) :
    l.flatMap (fun a => pushLenField number (payload a)) =
      writeAll (l.map fun a => ⟨number, .bytes (payload a)⟩) := by
  rw [writeAll, flatMap_map]
  exact congrArg l.flatMap (funext fun a => pushLenField_eq number (payload a))

theorem readValue_encodeValue (value : TileValue) : readValue (encodeValue value) = some value := by
  cases value with
  | text text =>
    have hrecord : encodeValue (.text text) = writeAll [⟨1, .bytes (Bytes.ofText text)⟩] := by
      rw [encodeValue, pushLenField_eq, writeAll_cons, writeAll_nil, append_nil]
    have hvalue : valueOf ⟨1, .bytes (Bytes.ofText text)⟩ = some (.text text) := by
      rw [valueOf, Bytes.toText?_ofText, Option.map_some]
    rw [readValue, hrecord, readAll_writeAll]
    show List.findSome? valueOf [_] = _
    rw [findSome?_cons, hvalue]
  | u64 number =>
    have hrecord : encodeValue (.u64 number) = writeAll [⟨5, .varint number.toNat⟩] := by
      rw [encodeValue, pushVarintField_eq, writeAll_cons, writeAll_nil, append_nil]
    rw [readValue, hrecord, readAll_writeAll]
    show some (TileValue.u64 (UInt64.ofNat number.toNat)) = _
    rw [UInt64.ofNat_toNat]
  | f64 number =>
    have hrecord : encodeValue (.f64 number) = writeAll [⟨3, .fixed64 number.bits⟩] := by
      rw [encodeValue, pushTag_eq (by omega), writeAll_cons, writeAll_nil, append_nil]
      rfl
    rw [readValue, hrecord, readAll_writeAll]
    rfl

theorem featureMessage_eq (id : UInt64) (tags geometry : Bytes) :
    featureMessage id tags geometry = writeAll (⟨1, .varint id.toNat⟩ ::
      ((if tags.isEmpty then [] else [⟨2, .bytes tags⟩]) ++
        [⟨3, .varint 3⟩, ⟨4, .bytes geometry⟩])) := by
  rw [featureMessage]
  simp only [writeAll_cons, writeAll_append, writeAll_nil, ← pushVarintField_eq,
    ← pushLenField_eq, append_assoc, append_nil]
  by_cases htags : tags.isEmpty = true
  · rw [if_pos htags, if_pos htags, writeAll_nil]
  · rw [if_neg htags, if_neg htags, writeAll_cons, writeAll_nil, pushLenField_eq, append_nil]

theorem readTags_featureMessage (id : UInt64) (tags : List Nat) (geometry : Bytes) :
    readTags (featureMessage id (pack tags) geometry) = some tags := by
  rw [readTags, featureMessage_eq, readAll_writeAll]
  by_cases htags : pack tags = []
  · have hnone : tags = [] := by
      have hlength := length_le_pack tags
      rw [htags] at hlength
      exact length_eq_zero_iff.mp (Nat.le_zero.mp hlength)
    rw [hnone]
    rfl
  · rw [if_neg (by rwa [List.isEmpty_iff])]
    exact unpack_pack (length_le_pack tags)

end GeneGIS.Mvt
