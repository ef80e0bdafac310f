/-
A strict reader of archives.

It is the reader, except that it stops with a fault where a sum or a difference does not fit, an
index is out of range, or a range is not within its part of the archive.
-/
import GeneGIS.Tile.Directory
import GeneGIS.Tile.Hilbert

namespace GeneGIS.Pmtiles

open Fallible

inductive Fault where
  | sum (a b : Nat)
  | difference (a b : Nat)
  | tileId (z x y : Nat)
  | index (i size : Nat)
  | leaf (start length : Nat)
  | tile (start length : Nat)
  deriving DecidableEq

inductive Failure where
  | refused (error : PmTilesError)
  | fault (fault : Fault)
  deriving DecidableEq

abbrev Strict (α : Type) := Except Failure α

namespace Strict

def ofTiling {α : Type} (r : Tiling α) : Strict α := r.mapError .refused

def fail {α : Type} (f : Fault) : Strict α := .error (.fault f)

def add (a b : Nat) : Strict Nat := if a + b < 2 ^ 64 then .ok (a + b) else fail (.sum a b)

def sub (a b : Nat) : Strict Nat := if b ≤ a then .ok (a - b) else fail (.difference a b)

def index {α : Type} (l : List α) (i : Nat) : Strict α :=
  match l[i]? with
  | some a => .ok a
  | none => fail (.index i l.length)

variable (bytes : Bytes)

/-- `bytes[start..stop]`. -/
def slice (start stop : Nat) : Strict Bytes :=
  if start ≤ stop ∧ stop ≤ bytes.length then .ok ((bytes.drop start).take (stop - start))
  else fail (.index stop bytes.length)

/-- A range that is to lie within a part of the archive. -/
def within (f : Nat → Nat → Fault) (start length offset size : Nat) : Strict Unit :=
  if offset ≤ start ∧ start + length ≤ offset + size then .ok () else fail (f start length)

def u64At (offset : Nat) : Strict Nat := do
  let stop ← add offset 8
  let word ← slice bytes offset stop
  return Bytes.toNat word

def u8At (offset : Nat) : Strict Nat := do
  let byte ← index bytes offset
  return byte.toNat

/-- The tests of the first bytes, each only where the one before it passed. -/
def checkMagic : Strict Unit :=
  let mismatch : Strict Unit := ofTiling (.error (.invalid "magic, length, or version mismatch"))
  if bytes.length != headerBytes then mismatch
  else do
    let first ← slice bytes 0 7
    if first != magic then mismatch
    else do
      let version ← u8At bytes 7
      if version != 3 then mismatch else .ok ()

def headerAt : Strict PmTilesHeader := do
  let version ← u8At bytes 7
  let rootDirectoryOffset ← u64At bytes 8
  let rootDirectoryLength ← u64At bytes 16
  let leafDirectoryOffset ← u64At bytes 40
  let leafDirectoryLength ← u64At bytes 48
  let tileDataOffset ← u64At bytes 56
  let tileDataLength ← u64At bytes 64
  let addressedTiles ← u64At bytes 72
  let internalCompression ← u8At bytes 97
  let tileCompression ← u8At bytes 98
  let tileType ← u8At bytes 99
  let minimumZoom ← u8At bytes 100
  let maximumZoom ← u8At bytes 101
  return {
    version, rootDirectoryOffset, rootDirectoryLength, leafDirectoryOffset, leafDirectoryLength
    tileDataOffset, tileDataLength, addressedTiles, internalCompression, tileCompression, tileType
    minimumZoom, maximumZoom }

def parseHeader (objectBytes : Nat) : Strict PmTilesHeader := do
  checkMagic bytes
  let header ← headerAt bytes
  ofTiling (validUnless (decide (header.rootDirectoryOffset < headerBytes) ||
      invalidSection header.rootDirectoryOffset header.rootDirectoryLength rootDirectoryLimit ||
      decide (header.minimumZoom > header.maximumZoom) ||
      invalidSection header.tileDataOffset header.tileDataLength objectBytes ||
      invalidSection header.leafDirectoryOffset header.leafDirectoryLength objectBytes ||
      invalidSection header.rootDirectoryOffset header.rootDirectoryLength objectBytes)
    "section bounds, root latency limit, or zoom range are invalid")
  return header

/-- A range has as many bytes as are asked for: its length is computed from its ends. -/
def readExactRange (source : RangeSource) (start length : Nat) :
    Strict (Bytes × IoRequestEvidence) := do
  ofTiling (validUnless (length == 0 || decide (length > maxDirectoryBytes))
    ("range length " ++ toString length ++ " is zero or exceeds " ++ toString maxDirectoryBytes))
  let last ← sub length 1
  let stop ← ofTiling (checkedAdd start last "range overflow")
  let span ← sub stop start
  let _ ← add span 1
  let (bytes, status) ← ofTiling ((source.read start stop).mapError .storage)
  ofTiling (checkStatus status)
  ofTiling (validUnless (bytes.length != length) ("range length mismatch: requested " ++
    toString length ++ ", got " ++ toString bytes.length))
  return (bytes, { start := start, stop := stop, responseBytes := bytes.length
                   httpStatus := status })

/-- The entries before their offsets are known. -/
def unplaced : List Nat → List Nat → List Nat → List DirectoryEntry
  | tileId :: ids, runLength :: runLengths, length :: lengths =>
    { tileId := tileId, offset := 0, length := length, runLength := runLength } ::
      unplaced ids runLengths lengths
  | _, _, _ => []

/-- The offset of the entry at an index, from its encoding and the entry before it. -/
def offsetAt (entries : List DirectoryEntry) (i encoded : Nat) : Strict Nat :=
  if encoded = 0 ∧ i > 0 then do
    let before ← sub i 1
    let previous ← index entries before
    ofTiling (checkedAdd previous.offset previous.length "directory offset overflow")
  else if encoded > 0 then sub encoded 1
  else ofTiling (.error (.invalid "first directory offset cannot use zero sentinel"))

/-- The loop over the indices of the entries, which sets the offset of each. -/
def placeOffsets : Nat → Nat → List DirectoryEntry → Bytes → Strict (List DirectoryEntry × Bytes)
  | 0, _, entries, bytes => .ok (entries, bytes)
  | left + 1, i, entries, bytes => do
    let (encoded, bytes) ← ofTiling (readVarint bytes)
    let offset ← offsetAt entries i encoded
    let entry ← index entries i
    placeOffsets left (i + 1) (entries.set i { entry with offset := offset }) bytes

def parseDirectory (decoded : Bytes) : Strict (List DirectoryEntry) := do
  let (count, bytes) ← ofTiling (readVarint decoded)
  ofTiling (validUnless (count == 0 || decide (count > 1000000)) "directory entry count is invalid")
  let (ids, bytes) ← ofTiling (readIds count 0 bytes)
  let (runLengths, bytes) ← ofTiling (readRunLengths count bytes)
  let (lengths, bytes) ← ofTiling (readLengths count bytes)
  let (entries, bytes) ← placeOffsets count 0 (unplaced ids runLengths lengths) bytes
  ofTiling (validUnless (!bytes.isEmpty) "trailing directory bytes")
  return entries

variable (gz : Gzip)

def decodeDirectory (bytes : Bytes) (compression : Nat) : Strict (List DirectoryEntry) := do
  let decoded ← ofTiling (decodePayload gz bytes compression "directory")
  parseDirectory decoded

def selectTile (source : RangeSource) (header : PmTilesHeader) (z x y tileId : Nat)
    (root : List DirectoryEntry) : Strict (DirectoryEntry × List IoRequestEvidence) :=
  match findEntry root tileId with
  | none => ofTiling (.error (.tileNotFound z x y))
  | some selected =>
    if selected.runLength = 0 then do
      let start ← ofTiling
        (checkedAdd header.leafDirectoryOffset selected.offset "leaf offset overflow")
      let (leafBytes, request) ← readExactRange source start selected.length
      within .leaf start selected.length header.leafDirectoryOffset header.leafDirectoryLength
      let leaf ← decodeDirectory gz leafBytes header.internalCompression
      match findEntry leaf tileId with
      | none => ofTiling (.error (.tileNotFound z x y))
      | some entry =>
        if entry.runLength > 0 then .ok (entry, [request])
        else ofTiling (.error (.tileNotFound z x y))
    else .ok (selected, [])

/-- Whether the run of an entry misses a tile; the end of the run is not needed when the tile
is before it. -/
def misses (entry : DirectoryEntry) (tileId : Nat) : Strict Bool :=
  if tileId < entry.tileId then .ok true
  else do
    let stop ← add entry.tileId entry.runLength
    return decide (tileId ≥ stop)

def readEntry (source : RangeSource) (header : PmTilesHeader) (z x y tileId objectBytes : Nat)
    (requests : List IoRequestEvidence) (tileEntry : DirectoryEntry)
    (leafRequests : List IoRequestEvidence) : Strict PmTilesTileRead := do
  let missing ← misses tileEntry tileId
  ofTiling (foundUnless missing z x y)
  let start ← ofTiling (checkedAdd header.tileDataOffset tileEntry.offset "tile offset overflow")
  let (bytes, tileRequest) ← readExactRange source start tileEntry.length
  within .tile start tileEntry.length header.tileDataOffset header.tileDataLength
  return { header := header, z := z, x := x, y := y, tileId := tileId, bytes := bytes
           objectBytes := objectBytes, requests := requests ++ leafRequests ++ [tileRequest] }

def readSelected (source : RangeSource) (header : PmTilesHeader)
    (z x y tileId objectBytes : Nat) (requests : List IoRequestEvidence)
    (root : List DirectoryEntry) : Strict PmTilesTileRead := do
  let (tileEntry, leafRequests) ← selectTile gz source header z x y tileId root
  readEntry source header z x y tileId objectBytes requests tileEntry leafRequests

def zxyToTileId (z x y : Nat) : Strict Nat :=
  match checkedTileId z x y with
  | some r => ofTiling r
  | none => fail (.tileId z x y)

def readPmtilesTile (source : RangeSource) (z x y : Nat) : Strict PmTilesTileRead := do
  let objectBytes ← ofTiling (source.objectBytes.mapError .storage)
  let (headerRange, headerRequest) ← readExactRange source 0 headerBytes
  let header ← parseHeader headerRange objectBytes
  ofTiling (foundUnless (outside header z x y) z x y)
  let tileId ← zxyToTileId z x y
  let (rootBytes, rootRequest) ← readExactRange source header.rootDirectoryOffset
    header.rootDirectoryLength
  let root ← decodeDirectory gz rootBytes header.internalCompression
  readSelected gz source header z x y tileId objectBytes [headerRequest, rootRequest] root

end Strict
end GeneGIS.Pmtiles
