/-
A directory lists the tiles by identifiers that follow Hilbert curves.  The writer places them one
after the other; the reader reads ranges and refuses what is beyond its limits.  Numbers have
sixty-four bits and compression is a parameter.
-/
import GeneGIS.Data.Bytes
import Mathlib.Data.List.Sort

namespace GeneGIS

structure PmTilesHeader where
  version : Nat
  rootDirectoryOffset : Nat
  rootDirectoryLength : Nat
  leafDirectoryOffset : Nat
  leafDirectoryLength : Nat
  tileDataOffset : Nat
  tileDataLength : Nat
  addressedTiles : Nat
  internalCompression : Nat
  tileCompression : Nat
  tileType : Nat
  minimumZoom : Nat
  maximumZoom : Nat
  deriving DecidableEq

structure IoRequestEvidence where
  start : Nat
  stop : Nat
  responseBytes : Nat
  httpStatus : Option Nat
  deriving DecidableEq

structure PmTilesTileRead where
  header : PmTilesHeader
  z : Nat
  x : Nat
  y : Nat
  tileId : Nat
  bytes : Bytes
  objectBytes : Nat
  requests : List IoRequestEvidence
  deriving DecidableEq

inductive PmTilesError where
  | storage (reason : String)
  | invalid (reason : String)
  | unsupportedCompression (code : Nat)
  | wholeObjectFallback (status : Nat)
  | tileNotFound (z x y : Nat)
  deriving DecidableEq

structure DirectoryEntry where
  tileId : Nat
  offset : Nat
  length : Nat
  runLength : Nat

structure PmTilesTileEntry where
  z : Nat
  x : Nat
  y : Nat
  bytes : Bytes

structure PmTilesWriteOptions where
  metadataJson : String
  compressTiles : Bool

structure PmTilesWriteReceipt where
  objectBytes : Nat
  addressedTiles : Nat
  entryCount : Nat
  internalCompression : Nat
  tileCompression : Nat
  minimumZoom : Nat
  maximumZoom : Nat

structure Gzip where
  gzip : Bytes → Bytes
  gunzip : Bytes → Except String Bytes

/-- A local file, or an object behind HTTP, where a response has a status. -/
structure RangeSource where
  objectBytes : Except String Nat
  read : Nat → Nat → Except String (Bytes × Option Nat)

namespace Pmtiles

abbrev Tiling (α : Type) := Except PmTilesError α

variable (gz : Gzip)

def headerBytes : Nat := 127

def rootDirectoryLimit : Nat := 16384

def maxDirectoryBytes : Nat := 16 * 1024 * 1024

def validUnless (invalid : Bool) (reason : String) : Tiling Unit :=
  if invalid then .error (.invalid reason) else .ok ()

def checkedAdd (a b : Nat) (reason : String) : Tiling Nat :=
  if a + b < 2 ^ 64 then .ok (a + b) else .error (.invalid reason)

/-- The loop over the scales, from `2 ^ (levels - 1)` down to one. -/
def hilbertDistance (z : Nat) : Nat → Nat → Nat → Nat
  | 0, _, _ => 0
  | level + 1, x, y =>
    let scale := 2 ^ level
    let rx := if x &&& scale != 0 then 1 else 0
    let ry := if y &&& scale != 0 then 1 else 0
    let distance := scale * scale * (3 * rx ^^^ ry)
    if ry = 0 then
      if rx = 1 then distance + hilbertDistance z level (2 ^ z - 1 - y) (2 ^ z - 1 - x)
      else distance + hilbertDistance z level y x
    else distance + hilbertDistance z level x y

def zxyToTileId (z x y : Nat) : Tiling Nat :=
  if z > 31 || x ≥ 2 ^ z || y ≥ 2 ^ z then
    .error (.invalid "tile coordinate outside Hilbert domain")
  else .ok ((2 ^ (z * 2) - 1) / 3 + hilbertDistance z (z - 1 + 1) x y)

variable (bytes : Bytes) (compression : Nat)

def encodePayload : Tiling Bytes :=
  match compression with
  | 1 => .ok bytes
  | 2 => .ok (gz.gzip bytes)
  | other => .error (.unsupportedCompression other)

def decodePayload (part : String) : Tiling Bytes :=
  match compression with
  | 1 => .ok bytes
  | 2 =>
    match gz.gunzip bytes with
    | .error reason => .error (.invalid ("gzip " ++ part ++ ": " ++ reason))
    | .ok output =>
      if output.length > maxDirectoryBytes then
        .error (.invalid (part ++ " decompression budget exceeded"))
      else .ok output
  | other => .error (.unsupportedCompression other)

def decodeTilePayload (tileCompression : Nat) : Tiling Bytes :=
  decodePayload gz bytes tileCompression "tile"

/-! ## Directories -/

def encodeIds : Nat → List DirectoryEntry → Bytes
  | _, [] => []
  | lastId, entry :: rest => Varint.encode (entry.tileId - lastId) ++ encodeIds entry.tileId rest

/-- An entry right after the one before it has a zero for its offset. -/
def encodeOffsets : Option DirectoryEntry → List DirectoryEntry → Bytes
  | _, [] => []
  | previous, entry :: rest =>
    let encoded := match previous with
      | none => entry.offset + 1
      | some previous =>
        if previous.offset + previous.length = entry.offset then 0 else entry.offset + 1
    Varint.encode encoded ++ encodeOffsets (some entry) rest

def encodeDirectory (entries : List DirectoryEntry) : Bytes :=
  Varint.encode entries.length ++ encodeIds 0 entries ++
    entries.flatMap (fun entry => Varint.encode entry.runLength) ++
    entries.flatMap (fun entry => Varint.encode entry.length) ++ encodeOffsets none entries

/-- The loop over the shifts; bits beyond the sixty-fourth are shifted out. -/
def readVarintFrom : Nat → Nat → Nat → Bytes → Tiling (Nat × Bytes)
  | 0, _, _, _ => .error (.invalid "varint overflow")
  | _ + 1, _, _, [] => .error (.invalid "truncated varint")
  | left + 1, shift, value, byte :: rest =>
    let value := value ||| byte.toNat % 128 * 2 ^ shift % 2 ^ 64
    if byte.toNat < 128 then .ok (value, rest) else readVarintFrom left (shift + 7) value rest

def readVarint : Tiling (Nat × Bytes) := readVarintFrom 10 0 0 bytes

def readIds : Nat → Nat → Bytes → Tiling (List Nat × Bytes)
  | 0, _, bytes => .ok ([], bytes)
  | count + 1, lastId, bytes => do
    let (delta, bytes) ← readVarint bytes
    let tileId ← checkedAdd lastId delta "tile ID overflow"
    let (ids, bytes) ← readIds count tileId bytes
    return (tileId :: ids, bytes)

def readRunLengths : Nat → Bytes → Tiling (List Nat × Bytes)
  | 0, bytes => .ok ([], bytes)
  | count + 1, bytes => do
    let (runLength, bytes) ← readVarint bytes
    let (runLengths, bytes) ← readRunLengths count bytes
    return (runLength :: runLengths, bytes)

def readLengths : Nat → Bytes → Tiling (List Nat × Bytes)
  | 0, bytes => .ok ([], bytes)
  | count + 1, bytes => do
    let (length, bytes) ← readVarint bytes
    validUnless (length == 0) "zero directory length"
    let (lengths, bytes) ← readLengths count bytes
    return (length :: lengths, bytes)

/-- The loop over the lengths, with the offset and the length of the entry before. -/
def readOffsets : Option (Nat × Nat) → List Nat → Bytes → Tiling (List Nat × Bytes)
  | _, [], bytes => .ok ([], bytes)
  | previous, length :: lengths, bytes => do
    let (encoded, bytes) ← readVarint bytes
    let offset ← match previous with
      | some (offset, length) =>
        if encoded = 0 then checkedAdd offset length "directory offset overflow"
        else .ok (encoded - 1)
      | none =>
        if encoded > 0 then .ok (encoded - 1)
        else .error (.invalid "first directory offset cannot use zero sentinel")
    let (offsets, bytes) ← readOffsets (some (offset, length)) lengths bytes
    return (offset :: offsets, bytes)

def assemble : List Nat → List Nat → List Nat → List Nat → List DirectoryEntry
  | tileId :: ids, runLength :: runLengths, length :: lengths, offset :: offsets =>
    { tileId := tileId, offset := offset, length := length, runLength := runLength } ::
      assemble ids runLengths lengths offsets
  | _, _, _, _ => []

def parseDirectory (decoded : Bytes) : Tiling (List DirectoryEntry) := do
  let (count, bytes) ← readVarint decoded
  validUnless (count == 0 || decide (count > 1000000)) "directory entry count is invalid"
  let (ids, bytes) ← readIds count 0 bytes
  let (runLengths, bytes) ← readRunLengths count bytes
  let (lengths, bytes) ← readLengths count bytes
  let (offsets, bytes) ← readOffsets none lengths bytes
  validUnless (!bytes.isEmpty) "trailing directory bytes"
  return assemble ids runLengths lengths offsets

def decodeDirectory : Tiling (List DirectoryEntry) := do
  let decoded ← decodePayload gz bytes compression "directory"
  parseDirectory decoded

def findEntry (entries : List DirectoryEntry) (tileId : Nat) : Option DirectoryEntry :=
  (entries.takeWhile fun entry => entry.tileId ≤ tileId).getLast?

structure ArchiveLayout where
  rootLength : Nat
  metadataLength : Nat
  tileDataOffset : Nat
  tileDataLength : Nat
  addressedTiles : Nat
  minimumZoom : Nat
  maximumZoom : Nat

def magic : Bytes := [0x50, 0x4d, 0x54, 0x69, 0x6c, 0x65, 0x73]

def le64 (n : Nat) : Bytes := Bytes.ofNat 8 n

/-- The fields in the order of their offsets, which leave no gap up to the last zoom. -/
def buildHeader (layout : ArchiveLayout) (tileCompression : Nat) : Bytes :=
  magic ++ ([3] ++ (le64 headerBytes ++ (le64 layout.rootLength ++
    (le64 (headerBytes + layout.rootLength) ++ (le64 layout.metadataLength ++ (le64 0 ++ (le64 0 ++
    (le64 layout.tileDataOffset ++ (le64 layout.tileDataLength ++
    (le64 layout.addressedTiles ++ (le64 layout.addressedTiles ++ (le64 layout.addressedTiles ++
    ([1, 2, UInt8.ofNat tileCompression, 1, UInt8.ofNat layout.minimumZoom,
      UInt8.ofNat layout.maximumZoom] ++ List.replicate 25 0)))))))))))))

def u64At (offset : Nat) : Nat := Bytes.toNat ((bytes.drop offset).take 8)

def u8At (offset : Nat) : Nat := (bytes[offset]?.getD 0).toNat

def invalidSection (offset length limit : Nat) : Bool :=
  decide (2 ^ 64 ≤ offset + length) || decide (offset + length > limit)

def parsedHeader : PmTilesHeader where
  version := u8At bytes 7
  rootDirectoryOffset := u64At bytes 8
  rootDirectoryLength := u64At bytes 16
  leafDirectoryOffset := u64At bytes 40
  leafDirectoryLength := u64At bytes 48
  tileDataOffset := u64At bytes 56
  tileDataLength := u64At bytes 64
  addressedTiles := u64At bytes 72
  internalCompression := u8At bytes 97
  tileCompression := u8At bytes 98
  tileType := u8At bytes 99
  minimumZoom := u8At bytes 100
  maximumZoom := u8At bytes 101

def parseHeader (objectBytes : Nat) : Tiling PmTilesHeader := do
  validUnless (bytes.length != headerBytes || bytes.take 7 != magic || u8At bytes 7 != 3)
    "magic, length, or version mismatch"
  let header := parsedHeader bytes
  validUnless (decide (header.rootDirectoryOffset < headerBytes) ||
      invalidSection header.rootDirectoryOffset header.rootDirectoryLength rootDirectoryLimit ||
      decide (header.minimumZoom > header.maximumZoom) ||
      invalidSection header.tileDataOffset header.tileDataLength objectBytes ||
      invalidSection header.leafDirectoryOffset header.leafDirectoryLength objectBytes ||
      invalidSection header.rootDirectoryOffset header.rootDirectoryLength objectBytes)
    "section bounds, root latency limit, or zoom range are invalid"
  return header

/-! ## Reading -/

def checkStatus : Option Nat → Tiling Unit
  | none => .ok ()
  | some status => if status = 206 then .ok () else .error (.wholeObjectFallback status)

variable (source : RangeSource)

def readExactRange (start length : Nat) : Tiling (Bytes × IoRequestEvidence) := do
  validUnless (length == 0 || decide (length > maxDirectoryBytes))
    ("range length " ++ toString length ++ " is zero or exceeds " ++ toString maxDirectoryBytes)
  let stop ← checkedAdd start (length - 1) "range overflow"
  let (bytes, status) ← (source.read start stop).mapError .storage
  checkStatus status
  validUnless (bytes.length != length) ("range length mismatch: requested " ++ toString length ++
    ", got " ++ toString bytes.length)
  return (bytes, { start := start, stop := stop, responseBytes := bytes.length
                   httpStatus := status })

variable (header : PmTilesHeader)

/-- The entry of the tile, in the root directory or in a leaf of it. -/
def selectTile (z x y tileId : Nat)
    (root : List DirectoryEntry) : Tiling (DirectoryEntry × List IoRequestEvidence) :=
  match findEntry root tileId with
  | none => .error (.tileNotFound z x y)
  | some selected =>
    if selected.runLength = 0 then do
      let start ← checkedAdd header.leafDirectoryOffset selected.offset "leaf offset overflow"
      let (leafBytes, request) ← readExactRange source start selected.length
      let leaf ← decodeDirectory gz leafBytes header.internalCompression
      match findEntry leaf tileId with
      | none => .error (.tileNotFound z x y)
      | some entry =>
        if entry.runLength > 0 then .ok (entry, [request]) else .error (.tileNotFound z x y)
    else .ok (selected, [])

def foundUnless (missing : Bool) (z x y : Nat) : Tiling Unit :=
  if missing then .error (.tileNotFound z x y) else .ok ()

/-- Read the tile that the root directory leads to. -/
def readSelected (z x y tileId objectBytes : Nat)
    (requests : List IoRequestEvidence) (root : List DirectoryEntry) :
    Tiling PmTilesTileRead := do
  let (tileEntry, leafRequests) ← selectTile gz source header z x y tileId root
  foundUnless (decide (tileId < tileEntry.tileId) ||
    decide (tileId ≥ tileEntry.tileId + tileEntry.runLength)) z x y
  let start ← checkedAdd header.tileDataOffset tileEntry.offset "tile offset overflow"
  let (bytes, tileRequest) ← readExactRange source start tileEntry.length
  return { header := header, z := z, x := x, y := y, tileId := tileId, bytes := bytes
           objectBytes := objectBytes, requests := requests ++ leafRequests ++ [tileRequest] }

/-- Tiles beyond the zoom levels of the archive or the tiles of their level are absent. -/
def outside (z x y : Nat) : Bool :=
  let dimension := if z < 32 then 2 ^ z else 0
  decide (z < header.minimumZoom) || decide (z > header.maximumZoom) ||
    decide (x ≥ dimension) || decide (y ≥ dimension)

def readPmtilesTile (z x y : Nat) : Tiling PmTilesTileRead := do
  let objectBytes ← source.objectBytes.mapError .storage
  let (headerRange, headerRequest) ← readExactRange source 0 headerBytes
  let header ← parseHeader headerRange objectBytes
  foundUnless (outside header z x y) z x y
  let tileId ← zxyToTileId z x y
  let (rootBytes, rootRequest) ← readExactRange source header.rootDirectoryOffset
    header.rootDirectoryLength
  let root ← decodeDirectory gz rootBytes header.internalCompression
  readSelected gz source header z x y tileId objectBytes [headerRequest, rootRequest] root

def tilePath (entry : PmTilesTileEntry) : String :=
  toString entry.z ++ "/" ++ toString entry.x ++ "/" ++ toString entry.y

def identify : List PmTilesTileEntry → Tiling (List (Nat × Bytes))
  | [] => .ok []
  | entry :: rest => do
    validUnless entry.bytes.isEmpty ("tile " ++ tilePath entry ++ " has empty payload")
    let tileId ← zxyToTileId entry.z entry.x entry.y
    let tiles ← identify rest
    return (tileId, entry.bytes) :: tiles

/-- The directory entries of the tiles from an offset on, and the encoded tiles. -/
def placeTiles (tileCompression : Nat) :
    Nat → List (Nat × Bytes) → Tiling (List DirectoryEntry × List Bytes)
  | _, [] => .ok ([], [])
  | offset, (tileId, bytes) :: rest => do
    let encoded ← encodePayload gz bytes tileCompression
    let (directory, payloads) ← placeTiles tileCompression (offset + encoded.length) rest
    return ({ tileId := tileId, offset := offset, length := encoded.length, runLength := 1 } ::
      directory, encoded :: payloads)

variable (entries : List PmTilesTileEntry)

def minimumZoom : Nat := (entries.map PmTilesTileEntry.z).min?.getD 0

def maximumZoom : Nat := (entries.map PmTilesTileEntry.z).max?.getD 0

/-- The bytes of the archive and the receipt.  An allocation of `2 ^ 63` bytes panics. -/
def writePmtilesArchive (options : PmTilesWriteOptions) : Tiling (Bytes × PmTilesWriteReceipt) := do
  validUnless entries.isEmpty "archive requires at least one tile entry"
  let tiles ← identify entries
  let sorted := tiles.insertionSort fun a b => a.1 ≤ b.1
  validUnless (decide ¬ (sorted.map Prod.fst).IsChain (· ≠ ·))
    "duplicate tile identity in write request"
  let tileCompression := if options.compressTiles then 2 else 1
  let (directory, payloads) ← placeTiles gz tileCompression 0 sorted
  let rootDirectory := gz.gzip (encodeDirectory directory)
  let metadata := gz.gzip (Bytes.ofText options.metadataJson)
  let encodedTiles := payloads.flatten
  let tileDataOffset := headerBytes + rootDirectory.length + metadata.length
  let layout : ArchiveLayout :=
    { rootLength := rootDirectory.length, metadataLength := metadata.length
      tileDataOffset := tileDataOffset, tileDataLength := encodedTiles.length
      addressedTiles := directory.length, minimumZoom := minimumZoom entries
      maximumZoom := maximumZoom entries }
  validUnless (decide (2 ^ 63 ≤ tileDataOffset + encodedTiles.length)) "capacity overflow"
  let archive := buildHeader layout tileCompression ++ (rootDirectory ++ (metadata ++ encodedTiles))
  return (archive, { objectBytes := archive.length, addressedTiles := directory.length
                     entryCount := directory.length, internalCompression := 2
                     tileCompression := tileCompression, minimumZoom := minimumZoom entries
                     maximumZoom := maximumZoom entries })

end Pmtiles
end GeneGIS
