/-
Tiles stand in the order of their identifiers, and every part of the archive can be cut out of it
again.
-/
import GeneGIS.Tile.Directory
import GeneGIS.Tile.Hilbert

namespace GeneGIS.Pmtiles

open Fallible List

variable {gz : Gzip} {entries : List PmTilesTileEntry} {options : PmTilesWriteOptions}
  {compress : Bool}

/-- What compression promises: it can be undone, and a compressed stream has a header. -/
structure Lossless (gz : Gzip) : Prop where
  inverse : ∀ bytes, gz.gunzip (gz.gzip bytes) = .ok bytes
  nonempty : ∀ bytes, gz.gzip bytes ≠ []

def encoded (gz : Gzip) (compress : Bool) (bytes : Bytes) : Bytes :=
  if compress then gz.gzip bytes else bytes

def tileCompressionOf (compress : Bool) : Nat := if compress then 2 else 1

theorem encodePayload_eq (gz : Gzip) (compress : Bool) (bytes : Bytes) :
    encodePayload gz bytes (tileCompressionOf compress) = .ok (encoded gz compress bytes) := by
  cases compress <;> rfl

theorem encoded_ne_nil (compress : Bool) (hgz : Lossless gz) {bytes : Bytes} (h : bytes ≠ []) :
    encoded gz compress bytes ≠ [] := by
  cases compress with
  | true => exact hgz.nonempty bytes
  | false => exact h

/-! ## Tiles in order -/

def tileNumber (entry : PmTilesTileEntry) : Nat :=
  base entry.z + hilbertDistance entry.z (entry.z - 1 + 1) entry.x entry.y

def tileOf (entry : PmTilesTileEntry) : Nat × Bytes := (tileNumber entry, entry.bytes)

def sortedTiles (entries : List PmTilesTileEntry) : List (Nat × Bytes) :=
  (entries.map tileOf).insertionSort fun a b => a.1 ≤ b.1

theorem mem_sortedTiles {t : Nat × Bytes} :
    t ∈ sortedTiles entries ↔ ∃ entry ∈ entries, tileOf entry = t := by
  rw [sortedTiles, mem_insertionSort, mem_map]

/-- The directory of tiles that are placed from an offset on. -/
def directoryFrom (gz : Gzip) (compress : Bool) : Nat → List (Nat × Bytes) → List DirectoryEntry
  | _, [] => []
  | offset, t :: rest =>
    { tileId := t.1, offset := offset, length := (encoded gz compress t.2).length
      runLength := 1 } :: directoryFrom gz compress (offset + (encoded gz compress t.2).length) rest

def tileData (gz : Gzip) (compress : Bool) (tiles : List (Nat × Bytes)) : Bytes :=
  tiles.flatMap fun t => encoded gz compress t.2

theorem placeTiles_eq (gz : Gzip) (compress : Bool) (offset : Nat) (tiles : List (Nat × Bytes)) :
    placeTiles gz (tileCompressionOf compress) offset tiles =
      .ok (directoryFrom gz compress offset tiles, tiles.map fun t => encoded gz compress t.2) := by
  induction tiles generalizing offset with
  | nil => rfl
  | cons t rest ih =>
    refine then_ok (encodePayload_eq gz compress t.2) ?_
    exact then_ok (ih _) rfl

theorem map_tileId_directoryFrom (gz : Gzip) (compress : Bool) (offset : Nat)
    (tiles : List (Nat × Bytes)) :
    (directoryFrom gz compress offset tiles).map DirectoryEntry.tileId = tiles.map Prod.fst := by
  induction tiles generalizing offset with
  | nil => rfl
  | cons t rest ih => rw [directoryFrom, map_cons, map_cons, ih]

/-- The bytes of a tile stand where its entry says. -/
structure Placed (gz : Gzip) (compress : Bool) (offset : Nat) (tiles : List (Nat × Bytes))
    (t : Nat × Bytes) (entry : DirectoryEntry) : Prop where
  cut : ∃ before after, tileData gz compress tiles =
    before ++ (encoded gz compress t.2 ++ after) ∧ entry.offset = offset + before.length
  tileId : entry.tileId = t.1
  length : entry.length = (encoded gz compress t.2).length
  runLength : entry.runLength = 1

variable {tiles : List (Nat × Bytes)}

theorem Placed.tail {offset : Nat} {t first : Nat × Bytes}
    {entry : DirectoryEntry} (h : Placed gz compress
      (offset + (encoded gz compress first.2).length) tiles t entry) :
    Placed gz compress offset (first :: tiles) t entry := by
  obtain ⟨before, after, hcut, hoffset⟩ := h.cut
  refine ⟨⟨encoded gz compress first.2 ++ before, after, ?_, ?_⟩, h.tileId, h.length, h.runLength⟩
  · rw [tileData, flatMap_cons, append_assoc, ← hcut, tileData]
  · rw [hoffset, length_append, Nat.add_assoc]

theorem placed_head (offset : Nat) (t : Nat × Bytes) (rest : List (Nat × Bytes)) :
    Placed gz compress offset (t :: rest) t ⟨t.1, offset, (encoded gz compress t.2).length, 1⟩ :=
  ⟨⟨[], tileData gz compress rest, flatMap_cons, rfl⟩, rfl, rfl, rfl⟩

theorem placed_of_tile (gz : Gzip) (compress : Bool) (offset : Nat)
    {t : Nat × Bytes} (h : t ∈ tiles) :
    ∃ entry ∈ directoryFrom gz compress offset tiles, Placed gz compress offset tiles t entry := by
  induction tiles generalizing offset with
  | nil => cases h
  | cons first rest ih =>
    rcases mem_cons.mp h with rfl | h
    · exact ⟨_, mem_cons_self, placed_head offset t rest⟩
    · obtain ⟨entry, hentry, hplaced⟩ := ih (offset + (encoded gz compress first.2).length) h
      exact ⟨entry, .tail _ hentry, hplaced.tail⟩

theorem placed_of_entry {offset : Nat} {entry : DirectoryEntry}
    (h : entry ∈ directoryFrom gz compress offset tiles) :
    ∃ t ∈ tiles, Placed gz compress offset tiles t entry := by
  induction tiles generalizing offset with
  | nil => cases h
  | cons first rest ih =>
    rcases mem_cons.mp h with rfl | h
    · exact ⟨first, mem_cons_self, placed_head offset first rest⟩
    · obtain ⟨t, ht, hplaced⟩ := ih h
      exact ⟨t, .tail _ ht, hplaced.tail⟩

/-! ## The archive -/

def directoryOf (gz : Gzip) (options : PmTilesWriteOptions) (entries : List PmTilesTileEntry) :
    List DirectoryEntry :=
  directoryFrom gz options.compressTiles 0 (sortedTiles entries)

def rootOf (gz : Gzip) (options : PmTilesWriteOptions) (entries : List PmTilesTileEntry) : Bytes :=
  gz.gzip (encodeDirectory (directoryOf gz options entries))

def metadataOf (gz : Gzip) (options : PmTilesWriteOptions) : Bytes :=
  gz.gzip (Bytes.ofText options.metadataJson)

def layoutOf (gz : Gzip) (options : PmTilesWriteOptions) (entries : List PmTilesTileEntry) :
    ArchiveLayout where
  rootLength := (rootOf gz options entries).length
  metadataLength := (metadataOf gz options).length
  tileDataOffset := headerBytes + (rootOf gz options entries).length +
    (metadataOf gz options).length
  tileDataLength := (tileData gz options.compressTiles (sortedTiles entries)).length
  addressedTiles := (directoryOf gz options entries).length
  minimumZoom := minimumZoom entries
  maximumZoom := maximumZoom entries

def headerOf (gz : Gzip) (options : PmTilesWriteOptions) (entries : List PmTilesTileEntry) :
    Bytes :=
  buildHeader (layoutOf gz options entries) (tileCompressionOf options.compressTiles)

def archiveOf (gz : Gzip) (options : PmTilesWriteOptions) (entries : List PmTilesTileEntry) :
    Bytes :=
  headerOf gz options entries ++ (rootOf gz options entries ++ (metadataOf gz options ++
    tileData gz options.compressTiles (sortedTiles entries)))

/-- What the writer accepts. -/
structure Writable (gz : Gzip) (options : PmTilesWriteOptions)
    (entries : List PmTilesTileEntry) : Prop where
  nonempty : entries ≠ []
  tileId : ∀ entry ∈ entries, zxyToTileId entry.z entry.x entry.y = .ok (tileNumber entry)
  filled : ∀ entry ∈ entries, entry.bytes ≠ []
  distinct : ((sortedTiles entries).map Prod.fst).Pairwise (· < ·)
  capacity : (layoutOf gz options entries).tileDataOffset +
    (layoutOf gz options entries).tileDataLength < 2 ^ 63

theorem zxyToTileId_tileNumber {entry : PmTilesTileEntry} {tileId : Nat}
    (h : zxyToTileId entry.z entry.x entry.y = .ok tileId) : tileId = tileNumber entry :=
  (zxyToTileId_ok.mp h).2.2.2

theorem identify_ok : identify entries = .ok tiles ↔
    (∀ entry ∈ entries, zxyToTileId entry.z entry.x entry.y = .ok (tileNumber entry)) ∧
      (∀ entry ∈ entries, entry.bytes ≠ []) ∧ tiles = entries.map tileOf := by
  induction entries generalizing tiles with
  | nil =>
    rw [identify, Except.ok.injEq]
    constructor
    · intro h
      exact ⟨by simp, by simp, h.symm⟩
    · intro h
      exact h.2.2.symm
  | cons entry rest ih =>
    rw [identify, forall_mem_cons, forall_mem_cons]
    constructor
    · intro h
      obtain ⟨_, hfilled, h⟩ := bind_iff.mp h
      obtain ⟨tileId, hid, h⟩ := bind_iff.mp h
      obtain ⟨others, hrest, h⟩ := bind_iff.mp h
      obtain ⟨hids, hbytes, rfl⟩ := ih.mp hrest
      have hnumber := zxyToTileId_tileNumber hid
      rw [hnumber] at hid h
      refine ⟨⟨hid, hids⟩, ⟨?_, hbytes⟩, (Except.ok.inj h).symm⟩
      exact isEmpty_eq_false_iff.mp (validUnless_ok.mp hfilled)
    · intro h
      obtain ⟨⟨hid, hids⟩, ⟨hfilled, hbytes⟩, rfl⟩ := h
      refine bind_iff.mpr ⟨(), validUnless_ok.mpr (isEmpty_eq_false_iff.mpr hfilled), ?_⟩
      refine then_ok hid ?_
      exact then_ok (ih.mpr ⟨hids, hbytes, rfl⟩) rfl

theorem increasing_iff (tiles : List (Nat × Bytes)) :
    ((tiles.insertionSort fun a b => a.1 ≤ b.1).map Prod.fst).IsChain (· ≠ ·) ↔
      ((tiles.insertionSort fun a b => a.1 ≤ b.1).map Prod.fst).Pairwise (· < ·) := by
  have hsorted : ((tiles.insertionSort fun a b => a.1 ≤ b.1).map Prod.fst).Pairwise (· ≤ ·) := by
    rw [pairwise_map]
    exact pairwise_insertionSort (fun a b : Nat × Bytes => a.1 ≤ b.1) tiles
  constructor
  · intro h
    rw [← isChain_iff_pairwise, isChain_iff_getElem]
    rw [isChain_iff_getElem] at h
    intro i hi
    have hle := isChain_iff_getElem.mp hsorted.isChain i hi
    exact Nat.lt_of_le_of_ne hle (h i hi)
  · intro h
    exact h.isChain.imp fun a b hab => Nat.ne_of_lt hab

theorem write_ok {archive : Bytes} {receipt : PmTilesWriteReceipt}
    (h : writePmtilesArchive gz entries options = .ok (archive, receipt)) :
    Writable gz options entries ∧ archive = archiveOf gz options entries := by
  obtain ⟨_, hsome, h⟩ := bind_iff.mp h
  obtain ⟨tiles, htiles, h⟩ := bind_iff.mp h
  obtain ⟨_, hdistinct, h⟩ := bind_iff.mp h
  obtain ⟨⟨directory, payloads⟩, hplace, h⟩ := bind_iff.mp h
  obtain ⟨_, hcapacity, h⟩ := bind_iff.mp h
  obtain ⟨hids, hfilled, rfl⟩ := identify_ok.mp htiles
  change placeTiles gz (tileCompressionOf options.compressTiles) 0 _ = _ at hplace
  rw [placeTiles_eq, Except.ok.injEq, Prod.mk.injEq] at hplace
  obtain ⟨rfl, rfl⟩ := hplace
  have harchive := (Prod.mk.inj (Except.ok.inj h)).1
  rw [validUnless_ok, decide_eq_false_iff_not] at hcapacity
  rw [validUnless_ok, decide_eq_false_iff_not, not_not] at hdistinct
  refine ⟨⟨?_, hids, hfilled, (increasing_iff _).mp hdistinct, ?_⟩, ?_⟩
  · exact isEmpty_eq_false_iff.mp (validUnless_ok.mp hsome)
  · exact Nat.lt_of_not_le hcapacity
  · exact harchive.symm

def receiptOf (gz : Gzip) (options : PmTilesWriteOptions) (entries : List PmTilesTileEntry) :
    PmTilesWriteReceipt where
  objectBytes := (archiveOf gz options entries).length
  addressedTiles := (directoryOf gz options entries).length
  entryCount := (directoryOf gz options entries).length
  internalCompression := 2
  tileCompression := tileCompressionOf options.compressTiles
  minimumZoom := minimumZoom entries
  maximumZoom := maximumZoom entries

theorem write_of_writable (h : Writable gz options entries) :
    writePmtilesArchive gz entries options =
      .ok (archiveOf gz options entries, receiptOf gz options entries) := by
  refine bind_iff.mpr ⟨(), validUnless_ok.mpr ?_, ?_⟩
  · exact isEmpty_eq_false_iff.mpr h.nonempty
  refine bind_iff.mpr ⟨_, identify_ok.mpr ⟨h.tileId, h.filled, rfl⟩, ?_⟩
  refine bind_iff.mpr ⟨(), validUnless_ok.mpr ?_, ?_⟩
  · rw [decide_eq_false_iff_not, not_not]
    exact (increasing_iff _).mpr h.distinct
  refine bind_iff.mpr ⟨_, placeTiles_eq gz options.compressTiles 0 _, ?_⟩
  refine bind_iff.mpr ⟨(), validUnless_ok.mpr ?_, rfl⟩
  rw [decide_eq_false_iff_not]
  exact Nat.not_le_of_lt h.capacity

end GeneGIS.Pmtiles
