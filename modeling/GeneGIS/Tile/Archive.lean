/-
The reader finds exactly the tiles of an archive, as long as it keeps the reader's limits, which
the writer does not have.
-/
import GeneGIS.Tile.Writer

namespace GeneGIS.Pmtiles

open Fallible List Option Bool

variable {gz : Gzip} {entries : List PmTilesTileEntry} {options : PmTilesWriteOptions}
  {source : RangeSource} {archive a b c : Bytes}

/-! ## The header -/

theorem headerOf_length : (headerOf gz options entries).length = headerBytes := by
  simp [headerOf, buildHeader, magic, le64, headerBytes]

theorem u64At_of_drop {bytes rest : Bytes} {offset n : Nat}
    (hdrop : bytes.drop offset = le64 n ++ rest) (hn : n < 2 ^ 64) : u64At bytes offset = n := by
  rw [u64At, hdrop, le64, take_left' (Bytes.length_ofNat 8 n)]
  exact Bytes.toNat_ofNat_of_lt hn

def writtenHeader (gz : Gzip) (options : PmTilesWriteOptions) (entries : List PmTilesTileEntry) :
    PmTilesHeader where
  version := 3
  rootDirectoryOffset := headerBytes
  rootDirectoryLength := (rootOf gz options entries).length
  leafDirectoryOffset := 0
  leafDirectoryLength := 0
  tileDataOffset := (layoutOf gz options entries).tileDataOffset
  tileDataLength := (layoutOf gz options entries).tileDataLength
  addressedTiles := (directoryOf gz options entries).length
  internalCompression := 2
  tileCompression := tileCompressionOf options.compressTiles
  tileType := 1
  minimumZoom := minimumZoom entries
  maximumZoom := maximumZoom entries

theorem parsedHeader_headerOf (hroot : (rootOf gz options entries).length < 2 ^ 64)
    (hoffset : (layoutOf gz options entries).tileDataOffset < 2 ^ 64)
    (hdata : (layoutOf gz options entries).tileDataLength < 2 ^ 64)
    (hcount : (directoryOf gz options entries).length < 2 ^ 64)
    (hminimum : minimumZoom entries < 256) (hmaximum : maximumZoom entries < 256) :
    parsedHeader (headerOf gz options entries) = writtenHeader gz options entries := by
  have hbyte : ∀ n, n < 256 → (UInt8.ofNat n).toNat = n := by
    intro n hn
    rw [UInt8.toNat_ofNat']
    omega
  have hcompression : tileCompressionOf options.compressTiles < 256 := by
    rw [tileCompressionOf]
    split <;> decide
  have hfirst : headerBytes < 2 ^ 64 := by decide
  have hzero : 0 < 2 ^ 64 := by decide
  rw [PmTilesHeader.mk.injEq]
  refine ⟨rfl, u64At_of_drop rfl hfirst, u64At_of_drop rfl hroot,
    u64At_of_drop rfl hzero, u64At_of_drop rfl hzero, u64At_of_drop rfl hoffset,
    u64At_of_drop rfl hdata, u64At_of_drop rfl hcount, rfl, ?_, rfl, ?_, ?_⟩
  · exact hbyte _ hcompression
  · exact hbyte _ hminimum
  · exact hbyte _ hmaximum

theorem minimumZoom_le {entry : PmTilesTileEntry} (h : entry ∈ entries) :
    minimumZoom entries ≤ entry.z ∧ entry.z ≤ maximumZoom entries := by
  have hmem : entry.z ∈ entries.map PmTilesTileEntry.z := mem_map_of_mem h
  have hne : entries.map PmTilesTileEntry.z ≠ [] := ne_nil_of_mem hmem
  refine ⟨?_, ?_⟩
  · obtain ⟨m, hm⟩ := isSome_iff_exists.mp (isSome_min?_of_ne_nil hne)
    rw [minimumZoom, hm, getD_some]
    exact (min?_eq_some_iff.mp hm).2 _ hmem
  · obtain ⟨m, hm⟩ := isSome_iff_exists.mp (isSome_max?_of_ne_nil hne)
    rw [maximumZoom, hm, getD_some]
    exact (max?_eq_some_iff.mp hm).2 _ hmem

theorem zoom_le (h : Writable gz options entries) :
    minimumZoom entries ≤ maximumZoom entries ∧ maximumZoom entries ≤ 31 := by
  obtain ⟨entry, hentry⟩ := exists_mem_of_ne_nil entries h.nonempty
  have hbetween := minimumZoom_le hentry
  refine ⟨Nat.le_trans hbetween.1 hbetween.2, ?_⟩
  have hne : entries.map PmTilesTileEntry.z ≠ [] := ne_nil_of_mem (mem_map_of_mem hentry)
  obtain ⟨m, hm⟩ := isSome_iff_exists.mp (isSome_max?_of_ne_nil hne)
  obtain ⟨highest, hhighest, hz⟩ := mem_map.mp (max?_eq_some_iff.mp hm).1
  rw [maximumZoom, hm, getD_some, ← hz]
  exact (zxyToTileId_ok.mp (h.tileId highest hhighest)).1

/-- The source returns the bytes of the archive. -/
structure Serves (archive : Bytes) (source : RangeSource) : Prop where
  size : source.objectBytes = .ok archive.length
  range : ∀ start stop, start ≤ stop → stop < archive.length →
    ∃ status, source.read start stop =
      .ok ((archive.drop start).take (stop - start + 1), status) ∧
      (status = none ∨ status = some 206)

theorem readExactRange_part (hsource : Serves archive source) (hpart : archive = a ++ (b ++ c))
    (hsome : b ≠ []) (hlimit : b.length ≤ maxDirectoryBytes) (hsize : archive.length < 2 ^ 64) :
    ∃ request, readExactRange source a.length b.length = .ok (b, request) := by
  have hpositive := length_pos_iff.mpr hsome
  have htotal : archive.length = a.length + (b.length + c.length) := by
    rw [hpart, length_append, length_append]
  obtain ⟨status, hread, hstatus⟩ := hsource.range a.length (a.length + (b.length - 1))
    (by omega) (by omega)
  have hcut : (archive.drop a.length).take (a.length + (b.length - 1) - a.length + 1) = b := by
    have hlength : a.length + (b.length - 1) - a.length + 1 = b.length := by omega
    rw [hlength, hpart, drop_left' rfl, take_left' rfl]
  rw [hcut] at hread
  refine ⟨⟨a.length, a.length + (b.length - 1), b.length, status⟩, ?_⟩
  refine bind_iff.mpr ⟨(), validUnless_ok.mpr ?_, ?_⟩
  · rw [or_eq_false_iff, beq_eq_false_iff_ne, decide_eq_false_iff_not]
    omega
  refine then_ok (checkedAdd_of_lt (by omega)) ?_
  refine bind_iff.mpr ⟨(b, status), mapError_iff.mpr hread, ?_⟩
  refine bind_iff.mpr ⟨(), ?_, ?_⟩
  · rcases hstatus with rfl | rfl
    · rfl
    · rfl
  · exact bind_iff.mpr ⟨(), validUnless_ok.mpr (bne_self_eq_false _), rfl⟩

theorem readExactRange_limit {start length : Nat} {r : Bytes × IoRequestEvidence}
    (h : readExactRange source start length = .ok r) : length ≤ maxDirectoryBytes := by
  obtain ⟨_, hvalid, -⟩ := bind_iff.mp h
  rw [validUnless_ok, or_eq_false_iff, decide_eq_false_iff_not] at hvalid
  omega

/-! ## The parts of an archive -/

theorem length_archiveOf : (archiveOf gz options entries).length =
    (layoutOf gz options entries).tileDataOffset +
      (layoutOf gz options entries).tileDataLength := by
  rw [archiveOf, length_append, length_append, length_append, headerOf_length]
  show _ = headerBytes + (rootOf gz options entries).length + (metadataOf gz options).length +
    (tileData gz options.compressTiles (sortedTiles entries)).length
  omega

theorem directory_sound (hgz : Lossless gz) (h : Writable gz options entries) :
    ∀ entry ∈ directoryOf gz options entries, Sound entry := by
  intro entry hentry
  obtain ⟨t, ht, hplaced⟩ := placed_of_entry hentry
  obtain ⟨tile, htile, rfl⟩ := mem_sortedTiles.mp ht
  obtain ⟨before, after, hcut, hoffset⟩ := hplaced.cut
  have hlength := congrArg List.length hcut
  rw [length_append, length_append] at hlength
  have hcapacity : (layoutOf gz options entries).tileDataOffset +
      (tileData gz options.compressTiles (sortedTiles entries)).length < 2 ^ 63 := h.capacity
  have hsome := length_pos_iff.mpr (encoded_ne_nil options.compressTiles hgz (h.filled tile htile))
  have hplace := hplaced.length
  refine ⟨?_, ?_, ?_, ?_⟩
  · rw [hplaced.tileId]
    exact tileId_lt (h.tileId tile htile)
  · rw [hplaced.runLength]
    decide
  · rw [hplace]
    exact hsome
  · rw [hplace, hoffset]
    omega

theorem directory_increasing (h : Writable gz options entries) :
    ((directoryOf gz options entries).map DirectoryEntry.tileId).Pairwise (· < ·) := by
  rw [directoryOf, map_tileId_directoryFrom]
  exact h.distinct

theorem length_directoryOf : (directoryOf gz options entries).length = entries.length := by
  have hlength := congrArg List.length
    (map_tileId_directoryFrom gz options.compressTiles 0 (sortedTiles entries))
  rw [length_map, length_map, sortedTiles, length_insertionSort, length_map] at hlength
  exact hlength

theorem length_lt (hgz : Lossless gz) (h : Writable gz options entries) :
    entries.length < 2 ^ 63 := by
  have hcount : ∀ tiles : List (Nat × Bytes), (∀ t ∈ tiles, t.2 ≠ []) →
      tiles.length ≤ (tileData gz options.compressTiles tiles).length := by
    intro tiles htiles
    induction tiles with
    | nil => exact Nat.zero_le _
    | cons t rest ih =>
      have hrest := ih fun s hs => htiles s (.tail _ hs)
      have hpositive := length_pos_iff.mpr
        (encoded_ne_nil options.compressTiles hgz (htiles t mem_cons_self))
      rw [tileData, flatMap_cons, length_append, length_cons]
      rw [tileData] at hrest
      omega
  have hfilled : ∀ t ∈ sortedTiles entries, t.2 ≠ [] := by
    intro t ht
    obtain ⟨tile, htile, rfl⟩ := mem_sortedTiles.mp ht
    exact h.filled tile htile
  have hle := hcount (sortedTiles entries) hfilled
  have hcapacity : (layoutOf gz options entries).tileDataOffset +
      (tileData gz options.compressTiles (sortedTiles entries)).length < 2 ^ 63 := h.capacity
  rw [sortedTiles, length_insertionSort, length_map, ← sortedTiles] at hle
  omega

theorem parseHeader_headerOf (hgz : Lossless gz) (h : Writable gz options entries)
    {header : PmTilesHeader} :
    parseHeader (headerOf gz options entries) (archiveOf gz options entries).length = .ok header ↔
      headerBytes + (rootOf gz options entries).length ≤ rootDirectoryLimit ∧
        header = writtenHeader gz options entries := by
  have hcapacity := h.capacity
  have hoffset : (layoutOf gz options entries).tileDataOffset = headerBytes +
      (rootOf gz options entries).length + (metadataOf gz options).length := rfl
  have hcount := length_lt hgz h
  have hzoom := zoom_le h
  have hparsed : parsedHeader (headerOf gz options entries) = writtenHeader gz options entries := by
    apply parsedHeader_headerOf
    · omega
    · omega
    · omega
    · rw [length_directoryOf]
      omega
    · omega
    · omega
  have hmagic : validUnless ((headerOf gz options entries).length != headerBytes ||
      (headerOf gz options entries).take 7 != magic || u8At (headerOf gz options entries) 7 != 3)
      "magic, length, or version mismatch" = .ok () := by
    rw [validUnless_ok, headerOf_length]
    rfl
  rw [parseHeader, hparsed, length_archiveOf]
  constructor
  · intro hparse
    obtain ⟨_, -, hparse⟩ := bind_iff.mp hparse
    obtain ⟨_, hvalid, hparse⟩ := bind_iff.mp hparse
    rw [validUnless_ok] at hvalid
    simp only [or_eq_false_iff, invalidSection, decide_eq_false_iff_not] at hvalid
    refine ⟨?_, (Except.ok.inj hparse).symm⟩
    have hroot := hvalid.1.1.1.1.2.2
    exact Nat.le_of_not_lt hroot
  · intro hlimit
    obtain ⟨hlimit, rfl⟩ := hlimit
    refine bind_iff.mpr ⟨(), hmagic, ?_⟩
    refine bind_iff.mpr ⟨(), validUnless_ok.mpr ?_, rfl⟩
    simp only [or_eq_false_iff, invalidSection, decide_eq_false_iff_not]
    have hlimit' : rootDirectoryLimit < 2 ^ 64 := by decide
    refine ⟨⟨⟨⟨⟨?_, ?_, ?_⟩, ?_⟩, ?_, ?_⟩, ?_, ?_⟩, ?_, ?_⟩ <;> dsimp only [writtenHeader] <;> omega

end GeneGIS.Pmtiles
