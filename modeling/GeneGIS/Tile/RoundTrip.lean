/-
Reading back every tile of an archive.

If the root directory opens, every tile is found under its own identifier, and is returned if it is
within the budget.
-/
import GeneGIS.Tile.Archive

namespace GeneGIS.Pmtiles

open Fallible List Bool

variable {gz : Gzip} {entries : List PmTilesTileEntry} {options : PmTilesWriteOptions}
  {source : RangeSource}

variable {z x y : Nat}

theorem foundUnless_ok {missing : Bool} {u : Unit} :
    foundUnless missing z x y = .ok u ↔ missing = false :=
  except_refuse_ok

theorem decodePayload_gzip (hgz : Lossless gz) {bytes output : Bytes} {part : String} :
    decodePayload gz (gz.gzip bytes) 2 part = .ok output ↔
      bytes.length ≤ maxDirectoryBytes ∧ output = bytes := by
  rw [decodePayload, hgz.inverse]
  dsimp only
  by_cases hlimit : bytes.length > maxDirectoryBytes
  · rw [if_pos hlimit]
    refine iff_of_false (fun h => by cases h) ?_
    intro h
    exact absurd h.1 (Nat.not_le_of_lt hlimit)
  · rw [if_neg hlimit, Except.ok.injEq, eq_comm, iff_and_self]
    intro _
    exact Nat.le_of_not_lt hlimit

theorem decodeTilePayload_encoded (hgz : Lossless gz) {bytes : Bytes} {compress : Bool} :
    decodeTilePayload gz (encoded gz compress bytes) (tileCompressionOf compress) = .ok bytes ↔
      (compress = true → bytes.length ≤ maxDirectoryBytes) := by
  cases compress with
  | true =>
    show decodePayload gz (gz.gzip bytes) 2 "tile" = .ok bytes ↔ _
    rw [decodePayload_gzip hgz]
    exact ⟨fun h _ => h.1, fun h => ⟨h rfl, rfl⟩⟩
  | false => exact iff_of_true rfl nofun

/-! ## Opening an archive -/

/-- The root directory is within the limits of the reader. -/
structure Openable (gz : Gzip) (options : PmTilesWriteOptions)
    (entries : List PmTilesTileEntry) : Prop where
  root : headerBytes + (rootOf gz options entries).length ≤ rootDirectoryLimit
  directory : (encodeDirectory (directoryOf gz options entries)).length ≤ maxDirectoryBytes
  count : entries.length ≤ 1000000

theorem readHeader (h : Writable gz options entries)
    (hsource : Serves (archiveOf gz options entries) source) :
    ∃ request, readExactRange source 0 headerBytes =
      .ok (headerOf gz options entries, request) := by
  have hcapacity := h.capacity
  rw [← length_archiveOf] at hcapacity
  have hlength : (headerOf gz options entries).length = headerBytes := headerOf_length
  have hread := readExactRange_part (a := []) (b := headerOf gz options entries) hsource rfl
    (ne_nil_of_length_pos (by rw [hlength]; decide)) (by rw [hlength]; decide) (by omega)
  rw [hlength] at hread
  exact hread

theorem readRoot (hgz : Lossless gz) (h : Writable gz options entries)
    (hsource : Serves (archiveOf gz options entries) source)
    (hlimit : headerBytes + (rootOf gz options entries).length ≤ rootDirectoryLimit) :
    ∃ request, readExactRange source headerBytes (rootOf gz options entries).length =
      .ok (rootOf gz options entries, request) := by
  have hcapacity := h.capacity
  rw [← length_archiveOf] at hcapacity
  have hbudget : rootDirectoryLimit ≤ maxDirectoryBytes := by decide
  have hread := readExactRange_part (a := headerOf gz options entries)
    (b := rootOf gz options entries) hsource rfl (hgz.nonempty _) (by omega) (by omega)
  rw [headerOf_length] at hread
  exact hread

theorem decodeRoot (hgz : Lossless gz) (h : Writable gz options entries)
    {root : List DirectoryEntry} :
    decodeDirectory gz (rootOf gz options entries) 2 = .ok root ↔
      (encodeDirectory (directoryOf gz options entries)).length ≤ maxDirectoryBytes ∧
        entries.length ≤ 1000000 ∧ root = directoryOf gz options entries := by
  have hcount := length_lt hgz h
  have hlength : (directoryOf gz options entries).length = entries.length := length_directoryOf
  have hordered := (directory_increasing h).imp fun hlt => Nat.le_of_lt hlt
  have hsome : directoryOf gz options entries ≠ [] := by
    intro hnone
    rw [hnone] at hlength
    exact h.nonempty (length_eq_zero_iff.mp hlength.symm)
  have hparse : entries.length ≤ 1000000 → parseDirectory
      (encodeDirectory (directoryOf gz options entries)) = .ok (directoryOf gz options entries) :=
    fun hle => parseDirectory_encodeDirectory (directory_sound hgz h) hordered hsome (by omega)
  constructor
  · intro hroot
    obtain ⟨decoded, hdecode, hroot⟩ := bind_iff.mp hroot
    obtain ⟨hbudget, rfl⟩ := (decodePayload_gzip hgz).mp hdecode
    have hle := parseDirectory_count hroot (by omega)
    rw [hlength] at hle
    rw [hparse hle, Except.ok.injEq] at hroot
    exact ⟨hbudget, hle, hroot.symm⟩
  · intro hroot
    obtain ⟨hbudget, hle, rfl⟩ := hroot
    exact then_ok ((decodePayload_gzip hgz).mpr ⟨hbudget, rfl⟩) (hparse hle)

theorem openable_of_read (hgz : Lossless gz) (h : Writable gz options entries)
    (hsource : Serves (archiveOf gz options entries) source) {r : PmTilesTileRead}
    (hread : readPmtilesTile gz source z x y = .ok r) : Openable gz options entries := by
  obtain ⟨request, hheader⟩ := readHeader h hsource
  obtain ⟨objectBytes, hsize, hread⟩ := bind_iff.mp hread
  rw [mapError_iff, hsource.size, Except.ok.injEq] at hsize
  obtain ⟨range, hrange, hread⟩ := bind_iff.mp hread
  rw [hheader, Except.ok.injEq] at hrange
  rw [← hrange] at hread
  obtain ⟨header, hparse, hread⟩ := bind_iff.mp hread
  rw [← hsize, parseHeader_headerOf hgz h] at hparse
  obtain ⟨hlimit, rfl⟩ := hparse
  obtain ⟨rootRequest, hrootRange⟩ := readRoot hgz h hsource hlimit
  obtain ⟨_, -, hread⟩ := bind_iff.mp hread
  obtain ⟨tileId, -, hread⟩ := bind_iff.mp hread
  obtain ⟨rootRange, hroot, hread⟩ := bind_iff.mp hread
  have hsame : rootRange = (rootOf gz options entries, rootRequest) :=
    Except.ok.inj (hroot.symm.trans hrootRange)
  rw [hsame] at hread
  obtain ⟨root, hdecode, -⟩ := bind_iff.mp hread
  obtain ⟨hbudget, hcount, -⟩ := (decodeRoot hgz h).mp hdecode
  exact ⟨hlimit, hbudget, hcount⟩

theorem read_eq (hgz : Lossless gz) (h : Writable gz options entries)
    (hsource : Serves (archiveOf gz options entries) source) (hopen : Openable gz options entries)
    {z x y tileId : Nat} (hinside : outside (writtenHeader gz options entries) z x y = false)
    (hid : zxyToTileId z x y = .ok tileId) :
    ∃ requests, readPmtilesTile gz source z x y = readSelected gz source
      (writtenHeader gz options entries) z x y tileId (archiveOf gz options entries).length
      requests (directoryOf gz options entries) := by
  obtain ⟨headerRequest, hheader⟩ := readHeader h hsource
  obtain ⟨rootRequest, hroot⟩ := readRoot hgz h hsource hopen.root
  have hsize : source.objectBytes.mapError PmTilesError.storage =
      .ok (archiveOf gz options entries).length := mapError_iff.mpr hsource.size
  have hparse := (parseHeader_headerOf hgz h).mpr ⟨hopen.root, rfl⟩
  have hdecode := (decodeRoot hgz h).mpr ⟨hopen.directory, hopen.count, rfl⟩
  refine ⟨[headerRequest, rootRequest], ?_⟩
  refine (except_bind_of_ok hsize).trans ?_
  refine (except_bind_of_ok hheader).trans ?_
  refine (except_bind_of_ok hparse).trans ?_
  refine (except_bind_of_ok (foundUnless_ok (u := ()).mpr hinside)).trans ?_
  refine (except_bind_of_ok hid).trans ?_
  refine (except_bind_of_ok hroot).trans ?_
  exact except_bind_of_ok hdecode

theorem read_outside (hgz : Lossless gz) (h : Writable gz options entries)
    (hsource : Serves (archiveOf gz options entries) source) (hopen : Openable gz options entries)
    (houtside : outside (writtenHeader gz options entries) z x y = true) :
    readPmtilesTile gz source z x y = .error (.tileNotFound z x y) := by
  obtain ⟨headerRequest, hheader⟩ := readHeader h hsource
  have hsize : source.objectBytes.mapError PmTilesError.storage =
      .ok (archiveOf gz options entries).length := mapError_iff.mpr hsource.size
  have hparse := (parseHeader_headerOf hgz h).mpr ⟨hopen.root, rfl⟩
  refine (except_bind_of_ok hsize).trans ?_
  refine (except_bind_of_ok hheader).trans ?_
  refine (except_bind_of_ok hparse).trans ?_
  refine except_bind_error.mpr (.inl ?_)
  rw [houtside]
  rfl

theorem outside_iff {header : PmTilesHeader} : outside header z x y = false ↔
    header.minimumZoom ≤ z ∧ z ≤ header.maximumZoom ∧ x < (if z < 32 then 2 ^ z else 0) ∧
      y < (if z < 32 then 2 ^ z else 0) := by
  rw [outside, or_eq_false_iff, or_eq_false_iff, or_eq_false_iff,
    decide_eq_false_iff_not, decide_eq_false_iff_not, decide_eq_false_iff_not,
    decide_eq_false_iff_not]
  omega

theorem outside_eq_false (hz : z ≤ 31) (hx : x < 2 ^ z) (hy : y < 2 ^ z)
    (hminimum : minimumZoom entries ≤ z) (hmaximum : z ≤ maximumZoom entries) :
    outside (writtenHeader gz options entries) z x y = false := by
  have hlevel : z < 32 := by omega
  rw [outside_iff, if_pos hlevel]
  exact ⟨hminimum, hmaximum, hx, hy⟩

theorem exists_tileId (h : Writable gz options entries)
    (hinside : outside (writtenHeader gz options entries) z x y = false) :
    ∃ tileId, zxyToTileId z x y = .ok tileId := by
  have hzoom := (zoom_le h).2
  obtain ⟨-, hz, hx, hy⟩ := outside_iff.mp hinside
  have hz : z ≤ 31 := Nat.le_trans hz hzoom
  have hlevel : z < 32 := by omega
  rw [if_pos hlevel] at hx hy
  exact ⟨_, zxyToTileId_ok.mpr ⟨hz, hx, hy, rfl⟩⟩

/-! ## Tiles -/

theorem exists_entry (source : RangeSource) (h : Writable gz options entries) {tile : PmTilesTileEntry}
    (htile : tile ∈ entries) (z x y : Nat) :
    ∃ entry, Placed gz options.compressTiles 0 (sortedTiles entries) (tileOf tile) entry ∧
      selectTile gz source (writtenHeader gz options entries) z x y (tileNumber tile)
        (directoryOf gz options entries) = .ok (entry, []) := by
  obtain ⟨entry, hentry, hplaced⟩ := placed_of_tile gz options.compressTiles 0
    (mem_sortedTiles.mpr ⟨tile, htile, rfl⟩)
  have hid : entry.tileId = tileNumber tile := hplaced.tileId
  have hfind := findEntry_of_mem (directory_increasing h) hentry
  rw [hid] at hfind
  refine ⟨entry, hplaced, ?_⟩
  rw [selectTile, hfind]
  dsimp only
  rw [if_neg (by rw [hplaced.runLength]; decide)]

theorem read_tile (hgz : Lossless gz) (h : Writable gz options entries)
    (hsource : Serves (archiveOf gz options entries) source) (hopen : Openable gz options entries)
    {tile : PmTilesTileEntry} (htile : tile ∈ entries) :
    (∃ r, readPmtilesTile gz source tile.z tile.x tile.y = .ok r ∧
        decodeTilePayload gz r.bytes r.header.tileCompression = .ok tile.bytes) ↔
      (encoded gz options.compressTiles tile.bytes).length ≤ maxDirectoryBytes ∧
        (options.compressTiles = true → tile.bytes.length ≤ maxDirectoryBytes) := by
  have hid := h.tileId tile htile
  obtain ⟨hz, hx, hy, -⟩ := zxyToTileId_ok.mp hid
  have hzoom := minimumZoom_le htile
  obtain ⟨requests, hread⟩ := read_eq hgz h hsource hopen
    (outside_eq_false hz hx hy hzoom.1 hzoom.2) hid
  obtain ⟨entry, hplaced, hselect⟩ := exists_entry source h htile tile.z tile.x tile.y
  obtain ⟨before, after, hcut, hoffset⟩ := hplaced.cut
  have hentryId : entry.tileId = tileNumber tile := hplaced.tileId
  have hrun := hplaced.runLength
  have hlength : entry.length = (encoded gz options.compressTiles tile.bytes).length :=
    hplaced.length
  have hcapacity := h.capacity
  have hdata := congrArg List.length hcut
  rw [length_append, length_append] at hdata
  have htotal : (layoutOf gz options entries).tileDataLength =
    (tileData gz options.compressTiles (sortedTiles entries)).length := rfl
  have hstart : (writtenHeader gz options entries).tileDataOffset + entry.offset =
      (headerOf gz options entries ++ (rootOf gz options entries ++ (metadataOf gz options ++
        before))).length := by
    rw [hoffset, length_append, length_append, length_append, headerOf_length]
    show headerBytes + (rootOf gz options entries).length + (metadataOf gz options).length +
      (0 + before.length) = _
    omega
  have hfound : foundUnless (decide (tileNumber tile < entry.tileId) ||
      decide (tileNumber tile ≥ entry.tileId + entry.runLength)) tile.z tile.x tile.y =
      .ok () := by
    rw [foundUnless_ok, or_eq_false_iff, decide_eq_false_iff_not, decide_eq_false_iff_not]
    omega
  have hadd : checkedAdd (writtenHeader gz options entries).tileDataOffset entry.offset
      "tile offset overflow" =
      .ok ((writtenHeader gz options entries).tileDataOffset + entry.offset) := by
    apply checkedAdd_of_lt
    show (layoutOf gz options entries).tileDataOffset + entry.offset < 2 ^ 64
    omega
  have hrest : readPmtilesTile gz source tile.z tile.x tile.y = (do
        let part ← readExactRange source
          ((writtenHeader gz options entries).tileDataOffset + entry.offset) entry.length
        return {
          header := writtenHeader gz options entries, z := tile.z, x := tile.x, y := tile.y
          tileId := tileNumber tile, bytes := part.1
          objectBytes := (archiveOf gz options entries).length
          requests := requests ++ [] ++ [part.2] }) := by
    rw [hread]
    refine (except_bind_of_ok hselect).trans ?_
    refine (except_bind_of_ok hfound).trans ?_
    exact except_bind_of_ok hadd
  have hpart : (encoded gz options.compressTiles tile.bytes).length ≤ maxDirectoryBytes →
      ∃ request, readExactRange source
        ((writtenHeader gz options entries).tileDataOffset + entry.offset) entry.length =
          .ok (encoded gz options.compressTiles tile.bytes, request) := by
    intro hlimit
    rw [hstart, hlength]
    refine readExactRange_part (c := after) hsource ?_
      (encoded_ne_nil _ hgz (h.filled tile htile)) hlimit ?_
    · rw [archiveOf, hcut]
      simp only [append_assoc]
      rfl
    · rw [length_archiveOf]
      omega
  rw [hrest]
  constructor
  · intro hr
    obtain ⟨r, hr, hdecode⟩ := hr
    obtain ⟨range, hrange, hr⟩ := bind_iff.mp hr
    have hlimit := readExactRange_limit hrange
    rw [hlength] at hlimit
    obtain ⟨request, hpart⟩ := hpart hlimit
    rw [hpart, Except.ok.injEq] at hrange
    rw [← hrange] at hr
    rw [← Except.ok.inj hr] at hdecode
    exact ⟨hlimit, (decodeTilePayload_encoded hgz).mp hdecode⟩
  · intro hlimits
    obtain ⟨request, hpart⟩ := hpart hlimits.1
    refine ⟨_, then_ok hpart rfl, ?_⟩
    exact (decodeTilePayload_encoded hgz).mpr hlimits.2

theorem read_absent (hgz : Lossless gz) (h : Writable gz options entries)
    (hsource : Serves (archiveOf gz options entries) source) (hopen : Openable gz options entries)
    (habsent : ∀ tile ∈ entries, ¬ (tile.z = z ∧ tile.x = x ∧ tile.y = y)) :
    readPmtilesTile gz source z x y = .error (.tileNotFound z x y) := by
  cases hinside : outside (writtenHeader gz options entries) z x y with
  | true => exact read_outside hgz h hsource hopen hinside
  | false =>
    obtain ⟨tileId, hid⟩ := exists_tileId h hinside
    obtain ⟨requests, hread⟩ := read_eq hgz h hsource hopen hinside hid
    rw [hread]
    cases hfind : findEntry (directoryOf gz options entries) tileId with
    | none =>
      refine except_bind_error.mpr (.inl ?_)
      rw [selectTile, hfind]
    | some entry =>
      obtain ⟨hentry, hle⟩ := findEntry_mem hfind
      obtain ⟨t, ht, hplaced⟩ := placed_of_entry hentry
      obtain ⟨tile, htile, rfl⟩ := mem_sortedTiles.mp ht
      have hrun := hplaced.runLength
      have hselect : selectTile gz source (writtenHeader gz options entries) z x y tileId
          (directoryOf gz options entries) = .ok (entry, []) := by
        rw [selectTile, hfind]
        dsimp only
        rw [if_neg (by rw [hrun]; decide)]
      -- The entry belongs to another tile, so its identifier is smaller.
      have hne : entry.tileId ≠ tileId := by
        intro hsame
        have htileId : zxyToTileId tile.z tile.x tile.y = .ok tileId := by
          rw [h.tileId tile htile, ← hsame]
          exact congrArg Except.ok hplaced.tileId.symm
        exact habsent tile htile (zxyToTileId_inj htileId hid)
      refine (except_bind_of_ok hselect).trans ?_
      refine except_bind_error.mpr (.inl ?_)
      rw [foundUnless, if_pos]
      rw [or_eq_true, decide_eq_true_iff, decide_eq_true_iff]
      omega

/-! ## Whole archives -/

/-- Every tile that was written is read back, and no other is found. -/
structure RoundTrips (gz : Gzip) (entries : List PmTilesTileEntry) (source : RangeSource) :
    Prop where
  present : ∀ tile ∈ entries, ∃ r, readPmtilesTile gz source tile.z tile.x tile.y = .ok r ∧
    decodeTilePayload gz r.bytes r.header.tileCompression = .ok tile.bytes
  absent : ∀ z x y, (∀ tile ∈ entries, ¬ (tile.z = z ∧ tile.x = x ∧ tile.y = y)) →
    readPmtilesTile gz source z x y = .error (.tileNotFound z x y)

/-- The archive is within the limits of the reader. -/
structure Readable (gz : Gzip) (options : PmTilesWriteOptions)
    (entries : List PmTilesTileEntry) : Prop where
  opened : Openable gz options entries
  tiles : ∀ tile ∈ entries,
    (encoded gz options.compressTiles tile.bytes).length ≤ maxDirectoryBytes
  payloads : options.compressTiles = true → ∀ tile ∈ entries,
    tile.bytes.length ≤ maxDirectoryBytes

/-- A written archive is read back exactly when it is within the limits of the reader. -/
theorem round_trips_iff (gz : Gzip) (hgz : Lossless gz) (entries : List PmTilesTileEntry)
    (options : PmTilesWriteOptions) (archive : Bytes) (receipt : PmTilesWriteReceipt)
    (hwrite : writePmtilesArchive gz entries options = .ok (archive, receipt))
    (source : RangeSource) (hsource : Serves archive source) :
    RoundTrips gz entries source ↔ Readable gz options entries := by
  obtain ⟨h, rfl⟩ := write_ok hwrite
  constructor
  · intro hround
    obtain ⟨first, hfirst⟩ := exists_mem_of_ne_nil entries h.nonempty
    obtain ⟨r, hread, -⟩ := hround.present first hfirst
    have hopen := openable_of_read hgz h hsource hread
    have htiles : ∀ tile ∈ entries, _ := fun tile htile =>
      (read_tile hgz h hsource hopen htile).mp (hround.present tile htile)
    exact ⟨hopen, fun tile htile => (htiles tile htile).1,
      fun hcompress tile htile => (htiles tile htile).2 hcompress⟩
  · intro hreadable
    refine ⟨?_, ?_⟩
    · intro tile htile
      exact (read_tile hgz h hsource hreadable.opened htile).mpr
        ⟨hreadable.tiles tile htile, fun hcompress => hreadable.payloads hcompress tile htile⟩
    · intro z x y habsent
      exact read_absent hgz h hsource hreadable.opened habsent

namespace Sample

/-- Metadata and directories, with the streams they are compressed to. -/
def streams : List (Bytes × Bytes) := [
  ([123, 125],
    [31, 139, 8, 0, 0, 0, 0, 0, 0, 255, 171, 174, 5, 0, 67, 191, 166, 163, 2, 0, 0, 0]),
  ([1, 0, 1, 1, 1],
    [31, 139, 8, 0, 0, 0, 0, 0, 0, 255, 99, 100, 96, 100, 100, 4, 0, 77, 181, 156, 148,
      5, 0, 0, 0]),
  ([1, 0, 1, 129, 128, 128, 8, 1],
    [31, 139, 8, 0, 0, 0, 0, 0, 0, 255, 99, 100, 96, 108, 108, 104, 224, 96, 4, 0, 85, 130,
      224, 93, 8, 0, 0, 0])]

def flate : Gzip where
  gzip bytes := match streams.find? fun s => s.1 == bytes with
    | some s => s.2
    | none => 0 :: bytes
  gunzip
    | 0 :: bytes => .ok bytes
    | bytes => match streams.find? fun s => s.2 == bytes with
      | some s => .ok s.1
      | none => .error "invalid gzip header"

theorem lossless_flate : Lossless flate := by
  have hknown : ∀ s ∈ streams, flate.gunzip s.2 = .ok s.1 ∧ s.2 ≠ [] := by decide
  refine ⟨?_, ?_⟩
  · intro bytes
    show flate.gunzip (match streams.find? fun s => s.1 == bytes with
      | some s => s.2
      | none => 0 :: bytes) = _
    cases hfind : streams.find? fun s => s.1 == bytes with
    | none => rfl
    | some s =>
      have hsame : s.1 = bytes := eq_of_beq (find?_some hfind :)
      rw [← hsame]
      exact (hknown s (mem_of_find?_eq_some hfind)).1
  · intro bytes
    show (match streams.find? fun s => s.1 == bytes with
      | some s => s.2
      | none => 0 :: bytes) ≠ []
    cases hfind : streams.find? fun s => s.1 == bytes with
    | none => exact cons_ne_nil 0 bytes
    | some s => exact (hknown s (mem_of_find?_eq_some hfind)).2

def localFile (archive : Bytes) : RangeSource where
  objectBytes := .ok archive.length
  read start stop :=
    if stop < archive.length then .ok ((archive.drop start).take (stop - start + 1), none)
    else .error "failed to fill whole buffer"

theorem serves_localFile (archive : Bytes) : Serves archive (localFile archive) :=
  ⟨rfl, fun _ _ _ hstop => ⟨none, if_pos hstop, .inl rfl⟩⟩

def plain : PmTilesWriteOptions := { metadataJson := "{}", compressTiles := false }

def world (bytes : Bytes) : PmTilesTileEntry := { z := 0, x := 0, y := 0, bytes := bytes }

theorem directoryOf_world (bytes : Bytes) :
    directoryOf flate plain [world bytes] = [⟨0, 0, bytes.length, 1⟩] := by
  simp [directoryOf, sortedTiles, tileOf, tileNumber, world, base, hilbertDistance, directoryFrom,
    encoded, plain]

theorem writable_world {bytes : Bytes} (h : bytes ≠ []) (hlength : bytes.length < 2 ^ 62)
    (hroot : (rootOf flate plain [world bytes]).length ≤ 100) :
    Writable flate plain [world bytes] := by
  have hid : zxyToTileId 0 0 0 = .ok (tileNumber (world bytes)) := rfl
  have hmetadata : (metadataOf flate plain).length = 22 := by decide
  have hdata : tileData flate false (sortedTiles [world bytes]) = bytes ++ [] := rfl
  refine ⟨cons_ne_nil _ _, ?_, ?_, ?_, ?_⟩
  · intro entry hentry
    rw [mem_singleton.mp hentry]
    exact hid
  · intro entry hentry
    rw [mem_singleton.mp hentry]
    exact h
  · exact pairwise_singleton _ _
  · show headerBytes + (rootOf flate plain [world bytes]).length + (metadataOf flate plain).length +
      (tileData flate false (sortedTiles [world bytes])).length < 2 ^ 63
    rw [hmetadata, hdata, append_nil, headerBytes]
    omega

end Sample

open Sample in
theorem small_tile_round_trips :
    RoundTrips flate [world [0x41]] (localFile (archiveOf flate plain [world [0x41]])) := by
  have hroot : (rootOf flate plain [world [0x41]]).length = 25 := by decide +kernel
  have hwrite := write_of_writable (writable_world (cons_ne_nil 0x41 []) (by decide) (by omega))
  refine (round_trips_iff flate lossless_flate [world [0x41]] plain _ _ hwrite _
    (serves_localFile _)).mpr ?_
  refine ⟨⟨?_, ?_, ?_⟩, ?_, ?_⟩
  · rw [hroot]
    decide
  · decide +kernel
  · decide
  · intro tile htile
    rw [mem_singleton.mp htile]
    decide
  · nofun

open Sample in
/-- A tile of one byte more than the reader takes is written all the same. -/
theorem large_tile_unreadable : ∃ archive receipt,
    writePmtilesArchive flate [world (replicate (2 ^ 24 + 1) 0)] plain = .ok (archive, receipt) ∧
      Serves archive (localFile archive) ∧
      ¬ RoundTrips flate [world (replicate (2 ^ 24 + 1) 0)] (localFile archive) := by
  have hlength : (replicate (2 ^ 24 + 1) (0 : UInt8)).length = 2 ^ 24 + 1 := length_replicate
  have hroot : (rootOf flate plain [world (replicate (2 ^ 24 + 1) 0)]).length = 28 := by
    rw [rootOf, directoryOf_world, hlength]
    decide +kernel
  have hsome : replicate (2 ^ 24 + 1) (0 : UInt8) ≠ [] :=
    ne_nil_of_length_pos (by rw [hlength]; decide)
  have h := writable_world hsome (by rw [hlength]; decide) (by omega)
  refine ⟨_, _, write_of_writable h, serves_localFile _, ?_⟩
  intro hround
  have htile := hround.present _ mem_cons_self
  obtain ⟨r, hread, -⟩ := hround.present _ mem_cons_self
  have hopen := openable_of_read lossless_flate h (serves_localFile _) hread
  have hlimit := ((read_tile lossless_flate h (serves_localFile _) hopen mem_cons_self).mp htile).1
  have hbudget : (replicate (2 ^ 24 + 1) (0 : UInt8)).length ≤ maxDirectoryBytes := hlimit
  rw [hlength] at hbudget
  exact absurd hbudget (by decide)

end GeneGIS.Pmtiles
