/-
Where the reader of archives goes wrong.

It does not check that the end of a run of tiles is a number of sixty-four bits, and that a leaf
directory and a tile lie within their part of the archive.
-/
import GeneGIS.Tile.RoundTrip
import GeneGIS.Tile.Strict

namespace GeneGIS.Pmtiles.Strict

open Fallible List

variable {α β : Type}

theorem ofTiling_bind (m : Tiling α) (f : α → Tiling β) :
    ofTiling (m >>= f) = ofTiling m >>= fun a => ofTiling (f a) := by
  cases m with
  | ok a => rfl
  | error e => rfl

theorem ofTiling_bind_congr {m : Tiling α} {f g : α → Strict β}
    (h : ∀ a, m = .ok a → f a = g a) : ofTiling m >>= f = ofTiling m >>= g := by
  cases m with
  | ok a => exact h a rfl
  | error e => rfl

theorem ok_bind {ε : Type} (a : α) (f : α → Except ε β) : (.ok a >>= f) = f a := rfl

theorem ofTiling_ne_fail (r : Tiling α) (f : Fault) : ofTiling r ≠ fail f := by
  cases r with
  | ok a => intro h; cases h
  | error e => intro h; cases h

theorem add_of_lt {a b : Nat} (h : a + b < 2 ^ 64) : add a b = .ok (a + b) := by
  rw [add, if_pos h]

theorem sub_of_le {a b : Nat} (h : b ≤ a) : sub a b = .ok (a - b) := by rw [sub, if_pos h]

theorem index_of_get {l : List α} {i : Nat} {a : α} (h : l[i]? = some a) : index l i = .ok a := by
  rw [index, h]

variable {bytes : Bytes}

theorem slice_of_le {start stop : Nat} (h : start ≤ stop) (hstop : stop ≤ bytes.length) :
    slice bytes start stop = .ok ((bytes.drop start).take (stop - start)) := by
  rw [slice, if_pos ⟨h, hstop⟩]

theorem u64At_of_lt {offset : Nat} (hsmall : offset < 120)
    (h : bytes.length = headerBytes) : u64At bytes offset = .ok (Pmtiles.u64At bytes offset) := by
  rw [headerBytes] at h
  rw [u64At, add_of_lt (by omega), ok_bind, slice_of_le (by omega) (by omega), ok_bind,
    Nat.add_sub_cancel_left]
  rfl

theorem u8At_of_lt {offset : Nat} (hsmall : offset < 127)
    (h : bytes.length = headerBytes) : u8At bytes offset = .ok (Pmtiles.u8At bytes offset) := by
  rw [headerBytes] at h
  have hlt : offset < bytes.length := by omega
  have hget : bytes[offset]? = some bytes[offset] := getElem?_eq_getElem hlt
  rw [u8At, index_of_get hget, ok_bind, Pmtiles.u8At, hget]
  rfl

theorem checkMagic_eq (bytes : Bytes) : checkMagic bytes = ofTiling (validUnless
    (bytes.length != headerBytes || bytes.take 7 != magic || Pmtiles.u8At bytes 7 != 3)
    "magic, length, or version mismatch") := by
  by_cases hlength : bytes.length = headerBytes
  · have hslice : slice bytes 0 7 = .ok (bytes.take 7) := by
      rw [headerBytes] at hlength
      rw [slice_of_le (by decide) (by omega), drop_zero, Nat.sub_zero]
    have hsame : (bytes.length != headerBytes) = false := bne_eq_false_iff_eq.mpr hlength
    rw [checkMagic, hsame, hslice, u8At_of_lt (by decide) hlength, Bool.false_or]
    show (if (bytes.take 7 != magic) = true then _ else
      if (Pmtiles.u8At bytes 7 != 3) = true then _ else _) = _
    cases bytes.take 7 != magic with
    | true => rfl
    | false =>
      cases Pmtiles.u8At bytes 7 != 3 with
      | true => rfl
      | false => rfl
  · have hother : (bytes.length != headerBytes) = true := bne_iff_ne.mpr hlength
    rw [checkMagic, hother, if_pos rfl, Bool.true_or, Bool.true_or]
    rfl

theorem headerAt_of_length (h : bytes.length = headerBytes) :
    headerAt bytes = .ok (parsedHeader bytes) := by
  have hu8 : ∀ offset, offset < 127 → u8At bytes offset = .ok (Pmtiles.u8At bytes offset) :=
    fun offset hsmall => u8At_of_lt hsmall h
  have hu64 : ∀ offset, offset < 120 → u64At bytes offset = .ok (Pmtiles.u64At bytes offset) :=
    fun offset hsmall => u64At_of_lt hsmall h
  rw [headerAt]
  simp (disch := decide) only [hu8, hu64, ok_bind]
  rfl

theorem parseHeader_eq (bytes : Bytes) (objectBytes : Nat) :
    parseHeader bytes objectBytes = ofTiling (Pmtiles.parseHeader bytes objectBytes) := by
  rw [parseHeader, checkMagic_eq, Pmtiles.parseHeader, ofTiling_bind]
  by_cases hlength : bytes.length = headerBytes
  · rw [headerAt_of_length hlength, ok_bind]
    simp only [ofTiling_bind]
    rfl
  · have hother : (bytes.length != headerBytes) = true := bne_iff_ne.mpr hlength
    rw [hother, Bool.true_or, Bool.true_or]
    rfl

theorem readExactRange_eq (source : RangeSource) (start length : Nat) :
    readExactRange source start length = ofTiling (Pmtiles.readExactRange source start length) := by
  rw [readExactRange, Pmtiles.readExactRange]
  simp only [ofTiling_bind]
  by_cases hvalid : (length == 0 || decide (length > maxDirectoryBytes)) = true
  · rw [hvalid]
    rfl
  · rw [Bool.not_eq_true] at hvalid
    rw [hvalid]
    rw [Bool.or_eq_false_iff, beq_eq_false_iff_ne, decide_eq_false_iff_not] at hvalid
    show (sub length 1 >>= _) = _
    rw [sub_of_le (by omega), ok_bind]
    by_cases hstop : start + (length - 1) < 2 ^ 64
    · have hspan : start + (length - 1) - start + 1 < 2 ^ 64 := by
        rw [maxDirectoryBytes] at hvalid
        omega
      rw [checkedAdd, if_pos hstop]
      show (sub (start + (length - 1)) start >>= _) =
        ofTiling ((source.read start (start + (length - 1))).mapError .storage) >>= _
      rw [sub_of_le (Nat.le_add_right _ _), ok_bind, add_of_lt hspan, ok_bind]
      rfl
    · rw [checkedAdd, if_neg hstop]
      rfl

/-! ## Directories -/

variable {read : List Nat × Bytes} {count : Nat}

theorem length_next {ε : Type} {n : Nat} {others : List Nat × Bytes}
    (h : Except.ok (n :: others.1, others.2) = (.ok read : Except ε _))
    (hothers : others.1.length = count) : read.1.length = count + 1 := by
  rw [← Except.ok.inj h, length_cons, hothers]

theorem readIds_length {lastId : Nat}
    (h : readIds count lastId bytes = .ok read) : read.1.length = count := by
  induction count generalizing lastId bytes read with
  | zero =>
    rw [readIds, Except.ok.injEq] at h
    rw [← h, length_nil]
  | succ count ih =>
    rw [readIds] at h
    obtain ⟨_, -, h⟩ := bind_iff.mp h
    obtain ⟨_, -, h⟩ := bind_iff.mp h
    obtain ⟨others, hothers, h⟩ := bind_iff.mp h
    exact length_next h (ih hothers)

theorem readRunLengths_length
    (h : readRunLengths count bytes = .ok read) : read.1.length = count := by
  induction count generalizing bytes read with
  | zero =>
    rw [readRunLengths, Except.ok.injEq] at h
    rw [← h, length_nil]
  | succ count ih =>
    rw [readRunLengths] at h
    obtain ⟨_, -, h⟩ := bind_iff.mp h
    obtain ⟨others, hothers, h⟩ := bind_iff.mp h
    exact length_next h (ih hothers)

theorem readLengths_length (h : readLengths count bytes = .ok read) : read.1.length = count := by
  induction count generalizing bytes read with
  | zero =>
    rw [readLengths, Except.ok.injEq] at h
    rw [← h, length_nil]
  | succ count ih =>
    rw [readLengths] at h
    obtain ⟨_, -, h⟩ := bind_iff.mp h
    obtain ⟨_, -, h⟩ := bind_iff.mp h
    obtain ⟨others, hothers, h⟩ := bind_iff.mp h
    exact length_next h (ih hothers)

def placed : List DirectoryEntry → List Nat → List DirectoryEntry
  | entry :: entries, offset :: offsets => { entry with offset := offset } :: placed entries offsets
  | _, _ => []

theorem placed_unplaced (ids runLengths lengths offsets : List Nat) :
    placed (unplaced ids runLengths lengths) offsets = assemble ids runLengths lengths offsets := by
  induction ids generalizing runLengths lengths offsets with
  | nil => cases offsets <;> rfl
  | cons id ids ih =>
    cases runLengths with
    | nil => cases offsets <;> rfl
    | cons runLength runLengths =>
      cases lengths with
      | nil => cases offsets <;> rfl
      | cons length lengths =>
        cases offsets with
        | nil => rfl
        | cons offset offsets =>
          rw [unplaced, placed, assemble, ih]

/-- The offset of an entry from the offset and the length of the one before it. -/
def offsetAfter (previous : Option (Nat × Nat)) (encoded : Nat) : Tiling Nat :=
  match previous with
  | some (offset, length) =>
    if encoded = 0 then checkedAdd offset length "directory offset overflow"
    else .ok (encoded - 1)
  | none =>
    if encoded > 0 then .ok (encoded - 1)
    else .error (.invalid "first directory offset cannot use zero sentinel")

theorem readOffsets_cons (previous : Option (Nat × Nat)) (length : Nat) (lengths : List Nat)
    (bytes : Bytes) : readOffsets previous (length :: lengths) bytes = (do
      let read ← readVarint bytes
      let offset ← offsetAfter previous read.1
      let others ← readOffsets (some (offset, length)) lengths read.2
      return (offset :: others.1, others.2)) := by
  rw [readOffsets]
  cases readVarint bytes with
  | error e => rfl
  | ok read =>
    cases previous with
    | none =>
      by_cases hencoded : read.1 > 0
      · simp only [offsetAfter, ok_bind, if_pos hencoded]
      · simp only [offsetAfter, ok_bind, if_neg hencoded]
    | some p =>
      by_cases hencoded : read.1 = 0
      · simp only [offsetAfter, ok_bind, if_pos hencoded]
      · simp only [offsetAfter, ok_bind, if_neg hencoded]

theorem offsetAt_eq (done rest : List DirectoryEntry) (encoded : Nat) :
    offsetAt (done ++ rest) done.length encoded =
      ofTiling (offsetAfter (done.getLast?.map fun p => (p.offset, p.length)) encoded) := by
  rw [offsetAt]
  by_cases hdone : done = []
  · rw [hdone, if_neg (by simp)]
    by_cases hencoded : encoded > 0
    · rw [if_pos hencoded, sub_of_le hencoded]
      show _ = ofTiling (if encoded > 0 then _ else _)
      rw [if_pos hencoded]
      rfl
    · rw [if_neg hencoded]
      show _ = ofTiling (if encoded > 0 then _ else _)
      rw [if_neg hencoded]
  · obtain ⟨front, p, hlast⟩ := eq_nil_or_concat done |>.resolve_left hdone
    have hlength : done.length = front.length + 1 := by rw [hlast, length_concat]
    have hprevious : (done ++ rest)[front.length]? = some p := by
      rw [hlast]
      simp
    have hgetLast : done.getLast? = some p := by rw [hlast, concat_eq_append, getLast?_concat]
    rw [hgetLast, Option.map_some]
    show _ = ofTiling (if encoded = 0 then _ else _)
    by_cases hencoded : encoded = 0
    · rw [if_pos ⟨hencoded, by omega⟩, if_pos hencoded, hlength, sub_of_le (Nat.le_add_left _ _),
        ok_bind, Nat.add_sub_cancel, index_of_get hprevious, ok_bind]
    · rw [if_neg (fun h => hencoded h.1), if_neg hencoded, if_pos (Nat.pos_of_ne_zero hencoded),
        sub_of_le (Nat.pos_of_ne_zero hencoded)]
      rfl

/-- The induction over the entries left: the last of those before them is the one that the next
offset may follow. -/
theorem placeOffsets_eq (done pending : List DirectoryEntry) (bytes : Bytes) :
    placeOffsets pending.length done.length (done ++ pending) bytes = ofTiling (do
        let read ← readOffsets (done.getLast?.map fun p => (p.offset, p.length))
          (pending.map DirectoryEntry.length) bytes
        return (done ++ placed pending read.1, read.2)) := by
  induction pending generalizing done bytes with
  | nil => rfl
  | cons entry pending ih =>
    rw [length_cons, placeOffsets, map_cons, readOffsets_cons]
    cases readVarint bytes with
    | error e => rfl
    | ok read =>
      have hentry : (done ++ entry :: pending)[done.length]? = some entry := by simp
      show (offsetAt (done ++ entry :: pending) done.length read.1 >>= _) = _
      rw [offsetAt_eq, index_of_get hentry]
      cases hoffset : offsetAfter (done.getLast?.map fun p => (p.offset, p.length)) read.1 with
      | error e => 
        simp only [ok_bind, hoffset]
        rfl
      | ok offset =>
        have hset : (done ++ entry :: pending).set done.length { entry with offset := offset } =
            (done ++ [{ entry with offset := offset }]) ++ pending := by
          simp
        have hrest := ih (done ++ [{ entry with offset := offset }]) read.2
        rw [length_append, length_singleton, getLast?_concat, Option.map_some] at hrest
        simp only [ok_bind, hoffset]
        show placeOffsets pending.length (done.length + 1) ((done ++ entry :: pending).set _ _) _ = _
        rw [hset, hrest]
        cases readOffsets (some (offset, entry.length)) (pending.map DirectoryEntry.length) read.2 with
        | error e => rfl
        | ok others =>
          show Except.ok (done ++ [_] ++ placed pending others.1, others.2) = _
          rw [append_assoc, singleton_append]
          rfl

theorem unplaced_lengths {ids runLengths lengths : List Nat}
    (hids : ids.length = count) (hruns : runLengths.length = count)
    (hlengths : lengths.length = count) :
    (unplaced ids runLengths lengths).map DirectoryEntry.length = lengths := by
  induction count generalizing ids runLengths lengths with
  | zero =>
    rw [length_eq_zero_iff.mp hids, length_eq_zero_iff.mp hlengths]
    rfl
  | succ count ih =>
    obtain ⟨id, ids, rfl⟩ := exists_cons_of_length_eq_add_one hids
    obtain ⟨runLength, runLengths, rfl⟩ := exists_cons_of_length_eq_add_one hruns
    obtain ⟨length, lengths, rfl⟩ := exists_cons_of_length_eq_add_one hlengths
    rw [unplaced, map_cons, ih (Nat.succ.inj hids) (Nat.succ.inj hruns) (Nat.succ.inj hlengths)]

theorem length_unplaced {ids runLengths lengths : List Nat}
    (hids : ids.length = count) (hruns : runLengths.length = count)
    (hlengths : lengths.length = count) : (unplaced ids runLengths lengths).length = count := by
  have hsame := congrArg length (unplaced_lengths hids hruns hlengths)
  rwa [length_map, hlengths] at hsame

theorem parseDirectory_eq (decoded : Bytes) :
    parseDirectory decoded = ofTiling (Pmtiles.parseDirectory decoded) := by
  rw [parseDirectory, Pmtiles.parseDirectory]
  simp only [ofTiling_bind]
  refine ofTiling_bind_congr fun count _ => ?_
  refine ofTiling_bind_congr fun _ _ => ?_
  refine ofTiling_bind_congr fun ids hids => ?_
  refine ofTiling_bind_congr fun runs hruns => ?_
  refine ofTiling_bind_congr fun lengths hlengths => ?_
  have hids := readIds_length hids
  have hruns := readRunLengths_length hruns
  have hlengths := readLengths_length hlengths
  have hplace := placeOffsets_eq [] (unplaced ids.1 runs.1 lengths.1) lengths.2
  rw [length_unplaced hids hruns hlengths, unplaced_lengths hids hruns hlengths] at hplace
  show (placeOffsets count.1 0 (unplaced ids.1 runs.1 lengths.1) lengths.2 >>= _) = _
  have hplace : placeOffsets count.1 0 (unplaced ids.1 runs.1 lengths.1) lengths.2 = ofTiling (do
      let read ← readOffsets none lengths.1 lengths.2
      return (placed (unplaced ids.1 runs.1 lengths.1) read.1, read.2)) := hplace
  simp only [hplace, ofTiling_bind, placed_unplaced]
  cases readOffsets none lengths.1 lengths.2 with
  | error e => rfl
  | ok offsets => rfl

theorem decodeDirectory_eq (gz : Gzip) (bytes : Bytes) (compression : Nat) :
    decodeDirectory gz bytes compression =
      ofTiling (Pmtiles.decodeDirectory gz bytes compression) := by
  rw [decodeDirectory, Pmtiles.decodeDirectory, ofTiling_bind]
  congr 1
  funext decoded
  exact parseDirectory_eq decoded

/-- What the reader does not check. -/
def Unchecked : Fault → Prop
  | .sum _ _ => True
  | .leaf _ _ => True
  | .tile _ _ => True
  | _ => False

/-- The strict program is the other one where the condition holds, and elsewhere it finds what
is not checked. -/
structure Judged (s : Strict α) (r : Tiling α) (sound : Prop) : Prop where
  same : sound → s = ofTiling r
  faulty : ¬ sound → ∃ f, Unchecked f ∧ s = fail f

variable {s : Strict α} {r : Tiling α}

theorem Judged.iff {sound : Prop} (h : Judged s r sound) : s = ofTiling r ↔ sound := by
  refine ⟨fun hsame => ?_, h.same⟩
  by_contra hunsound
  obtain ⟨f, -, hfault⟩ := h.faulty hunsound
  exact ofTiling_ne_fail r f (hsame.symm.trans hfault)

theorem Judged.unchecked {sound : Prop} (h : Judged s r sound)
    {f : Fault} (hs : s = fail f) : Unchecked f := by
  by_cases hsound : sound
  · exact absurd ((h.same hsound).symm.trans hs) (ofTiling_ne_fail r f)
  · obtain ⟨g, hg, hfault⟩ := h.faulty hsound
    have hsame : f = g := Failure.fault.inj (Except.error.inj (hs.symm.trans hfault))
    rw [hsame]
    exact hg

theorem judged_same {sound : Prop} (hsound : sound) (h : s = ofTiling r) : Judged s r sound :=
  ⟨fun _ => h, fun hunsound => absurd hsound hunsound⟩

theorem Judged.bind {m : Tiling α} {f : α → Strict β} {g : α → Tiling β} {sound : α → Prop}
    (h : ∀ a, m = .ok a → Judged (f a) (g a) (sound a)) :
    Judged (ofTiling m >>= f) (m >>= g) (∀ a, m = .ok a → sound a) := by
  cases m with
  | error e => exact judged_same (fun a ha => by cases ha) rfl
  | ok a =>
    have ha := h a rfl
    refine ⟨fun hsound => ha.same (hsound a rfl), fun hunsound => ha.faulty fun hsound => ?_⟩
    exact hunsound fun b hb => Except.ok.inj hb ▸ hsound

theorem Judged.congr {sound sound' : Prop} (h : Judged s r sound)
    (hiff : sound ↔ sound') : Judged s r sound' := by
  rw [← hiff]
  exact h

theorem judged_range {f : Nat → Nat → Fault} (hf : ∀ a b, Unchecked (f a b))
    {source : RangeSource} {start length offset size : Nat}
    {s : Bytes × IoRequestEvidence → Strict α} {r : Bytes × IoRequestEvidence → Tiling α}
    {sound : Bytes × IoRequestEvidence → Prop} (h : ∀ read, Judged (s read) (r read) (sound read)) :
    Judged (readExactRange source start length >>= fun read =>
        within f start length offset size >>= fun _ => s read)
      (Pmtiles.readExactRange source start length >>= r)
      (∀ read, Pmtiles.readExactRange source start length = .ok read →
        (offset ≤ start ∧ start + length ≤ offset + size) ∧ sound read) := by
  rw [readExactRange_eq]
  refine Judged.bind fun read _ => ?_
  rw [within]
  by_cases hwithin : offset ≤ start ∧ start + length ≤ offset + size
  · rw [if_pos hwithin]
    exact (h read).congr ⟨fun hsound => ⟨hwithin, hsound⟩, fun hboth => hboth.2⟩
  · rw [if_neg hwithin]
    exact ⟨fun hboth => absurd hboth.1 hwithin, fun _ => ⟨_, hf start length, rfl⟩⟩

/-! ## The entry of a tile -/

variable (gz : Gzip) (source : RangeSource) (header : PmTilesHeader)

def Readable (start length : Nat) : Prop :=
  ∃ read, Pmtiles.readExactRange source start length = .ok read

/-- The run of the entry ends at a number of sixty-four bits, and the tile that it lists lies within
the tile data. -/
structure SoundTile (tileId : Nat) (entry : DirectoryEntry) : Prop where
  run : entry.tileId + entry.runLength < 2 ^ 64
  data : tileId < entry.tileId + entry.runLength →
    Readable source (header.tileDataOffset + entry.offset) entry.length →
      entry.offset + entry.length ≤ header.tileDataLength

/-- What is selected is the entry of the tile, or a leaf directory in its place that selects a sound
entry. -/
def SoundEntry (tileId : Nat) (selected : DirectoryEntry) : Prop :=
  if selected.runLength = 0 then
    ∀ leafBytes request, Pmtiles.readExactRange source
        (header.leafDirectoryOffset + selected.offset) selected.length = .ok (leafBytes, request) →
      selected.offset + selected.length ≤ header.leafDirectoryLength ∧
      ∀ leaf, Pmtiles.decodeDirectory gz leafBytes header.internalCompression = .ok leaf →
        ∀ entry, findEntry leaf tileId = some entry → 0 < entry.runLength →
          SoundTile source header tileId entry
  else SoundTile source header tileId selected

variable {gz source header}

theorem checkedAdd_ok {a b c : Nat} {reason : String} :
    checkedAdd a b reason = .ok c ↔ a + b < 2 ^ 64 ∧ c = a + b := by
  rw [checkedAdd]
  split_ifs with h
  · rw [Except.ok.injEq, eq_comm]
    exact ⟨fun hc => ⟨h, hc⟩, fun hc => hc.2⟩
  · exact iff_of_false (fun h => by cases h) (fun hc => h hc.1)

theorem start_lt {start length : Nat} (h : Readable source start length) : start < 2 ^ 64 := by
  obtain ⟨read, hread⟩ := h
  rw [Pmtiles.readExactRange] at hread
  obtain ⟨_, -, hread⟩ := bind_iff.mp hread
  obtain ⟨_, hstop, -⟩ := bind_iff.mp hread
  have hsum := (checkedAdd_ok.mp hstop).1
  omega

theorem foundUnless_ok {missing : Bool} {z x y : Nat} {u : Unit} :
    foundUnless missing z x y = .ok u ↔ missing = false :=
  except_refuse_ok

def entryRead (source : RangeSource) (header : PmTilesHeader) (z x y tileId objectBytes : Nat)
    (requests : List IoRequestEvidence) (tileEntry : DirectoryEntry)
    (leafRequests : List IoRequestEvidence) : Tiling PmTilesTileRead := do
  foundUnless (decide (tileId < tileEntry.tileId) ||
    decide (tileId ≥ tileEntry.tileId + tileEntry.runLength)) z x y
  let start ← checkedAdd header.tileDataOffset tileEntry.offset "tile offset overflow"
  let (bytes, tileRequest) ← Pmtiles.readExactRange source start tileEntry.length
  return { header := header, z := z, x := x, y := y, tileId := tileId, bytes := bytes
           objectBytes := objectBytes, requests := requests ++ leafRequests ++ [tileRequest] }

variable {z x y tileId objectBytes : Nat}

theorem readEntry_judged {requests leafRequests : List IoRequestEvidence} {entry : DirectoryEntry}
    (h : entry.tileId ≤ tileId) :
    Judged (readEntry source header z x y tileId objectBytes requests entry leafRequests)
      (entryRead source header z x y tileId objectBytes requests entry leafRequests)
      (SoundTile source header tileId entry) := by
  have hbefore : ¬ tileId < entry.tileId := by omega
  rw [readEntry, misses, if_neg hbefore]
  by_cases hrun : entry.tileId + entry.runLength < 2 ^ 64
  · rw [add_of_lt hrun, ok_bind]
    show Judged (do
      ofTiling (foundUnless (decide (tileId ≥ entry.tileId + entry.runLength)) z x y)
      _) _ _
    have hmissing : (decide (tileId < entry.tileId) ||
        decide (tileId ≥ entry.tileId + entry.runLength)) =
        decide (tileId ≥ entry.tileId + entry.runLength) := by
      rw [decide_eq_false hbefore, Bool.false_or]
    rw [entryRead, hmissing]
    refine (Judged.bind fun _ _ => Judged.bind fun start _ =>
      @judged_range _ .tile (fun _ _ => trivial) _ _ _ _ _ _ _ _
        fun _ => judged_same trivial (by rfl)).congr ?_
    constructor
    · intro hsound
      refine ⟨hrun, fun hstop hreadable => ?_⟩
      obtain ⟨read, hread⟩ := id hreadable
      have hfound : foundUnless (decide (tileId ≥ entry.tileId + entry.runLength)) z x y = .ok () :=
        foundUnless_ok.mpr (decide_eq_false (by omega))
      have hdata := hsound () hfound _ (checkedAdd_ok.mpr ⟨start_lt hreadable, rfl⟩) read hread
      omega
    · intro hsound u hfound start hstart read hread
      have hstop := of_decide_eq_false (foundUnless_ok.mp hfound)
      obtain ⟨-, hstart⟩ := checkedAdd_ok.mp hstart
      rw [hstart] at hread ⊢
      have hdata := hsound.data (by omega) ⟨read, hread⟩
      exact ⟨by omega, trivial⟩
  · rw [add, if_neg hrun]
    exact ⟨fun hsound => absurd hsound.run hrun, fun _ => ⟨.sum _ _, trivial, rfl⟩⟩

theorem leaf_judged {requests : List IoRequestEvidence}
    {request : IoRequestEvidence} (leaf : List DirectoryEntry) :
    Judged ((match findEntry leaf tileId with
        | none => ofTiling (.error (.tileNotFound z x y))
        | some entry =>
          if entry.runLength > 0 then .ok (entry, [request])
          else ofTiling (.error (.tileNotFound z x y))) >>= fun selected =>
        readEntry source header z x y tileId objectBytes requests selected.1 selected.2)
      ((match findEntry leaf tileId with
        | none => .error (.tileNotFound z x y)
        | some entry =>
          if entry.runLength > 0 then .ok (entry, [request])
          else .error (.tileNotFound z x y)) >>= fun selected =>
        entryRead source header z x y tileId objectBytes requests selected.1 selected.2)
      (∀ entry, findEntry leaf tileId = some entry → 0 < entry.runLength →
        SoundTile source header tileId entry) := by
  cases hfind : findEntry leaf tileId with
  | none => exact judged_same (fun _ h => by cases h) rfl
  | some entry =>
    dsimp only
    by_cases hrun : entry.runLength > 0
    · rw [if_pos hrun, if_pos hrun]
      refine (readEntry_judged (findEntry_mem hfind).2).congr ⟨fun hsound e he _ => ?_, fun h => ?_⟩
      · rw [← Option.some.inj he]
        exact hsound
      · exact h entry rfl hrun
    · rw [if_neg hrun, if_neg hrun]
      refine judged_same (fun e he hpos => ?_) rfl
      rw [Option.some.inj he] at hrun
      exact absurd hpos hrun

theorem readSelected_judged {requests : List IoRequestEvidence} (root : List DirectoryEntry) :
    Judged (readSelected gz source header z x y tileId objectBytes requests root)
      (Pmtiles.readSelected gz source header z x y tileId objectBytes requests root)
      (∀ selected, findEntry root tileId = some selected →
        SoundEntry gz source header tileId selected) := by
  rw [readSelected, Pmtiles.readSelected, selectTile, Pmtiles.selectTile]
  cases hfind : findEntry root tileId with
  | none => exact judged_same (fun _ h => by cases h) rfl
  | some selected =>
    dsimp only
    by_cases hleaf : selected.runLength = 0
    · rw [if_pos hleaf, if_pos hleaf]
      simp only [bind_assoc, decodeDirectory_eq]
      refine (Judged.bind fun start _ => @judged_range _ .leaf (fun _ _ => trivial) _ _ _ _ _ _ _ _
        fun read => Judged.bind fun leaf _ => leaf_judged leaf).congr ⟨?_, ?_⟩
      · intro hsound e he
        rw [← Option.some.inj he, SoundEntry, if_pos hleaf]
        intro leafBytes request hread
        obtain ⟨⟨-, hstop⟩, hentries⟩ :=
          hsound _ (checkedAdd_ok.mpr ⟨start_lt ⟨_, hread⟩, rfl⟩) _ hread
        exact ⟨by omega, hentries⟩
      · intro hsound start hstart read hread
        have hselected := hsound selected rfl
        rw [SoundEntry, if_pos hleaf] at hselected
        obtain ⟨-, hstart⟩ := checkedAdd_ok.mp hstart
        rw [hstart] at hread ⊢
        obtain ⟨hstop, hentries⟩ := hselected read.1 read.2 hread
        exact ⟨by omega, hentries⟩
    · rw [if_neg hleaf, if_neg hleaf]
      refine (readEntry_judged (findEntry_mem hfind).2).congr ⟨fun hsound e he => ?_, fun h => ?_⟩
      · rw [← Option.some.inj he, SoundEntry, if_neg hleaf]
        exact hsound
      · have hentry := h selected rfl
        rw [SoundEntry, if_neg hleaf] at hentry
        exact hentry

/-! ## The reader -/

/-- The header and the root directory of the archive, where the tile is one of its levels. -/
structure Opens (gz : Gzip) (source : RangeSource) (z x y : Nat) (header : PmTilesHeader)
    (tileId : Nat) (root : List DirectoryEntry) : Prop where
  parsed : ∃ objectBytes headerRange request, source.objectBytes = .ok objectBytes ∧
    Pmtiles.readExactRange source 0 headerBytes = .ok (headerRange, request) ∧
    Pmtiles.parseHeader headerRange objectBytes = .ok header
  inside : outside header z x y = false
  identified : Pmtiles.zxyToTileId z x y = .ok tileId
  directory : ∃ rootBytes request, Pmtiles.readExactRange source header.rootDirectoryOffset
    header.rootDirectoryLength = .ok (rootBytes, request) ∧
    Pmtiles.decodeDirectory gz rootBytes header.internalCompression = .ok root

/-- The entries that lead to the tile are sound. -/
def SoundPath (gz : Gzip) (source : RangeSource) (z x y : Nat) : Prop :=
  ∀ header tileId root selected, Opens gz source z x y header tileId root →
    findEntry root tileId = some selected → SoundEntry gz source header tileId selected

/-- The reader and the strict reader are the same. -/
def ReadsSafely (gz : Gzip) (source : RangeSource) (z x y : Nat) : Prop :=
  readPmtilesTile gz source z x y = ofTiling (Pmtiles.readPmtilesTile gz source z x y)

theorem zxyToTileId_eq (z x y : Nat) : zxyToTileId z x y = ofTiling (Pmtiles.zxyToTileId z x y) := by
  rw [zxyToTileId, checkedTileId_eq]

theorem readPmtilesTile_judged (gz : Gzip) (source : RangeSource) (z x y : Nat) :
    Judged (readPmtilesTile gz source z x y) (Pmtiles.readPmtilesTile gz source z x y)
      (SoundPath gz source z x y) := by
  rw [readPmtilesTile, Pmtiles.readPmtilesTile]
  simp only [readExactRange_eq, parseHeader_eq, zxyToTileId_eq, decodeDirectory_eq]
  refine (Judged.bind fun objectBytes _ => Judged.bind fun range _ => Judged.bind fun header _ =>
    Judged.bind fun _ _ => Judged.bind fun tileId _ => Judged.bind fun rootRange _ =>
    Judged.bind fun root _ => readSelected_judged root).congr ⟨?_, ?_⟩
  · intro hsound header tileId root selected hopens
    obtain ⟨objectBytes, headerRange, request, hobject, hrange, hheader⟩ := hopens.parsed
    obtain ⟨rootBytes, rootRequest, hroot, hdecoded⟩ := hopens.directory
    exact hsound objectBytes (by rw [hobject]; rfl) _ hrange header hheader ()
      (foundUnless_ok.mpr hopens.inside) tileId hopens.identified _ hroot root hdecoded selected
  · intro hsound objectBytes hobject range hrange header hheader _ hfound tileId hid rootRange hroot
      root hdecoded selected
    have hobject : source.objectBytes = .ok objectBytes := by
      cases hsource : source.objectBytes with
      | error e =>
        rw [hsource] at hobject
        cases hobject
      | ok n =>
        rw [hsource] at hobject
        rw [Except.ok.inj (hobject : Except.ok n = Except.ok objectBytes)]
    exact hsound header tileId root selected
      { parsed := ⟨objectBytes, range.1, range.2, hobject, hrange, hheader⟩
        inside := foundUnless_ok.mp hfound
        identified := hid
        directory := ⟨rootRange.1, rootRange.2, hroot, hdecoded⟩ }

/-- The reader is safe on the archives whose entries are sound, and nothing else ever goes wrong. -/
theorem readsSafely_iff (gz : Gzip) (source : RangeSource) (z x y : Nat) :
    (ReadsSafely gz source z x y ↔ SoundPath gz source z x y) ∧
      ∀ f, readPmtilesTile gz source z x y = fail f → Unchecked f :=
  ⟨(readPmtilesTile_judged gz source z x y).iff,
    fun _ => (readPmtilesTile_judged gz source z x y).unchecked⟩

namespace Sample

/-- A header for a root directory, with a part of no bytes behind it. -/
def headerOf (rootLength : Nat) : Bytes :=
  magic ++ [3] ++ le64 127 ++ le64 rootLength ++ le64 0 ++ le64 0 ++ le64 127 ++ le64 0 ++
    le64 127 ++ le64 0 ++ le64 0 ++ le64 0 ++ le64 0 ++ [0, 1, 1, 0, 0, 1] ++
    List.replicate 25 0

def archive (entry : DirectoryEntry) : Bytes :=
  headerOf (encodeDirectory [entry]).length ++ encodeDirectory [entry]

def identity : Gzip := { gzip := id, gunzip := .ok }

/-- A run of tiles that ends beyond the last number. -/
def overrun : DirectoryEntry := { tileId := 1, offset := 0, length := 1, runLength := 2 ^ 64 - 1 }

/-- A leaf directory and a tile that are the root directory. -/
def strayLeaf : DirectoryEntry := { tileId := 0, offset := 0, length := 5, runLength := 0 }

def strayTile : DirectoryEntry := { tileId := 0, offset := 0, length := 5, runLength := 1 }

end Sample

open Pmtiles.Sample in
theorem stray_entries :
    readPmtilesTile Sample.identity (localFile (Sample.archive Sample.overrun)) 1 0 0 =
      fail (.sum 1 (2 ^ 64 - 1)) ∧
    readPmtilesTile Sample.identity (localFile (Sample.archive Sample.strayLeaf)) 0 0 0 =
      fail (.leaf 127 5) ∧
    readPmtilesTile Sample.identity (localFile (Sample.archive Sample.strayTile)) 0 0 0 =
      fail (.tile 127 5) ∧
    ¬ ReadsSafely Sample.identity (localFile (Sample.archive Sample.overrun)) 1 0 0 := by
  have hrun : readPmtilesTile Sample.identity (localFile (Sample.archive Sample.overrun)) 1 0 0 =
      fail (.sum 1 (2 ^ 64 - 1)) := by decide +kernel
  refine ⟨hrun, by decide +kernel, by decide +kernel, fun hsame => ?_⟩
  exact ofTiling_ne_fail _ _ (hsame.symm.trans hrun)

end GeneGIS.Pmtiles.Strict
