/-
Identifiers are read back from their differences and an offset from the entry before it.  The entry
of a tile is found under its identifier.
-/
import GeneGIS.Data.Fallible
import GeneGIS.Tile.Pmtiles
import Mathlib.Data.List.TakeWhile
import Mathlib.Tactic.Ring

namespace GeneGIS.Pmtiles

open Fallible List Nat Varint

variable {entries : List DirectoryEntry} {entry : DirectoryEntry} {rest : Bytes}

theorem validUnless_ok {invalid : Bool} {reason : String} {u : Unit} :
    validUnless invalid reason = .ok u ↔ invalid = false :=
  except_refuse_ok

theorem checkedAdd_of_lt {a b : Nat} {reason : String} (h : a + b < 2 ^ 64) :
    checkedAdd a b reason = .ok (a + b) := by
  rw [checkedAdd, if_pos h]

/-- The induction over the bytes of a varint: what has been read lies below the shift. -/
theorem readVarintFrom_encode (rest : Bytes) (left shift value : Nat) {n : Nat} (hn : n < 128 ^ (left + 1))
    (hbound : n * 2 ^ shift < 2 ^ 64) (hvalue : value < 2 ^ shift) :
    readVarintFrom (left + 1) shift value (encode n ++ rest) =
      .ok (value + n * 2 ^ shift, rest) := by
  induction left generalizing shift value n with
  | zero =>
    rw [zero_add, pow_one] at hn
    obtain ⟨b, hdigit, ⟨hb, -, h⟩ | ⟨-, hmore, -⟩⟩ := encode_cases n
    · have hsame : b.toNat % 128 = n := by omega
      have hor : value ||| n * 2 ^ shift = value + n * 2 ^ shift := by
        rw [Nat.or_comm, Nat.mul_comm, ← Nat.two_pow_add_eq_or_of_lt hvalue, Nat.add_comm]
      rw [h, singleton_append, readVarintFrom, hsame, mod_eq_of_lt hbound, hor]
      rw [if_pos hb]
    · omega
  | succ left ih =>
    have hdigits : n % 128 * 2 ^ shift < 2 ^ 64 :=
      lt_of_le_of_lt (mul_le_mul_right _ (mod_le n 128)) hbound
    have hor : value ||| n % 128 * 2 ^ shift = value + n % 128 * 2 ^ shift := by
      rw [Nat.or_comm, Nat.mul_comm, ← Nat.two_pow_add_eq_or_of_lt hvalue, Nat.add_comm]
    obtain ⟨b, hdigit, ⟨hb, hlast, h⟩ | ⟨hb, hmore, h⟩⟩ := encode_cases n
    · have hsame : n % 128 = n := by omega
      rw [h, singleton_append, readVarintFrom, hdigit, mod_eq_of_lt hdigits, hor]
      rw [if_pos hb, hsame]
    · have hshift : 2 ^ (shift + 7) = 2 ^ shift * 128 := pow_add 2 shift 7
      have hsplit : n % 128 + 128 * (n / 128) = n := mod_add_div n 128
      have htotal : n % 128 * 2 ^ shift + n / 128 * 2 ^ (shift + 7) = n * 2 ^ shift := by
        rw [hshift, ← congrArg (· * 2 ^ shift) hsplit]
        ring
      have hnext : n / 128 < 128 ^ (left + 1) := by
        rw [pow_succ] at hn
        exact Nat.div_lt_of_lt_mul (by rwa [Nat.mul_comm])
      have hread : value + n % 128 * 2 ^ shift < 2 ^ (shift + 7) := by
        have hdigit' : n % 128 * 2 ^ shift ≤ 127 * 2 ^ shift := mul_le_mul_right _ (by omega)
        omega
      have hlater := ih (shift + 7) (value + n % 128 * 2 ^ shift) hnext (by omega) hread
      rw [h, cons_append, readVarintFrom, hdigit, mod_eq_of_lt hdigits, hor]
      rw [if_neg (by omega), hlater, add_assoc, htotal]

theorem readVarint_encode {n : Nat} (h : n < 2 ^ 64) :
    readVarint (encode n ++ rest) = .ok (n, rest) := by
  have hread := readVarintFrom_encode rest 9 0 0 (lt_trans h (by decide)) (by omega) (by decide)
  rw [readVarint, hread, zero_add, pow_zero, mul_one]

/-! ## Entries -/

/-- The entries that the reader accepts. -/
structure Sound (entry : DirectoryEntry) : Prop where
  tileId : entry.tileId < 2 ^ 64
  runLength : entry.runLength < 2 ^ 64
  length : 0 < entry.length
  stop : entry.offset + entry.length < 2 ^ 64

theorem readIds_encodeIds {lastId : Nat} (h : ∀ entry ∈ entries, Sound entry)
    (hordered : (lastId :: entries.map DirectoryEntry.tileId).Pairwise (· ≤ ·)) :
    readIds entries.length lastId (encodeIds lastId entries ++ rest) =
      .ok (entries.map DirectoryEntry.tileId, rest) := by
  induction entries generalizing lastId with
  | nil => rfl
  | cons entry others ih =>
    have hentry := h entry mem_cons_self
    rw [map_cons, pairwise_cons] at hordered
    have hle := hordered.1 entry.tileId mem_cons_self
    have hid := hentry.tileId
    have hdelta : entry.tileId - lastId < 2 ^ 64 := by omega
    have hsum : lastId + (entry.tileId - lastId) = entry.tileId := by omega
    have hothers := ih (fun e he => h e (.tail _ he)) hordered.2
    rw [length_cons, readIds, encodeIds, append_assoc, readVarint_encode hdelta]
    refine then_ok rfl ?_
    refine bind_iff.mpr ⟨entry.tileId, ?_, ?_⟩
    · rw [checkedAdd_of_lt (by omega), hsum]
    · exact then_ok hothers rfl

theorem readRunLengths_encode (h : ∀ entry ∈ entries, Sound entry) : readRunLengths entries.length
        (entries.flatMap (fun entry => encode entry.runLength) ++ rest) =
      .ok (entries.map DirectoryEntry.runLength, rest) := by
  induction entries with
  | nil => rfl
  | cons entry others ih =>
    have hothers := ih fun e he => h e (.tail _ he)
    rw [length_cons, readRunLengths, flatMap_cons, append_assoc,
      readVarint_encode (h entry mem_cons_self).runLength]
    refine then_ok rfl ?_
    exact then_ok hothers rfl

theorem readLengths_encode (h : ∀ entry ∈ entries, Sound entry) : readLengths entries.length
        (entries.flatMap (fun entry => encode entry.length) ++ rest) =
      .ok (entries.map DirectoryEntry.length, rest) := by
  induction entries with
  | nil => rfl
  | cons entry others ih =>
    have hothers := ih fun e he => h e (.tail _ he)
    have hentry := h entry mem_cons_self
    have hstop := hentry.stop
    have hlength := hentry.length
    rw [length_cons, readLengths, flatMap_cons, append_assoc, readVarint_encode (by omega)]
    refine bind_iff.mpr ⟨_, rfl, ?_⟩
    refine bind_iff.mpr ⟨(), validUnless_ok.mpr ?_, ?_⟩
    · rw [beq_eq_false_iff_ne]
      omega
    · exact then_ok hothers rfl

theorem readOffsets_encodeOffsets (previous : Option DirectoryEntry)
    (hprevious : ∀ p ∈ previous, Sound p) (h : ∀ entry ∈ entries, Sound entry) :
    readOffsets (previous.map fun p => (p.offset, p.length)) (entries.map DirectoryEntry.length)
        (encodeOffsets previous entries ++ rest) =
      .ok (entries.map DirectoryEntry.offset, rest) := by
  induction entries generalizing previous with
  | nil => rfl
  | cons entry others ih =>
    have hentry := h entry mem_cons_self
    have hstop := hentry.stop
    have hlength := hentry.length
    have hothers := ih (some entry) (fun p hp => Option.some.inj hp ▸ hentry)
      (fun e he => h e (.tail _ he))
    cases previous with
    | none =>
      rw [map_cons, encodeOffsets, append_assoc]
      refine then_ok (readVarint_encode (by omega)) ?_
      refine bind_iff.mpr ⟨entry.offset, ?_, ?_⟩
      · rfl
      · exact then_ok hothers rfl
    | some p =>
      have hp := hprevious p rfl
      have hpstop := hp.stop
      rw [map_cons, encodeOffsets, append_assoc]
      by_cases hmeet : p.offset + p.length = entry.offset
      · rw [if_pos hmeet]
        refine then_ok (readVarint_encode (by decide)) ?_
        refine bind_iff.mpr ⟨entry.offset, ?_, ?_⟩
        · show checkedAdd p.offset p.length _ = _
          rw [checkedAdd_of_lt hpstop, hmeet]
        · exact then_ok hothers rfl
      · rw [if_neg hmeet]
        refine then_ok (readVarint_encode (by omega)) ?_
        refine bind_iff.mpr ⟨entry.offset, ?_, ?_⟩
        · rfl
        · exact then_ok hothers rfl

theorem assemble_map (entries : List DirectoryEntry) :
    assemble (entries.map DirectoryEntry.tileId) (entries.map DirectoryEntry.runLength)
      (entries.map DirectoryEntry.length) (entries.map DirectoryEntry.offset) = entries := by
  induction entries with
  | nil => rfl
  | cons entry others ih =>
    rw [map_cons, map_cons, map_cons, map_cons, assemble, ih]

theorem encodeDirectory_eq (entries : List DirectoryEntry) : encodeDirectory entries =
    encode entries.length ++ (encodeIds 0 entries ++
      (entries.flatMap (fun entry => encode entry.runLength) ++
        (entries.flatMap (fun entry => encode entry.length) ++
          (encodeOffsets none entries ++ [])))) := by
  rw [encodeDirectory]
  simp only [append_assoc, append_nil]

theorem parseDirectory_encodeDirectory (h : ∀ entry ∈ entries, Sound entry)
    (hordered : (entries.map DirectoryEntry.tileId).Pairwise (· ≤ ·)) (hsome : entries ≠ [])
    (hcount : entries.length ≤ 1000000) :
    parseDirectory (encodeDirectory entries) = .ok entries := by
  have hpositive := length_pos_iff.mpr hsome
  rw [parseDirectory, encodeDirectory_eq]
  refine bind_iff.mpr ⟨_, readVarint_encode (by omega), ?_⟩
  refine bind_iff.mpr ⟨(), validUnless_ok.mpr ?_, ?_⟩
  · rw [Bool.or_eq_false_iff, beq_eq_false_iff_ne, decide_eq_false_iff_not]
    omega
  refine then_ok (readIds_encodeIds h ?_) ?_
  · rw [pairwise_cons]
    exact ⟨fun id _ => zero_le id, hordered⟩
  refine then_ok (readRunLengths_encode h) ?_
  refine then_ok (readLengths_encode h) ?_
  refine bind_iff.mpr ⟨_, readOffsets_encodeOffsets none (fun p hp => by cases hp) h, ?_⟩
  refine then_ok rfl ?_
  show Except.ok (assemble _ _ _ _) = _
  rw [assemble_map]

/-- An uncompressed directory is decoded to the entries it was encoded from. -/
theorem decodeDirectory_encodeDirectory (gz : Gzip) (h : ∀ entry ∈ entries, Sound entry)
    (hordered : (entries.map DirectoryEntry.tileId).Pairwise (· ≤ ·)) (hsome : entries ≠ [])
    (hcount : entries.length ≤ 1000000) :
    decodeDirectory gz (encodeDirectory entries) 1 = .ok entries := by
  rw [decodeDirectory, decodePayload]
  exact then_ok rfl (parseDirectory_encodeDirectory h hordered hsome hcount)

/-- The second entry meets the first, and the third shares its identifier with the second. -/
def Sample.meeting : List DirectoryEntry := [
  { tileId := 0, offset := 0, length := 9, runLength := 1 },
  { tileId := 5, offset := 9, length := 2 ^ 32, runLength := 0 },
  { tileId := 5, offset := 2 ^ 63, length := 2 ^ 63 - 1, runLength := 2 ^ 64 - 1 }]

theorem decodeDirectory_meeting :
    decodeDirectory { gzip := id, gunzip := .ok } (encodeDirectory Sample.meeting) 1 =
      .ok Sample.meeting := by
  refine decodeDirectory_encodeDirectory _ ?_ (by decide) (by decide) (by decide)
  intro entry hentry
  rw [Sample.meeting, mem_cons, mem_cons, mem_singleton] at hentry
  obtain h | h | h := hentry <;> rw [h] <;> exact ⟨by decide, by decide, by decide, by decide⟩

theorem parseDirectory_count (h : parseDirectory (encodeDirectory entries) = .ok entries')
    (hcount : entries.length < 2 ^ 64) : entries.length ≤ 1000000 := by
  rw [parseDirectory, encodeDirectory_eq] at h
  obtain ⟨r, hread, h⟩ := bind_iff.mp h
  rw [readVarint_encode hcount, Except.ok.injEq] at hread
  rw [← hread] at h
  obtain ⟨_, hvalid, -⟩ := bind_iff.mp h
  rw [validUnless_ok, Bool.or_eq_false_iff, decide_eq_false_iff_not] at hvalid
  omega

theorem findEntry_mem (h : findEntry entries tileId = some entry) :
    entry ∈ entries ∧ entry.tileId ≤ tileId := by
  have hmem := mem_of_getLast? h
  exact ⟨(takeWhile_sublist _).subset hmem, by simpa using mem_takeWhile_imp hmem⟩

theorem findEntry_of_mem (hordered : (entries.map DirectoryEntry.tileId).Pairwise (· < ·))
    (h : entry ∈ entries) : findEntry entries entry.tileId = some entry := by
  obtain ⟨before, after, rfl⟩ := append_of_mem h
  rw [map_append, map_cons, pairwise_append, pairwise_cons] at hordered
  obtain ⟨-, ⟨hafter, -⟩, hbefore⟩ := hordered
  have hfirst : ∀ e ∈ before, decide (e.tileId ≤ entry.tileId) = true := by
    intro e he
    have hlt := hbefore e.tileId (mem_map_of_mem he) entry.tileId mem_cons_self
    exact decide_eq_true (le_of_lt hlt)
  have hlast : after.takeWhile (fun e => decide (e.tileId ≤ entry.tileId)) = [] := by
    cases after with
    | nil => rfl
    | cons e others =>
      have hlt := hafter e.tileId (mem_map_of_mem mem_cons_self)
      rw [takeWhile_cons_of_neg (by simpa using hlt)]
  have hself : decide (entry.tileId ≤ entry.tileId) = true := decide_eq_true (le_refl _)
  rw [findEntry, takeWhile_append_of_pos hfirst, takeWhile_cons, if_pos hself, hlast,
    getLast?_concat]

end GeneGIS.Pmtiles
