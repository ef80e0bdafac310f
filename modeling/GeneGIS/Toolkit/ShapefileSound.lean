/-
Shapes never fault.  The record list faults at a negative length, whose sign extends, and the
attribute table at a record of no bytes and at a date cut within a character.
-/
import GeneGIS.Toolkit.Shapefile

namespace GeneGIS.Toolkit.Shapefile

open Guarded List Fallible Nat Text

section

variable {ε : Type} {b : Bytes} {offset size : Nat}

theorem bytesAt_of_lt (h : offset + size < 2 ^ 64) :
    (bytesAt b offset size : Guarded ε (Option Bytes)) = .ok (part b offset (offset + size)) := by
  rw [bytesAt, bind_of_ok (add_of_lt h)]
  rfl

end

theorem toNat_lt (bytes : Bytes) : Bytes.toNat bytes < 256 ^ bytes.length := by
  induction bytes with
  | nil => exact lt_succ_self 0
  | cons b rest ih =>
    have hbyte : b.toNat < 256 := b.toNat_lt
    rw [Bytes.toNat, length_cons, Nat.pow_succ]
    omega

/-- The word of a number with a sign, the highest byte first. -/
def wordAt (bytes : Bytes) (offset : Nat) : Int :=
  i32 (Bytes.toNat ((bytes.drop offset).take 4).reverse)

theorem wordAt_bounds (bytes : Bytes) (offset : Nat) :
    -2 ^ 31 ≤ wordAt bytes offset ∧ wordAt bytes offset < 2 ^ 31 := by
  have hlt := toNat_lt ((bytes.drop offset).take 4).reverse
  have hlength : ((bytes.drop offset).take 4).reverse.length ≤ 4 := by
    rw [length_reverse, length_take]
    exact min_le_left 4 _
  have hpow : 256 ^ ((bytes.drop offset).take 4).reverse.length ≤ 256 ^ 4 :=
    Nat.pow_le_pow_right (by decide) hlength
  rw [wordAt, i32]
  split <;> omega

variable {bytes c : Bytes} {offset start i : Nat}

theorem beI32_of_le (hlen : bytes.length < 2 ^ 63) (h : offset + 4 ≤ bytes.length) :
    beI32 bytes offset = .ok (wordAt bytes offset) := by
  rw [beI32, bind_of_ok (bytesAt_of_lt (by omega)), part_of_le (Nat.le_add_right offset 4) h,
    Nat.add_sub_cancel_left]
  rfl

theorem beI32_past (h : bytes.length < offset + 4) (hoffset : offset < 2 ^ 63) : beI32 bytes offset = refuse (err "truncated .shp") := by
  rw [beI32, bind_of_ok (bytesAt_of_lt (by omega)), part, if_neg (by omega)]
  rfl

theorem leI32_sound (h : offset + 4 < 2 ^ 64) : Sound (leI32 c offset) := by
  rw [leI32, bind_of_ok (bytesAt_of_lt h)]
  exact (sound_orRefuse _ _).bind fun word _ => sound_pure _

theorem leI32_ok {n : Int} (hoffset : offset + 4 < 2 ^ 64) (h : leI32 c offset = .ok n) :
    offset + 4 ≤ c.length := by
  rw [leI32, bind_of_ok (bytesAt_of_lt hoffset)] at h
  obtain ⟨word, hword, -⟩ := bind_iff.mp h
  exact (part_some (orRefuse_ok.mp hword)).2.1

theorem leF64_sound (h : offset + 8 < 2 ^ 64) : Sound (leF64 c offset) := by
  rw [leF64, bind_of_ok (bytesAt_of_lt h)]
  exact (sound_orRefuse _ _).bind fun word _ => sound_pure _

theorem leF64_ok {x : F64} (hoffset : offset + 8 < 2 ^ 64) (h : leF64 c offset = .ok x) :
    offset + 8 ≤ c.length := by
  rw [leF64, bind_of_ok (bytesAt_of_lt hoffset)] at h
  obtain ⟨word, hword, -⟩ := bind_iff.mp h
  exact (part_some (orRefuse_ok.mp hword)).2.1

theorem pointAt_sound (h : offset + 16 < 2 ^ 64) : Sound (pointAt c offset) := by
  rw [pointAt]
  refine (leF64_sound (by omega)).bind fun x _ => ?_
  rw [bind_of_ok (add_of_lt (by omega))]
  exact (leF64_sound (by omega)).bind fun y _ => sound_pure _

theorem pointAt_ok {p : Coord} (hoffset : offset + 16 < 2 ^ 64) (h : pointAt c offset = .ok p) :
    offset + 16 ≤ c.length := by
  rw [pointAt] at h
  obtain ⟨x, -, h⟩ := bind_iff.mp h
  rw [bind_of_ok (add_of_lt (by omega))] at h
  obtain ⟨y, hy, -⟩ := bind_iff.mp h
  have hle := leF64_ok (by omega) hy
  omega

theorem points_sound (hlen : c.length < 2 ^ 63) (count : Nat) :
    ∀ {i : Nat}, start + 16 * i ≤ c.length + 44 → Sound (points c start i count) := by
  induction count with
  | zero =>
    intro i _
    exact sound_ok []
  | succ count ih =>
    intro i h
    rw [points, bind_of_ok (mul_of_lt (by omega)), bind_of_ok (add_of_lt (by omega))]
    refine (pointAt_sound (by omega)).bind fun p hp => ?_
    have hle := pointAt_ok (by omega) hp
    exact (ih (by omega)).bind fun rest _ => sound_pure _

theorem partStarts_sound (hlen : c.length < 2 ^ 63) (count : Nat) :
    ∀ {i : Nat}, 4 * i ≤ c.length → Sound (partStarts c i count) := by
  induction count with
  | zero =>
    intro i _
    exact sound_ok []
  | succ count ih =>
    intro i h
    rw [partStarts, bind_of_ok (mul_of_lt (by omega)), bind_of_ok (add_of_lt (by omega))]
    refine (leI32_sound (by omega)).bind fun n hn => ?_
    have hle := leI32_ok (by omega) hn
    exact (ih (by omega)).bind fun rest _ => sound_pure _

theorem cutLines_sound (coords : List Coord) (numPoints : Nat) (parts : List Nat) :
    Sound (cutLines coords numPoints parts) := by
  induction parts with
  | nil => exact sound_ok []
  | cons start rest ih =>
    rw [cutLines]
    by_cases h : rest.head?.getD numPoints < start ∨ coords.length < rest.head?.getD numPoints
    · rw [if_pos h]
      exact sound_refuse _
    · rw [if_neg h]
      rw [not_or, not_lt, not_lt] at h
      exact (sound_range h.1 h.2).bind fun line _ => ih.bind fun lines _ => sound_pure _

theorem readLines_sound (hlen : c.length < 2 ^ 63) : Sound (readLines c) := by
  rw [readLines]
  refine (leI32_sound (by omega)).bind fun m _ => ?_
  refine (leI32_sound (by omega)).bind fun n _ => ?_
  by_cases h : c.length / 4 < asUsize m ∨ c.length / 16 < asUsize n
  · simp only [if_pos h]
    exact sound_refuse _
  · simp only [if_neg h]
    refine (partStarts_sound hlen _ (by omega)).bind fun parts _ => ?_
    rw [bind_of_ok (mul_of_lt (by omega)), bind_of_ok (add_of_lt (by omega))]
    exact (points_sound hlen _ (by omega)).bind fun coords _ => cutLines_sound coords _ parts

theorem parseShape_sound (hlen : c.length < 2 ^ 63) : Sound (parseShape c) := by
  rw [parseShape]
  refine (leI32_sound (by omega)).bind fun kind _ => ?_
  by_cases hnull : kind = 0
  · rw [if_pos hnull]
    exact sound_pure _
  rw [if_neg hnull]
  by_cases hpoint : kind ∈ [1, 11, 21]
  · rw [if_pos hpoint]
    exact (pointAt_sound (by omega)).bind fun p _ => sound_pure _
  rw [if_neg hpoint]
  by_cases hmulti : kind ∈ [8, 18, 28]
  · rw [if_pos hmulti]
    refine (leI32_sound (by omega)).bind fun n _ => ?_
    exact (points_sound hlen _ (by omega)).bind fun ps _ => sound_pure _
  rw [if_neg hmulti]
  by_cases hline : kind ∈ [3, 13, 23]
  · rw [if_pos hline]
    exact (readLines_sound hlen).bind fun lines _ => sound_pure _
  rw [if_neg hline]
  by_cases hpolygon : kind ∈ [5, 15, 25]
  · rw [if_pos hpolygon]
    exact (readLines_sound hlen).bind fun lines _ =>
      (sound_ofExcept _).bind fun g _ => sound_pure _
  rw [if_neg hpolygon]
  by_cases hpatch : kind = 31
  · rw [if_pos hpatch]
    exact sound_refuse _
  · rw [if_neg hpatch]
    exact sound_refuse _

/-! ## Records of shapes -/

/-- The offsets of the records from an offset on: each has a length that is not negative and ends
within the file. -/
inductive RecordAt (bytes : Bytes) (fileLen : Nat) : Nat → Nat → Prop where
  | here (offset : Nat) : RecordAt bytes fileLen offset offset
  | next {offset last : Nat} (hstart : offset + 8 ≤ fileLen)
      (hlength : 0 ≤ wordAt bytes (offset + 4))
      (hstop : offset + 8 + (wordAt bytes (offset + 4)).toNat * 2 ≤ bytes.length)
      (rest : RecordAt bytes fileLen
        (offset + 8 + (wordAt bytes (offset + 4)).toNat * 2) last) :
      RecordAt bytes fileLen offset last

/-- No record has a negative length. -/
def RecordsNonneg (bytes : Bytes) (fileLen offset : Nat) : Prop :=
  ∀ last, RecordAt bytes fileLen offset last → last + 8 ≤ fileLen → 0 ≤ wordAt bytes (last + 4)

theorem asUsize_nonneg {n : Int} (h : 0 ≤ n) (hn : n < 2 ^ 31) : asUsize n = n.toNat := by
  rw [asUsize, Int.emod_eq_of_lt h (by omega)]

theorem asUsize_neg {n : Int} (h : n < 0) (hn : -2 ^ 31 ≤ n) : 2 ^ 64 ≤ asUsize n * 2 := by
  have hmod : n % 2 ^ 64 = n + 2 ^ 64 := by omega
  rw [asUsize, hmod]
  omega

theorem content_length (hlen : bytes.length < 2 ^ 63) (start stop : Nat) :
    ((bytes.drop start).take (stop - start)).length < 2 ^ 63 := by
  rw [length_take, length_drop]
  omega

theorem records_sound_iff (hlen : bytes.length < 2 ^ 63) {fileLen : Nat}
    (hfile : fileLen ≤ bytes.length) : ∀ {fuel offset : Nat}, offset < 2 ^ 63 →
    fileLen < offset + 8 + 8 * fuel →
    (Sound (records bytes fileLen fuel offset) ↔ RecordsNonneg bytes fileLen offset) := by
  intro fuel
  induction fuel with
  | zero =>
    intro offset hoffset hfuel
    rw [records, bind_of_ok (add_of_lt (by omega)), if_neg (by omega)]
    refine iff_of_true (sound_pure _) ?_
    intro last hlast hstart
    cases hlast with
    | here => omega
    | next hstart' => omega
  | succ fuel ih =>
    intro offset hoffset hfuel
    rw [records, bind_of_ok (add_of_lt (by omega))]
    by_cases hstart : offset + 8 ≤ fileLen
    · rw [if_pos hstart]
      dsimp only
      rw [bind_of_ok (add_of_lt (by omega)), bind_of_ok (beI32_of_le hlen (by omega))]
      obtain ⟨hlow, hhigh⟩ := wordAt_bounds bytes (offset + 4)
      by_cases hneg : wordAt bytes (offset + 4) < 0
      · refine iff_of_false ?_ ?_
        · intro h
          exact not_sound_mul (asUsize_neg hneg hlow) (sound_bind.mp h).1
        · intro h
          have hhere := h offset (.here offset) hstart
          omega
      · have hnonneg : 0 ≤ wordAt bytes (offset + 4) := by omega
        rw [asUsize_nonneg hnonneg hhigh, bind_of_ok (mul_of_lt (by omega)),
          bind_of_ok (add_of_lt (by omega))]
        by_cases hstop : bytes.length < offset + 8 + (wordAt bytes (offset + 4)).toNat * 2
        · rw [if_pos hstop]
          refine iff_of_true (sound_refuse _) ?_
          intro last hlast hlastStart
          cases hlast with
          | here => exact hnonneg
          | next _ _ hle => omega
        · rw [if_neg hstop, bind_of_ok (range_of_le (by omega) (by omega))]
          have hcaught : ∃ shape : ShapeResult,
              (caught (parseShape _) : Guarded ToolkitError ShapeResult) = .ok shape :=
            caught_ok (parseShape_sound (content_length hlen (offset + 8)
              (offset + 8 + (wordAt bytes (offset + 4)).toNat * 2)))
          obtain ⟨shape, hshape⟩ := hcaught
          rw [bind_of_ok hshape, sound_bind_pure, ih (by omega) (by omega)]
          constructor
          · intro h last hlast hlastStart
            cases hlast with
            | here => exact hnonneg
            | next _ _ _ hlater => exact h last hlater hlastStart
          · intro h last hlast
            exact h last (.next hstart hnonneg (by omega) hlast)
    · rw [if_neg hstart]
      refine iff_of_true (sound_pure _) ?_
      intro last hlast hlastStart
      cases hlast with
      | here => exact absurd hlastStart hstart
      | next hstart' => exact absurd hstart' hstart

/-- The bytes that the file length names, as far as the file has them. -/
def fileLength (bytes : Bytes) : Nat := Min.min ((wordAt bytes 24).toNat * 2) bytes.length

/-- Of a file with the magic number and a length, the length is not negative, and neither is that
of a record. -/
def LengthsNonneg (bytes : Bytes) : Prop := 28 ≤ bytes.length → wordAt bytes 0 = 9994 →
    0 ≤ wordAt bytes 24 ∧ RecordsNonneg bytes (fileLength bytes) 100

theorem readShp_sound_iff (hlen : bytes.length < 2 ^ 63) :
    Sound (readShp bytes) ↔ LengthsNonneg bytes := by
  rw [readShp]
  by_cases hshort : bytes.length < 4
  · rw [beI32_past (by omega) (by omega)]
    refine iff_of_true (sound_refuse _) ?_
    intro hlong
    omega
  rw [bind_of_ok (beI32_of_le hlen (by omega))]
  by_cases hmagic : wordAt bytes 0 = 9994
  · rw [if_neg (not_not.mpr hmagic)]
    by_cases hheader : bytes.length < 28
    · rw [beI32_past (by omega) (by omega)]
      refine iff_of_true (sound_refuse _) ?_
      intro hlong
      omega
    rw [bind_of_ok (beI32_of_le hlen (by omega))]
    obtain ⟨hlow, hhigh⟩ := wordAt_bounds bytes 24
    by_cases hneg : wordAt bytes 24 < 0
    · refine iff_of_false ?_ ?_
      · intro h
        exact not_sound_mul (asUsize_neg hneg hlow) (sound_bind.mp h).1
      · intro h
        have hnonneg := (h (by omega) hmagic).1
        omega
    · have hnonneg : 0 ≤ wordAt bytes 24 := by omega
      rw [asUsize_nonneg hnonneg hhigh, bind_of_ok (mul_of_lt (by omega)),
        records_sound_iff hlen (min_le_right _ _) (by omega) (by omega)]
      constructor
      · intro h _ _
        exact ⟨hnonneg, h⟩
      · intro h
        exact (h (by omega) hmagic).2
  · rw [if_pos hmagic]
    refine iff_of_true (sound_refuse _) ?_
    intro _ h
    exact absurd h hmagic

/-! ## The header of the attributes -/

theorem numberAt_of_le (bytes : Bytes) (start stop : Nat) (h : start ≤ stop)
    (hstop : stop ≤ bytes.length) :
    ∃ n, numberAt bytes start stop = .ok n ∧ n < 256 ^ (stop - start) := by
  refine ⟨_, by rw [numberAt, bind_of_ok (range_of_le h hstop)]; rfl, ?_⟩
  have hlt := toNat_lt ((bytes.drop start).take (stop - start))
  have hlength : ((bytes.drop start).take (stop - start)).length = stop - start := by
    rw [length_take, length_drop]
    omega
  rw [hlength] at hlt
  exact hlt

theorem descriptors_ok {limit : Nat} (hlimit : limit ≤ bytes.length) (hsmall : limit < 2 ^ 16) :
    ∀ fuel offset : Nat, offset < 2 ^ 16 + 32 → limit < offset + 32 + 32 * fuel →
    ∃ fields, descriptors bytes limit fuel offset = .ok fields ∧
      (fields = [] ∨ offset + 32 * fields.length ≤ limit) ∧ ∀ field ∈ fields, field.length < 256 := by
  intro fuel
  induction fuel with
  | zero =>
    intro offset hoffset hfuel
    refine ⟨[], ?_, .inl rfl, fun field h => by cases h⟩
    rw [descriptors, bind_of_ok (add_of_lt (by omega)), if_neg (by omega)]
    rfl
  | succ fuel ih =>
    intro offset hoffset hfuel
    rw [descriptors, bind_of_ok (add_of_lt (by omega))]
    by_cases hroom : offset + 32 ≤ limit
    · rw [if_pos hroom, bind_of_ok (index_of_lt (by omega))]
      by_cases hterminator : bytes[offset] = 0x0D
      · rw [if_pos hterminator]
        exact ⟨[], rfl, .inl rfl, fun field h => by cases h⟩
      · rw [if_neg hterminator]
        dsimp only
        obtain ⟨rest, hrest, hlength, hwidth⟩ := ih (offset + 32) (by omega) (by omega)
        rw [bind_of_ok (add_of_lt (by omega)), bind_of_ok (range_of_le (by omega) (by omega)),
          bind_of_ok (add_of_lt (by omega)), bind_of_ok (index_of_lt (by omega)),
          bind_of_ok (add_of_lt (by omega)), bind_of_ok (index_of_lt (by omega)),
          bind_of_ok (add_of_lt (by omega)), bind_of_ok (index_of_lt (by omega)),
          bind_of_ok (add_of_lt (by omega)), bind_of_ok hrest]
        refine ⟨_, rfl, .inr ?_, ?_⟩
        · rw [length_cons]
          rcases hlength with hnil | hle
          · rw [hnil, length_nil]
            omega
          · omega
        · intro field hfield
          rcases mem_cons.mp hfield with rfl | hmem
          · exact UInt8.toNat_lt _
          · exact hwidth field hmem
    · rw [if_neg hroom]
      exact ⟨[], rfl, .inl rfl, fun field h => by cases h⟩

theorem rawNames_ok (bytes : Bytes) (count : Nat) : ∀ offset : Nat, offset + 32 * count < 2 ^ 63 →
    (count = 0 ∨ offset + 32 * count ≤ bytes.length) →
    ∃ names, rawNames bytes count offset = .ok names ∧ names.length = count := by
  induction count with
  | zero =>
    intro offset _ _
    exact ⟨[], rfl, rfl⟩
  | succ count ih =>
    intro offset hsmall hroom
    obtain ⟨rest, hrest, hlength⟩ := ih (offset + 32) (by omega) (by omega)
    rw [rawNames, bind_of_ok (add_of_lt (by omega)),
      bind_of_ok (range_of_le (by omega) (by omega)), bind_of_ok (add_of_lt (by omega)),
      bind_of_ok hrest]
    exact ⟨_, rfl, by rw [length_cons, hlength]⟩

/-- The bounds of what a header says. -/
structure DbfHeader.Bounded (header : DbfHeader) : Prop where
  count : header.count < 2 ^ 32
  headerLen : header.headerLen < 2 ^ 16
  recordLen : header.recordLen < 2 ^ 16
  fields : header.fields.length < 2 ^ 16
  widths : ∀ field ∈ header.fields, field.length < 256

theorem readHeader_cases (bytes : Bytes) :
    Sound (readHeader bytes) ∧ ∀ header, readHeader bytes = .ok header → header.Bounded := by
  rw [readHeader]
  by_cases hshort : bytes.length < 32
  · rw [if_pos hshort]
    exact ⟨sound_refuse _, fun header h => by cases h⟩
  · rw [if_neg hshort]
    obtain ⟨count, hcount, hcountLt⟩ := numberAt_of_le bytes 4 8 (by omega) (by omega)
    obtain ⟨headerLen, hheader, hheaderLt⟩ := numberAt_of_le bytes 8 10 (by omega) (by omega)
    obtain ⟨recordLen, hrecord, hrecordLt⟩ := numberAt_of_le bytes 10 12 (by omega) (by omega)
    have hlimit : Min.min headerLen bytes.length < 2 ^ 16 :=
      lt_of_le_of_lt (min_le_left _ _) hheaderLt
    obtain ⟨fields, hfields, hroom, hwidths⟩ := descriptors_ok
      (min_le_right headerLen bytes.length) hlimit bytes.length 32 (by omega) (by omega)
    have hfieldsLength : fields.length = 0 ∨
        32 + 32 * fields.length ≤ Min.min headerLen bytes.length := by
      rcases hroom with rfl | hle
      · exact .inl rfl
      · exact .inr hle
    obtain ⟨names, hnames, -⟩ := rawNames_ok bytes fields.length 32 (by omega) (by omega)
    rw [bind_of_ok hcount, bind_of_ok hheader, bind_of_ok hrecord,
      bind_of_ok (index_of_lt (by omega)), bind_of_ok hfields, bind_of_ok hnames]
    refine ⟨sound_pure _, ?_⟩
    intro header h
    cases h
    exact ⟨hcountLt, hheaderLt, hrecordLt, (show fields.length < 2 ^ 16 by omega), hwidths⟩

theorem product_lt {r recordLen : Nat} (hr : r < 2 ^ 33) (hrecord : recordLen < 2 ^ 16) :
    r * recordLen < 2 ^ 49 := by
  calc r * recordLen ≤ r * 2 ^ 16 := mul_le_mul_left r hrecord.le
    _ < 2 ^ 33 * 2 ^ 16 := Nat.mul_lt_mul_of_pos_right hr (by decide)
    _ = 2 ^ 49 := by decide

variable {header : DbfHeader}

theorem recordsUtf8_ok (bytes : Bytes) {headerLen recordLen : Nat} (hheader : headerLen < 2 ^ 16)
    (hrecord : recordLen < 2 ^ 16) (count : Nat) : ∀ r, r + count < 2 ^ 33 →
    ∃ utf8, recordsUtf8 bytes headerLen recordLen r count = .ok utf8 := by
  induction count with
  | zero => exact fun r _ => ⟨true, rfl⟩
  | succ count ih =>
    intro r hr
    have hproduct : r * recordLen < 2 ^ 49 := product_lt (by omega) hrecord
    rw [recordsUtf8, bind_of_ok (mul_of_lt (by omega)), bind_of_ok (add_of_lt (by omega)),
      bind_of_ok (add_of_lt (by omega))]
    split
    · exact ih (r + 1) (by omega)
    · exact ⟨false, rfl⟩

variable (encodings : DbfEncodings)

theorem encodingOf_sound (explicit : Option String) (cpg : Option Bytes) (h : header.Bounded) :
    Sound (encodingOf encodings bytes explicit cpg header) := by
  rw [encodingOf]
  cases namedEncoding encodings explicit cpg with
  | some chosen => exact sound_ofExcept chosen
  | none =>
    have hcount := h.count
    obtain ⟨utf8, hutf8⟩ := recordsUtf8_ok bytes h.headerLen h.recordLen header.count 0 (by omega)
    dsimp only
    rw [guessedEncoding]
    by_cases hdriver : header.ldid = 0x13 ∨ header.ldid = 0x7B
    · rw [if_pos hdriver]
      exact sound_pure _
    rw [if_neg hdriver]
    by_cases hnames : header.names.all isUtf8 = true
    · rw [if_pos hnames, bind_of_ok hutf8]
      cases utf8
      · exact sound_pure _
      · exact sound_pure _
    · rw [if_neg hnames]
      exact sound_pure _

/-! ## The attributes -/

def cells (record : Bytes) : List DbfField → Nat → List (DbfField × Bytes)
  | [], _ => []
  | field :: rest, offset =>
    (field, (part record offset (offset + field.length)).getD []) ::
      cells record rest (offset + field.length)

variable (decode : Bytes → String)

/-- A date of eight bytes has its hyphens between characters. -/
def DateWhole (cell : DbfField × Bytes) : Prop :=
  isDate cell.1.kind (trim (decode cell.2)) = true →
    isBoundary (trim (decode cell.2)).toList 4 = true ∧
      isBoundary (trim (decode cell.2)).toList 6 = true

/-- A record that has a byte, and unless it is deleted only whole dates. -/
def RecordWhole (fields : List DbfField) (record : Bytes) : Prop :=
  ∃ mark rest, record = mark :: rest ∧
    (mark ≠ 42 → ∀ cell ∈ cells record fields 1, DateWhole decode cell)

theorem dateValue_valueIff {trimmed : String} (h : byteLength trimmed.toList = 8) :
    ValueIff (dateValue trimmed)
      (isBoundary trimmed.toList 4 = true ∧ isBoundary trimmed.toList 6 = true) := by
  have hstart : isBoundary trimmed.toList 0 = true := by
    rw [isBoundary, cutAt]
    rfl
  have hend : isBoundary trimmed.toList 8 = true := by
    rw [isBoundary, ← h, cutAt_length]
    rfl
  rw [dateValue]
  refine ValueIff.congr ((valueIff_textRange (by decide)).bind fun year _ =>
    (valueIff_textRange (by decide)).bind fun month _ =>
      (valueIff_textRange (by decide)).map _) ?_
  rw [hstart, hend]
  tauto

theorem cellValue_valueIff (field : DbfField) (raw : Bytes) :
    ValueIff (cellValue field (decode raw)) (DateWhole decode (field, raw)) := by
  rw [cellValue, DateWhole]
  dsimp only
  by_cases hdate : isDate field.kind (trim (decode raw)) = true
  · have hkind : field.kind = 68 ∧ byteLength (trim (decode raw)).toList = 8 := by
      rw [isDate, Bool.and_eq_true, beq_iff_eq, beq_iff_eq] at hdate
      exact hdate
    have hnumeric : ¬ isNumeric field.kind = true := by
      rw [hkind.1]
      decide
    have hlogical : field.kind ≠ 76 := by
      rw [hkind.1]
      decide
    rw [if_neg hnumeric, if_neg hlogical, if_pos hdate]
    exact (dateValue_valueIff hkind.2).congr ⟨fun h _ => h, fun h => h hdate⟩
  · rw [if_neg hdate]
    have hvacuous : ∀ value : Value, ValueIff (.ok value : Guarded ToolkitError Value)
        (isDate field.kind (trim (decode raw)) = true →
          isBoundary (trim (decode raw)).toList 4 = true ∧
            isBoundary (trim (decode raw)).toList 6 = true) :=
      fun value => (ValueIff.ok value).congr (iff_of_true trivial fun h => absurd h hdate)
    split_ifs
    · exact hvacuous _
    · exact hvacuous _
    · exact hvacuous _
    · exact hvacuous _

theorem readFields_valueIff (record : Bytes) (fields : List DbfField) :
    ∀ offset props, offset + 256 * fields.length < 2 ^ 63 → (∀ field ∈ fields, field.length < 256) →
      ValueIff (readFields decode record fields offset props)
        (∀ cell ∈ cells record fields offset, DateWhole decode cell) := by
  induction fields with
  | nil =>
    intro offset props _ _
    exact (ValueIff.ok props).congr (iff_of_true trivial fun cell h => by cases h)
  | cons field rest ih =>
    intro offset props hsmall hwidths
    have hwidth := hwidths field mem_cons_self
    rw [length_cons] at hsmall
    rw [readFields, bind_of_ok (add_of_lt (by omega)), cells, forall_mem_cons]
    refine (cellValue_valueIff decode field _).bind fun value _ => ?_
    exact ih (offset + field.length) (props.insert field.name value) (by omega)
      fun f hf => hwidths f (mem_cons_of_mem field hf)

theorem readRecord_valueIff {fields : List DbfField} (record : Bytes)
    (hfields : fields.length < 2 ^ 16) (hwidths : ∀ field ∈ fields, field.length < 256) :
    ValueIff (readRecord decode fields record) (RecordWhole decode fields record) := by
  rw [readRecord]
  cases record with
  | nil =>
    refine ⟨fun h => ?_, fun h => ?_⟩
    · obtain ⟨mark, rest, hcons, -⟩ := h
      cases hcons
    · exact absurd (sound_index_iff.mp (sound_bind.mp h).1) (lt_irrefl 0)
  | cons mark rest =>
    rw [bind_of_ok (index_of_lt (zero_lt_succ rest.length)), getElem_cons_zero]
    have hwhole : RecordWhole decode fields (mark :: rest) ↔
        (mark ≠ 42 → ∀ cell ∈ cells (mark :: rest) fields 1, DateWhole decode cell) := by
      constructor
      · intro h
        obtain ⟨mark', rest', hcons, hcells⟩ := h
        obtain ⟨rfl, rfl⟩ := cons.inj hcons
        exact hcells
      · intro h
        exact ⟨mark, rest, rfl, h⟩
    by_cases hmark : mark = 42
    · rw [if_pos hmark]
      exact (ValueIff.ok _).congr (iff_of_true trivial (hwhole.mpr fun h => absurd hmark h))
    · rw [if_neg hmark]
      have hcells := readFields_valueIff decode (mark :: rest) fields 1 ∅ (by omega) hwidths
      refine (hcells.map _).congr ?_
      rw [hwhole]
      exact ⟨fun h _ => h, fun h => h hmark⟩

/-- Of the records from the `r`-th on, those that the table has are whole. -/
def RecordsWhole (bytes : Bytes) (fields : List DbfField)
    (headerLen recordLen r count : Nat) : Prop :=
  ∀ k, r ≤ k → k < r + count → ∀ record,
    part bytes (headerLen + k * recordLen) (headerLen + k * recordLen + recordLen) = some record →
    RecordWhole decode fields record

theorem readRecords_sound_iff {fields : List DbfField}
    {headerLen recordLen : Nat} (hheader : headerLen < 2 ^ 16) (hrecord : recordLen < 2 ^ 16)
    (hfields : fields.length < 2 ^ 16) (hwidths : ∀ field ∈ fields, field.length < 256)
    (count : Nat) : ∀ r, r + count < 2 ^ 33 →
    (Sound (readRecords decode bytes fields headerLen recordLen r count) ↔
      RecordsWhole decode bytes fields headerLen recordLen r count) := by
  induction count with
  | zero =>
    intro r _
    refine iff_of_true (sound_ok []) ?_
    intro k hk hlt
    omega
  | succ count ih =>
    intro r hr
    have hproduct : r * recordLen < 2 ^ 49 := product_lt (by omega) hrecord
    rw [readRecords, bind_of_ok (mul_of_lt (by omega)), bind_of_ok (add_of_lt (by omega)),
      bind_of_ok (add_of_lt (by omega))]
    cases hpart : part bytes (headerLen + r * recordLen) (headerLen + r * recordLen + recordLen) with
    | none =>
      refine iff_of_true (fun f h => by cases h) ?_
      intro k hk hlt record hsome
      -- A later record would end past this one, which is not there.
      have hle := (part_some hsome).2.1
      have hmono : r * recordLen ≤ k * recordLen := mul_le_mul_right recordLen hk
      rw [part_of_le (by omega) (by omega)] at hpart
      cases hpart
    | some record =>
      have hone := readRecord_valueIff decode record hfields hwidths
      have hrest := ih (r + 1) (by omega)
      show Sound (readRecord decode fields record >>= fun value =>
        readRecords decode bytes fields headerLen recordLen (r + 1) count >>= fun rest =>
          pure (value :: rest)) ↔ _
      constructor
      · intro h k hk hlt other hother
        have hwhole := hone.sound (sound_bind.mp h).1
        by_cases hkr : k = r
        · rw [hkr, hpart] at hother
          rw [← Option.some.inj hother]
          exact hwhole
        · obtain ⟨value, hvalue⟩ := hone.value hwhole
          rw [bind_of_ok hvalue, sound_bind_pure, hrest] at h
          exact h k (by omega) (by omega) other hother
      · intro h
        have hwhole := h r (le_refl r) (by omega) record hpart
        refine (hone.isSound_iff.mpr hwhole).bind fun value _ => ?_
        rw [sound_bind_pure, hrest]
        intro k hk hlt other hother
        exact h k (by omega) (by omega) other hother

/-- The records that a table has are whole in the encoding that is chosen for it. -/
def DbfWhole (bytes : Bytes) (explicit : Option String) (cpg : Option Bytes) : Prop :=
  ∀ header encoding, readHeader bytes = .ok header →
    encodingOf encodings bytes explicit cpg header = .ok encoding →
    RecordsWhole encoding.decode bytes (named encoding.decode header.fields header.names)
      header.headerLen header.recordLen 0 header.count

theorem named_bounded (h : header.Bounded) :
    (named decode header.fields header.names).length < 2 ^ 16 ∧
      ∀ field ∈ named decode header.fields header.names, field.length < 256 := by
  constructor
  · have hfields := h.fields
    rw [named, length_map, length_zip]
    omega
  · intro field hfield
    rw [named, mem_map] at hfield
    obtain ⟨p, hp, rfl⟩ := hfield
    exact h.widths p.1 (of_mem_zip hp).1

theorem readDbf_sound_iff (bytes : Bytes) (explicit : Option String) (cpg : Option Bytes) :
    Sound (readDbf encodings bytes explicit cpg) ↔ DbfWhole encodings bytes explicit cpg := by
  obtain ⟨hheader, hbounded⟩ := readHeader_cases bytes
  have hrecords : ∀ (header : DbfHeader) (encoding : DbfEncoding), header.Bounded →
      (Sound (readRecords encoding.decode bytes
          (named encoding.decode header.fields header.names) header.headerLen header.recordLen 0
          header.count) ↔
        RecordsWhole encoding.decode bytes (named encoding.decode header.fields header.names)
          header.headerLen header.recordLen 0 header.count) := by
    intro header encoding h
    obtain ⟨hfields, hwidths⟩ := named_bounded encoding.decode h
    have hcount := h.count
    exact readRecords_sound_iff encoding.decode h.headerLen h.recordLen hfields hwidths
      header.count 0 (by omega)
  rw [readDbf, sound_bind, and_iff_right hheader]
  constructor
  · intro h header encoding hok hencoding
    have hrest := (sound_bind.mp (h header hok)).2 encoding hencoding
    rw [sound_bind_pure] at hrest
    exact (hrecords header encoding (hbounded header hok)).mp hrest
  · intro h header hok
    refine (encodingOf_sound encodings explicit cpg (hbounded header hok)).bind
      fun encoding hencoding => ?_
    rw [sound_bind_pure]
    exact (hrecords header encoding (hbounded header hok)).mpr (h header encoding hok hencoding)

/-- Reading shapes and attributes never faults exactly when no length of a record is negative and
the records of the table are whole. -/
theorem read_sound (encodings : DbfEncodings) (shp dbf : Bytes) (explicit : Option String)
    (cpg : Option Bytes) (hshp : shp.length < 2 ^ 63) :
    (Sound (readShp shp) ↔ LengthsNonneg shp) ∧
      (Sound (readDbf encodings dbf explicit cpg) ↔ DbfWhole encodings dbf explicit cpg) :=
  ⟨readShp_sound_iff hshp, readDbf_sound_iff encodings dbf explicit cpg⟩

/-- Every byte is the character with its number. -/
def latin1 : DbfEncoding where
  name := "windows-1252"
  decode bytes := String.ofList (bytes.map fun b => Char.ofNat b.toNat)

def latin1Only : DbfEncodings where
  forLabel _ := some latin1
  utf8 := latin1
  shiftJis := latin1
  lossy := latin1.decode

/-- A header alone, with a file length in words. -/
def shpHeader (length : Bytes) : Bytes :=
  [0, 0, 39, 10] ++ replicate 20 0 ++ length ++ replicate 72 0

def dbfHeader (recordLen : UInt8) : Bytes :=
  [3, 0, 0, 0, 1, 0, 0, 0, 33, 0, recordLen, 0] ++ replicate 20 0 ++ [13]

theorem read_sound_header :
    (Sound (readShp (shpHeader [0, 0, 0, 50])) ↔ LengthsNonneg (shpHeader [0, 0, 0, 50])) ∧
      (Sound (readDbf latin1Only (dbfHeader 1 ++ [32]) none none) ↔
        DbfWhole latin1Only (dbfHeader 1 ++ [32]) none none) :=
  read_sound latin1Only (shpHeader [0, 0, 0, 50]) (dbfHeader 1 ++ [32]) none none (by decide)

/-- A date field of seven bytes that are eight in UTF-8, the fourth and fifth one character. -/
def cutDate : Bytes := [3, 0, 0, 0, 1, 0, 0, 0, 65, 0, 8, 0] ++ replicate 20 0 ++
    [68, 0, 0, 0, 0, 0, 0, 0, 0, 0, 0, 68, 0, 0, 0, 0, 7, 0] ++ replicate 14 0 ++ [13] ++
    [32, 97, 98, 99, 233, 100, 101, 102]

/-- A file of a negative length, a record of no bytes and a date cut within a character. -/
theorem read_faults : ¬ Sound (readShp (shpHeader [255, 255, 255, 255])) ∧
      ¬ Sound (readDbf latin1Only (dbfHeader 0) (some "latin1") none) ∧
      ¬ Sound (readDbf latin1Only cutDate (some "latin1") none) := by
  have hsize : readShp (shpHeader [255, 255, 255, 255]) =
      .error (.fault (.size (2 ^ 64 - 1) 2)) := rfl
  have hrecord : readDbf latin1Only (dbfHeader 0) (some "latin1") none =
      .error (.fault (.range 0 1 0)) := rfl
  have hdate : readDbf latin1Only cutDate (some "latin1") none =
      .error (.fault (.character 0 4)) := rfl
  exact ⟨fun h => h _ hsize, fun h => h _ hrecord, fun h => h _ hdate⟩

end GeneGIS.Toolkit.Shapefile
