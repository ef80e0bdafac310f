/-
A code has two digits for a row and two for a column, then a row and a column of each level below,
or a quarter.  Its bounds are rational.
-/
import GeneGIS.Toolkit.Layer
import Mathlib.Data.Rat.Floor

namespace GeneGIS.Toolkit.Mesh

open List Option Fallible Nat

structure MeshBounds where
  minLon : ℚ
  minLat : ℚ
  maxLon : ℚ
  maxLat : ℚ

/-- A square by its lower corner and its extent. -/
structure Square where
  lat : ℚ
  lon : ℚ
  dlat : ℚ
  dlon : ℚ

variable (code : String)

def byteLength : Nat := (Bytes.ofText code).length

def invalidCode : ToolkitError := .importFailed "estat" ("invalid mesh code " ++ code)

def invalidQuadrant : ToolkitError :=
  .importFailed "estat" ("invalid quadrant in mesh code " ++ code)

def isAsciiDigit (b : UInt8) : Bool := 48 ≤ b && b ≤ 57

def digit (i : Nat) : Except ToolkitError Nat :=
  match (Bytes.ofText code)[i]?.filter isAsciiDigit with
  | some b => .ok (b.toNat - 48)
  | none => .error (invalidCode code)

/-- The part of a square in a row and a column, if each side is cut into `n`. -/
def Square.part (s : Square) (n row column : Nat) : Square where
  lat := s.lat + row * (s.dlat / n)
  lon := s.lon + column * (s.dlon / n)
  dlat := s.dlat / n
  dlon := s.dlon / n

def subdivided (n i : Nat) (s : Square) : Except ToolkitError Square := do
  let row ← digit code i
  let column ← digit code (i + 1)
  return s.part n row column

/-- A level that only longer codes have. -/
def subdividedFrom (length n i : Nat) (s : Square) : Except ToolkitError Square :=
  if length ≤ byteLength code then subdivided code n i s else .ok s

def quadrantRow (q : Nat) : Nat := if 3 ≤ q then 1 else 0

def quadrantColumn (q : Nat) : Nat := if q = 2 ∨ q = 4 then 1 else 0

/-- Quarters: 1 SW, 2 SE, 3 NW, 4 NE. -/
def quadrant (s : Square) (i : Nat) : Except ToolkitError Square := do
  let q ← digit code i
  if 1 ≤ q ∧ q ≤ 4 then return s.part 2 (quadrantRow q) (quadrantColumn q)
  else .error (invalidQuadrant code)

def bounds (s : Square) : MeshBounds where
  minLon := s.lon
  minLat := s.lat
  maxLon := s.lon + s.dlon
  maxLat := s.lat + s.dlat

def meshSquare : Except ToolkitError Square := do
  let p := (← digit code 0) * 10 + (← digit code 1)
  let u := (← digit code 2) * 10 + (← digit code 3)
  let first : Square := { lat := p / (3 / 2), lon := u + 100, dlat := 2 / 3, dlon := 1 }
  let second ← subdividedFrom code 6 8 4 first
  let third ← subdividedFrom code 8 10 6 second
  (List.range' 8 (byteLength code - 8)).foldlM (quadrant code) third

def meshBounds : Except ToolkitError MeshBounds :=
  if byteLength code < 4 ∨ 10 < byteLength code ∨ byteLength code = 5 ∨ byteLength code = 7 then
    .error (invalidCode code)
  else (meshSquare code).map bounds

abbrev Digits := List (Fin 10)

def digitByte (d : Fin 10) : UInt8 := UInt8.ofNat (48 + d.val)

def digitChar (d : Fin 10) : Char := Char.ofNat (48 + d.val)

def codeOf (ds : Digits) : String := String.ofList (ds.map digitChar)

def digitAt (ds : Digits) (i : Nat) : Nat := (ds[i]?).elim 0 Fin.val

theorem utf8Encode_digit : ∀ d : Fin 10, String.utf8EncodeChar (digitChar d) = [digitByte d] := by
  decide

theorem isAsciiDigit_digitByte : ∀ d : Fin 10, isAsciiDigit (digitByte d) = true ∧
    (digitByte d).toNat - 48 = d.val := by decide

theorem ofText_codeOf (ds : Digits) : Bytes.ofText (codeOf ds) = ds.map digitByte := by
  rw [Bytes.ofText_eq, codeOf, String.toList_ofList, flatMap_map]
  induction ds with
  | nil => rfl
  | cons d ds ih =>
    rw [flatMap_cons, ih, utf8Encode_digit]
    rfl

@[simp] theorem byteLength_codeOf (ds : Digits) : byteLength (codeOf ds) = ds.length := by
  rw [byteLength, ofText_codeOf, length_map]

theorem digitByte_inj {d e : Fin 10} (h : digitByte d = digitByte e) : d = e := by
  have hd := (isAsciiDigit_digitByte d).2
  rw [h, (isAsciiDigit_digitByte e).2] at hd
  exact (Fin.ext hd).symm

theorem codeOf_inj {ds es : Digits} (h : codeOf ds = codeOf es) : ds = es := by
  have hbytes := congrArg Bytes.ofText h
  rw [ofText_codeOf, ofText_codeOf] at hbytes
  exact map_injective_iff.mpr (fun _ _ => digitByte_inj) hbytes

theorem codeOf_append (ds es : Digits) : codeOf (ds ++ es) = codeOf ds ++ codeOf es := by
  rw [codeOf, map_append, String.ofList_append, codeOf, codeOf]

variable {ds : Digits}

theorem digit_codeOf {i : Nat} (h : i < ds.length) : digit (codeOf ds) i = .ok (digitAt ds i) := by
  rw [digit, ofText_codeOf, getElem?_map, digitAt, getElem?_eq_getElem h]
  simp only [map_some, filter_some, (isAsciiDigit_digitByte _).1, if_true,
    (isAsciiDigit_digitByte _).2, elim_some]

def Readable (i : Nat) : Prop := ∃ d, digit code i = .ok d

variable {code : String}

theorem readable_byte {i : Nat} (h : Readable code i) :
    ∃ d : Fin 10, (Bytes.ofText code)[i]? = some (digitByte d) := by
  obtain ⟨d, hd⟩ := h
  rw [digit] at hd
  split at hd
  · rename_i b hb
    rw [filter_eq_some_iff] at hb
    have hrange : 48 ≤ b.toNat ∧ b.toNat ≤ 57 := by
      have hdigit := hb.2
      rw [isAsciiDigit, Bool.and_eq_true, decide_eq_true_eq, decide_eq_true_eq] at hdigit
      exact ⟨UInt8.le_iff_toNat_le.mp hdigit.1, UInt8.le_iff_toNat_le.mp hdigit.2⟩
    refine ⟨⟨b.toNat - 48, by omega⟩, ?_⟩
    rw [hb.1, digitByte, show 48 + (b.toNat - 48) = b.toNat by omega, UInt8.ofNat_toNat]
  · cases hd

theorem exists_codeOf (h : ∀ i < byteLength code, Readable code i) : ∃ ds, code = codeOf ds := by
  have hbytes : ∀ l : Bytes, (∀ i < l.length, ∃ d : Fin 10, l[i]? = some (digitByte d)) →
      ∃ ds : Digits, l = ds.map digitByte := by
    intro l
    induction l with
    | nil => exact fun _ => ⟨[], rfl⟩
    | cons b l ih =>
      intro hl
      obtain ⟨d, hd⟩ := hl 0 (succ_pos _)
      obtain ⟨ds, hds⟩ := ih fun i hi => hl (i + 1) (succ_lt_succ hi)
      refine ⟨d :: ds, ?_⟩
      rw [getElem?_cons_zero] at hd
      rw [map_cons, ← hds, Option.some.inj hd]
  obtain ⟨ds, hds⟩ := hbytes _ fun i hi => readable_byte (h i hi)
  exact ⟨ds, Bytes.ofText_inj (hds.trans (ofText_codeOf ds).symm)⟩

theorem readable_of_subdivided {n i : Nat} {s t : Square}
    (h : subdivided code n i s = .ok t) : Readable code i ∧ Readable code (i + 1) := by
  rw [subdivided, bind_iff] at h
  obtain ⟨row, hrow, h⟩ := h
  rw [bind_iff] at h
  obtain ⟨column, hcolumn, -⟩ := h
  exact ⟨⟨row, hrow⟩, column, hcolumn⟩

theorem readable_of_quadrants (l : List Nat) : ∀ {s t : Square},
    l.foldlM (quadrant code) s = .ok t → ∀ i ∈ l, Readable code i := by
  induction l with
  | nil => exact fun _ i hi => by cases hi
  | cons j l ih =>
    intro s t h i hi
    rw [foldlM_cons, bind_iff] at h
    obtain ⟨s', hstep, hrest⟩ := h
    rcases mem_cons.mp hi with rfl | hi
    · rw [quadrant, bind_iff] at hstep
      obtain ⟨q, hq, -⟩ := hstep
      exact ⟨q, hq⟩
    · exact ih hrest i hi

theorem meshSquare_readable {s : Square} (h : meshSquare code = .ok s)
    (hlength : byteLength code ≠ 5 ∧ byteLength code ≠ 7) :
    ∀ i < byteLength code, Readable code i := by
  rw [meshSquare] at h
  simp only [bind_iff] at h
  obtain ⟨d0, h0, d1, h1, d2, h2, d3, h3, second, hsecond, third, hthird, hquadrants⟩ := h
  intro i hi
  have hfirst : i < 4 → Readable code i := by
    intro hi4
    rcases (by omega : i = 0 ∨ i = 1 ∨ i = 2 ∨ i = 3) with rfl | rfl | rfl | rfl
    · exact ⟨d0, h0⟩
    · exact ⟨d1, h1⟩
    · exact ⟨d2, h2⟩
    · exact ⟨d3, h3⟩
  by_cases hi4 : i < 4
  · exact hfirst hi4
  by_cases hi6 : i < 6
  · rw [subdividedFrom, if_pos (by omega)] at hsecond
    have hpair := readable_of_subdivided hsecond
    rcases (by omega : i = 4 ∨ i = 5) with rfl | rfl
    · exact hpair.1
    · exact hpair.2
  by_cases hi8 : i < 8
  · rw [subdividedFrom, if_pos (by omega)] at hthird
    have hpair := readable_of_subdivided hthird
    rcases (by omega : i = 6 ∨ i = 7) with rfl | rfl
    · exact hpair.1
    · exact hpair.2
  · exact readable_of_quadrants _ hquadrants i (mem_range'_1.mpr ⟨by omega, by omega⟩)

theorem exists_digits {b : MeshBounds} (h : meshBounds code = .ok b) : ∃ ds, code = codeOf ds := by
  rw [meshBounds] at h
  split_ifs at h with hlength
  cases hs : meshSquare code with
  | ok s => exact exists_codeOf (meshSquare_readable hs ⟨by omega, by omega⟩)
  | error e =>
    rw [hs] at h
    cases h

/-! ## The squares of digits -/

/-- The square in a row and a column, if every side of the first level is cut into `n`. -/
def square (n row column : Nat) : Square where
  lat := row * (2 / 3 / n)
  lon := 100 + column * (1 / n)
  dlat := 2 / 3 / n
  dlon := 1 / n

theorem square_part {n m : Nat} (hn : 0 < n) (hm : 0 < m) (row column r c : Nat) :
    (square n row column).part m r c = square (n * m) (m * row + r) (m * column + c) := by
  have hn' : (n : ℚ) ≠ 0 := cast_ne_zero.mpr hn.ne'
  have hm' : (m : ℚ) ≠ 0 := cast_ne_zero.mpr hm.ne'
  rw [Square.part, square, square]
  simp only [Square.mk.injEq, cast_mul, cast_add]
  refine ⟨?_, ?_, ?_, ?_⟩
  · field_simp
  · field_simp
    ring
  · field_simp
  · field_simp

/-- Into how many parts a side of a level is cut. -/
def stepOf : Nat → Nat
  | 0 => 8
  | 1 => 10
  | _ => 2

/-- The row within the square of the level above. -/
def rowDigit (ds : Digits) : Nat → Nat
  | 0 => digitAt ds 4
  | 1 => digitAt ds 6
  | k + 2 => quadrantRow (digitAt ds (k + 8))

def columnDigit (ds : Digits) : Nat → Nat
  | 0 => digitAt ds 5
  | 1 => digitAt ds 7
  | k + 2 => quadrantColumn (digitAt ds (k + 8))

def rowOf (ds : Digits) : Nat → Nat
  | 0 => digitAt ds 0 * 10 + digitAt ds 1
  | k + 1 => stepOf k * rowOf ds k + rowDigit ds k

def columnOf (ds : Digits) : Nat → Nat
  | 0 => digitAt ds 2 * 10 + digitAt ds 3
  | k + 1 => stepOf k * columnOf ds k + columnDigit ds k

/-- Into how many parts a side of the first level is cut. -/
def partsOf : Nat → Nat
  | 0 => 1
  | k + 1 => partsOf k * stepOf k

theorem stepOf_pos : ∀ k, 0 < stepOf k
  | 0 => by decide
  | 1 => by decide
  | _ + 2 => two_pos

theorem partsOf_pos : ∀ k, 0 < partsOf k
  | 0 => one_pos
  | k + 1 => mul_pos (partsOf_pos k) (stepOf_pos k)

def levelOf (length : Nat) : Nat := if length = 4 then 0 else if length = 6 then 1 else length - 6

def squareOf (ds : Digits) (k : Nat) : Square := square (partsOf k) (rowOf ds k) (columnOf ds k)

/-- Digits of an accepted code. -/
structure WellFormed (ds : Digits) : Prop where
  length : ds.length = 4 ∨ ds.length = 6 ∨ 8 ≤ ds.length ∧ ds.length ≤ 10
  quadrants : ∀ i, 8 ≤ i → i < ds.length → 1 ≤ digitAt ds i ∧ digitAt ds i ≤ 4

theorem squareOf_zero (ds : Digits) : squareOf ds 0 =
    { lat := (digitAt ds 0 * 10 + digitAt ds 1 : Nat) / (3 / 2)
      lon := (digitAt ds 2 * 10 + digitAt ds 3 : Nat) + 100, dlat := 2 / 3, dlon := 1 } := by
  rw [squareOf, square, rowOf, columnOf, partsOf]
  simp only [Square.mk.injEq]
  refine ⟨?_, ?_, ?_, ?_⟩
  · rw [cast_one, div_one]
    ring
  · rw [cast_one, div_one, mul_one, add_comm]
  · rw [cast_one, div_one]
  · rw [cast_one, div_one]

theorem subdivided_codeOf {n i : Nat} (h : i + 1 < ds.length) (s : Square) :
    subdivided (codeOf ds) n i s = .ok (s.part n (digitAt ds i) (digitAt ds (i + 1))) := by
  rw [subdivided, digit_codeOf (lt_of_succ_lt h), digit_codeOf h]
  rfl

theorem quadrant_codeOf {i : Nat} (h : i < ds.length) {s t : Square} :
    quadrant (codeOf ds) s i = .ok t ↔ (1 ≤ digitAt ds i ∧ digitAt ds i ≤ 4) ∧
      t = s.part 2 (quadrantRow (digitAt ds i)) (quadrantColumn (digitAt ds i)) := by
  rw [quadrant, digit_codeOf h]
  change (if _ then _ else _) = _ ↔ _
  split_ifs with hq
  · exact ⟨fun ht => ⟨hq, (Except.ok.inj ht).symm⟩, fun ht => by rw [ht.2]; rfl⟩
  · exact ⟨fun ht => (by cases ht), fun ht => absurd ht.1 hq⟩

theorem quadrants_codeOf (m : Nat) : ∀ {k : Nat} {s : Square}, k + 8 + m ≤ ds.length →
    ((List.range' (k + 8) m).foldlM (quadrant (codeOf ds)) (squareOf ds (k + 2)) = .ok s ↔
      (∀ i, k + 8 ≤ i → i < k + 8 + m → 1 ≤ digitAt ds i ∧ digitAt ds i ≤ 4) ∧
        s = squareOf ds (k + 2 + m)) := by
  induction m with
  | zero =>
    intro k s hlength
    rw [range'_zero, foldlM_nil]
    constructor
    · intro h
      exact ⟨fun i hi hi' => by omega, (Except.ok.inj h).symm⟩
    · intro h
      rw [h.2]
      rfl
  | succ m ih =>
    intro k s hlength
    have hpart : (squareOf ds (k + 2)).part 2 (quadrantRow (digitAt ds (k + 8)))
        (quadrantColumn (digitAt ds (k + 8))) = squareOf ds (k + 1 + 2) := by
      rw [squareOf, square_part (partsOf_pos _) two_pos]
      rfl
    rw [range'_succ, foldlM_cons, bind_iff]
    simp only [quadrant_codeOf (show k + 8 < ds.length by omega), hpart]
    constructor
    · intro h
      obtain ⟨t, ⟨hq, ht⟩, hrest⟩ := h
      rw [ht, show k + 8 + 1 = k + 1 + 8 by omega, ih (by omega)] at hrest
      refine ⟨fun i hi hi' => ?_, ?_⟩
      · rcases eq_or_lt_of_le hi with rfl | hi
        · exact hq
        · exact hrest.1 i (by omega) (by omega)
      · rw [hrest.2, show k + 1 + 2 + m = k + 2 + (m + 1) by omega]
    · intro h
      refine ⟨_, ⟨h.1 (k + 8) (le_refl _) (by omega), rfl⟩, ?_⟩
      rw [show k + 8 + 1 = k + 1 + 8 by omega, ih (by omega)]
      refine ⟨fun i hi hi' => h.1 i (by omega) (by omega), ?_⟩
      rw [h.2, show k + 1 + 2 + m = k + 2 + (m + 1) by omega]

theorem subdividedFrom_of_le {length n i : Nat} (h : length ≤ ds.length) (s : Square) :
    subdividedFrom (codeOf ds) length n i s = subdivided (codeOf ds) n i s := by
  rw [subdividedFrom, byteLength_codeOf, if_pos h]

theorem subdividedFrom_of_lt {length n i : Nat} (h : ds.length < length) (s : Square) :
    subdividedFrom (codeOf ds) length n i s = .ok s := by
  rw [subdividedFrom, byteLength_codeOf, if_neg (Nat.not_le_of_lt h)]

theorem squareOf_one (ds : Digits) :
    (squareOf ds 0).part 8 (digitAt ds 4) (digitAt ds 5) = squareOf ds 1 := by
  rw [squareOf, square_part (partsOf_pos 0) (by decide)]
  rfl

theorem squareOf_two (ds : Digits) :
    (squareOf ds 1).part 10 (digitAt ds 6) (digitAt ds 7) = squareOf ds 2 := by
  rw [squareOf, square_part (partsOf_pos 1) (by decide)]
  rfl

theorem meshSquare_codeOf {s : Square}
    (hlength : ds.length = 4 ∨ ds.length = 6 ∨ 8 ≤ ds.length ∧ ds.length ≤ 10) :
    meshSquare (codeOf ds) = .ok s ↔ WellFormed ds ∧ s = squareOf ds (levelOf ds.length) := by
  have hfirst : meshSquare (codeOf ds) =
      ((subdividedFrom (codeOf ds) 6 8 4 (squareOf ds 0)) >>= fun second =>
        subdividedFrom (codeOf ds) 8 10 6 second >>= fun third =>
          (List.range' 8 (ds.length - 8)).foldlM (quadrant (codeOf ds)) third) := by
    rw [meshSquare, digit_codeOf (by omega), digit_codeOf (by omega), digit_codeOf (by omega),
      digit_codeOf (by omega), byteLength_codeOf, squareOf_zero]
    rfl
  rw [hfirst]
  rcases hlength with hlength | hlength | hlength
  · rw [subdividedFrom_of_lt (by omega)]
    change (subdividedFrom (codeOf ds) 8 10 6 _ >>= _) = _ ↔ _
    rw [subdividedFrom_of_lt (by omega), hlength]
    change (List.range' 8 0).foldlM (quadrant (codeOf ds)) (squareOf ds 0) = .ok s ↔ _
    constructor
    · intro h
      exact ⟨⟨.inl hlength, fun i hi hi' => by omega⟩, (Except.ok.inj h).symm⟩
    · intro h
      rw [h.2]
      rfl
  · rw [subdividedFrom_of_le (by omega), subdivided_codeOf (by omega), squareOf_one]
    change (subdividedFrom (codeOf ds) 8 10 6 _ >>= _) = _ ↔ _
    rw [subdividedFrom_of_lt (by omega), hlength]
    change (List.range' 8 0).foldlM (quadrant (codeOf ds)) (squareOf ds 1) = .ok s ↔ _
    constructor
    · intro h
      exact ⟨⟨.inr (.inl hlength), fun i hi hi' => by omega⟩, (Except.ok.inj h).symm⟩
    · intro h
      rw [h.2]
      rfl
  · rw [subdividedFrom_of_le (by omega), subdivided_codeOf (by omega), squareOf_one]
    change (subdividedFrom (codeOf ds) 8 10 6 _ >>= _) = _ ↔ _
    rw [subdividedFrom_of_le (by omega), subdivided_codeOf (by omega), squareOf_two]
    change (List.range' (0 + 8) (ds.length - 8)).foldlM (quadrant (codeOf ds))
      (squareOf ds (0 + 2)) = .ok s ↔ _
    have hlevel : levelOf ds.length = 0 + 2 + (ds.length - 8) := by
      rw [levelOf, if_neg (by omega), if_neg (by omega)]
      omega
    rw [quadrants_codeOf _ (by omega), hlevel]
    refine and_congr_left fun _ => ⟨fun h => ?_, fun h => ?_⟩
    · exact ⟨.inr (.inr hlength), fun i hi hi' => h i (by omega) (by omega)⟩
    · exact fun i hi hi' => h.quadrants i (by omega) (by omega)

theorem meshBounds_codeOf {b : MeshBounds} : meshBounds (codeOf ds) = .ok b ↔
    WellFormed ds ∧ b = bounds (squareOf ds (levelOf ds.length)) := by
  rw [meshBounds, byteLength_codeOf]
  by_cases hlength : ds.length = 4 ∨ ds.length = 6 ∨ 8 ≤ ds.length ∧ ds.length ≤ 10
  · rw [if_neg (by omega)]
    constructor
    · intro h
      cases hs : meshSquare (codeOf ds) with
      | error e =>
        rw [hs] at h
        cases h
      | ok s =>
        rw [hs] at h
        obtain ⟨hformed, rfl⟩ := (meshSquare_codeOf hlength).mp hs
        exact ⟨hformed, (Except.ok.inj h).symm⟩
    · intro h
      rw [(meshSquare_codeOf hlength).mpr ⟨h.1, rfl⟩, h.2]
      rfl
  · rw [if_pos (by omega)]
    exact ⟨fun h => (by cases h), fun h => absurd h.1.length hlength⟩

/-! ## Levels -/

def lengthOf : Nat → Nat
  | 0 => 4
  | 1 => 6
  | k + 2 => k + 8

section Levels

variable {es : Digits} {k m : Nat}

theorem WellFormed.lengthOf_levelOf (h : WellFormed ds) :
    lengthOf (levelOf ds.length) = ds.length := by
  rcases h.length with hlength | hlength | hlength
  · rw [hlength]
    rfl
  · rw [hlength]
    rfl
  · obtain ⟨k, hk⟩ : ∃ k, ds.length = k + 8 := ⟨ds.length - 8, by omega⟩
    rw [hk, levelOf, if_neg (by omega), if_neg (by omega)]
    rfl

theorem lengthOf_le (h : k ≤ m) : lengthOf k ≤ lengthOf m := by
  induction h with
  | refl => exact le_refl _
  | step _ ih =>
    rename_i m _
    refine le_trans ih ?_
    cases m with
    | zero => decide
    | succ m => cases m with
      | zero => decide
      | succ m => exact le_succ _

theorem digitAt_lt (ds : Digits) (i : Nat) : digitAt ds i < 10 := by
  rw [digitAt]
  cases ds[i]? with
  | none => exact succ_pos _
  | some d => exact d.isLt

theorem digitAt_append {ts : Digits} {i : Nat} (h : i < es.length) :
    digitAt (es ++ ts) i = digitAt es i := by
  rw [digitAt, getElem?_append_left h, digitAt]

theorem same_rows (h : ∀ i < lengthOf k, digitAt ds i = digitAt es i) :
    rowOf ds k = rowOf es k ∧ columnOf ds k = columnOf es k := by
  induction k with
  | zero =>
    rw [rowOf, rowOf, columnOf, columnOf, h 0 (by decide), h 1 (by decide), h 2 (by decide),
      h 3 (by decide)]
    exact ⟨rfl, rfl⟩
  | succ k ih =>
    obtain ⟨hrow, hcolumn⟩ := ih fun i hi =>
      h i (lt_of_lt_of_le hi (lengthOf_le (le_succ k)))
    have hdigits : rowDigit ds k = rowDigit es k ∧ columnDigit ds k = columnDigit es k := by
      match k, h with
      | 0, h => exact ⟨h 4 (by decide), h 5 (by decide)⟩
      | 1, h => exact ⟨h 6 (by decide), h 7 (by decide)⟩
      | k + 2, h =>
        have hlast := h (k + 8) (lt_succ_self _)
        rw [rowDigit, rowDigit, columnDigit, columnDigit, hlast]
        exact ⟨rfl, rfl⟩
    rw [rowOf, rowOf, columnOf, columnOf, hrow, hcolumn, hdigits.1, hdigits.2]
    exact ⟨rfl, rfl⟩

theorem quadrant_digits (q : Nat) : quadrantRow q < 2 ∧ quadrantColumn q < 2 := by
  rw [quadrantRow, quadrantColumn]
  constructor
  · split_ifs
    · exact one_lt_two
    · exact two_pos
  · split_ifs
    · exact one_lt_two
    · exact two_pos

theorem part_digits (ds : Digits) (k : Nat) :
    rowDigit ds (k + 1) < stepOf (k + 1) ∧ columnDigit ds (k + 1) < stepOf (k + 1) := by
  cases k with
  | zero => exact ⟨digitAt_lt ds 6, digitAt_lt ds 7⟩
  | succ k => exact quadrant_digits (digitAt ds (k + 8))

theorem quadrant_inj {q r : Nat} (hq : 1 ≤ q ∧ q ≤ 4) (hr : 1 ≤ r ∧ r ≤ 4)
    (hrow : quadrantRow q = quadrantRow r) (hcolumn : quadrantColumn q = quadrantColumn r) :
    q = r := by
  rw [quadrantRow, quadrantRow] at hrow
  rw [quadrantColumn, quadrantColumn] at hcolumn
  split_ifs at hrow hcolumn <;> omega

theorem mixed_inj {n a b c d : Nat} (hc : c < n) (hd : d < n) (h : n * a + c = n * b + d) :
    a = b ∧ c = d := by
  have hn : 0 < n := lt_of_le_of_lt (zero_le c) hc
  have hdiv := congrArg (· / n) h
  have hmod := congrArg (· % n) h
  simp only [mul_add_div hn, div_eq_of_lt hc, div_eq_of_lt hd, mul_add_mod,
    mod_eq_of_lt hc, mod_eq_of_lt hd, add_zero] at hdiv hmod
  exact ⟨hdiv, hmod⟩

theorem same_digits (hds : WellFormed ds) (hes : WellFormed es)
    (hlength : lengthOf (k + 1) ≤ ds.length) (hlength' : lengthOf (k + 1) ≤ es.length)
    (hrow : rowOf ds (k + 1) = rowOf es (k + 1))
    (hcolumn : columnOf ds (k + 1) = columnOf es (k + 1)) :
    rowOf ds 1 = rowOf es 1 ∧ columnOf ds 1 = columnOf es 1 ∧
      ∀ i, 6 ≤ i → i < lengthOf (k + 1) → digitAt ds i = digitAt es i := by
  induction k with
  | zero => exact ⟨hrow, hcolumn, fun i hi hi' => absurd hi' (not_lt.mpr hi)⟩
  | succ k ih =>
    rw [rowOf, rowOf] at hrow
    rw [columnOf, columnOf] at hcolumn
    obtain ⟨hrows, hrowDigit⟩ := mixed_inj (part_digits ds k).1 (part_digits es k).1 hrow
    obtain ⟨hcolumns, hcolumnDigit⟩ := mixed_inj (part_digits ds k).2 (part_digits es k).2 hcolumn
    have hle := lengthOf_le (le_succ (k + 1))
    obtain ⟨h1, h2, hdigits⟩ := ih (hle.trans hlength) (hle.trans hlength') hrows hcolumns
    refine ⟨h1, h2, fun i hi hi' => ?_⟩
    cases k with
    | zero =>
      have hi'' : i < 8 := hi'
      rcases (by omega : i = 6 ∨ i = 7) with rfl | rfl
      · exact hrowDigit
      · exact hcolumnDigit
    | succ k =>
      have hlast : lengthOf (k + 1 + 1 + 1) = k + 9 := rfl
      have hbefore : lengthOf (k + 1 + 1) = k + 8 := rfl
      rw [hlast] at hi' hlength hlength'
      by_cases hi8 : i = k + 8
      · have hq := hds.quadrants (k + 8) (by omega) (by omega)
        have hr := hes.quadrants (k + 8) (by omega) (by omega)
        rw [hi8]
        exact quadrant_inj hq hr hrowDigit hcolumnDigit
      · exact hdigits i hi (by rw [hbefore]; omega)

theorem rows_within (ds : Digits) (k m : Nat) : ∃ c, 0 < c ∧
    partsOf (k + 1 + m) = partsOf (k + 1) * c ∧
    (c * rowOf ds (k + 1) ≤ rowOf ds (k + 1 + m) ∧
      rowOf ds (k + 1 + m) < c * rowOf ds (k + 1) + c) ∧
    c * columnOf ds (k + 1) ≤ columnOf ds (k + 1 + m) ∧
      columnOf ds (k + 1 + m) < c * columnOf ds (k + 1) + c := by
  induction m with
  | zero =>
    rw [add_zero]
    exact ⟨1, one_pos, (mul_one _).symm, by omega, by omega, by omega⟩
  | succ m ih =>
    obtain ⟨c, hc, hparts, hrow, hcolumn⟩ := ih
    obtain ⟨hrowDigit, hcolumnDigit⟩ := part_digits ds (k + m)
    have hlevel : k + 1 + (m + 1) = k + m + 1 + 1 := by omega
    have hbefore : k + 1 + m = k + m + 1 := by omega
    rw [hbefore] at hparts hrow hcolumn
    have hlast : ∀ {a x d : Nat}, c * a ≤ x → x < c * a + c → d < stepOf (k + m + 1) →
        c * stepOf (k + m + 1) * a ≤ stepOf (k + m + 1) * x + d ∧
          stepOf (k + m + 1) * x + d < c * stepOf (k + m + 1) * a + c * stepOf (k + m + 1) := by
      intro a x d hlow hhigh hd
      have hlow' := mul_le_mul_left (stepOf (k + m + 1)) hlow
      have hhigh' := mul_le_mul_left (stepOf (k + m + 1)) (succ_le_of_lt hhigh)
      have hshape : stepOf (k + m + 1) * (c * a) = c * stepOf (k + m + 1) * a := by
        rw [mul_left_comm, mul_assoc]
      have hshape' : stepOf (k + m + 1) * (c * a + c) =
          c * stepOf (k + m + 1) * a + c * stepOf (k + m + 1) := by
        rw [mul_add, hshape, mul_comm (stepOf (k + m + 1)) c]
      rw [mul_succ] at hhigh'
      omega
    refine ⟨c * stepOf (k + m + 1), mul_pos hc (stepOf_pos _), ?_, ?_, ?_⟩
    · rw [hlevel, partsOf, hparts, mul_assoc]
    · rw [hlevel, rowOf]
      exact hlast hrow.1 hrow.2 hrowDigit
    · rw [hlevel, columnOf]
      exact hlast hcolumn.1 hcolumn.2 hcolumnDigit

end Levels

end GeneGIS.Toolkit.Mesh
