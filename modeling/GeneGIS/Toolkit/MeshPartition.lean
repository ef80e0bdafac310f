/-
A digit of the second level above seven names a square outside that of its first four digits.  A
code partitions its square exactly if it has none.
-/
import GeneGIS.Data.Subdivision
import GeneGIS.Toolkit.Mesh

namespace GeneGIS.Toolkit.Mesh

open List Nat

def MeshBounds.region (b : MeshBounds) : Set (ℚ × ℚ) :=
  Set.Icc b.minLon b.maxLon ×ˢ Set.Icc b.minLat b.maxLat

def MeshBounds.interior (b : MeshBounds) : Set (ℚ × ℚ) :=
  Set.Ioo b.minLon b.maxLon ×ˢ Set.Ioo b.minLat b.maxLat

/-- The length of the codes of the next level. -/
def nextLength : Nat → Option Nat
  | 4 => some 6
  | 6 => some 8
  | 8 => some 9
  | 9 => some 10
  | _ => none

/-- The accepted codes of the next level that begin with a code. -/
def Extension (code ext : String) (b : MeshBounds) : Prop :=
  (∃ tail, ext = code ++ tail) ∧ nextLength (byteLength code) = some (byteLength ext) ∧
    meshBounds ext = .ok b

structure Partitions (code : String) (b : MeshBounds) : Prop where
  apart : ∀ other b', other ≠ code → byteLength other = byteLength code →
    meshBounds other = .ok b' → Disjoint b.interior b'.interior
  nested : ∀ lead tail b', code = lead ++ tail → meshBounds lead = .ok b' → b.region ⊆ b'.region
  covered : nextLength (byteLength code) ≠ none →
    b.region = {x | ∃ ext b', Extension code ext b' ∧ x ∈ b'.region}
  separate : ∀ ext b' other b'', Extension code ext b' → Extension code other b'' →
    ext ≠ other → Disjoint b'.interior b''.interior

section Blocks

open Subdivision

variable {n c i j i' j' : Nat}

theorem region_square (n i j : Nat) : (bounds (square n i j)).region =
    cell (100 : ℚ) (1 / n) j ×ˢ cell (0 : ℚ) (2 / 3 / n) i := by
  rw [MeshBounds.region, bounds, square, cell, cell]
  simp only [zero_add, add_mul, one_mul, add_assoc]

theorem interior_square (n i j : Nat) : (bounds (square n i j)).interior =
    openCell (100 : ℚ) (1 / n) j ×ˢ openCell (0 : ℚ) (2 / 3 / n) i := by
  rw [MeshBounds.interior, bounds, square, openCell, openCell]
  simp only [zero_add, add_mul, one_mul, add_assoc]

theorem widths_pos (hn : 0 < n) : 0 < (1 / n : ℚ) ∧ 0 < (2 / 3 / n : ℚ) := by
  have hn' : (0 : ℚ) < n := cast_pos.mpr hn
  exact ⟨div_pos one_pos hn', div_pos (by norm_num) hn'⟩

theorem width_mul (n c : Nat) (w : ℚ) : w / (n * c : Nat) = w / n / c := by
  rw [cast_mul, div_div]

theorem disjoint_interior_iff (hn : 0 < n) :
    Disjoint (bounds (square n i j)).interior (bounds (square n i' j')).interior ↔
      ¬ (i = i' ∧ j = j') := by
  rw [interior_square, interior_square, openBlock_disjoint_iff (widths_pos hn).1 (widths_pos hn).2,
    and_comm]

theorem region_subset_iff (hn : 0 < n) (hc : 0 < c) :
    (bounds (square (n * c) i' j')).region ⊆ (bounds (square n i j)).region ↔
      (c * j ≤ j' ∧ j' < c * j + c) ∧ c * i ≤ i' ∧ i' < c * i + c := by
  rw [region_square, region_square, width_mul, width_mul,
    block_subset_iff hc (widths_pos hn).1 (widths_pos hn).2]

theorem region_eq_iUnion (hn : 0 < n) (hc : 0 < c) : (bounds (square n i j)).region =
    ⋃ d < c, ⋃ d' < c, (bounds (square (n * c) (c * i + d') (c * j + d))).region := by
  simp only [region_square, width_mul]
  exact block_eq_iUnion hc (widths_pos hn).1 (widths_pos hn).2

end Blocks

def digitOf (code : String) (i : Nat) : Nat := (((Bytes.ofText code)[i]?).elim 0 UInt8.toNat) - 48

/-- The digit of the second level is one of eight, and no other code has its place. -/
def Settled (digit first : Nat) : Prop := 2 ≤ digit ∧ digit ≤ 7 ∨ digit < 2 ∧ first = 0

/-- A code that has a second level, with settled digits there. -/
def Proper (code : String) : Prop :=
  6 ≤ byteLength code ∧ Settled (digitOf code 4) (digitOf code 0 * 10 + digitOf code 1) ∧
    Settled (digitOf code 5) (digitOf code 2 * 10 + digitOf code 3)

theorem digitOf_codeOf (ds : Digits) (i : Nat) : digitOf (codeOf ds) i = digitAt ds i := by
  rw [digitOf, ofText_codeOf, getElem?_map, digitAt]
  cases ds[i]? with
  | none => rfl
  | some d => exact (isAsciiDigit_digitByte d).2

theorem proper_codeOf {ds : Digits} : Proper (codeOf ds) ↔ 6 ≤ ds.length ∧
    Settled (digitAt ds 4) (rowOf ds 0) ∧ Settled (digitAt ds 5) (columnOf ds 0) := by
  simp only [Proper, byteLength_codeOf, digitOf_codeOf, rowOf, columnOf]

theorem ext_digits {ds es : Digits} (hlength : ds.length = es.length)
    (h : ∀ i < ds.length, digitAt ds i = digitAt es i) : ds = es := by
  refine ext_getElem hlength fun i hi hi' => ?_
  have hdigit := h i hi
  rw [digitAt, digitAt, getElem?_eq_getElem hi, getElem?_eq_getElem hi'] at hdigit
  exact Fin.ext hdigit

section Partitions

variable {ds es : Digits} {k : Nat}

theorem Settled.unique {digit first digit' first' : Nat} (h : Settled digit first)
    (hdigit : digit' < 10) (hrow : 8 * first + digit = 8 * first' + digit') :
    first' = first ∧ digit' = digit := by
  rcases h with h | h <;> omega

theorem decimal_inj {a b c d : Nat} (hb : b < 10) (hd : d < 10) (h : a * 10 + b = c * 10 + d) :
    a = c ∧ b = d := by omega

theorem eq_of_same_square (hds : WellFormed ds) (hes : WellFormed es)
    (hproper : Proper (codeOf ds)) (hlevel : ds.length = lengthOf (k + 1))
    (hlength : es.length = ds.length) (hrow : rowOf ds (k + 1) = rowOf es (k + 1))
    (hcolumn : columnOf ds (k + 1) = columnOf es (k + 1)) : ds = es := by
  obtain ⟨-, hsettled, hsettled'⟩ := proper_codeOf.mp hproper
  obtain ⟨hrows, hcolumns, hdigits⟩ := same_digits hds hes (Nat.le_of_eq hlevel.symm)
    (by omega) hrow hcolumn
  rw [rowOf, rowOf] at hrows
  rw [columnOf, columnOf] at hcolumns
  obtain ⟨hfirst, h4⟩ := hsettled.unique (digitAt_lt es 4) hrows
  obtain ⟨hfirst', h5⟩ := hsettled'.unique (digitAt_lt es 5) hcolumns
  obtain ⟨h0, h1⟩ := decimal_inj (digitAt_lt es 1) (digitAt_lt ds 1) hfirst
  obtain ⟨h2, h3⟩ := decimal_inj (digitAt_lt es 3) (digitAt_lt ds 3) hfirst'
  refine ext_digits hlength.symm fun i hi => ?_
  by_cases hi6 : 6 ≤ i
  · exact hdigits i hi6 (by omega)
  · rcases (by omega : i = 0 ∨ i = 1 ∨ i = 2 ∨ i = 3 ∨ i = 4 ∨ i = 5) with
      rfl | rfl | rfl | rfl | rfl | rfl
    · exact h0.symm
    · exact h1.symm
    · exact h2.symm
    · exact h3.symm
    · exact h4.symm
    · exact h5.symm

theorem exists_level (h : WellFormed ds) (hlength : 6 ≤ ds.length) :
    ∃ k, levelOf ds.length = k + 1 ∧ ds.length = lengthOf (k + 1) := by
  have hlevel := h.lengthOf_levelOf
  cases hk : levelOf ds.length with
  | zero =>
    rw [hk] at hlevel
    have hfour : lengthOf 0 = 4 := rfl
    omega
  | succ k =>
    rw [hk] at hlevel
    exact ⟨k, rfl, hlevel.symm⟩

theorem apart_of_proper (hds : WellFormed ds) (hproper : Proper (codeOf ds)) (hes : WellFormed es)
    (hlength : es.length = ds.length) (hne : es ≠ ds) :
    Disjoint (bounds (squareOf ds (levelOf ds.length))).interior
      (bounds (squareOf es (levelOf es.length))).interior := by
  obtain ⟨k, hk, hlevel⟩ := exists_level hds (proper_codeOf.mp hproper).1
  rw [hlength, hk, squareOf, squareOf, disjoint_interior_iff (partsOf_pos _)]
  intro h
  exact hne (eq_of_same_square hds hes hproper hlevel hlength h.1 h.2).symm

/-! ### Codes that begin with a code -/

theorem ofText_append (a b : String) :
    Bytes.ofText (a ++ b) = Bytes.ofText a ++ Bytes.ofText b := by
  rw [Bytes.ofText_eq, String.toList_append, flatMap_append, ← Bytes.ofText_eq, ← Bytes.ofText_eq]

theorem exists_append {tail : String} (h : codeOf es = codeOf ds ++ tail) :
    ∃ ts, es = ds ++ ts := by
  have hbytes := congrArg Bytes.ofText h
  rw [ofText_append, ofText_codeOf, ofText_codeOf] at hbytes
  have htake := congrArg (List.take ds.length) hbytes
  rw [take_left' (length_map _), ← map_take] at htake
  have hds := map_injective_iff.mpr (fun _ _ => digitByte_inj) htake
  refine ⟨es.drop ds.length, ?_⟩
  rw [← hds]
  have hle : (es.take ds.length).length = ds.length := congrArg List.length hds
  rw [hle]
  exact (take_append_drop _ _).symm

theorem within_first_iff (ds : Digits) (k : Nat) :
    (bounds (squareOf ds (k + 1))).region ⊆ (bounds (squareOf ds 0)).region ↔
      digitAt ds 5 < 8 ∧ digitAt ds 4 < 8 := by
  obtain ⟨c, hc, hparts, hrow, hcolumn⟩ := rows_within ds 0 k
  rw [zero_add, add_comm 1 k] at hparts hrow hcolumn
  have hparts' : partsOf (k + 1) = partsOf 0 * (8 * c) := by
    rw [hparts]
    show 1 * 8 * c = 1 * (8 * c)
    omega
  have hiff : ∀ {x first digit : Nat}, c * (8 * first + digit) ≤ x →
      x < c * (8 * first + digit) + c →
      (8 * c * first ≤ x ∧ x < 8 * c * first + 8 * c ↔ digit < 8) := by
    intro x first digit hlow hhigh
    rw [mul_add, mul_left_comm, ← mul_assoc] at hlow hhigh
    constructor
    · intro h
      by_contra hdigit
      have hlarge := Nat.mul_le_mul_left c (Nat.le_of_not_lt hdigit)
      omega
    · intro hdigit
      have hsmall := Nat.mul_le_mul_left c (succ_le_of_lt hdigit)
      rw [mul_succ] at hsmall
      omega
  rw [squareOf, squareOf, hparts', region_subset_iff (partsOf_pos 0) (by omega),
    hiff hrow.1 hrow.2, hiff hcolumn.1 hcolumn.2]
  rfl

theorem nested_levels (ds : Digits) (k m : Nat) :
    (bounds (squareOf ds (k + 1 + m))).region ⊆ (bounds (squareOf ds (k + 1))).region := by
  obtain ⟨c, hc, hparts, hrow, hcolumn⟩ := rows_within ds k m
  rw [squareOf, squareOf, hparts, region_subset_iff (partsOf_pos _) hc]
  exact ⟨hcolumn, hrow⟩

theorem squareOf_append {ts : Digits} (h : lengthOf k ≤ es.length) :
    squareOf (es ++ ts) k = squareOf es k := by
  have hsame := @same_rows (es ++ ts) es k fun i hi =>
    digitAt_append (lt_of_lt_of_le hi h)
  rw [squareOf, hsame.1, hsame.2, squareOf]

theorem levelOf_le {a b : Nat} (h : a ≤ b) (ha : 4 ≤ a) : levelOf a ≤ levelOf b := by
  rw [levelOf, levelOf]
  split_ifs <;> omega

theorem nested_of_proper {ts : Digits} (hds : WellFormed (es ++ ts)) (hes : WellFormed es)
    (hproper : Proper (codeOf (es ++ ts))) :
    (bounds (squareOf (es ++ ts) (levelOf (es ++ ts).length))).region ⊆
      (bounds (squareOf es (levelOf es.length))).region := by
  obtain ⟨hlength, hsettled, hsettled'⟩ := proper_codeOf.mp hproper
  obtain ⟨k, hk, -⟩ := exists_level hds hlength
  have hle : levelOf es.length ≤ levelOf (es ++ ts).length := by
    refine levelOf_le ?_ ?_
    · rw [length_append]
      omega
    · have h := hes.length
      omega
  rw [← @squareOf_append es _ ts (Nat.le_of_eq hes.lengthOf_levelOf), hk]
  rw [hk] at hle
  cases hlead : levelOf es.length with
  | zero =>
    rw [within_first_iff]
    constructor
    · rcases hsettled' with h | h <;> omega
    · rcases hsettled with h | h <;> omega
  | succ j =>
    rw [hlead] at hle
    obtain ⟨m, hm⟩ := le.dest hle
    rw [← hm]
    exact nested_levels _ j m

/-! ### Codes of the next level -/

theorem nextLength_eq (h : WellFormed ds) {n : Nat} (hk : levelOf ds.length = k) :
    nextLength ds.length = some n ↔ k < 4 ∧ n = lengthOf (k + 1) := by
  rcases h.length with hlength | hlength | hlength
  · rw [hlength] at hk ⊢
    subst hk
    exact ⟨fun h => ⟨by decide, (Option.some.inj h).symm⟩, fun h => by rw [h.2]; rfl⟩
  · rw [hlength] at hk ⊢
    subst hk
    exact ⟨fun h => ⟨by decide, (Option.some.inj h).symm⟩, fun h => by rw [h.2]; rfl⟩
  · rcases (by omega : ds.length = 8 ∨ ds.length = 9 ∨ ds.length = 10) with h8 | h8 | h8
    · rw [h8] at hk ⊢
      subst hk
      exact ⟨fun h => ⟨by decide, (Option.some.inj h).symm⟩, fun h => by rw [h.2]; rfl⟩
    · rw [h8] at hk ⊢
      subst hk
      exact ⟨fun h => ⟨by decide, (Option.some.inj h).symm⟩, fun h => by rw [h.2]; rfl⟩
    · rw [h8] at hk ⊢
      subst hk
      exact ⟨fun h => (by cases h), fun h => absurd h.1 (by decide)⟩

theorem extension_codeOf (h : WellFormed ds) (hk : levelOf ds.length = k) {ext : String}
    {b : MeshBounds} : Extension (codeOf ds) ext b ↔ ∃ ts : Digits, ext = codeOf (ds ++ ts) ∧
      k < 4 ∧ (ds ++ ts).length = lengthOf (k + 1) ∧ WellFormed (ds ++ ts) ∧
      b = bounds (squareOf (ds ++ ts) (k + 1)) := by
  have hlevel : ∀ {es : Digits}, WellFormed es → k < 4 → es.length = lengthOf (k + 1) →
      levelOf es.length = k + 1 := by
    intro es hes hk4 hlength
    rw [hlength]
    rcases (by omega : k = 0 ∨ k = 1 ∨ k = 2 ∨ k = 3) with rfl | rfl | rfl | rfl
    all_goals rfl
  constructor
  · intro hext
    obtain ⟨⟨tail, htail⟩, hnext, hbounds⟩ := hext
    obtain ⟨es, rfl⟩ := exists_digits hbounds
    obtain ⟨ts, rfl⟩ := exists_append htail
    rw [byteLength_codeOf, byteLength_codeOf, nextLength_eq h hk] at hnext
    obtain ⟨hformed, hb⟩ := meshBounds_codeOf.mp hbounds
    rw [hlevel hformed hnext.1 hnext.2] at hb
    exact ⟨ts, rfl, hnext.1, hnext.2, hformed, hb⟩
  · intro hext
    obtain ⟨ts, rfl, hk4, hlength, hformed, hb⟩ := hext
    refine ⟨⟨codeOf ts, codeOf_append ds ts⟩, ?_, ?_⟩
    · rw [byteLength_codeOf, byteLength_codeOf, nextLength_eq h hk]
      exact ⟨hk4, hlength⟩
    · rw [meshBounds_codeOf, hlevel hformed hk4 hlength]
      exact ⟨hformed, hb⟩

theorem exists_tail (h : WellFormed ds) (hlength : ds.length = lengthOf (k + 1)) (hk : k < 3)
    {row column : Nat} (hrow : row < stepOf (k + 1)) (hcolumn : column < stepOf (k + 1)) :
    ∃ ts : Digits, (ds ++ ts).length = lengthOf (k + 2) ∧ WellFormed (ds ++ ts) ∧
      rowDigit (ds ++ ts) (k + 1) = row ∧ columnDigit (ds ++ ts) (k + 1) = column := by
  have hlast : ∀ {ts : Digits} {i : Nat}, ds.length ≤ i →
      digitAt (ds ++ ts) i = digitAt ts (i - ds.length) := by
    intro ts i hi
    rw [digitAt, getElem?_append_right hi, digitAt]
  cases k with
  | zero =>
    have hsix : ds.length = 6 := hlength
    refine ⟨[⟨row, hrow⟩, ⟨column, hcolumn⟩], ?_, ⟨?_, ?_⟩, ?_, ?_⟩
    · rw [length_append, hsix]
      rfl
    · rw [length_append, hsix]
      exact .inr (.inr ⟨le_refl 8, by show 8 ≤ 10; omega⟩)
    · intro i hi hi'
      rw [length_append, hsix, length_cons, length_singleton] at hi'
      omega
    · rw [rowDigit, hlast (by omega), hsix]
      rfl
    · rw [columnDigit, hlast (by omega), hsix]
      rfl
  | succ k =>
    have hlen : ds.length = k + 8 := hlength
    have hrow' : row < 2 := hrow
    have hcolumn' : column < 2 := hcolumn
    have hq : quadrantRow (row * 2 + column + 1) = row ∧
        quadrantColumn (row * 2 + column + 1) = column := by
      rcases (by omega : row = 0 ∨ row = 1) with rfl | rfl <;>
        rcases (by omega : column = 0 ∨ column = 1) with rfl | rfl
      all_goals exact ⟨rfl, rfl⟩
    have hnew : digitAt (ds ++ [⟨row * 2 + column + 1, by omega⟩]) (k + 8) =
        row * 2 + column + 1 := by
      rw [hlast (Nat.le_of_eq hlen), hlen, Nat.sub_self]
      rfl
    refine ⟨[⟨row * 2 + column + 1, by omega⟩], ?_, ⟨?_, ?_⟩, ?_, ?_⟩
    · rw [length_append, hlen]
      rfl
    · rw [length_append, hlen, length_singleton]
      omega
    · intro i hi hi'
      rw [length_append, hlen, length_singleton] at hi'
      by_cases hik : i = k + 8
      · rw [hik, hnew]
        omega
      · rw [digitAt_append (by omega)]
        exact h.quadrants i hi (by omega)
    · show quadrantRow (digitAt _ (k + 8)) = row
      rw [hnew]
      exact hq.1
    · show quadrantColumn (digitAt _ (k + 8)) = column
      rw [hnew]
      exact hq.2

theorem covered_of_level (h : WellFormed ds) (hlevel : levelOf ds.length = k + 1)
    (hnext : nextLength ds.length ≠ none) : (bounds (squareOf ds (k + 1))).region =
      {x | ∃ ext b, Extension (codeOf ds) ext b ∧ x ∈ b.region} := by
  have hlength : ds.length = lengthOf (k + 1) := by rw [← hlevel, h.lengthOf_levelOf]
  have hk : k < 3 := by
    obtain ⟨n, hn⟩ := Option.ne_none_iff_exists'.mp hnext
    have hn4 := ((nextLength_eq h hlevel).mp hn).1
    omega
  have hpart : ∀ ts : Digits, squareOf (ds ++ ts) (k + 2) = square (partsOf (k + 1) * stepOf (k + 1))
      (stepOf (k + 1) * rowOf ds (k + 1) + rowDigit (ds ++ ts) (k + 1))
      (stepOf (k + 1) * columnOf ds (k + 1) + columnDigit (ds ++ ts) (k + 1)) := by
    intro ts
    have hsame := @same_rows (ds ++ ts) ds (k + 1) fun i hi => digitAt_append (by omega)
    rw [squareOf, rowOf, columnOf, hsame.1, hsame.2, partsOf]
  ext x
  constructor
  · intro hx
    rw [squareOf, region_eq_iUnion (partsOf_pos _) (stepOf_pos (k + 1))] at hx
    simp only [Set.mem_iUnion] at hx
    obtain ⟨d, hd, d', hd', hx⟩ := hx
    obtain ⟨ts, hts, hformed, hrow, hcolumn⟩ := exists_tail h hlength hk hd' hd
    refine ⟨_, _, (extension_codeOf h hlevel).mpr ⟨ts, rfl, by omega, hts, hformed, rfl⟩, ?_⟩
    rw [hpart, hrow, hcolumn]
    exact hx
  · intro hx
    obtain ⟨ext, b, hext, hx⟩ := hx
    obtain ⟨ts, -, -, -, -, rfl⟩ := (extension_codeOf h hlevel).mp hext
    rw [hpart] at hx
    have hdigits := part_digits (ds ++ ts) k
    refine (region_subset_iff (partsOf_pos _) (stepOf_pos (k + 1))).mpr ⟨?_, ?_⟩ hx
    · omega
    · omega

theorem separate_of_level (h : WellFormed ds) (hlevel : levelOf ds.length = k + 1)
    {ext other : String} {b b' : MeshBounds} (hext : Extension (codeOf ds) ext b)
    (hother : Extension (codeOf ds) other b') (hne : ext ≠ other) :
    Disjoint b.interior b'.interior := by
  obtain ⟨ts, rfl, -, hlength, hformed, rfl⟩ := (extension_codeOf h hlevel).mp hext
  obtain ⟨us, rfl, -, hlength', hformed', rfl⟩ := (extension_codeOf h hlevel).mp hother
  have hbase : ds.length = lengthOf (k + 1) := by rw [← hlevel, h.lengthOf_levelOf]
  have hsix : 6 ≤ ds.length := by
    rw [hbase]
    exact lengthOf_le (le_add_left 1 k)
  rw [squareOf, squareOf, disjoint_interior_iff (partsOf_pos _)]
  intro hsame
  obtain ⟨-, -, hdigits⟩ := same_digits hformed hformed' (Nat.le_of_eq hlength.symm)
    (Nat.le_of_eq hlength'.symm) hsame.1 hsame.2
  refine hne (congrArg codeOf (ext_digits (hlength.trans hlength'.symm) fun i hi => ?_))
  by_cases hi6 : 6 ≤ i
  · exact hdigits i hi6 (by omega)
  · rw [digitAt_append (by omega), digitAt_append (by omega)]

/-! ### Codes that do not partition -/

theorem renamed_square (h : WellFormed ds) (hlength : 6 ≤ ds.length) {lead : Digits}
    (hlead : lead.length = 6) (hrow : rowOf lead 1 = rowOf ds 1)
    (hcolumn : columnOf lead 1 = columnOf ds 1) (k : Nat) :
    WellFormed (lead ++ ds.drop 6) ∧ (lead ++ ds.drop 6).length = ds.length ∧
      squareOf (lead ++ ds.drop 6) (k + 1) = squareOf ds (k + 1) := by
  have hsame : ∀ i, 6 ≤ i → digitAt (lead ++ ds.drop 6) i = digitAt ds i := by
    intro i hi
    rw [digitAt, getElem?_append_right (by omega), getElem?_drop, hlead,
      Nat.add_sub_cancel' hi, digitAt]
  have hlen : (lead ++ ds.drop 6).length = ds.length := by
    rw [length_append, length_drop, hlead]
    omega
  have hrows : ∀ m, rowOf (lead ++ ds.drop 6) (m + 1) = rowOf ds (m + 1) ∧
      columnOf (lead ++ ds.drop 6) (m + 1) = columnOf ds (m + 1) := by
    intro m
    induction m with
    | zero =>
      have hfirst := @same_rows (lead ++ ds.drop 6) lead 1 fun i hi =>
        digitAt_append (hlead ▸ hi)
      exact ⟨hfirst.1.trans hrow, hfirst.2.trans hcolumn⟩
    | succ m ih =>
      have hdigits : rowDigit (lead ++ ds.drop 6) (m + 1) = rowDigit ds (m + 1) ∧
          columnDigit (lead ++ ds.drop 6) (m + 1) = columnDigit ds (m + 1) := by
        cases m with
        | zero => exact ⟨hsame 6 (by omega), hsame 7 (by omega)⟩
        | succ m =>
          have hlast := hsame (m + 8) (by omega)
          exact ⟨congrArg quadrantRow hlast, congrArg quadrantColumn hlast⟩
      rw [rowOf, ih.1, hdigits.1, columnOf, ih.2, hdigits.2]
      exact ⟨rfl, rfl⟩
  refine ⟨⟨by rw [hlen]; exact h.length, fun i hi hi' => ?_⟩, hlen, ?_⟩
  · rw [hsame i (by omega)]
    exact h.quadrants i hi (by omega)
  · rw [squareOf, (hrows k).1, (hrows k).2, squareOf]

theorem not_apart (h : WellFormed ds) (hlength : 6 ≤ ds.length) {lead : Digits}
    (hlead : lead.length = 6) (hrow : rowOf lead 1 = rowOf ds 1)
    (hcolumn : columnOf lead 1 = columnOf ds 1) {i : Nat} (hi : i < 6)
    (hdigit : digitAt lead i ≠ digitAt ds i) :
    ¬ Partitions (codeOf ds) (bounds (squareOf ds (levelOf ds.length))) := by
  intro hpart
  obtain ⟨k, hk, -⟩ := exists_level h hlength
  obtain ⟨hformed, hlen, hsquare⟩ := renamed_square h hlength hlead hrow hcolumn k
  have hne : codeOf (lead ++ ds.drop 6) ≠ codeOf ds := by
    intro heq
    have hsame : digitAt (lead ++ ds.drop 6) i = digitAt ds i := by rw [codeOf_inj heq]
    rw [digitAt_append (by omega)] at hsame
    exact hdigit hsame
  have hdisjoint := hpart.apart _ _ hne (by rw [byteLength_codeOf, byteLength_codeOf, hlen])
    (meshBounds_codeOf.mpr ⟨hformed, rfl⟩)
  rw [hlen, hk, hsquare, squareOf, disjoint_interior_iff (partsOf_pos _)] at hdisjoint
  exact hdisjoint ⟨rfl, rfl⟩

theorem not_covered (h : WellFormed ds) (hlength : ds.length = 4) :
    ¬ Partitions (codeOf ds) (bounds (squareOf ds (levelOf ds.length))) := by
  intro hpart
  have hlevel : levelOf ds.length = 0 := by rw [hlength]; rfl
  have hlen : (ds ++ [8, 0]).length = 6 := by rw [length_append, hlength]; rfl
  have hformed : WellFormed (ds ++ [8, 0]) := ⟨.inr (.inl hlen), fun i hi hi' => by omega⟩
  have hext : Extension (codeOf ds) _ _ := (extension_codeOf h hlevel).mpr
    ⟨[8, 0], rfl, by omega, hlen, hformed, rfl⟩
  have hcovered := hpart.covered (by rw [byteLength_codeOf, hlength]; decide)
  have hsubset : (bounds (squareOf (ds ++ [8, 0]) 1)).region ⊆
      (bounds (squareOf (ds ++ [8, 0]) 0)).region := by
    intro x hx
    have hmem : x ∈ {x | ∃ ext b, Extension (codeOf ds) ext b ∧ x ∈ b.region} := ⟨_, _, hext, hx⟩
    rw [← hcovered, hlevel] at hmem
    have hzero : lengthOf 0 ≤ ds.length := Nat.le_of_eq hlength.symm
    rw [squareOf_append hzero]
    exact hmem
  have hdigits := (within_first_iff _ 0).mp hsubset
  have height : digitAt (ds ++ [8, 0]) 4 = 8 := by
    rw [digitAt, getElem?_append_right (by omega), hlength]
    rfl
  omega

theorem fin_pair {n : Nat} (h : n < 100) : ∃ a b : Fin 10, a.val * 10 + b.val = n :=
  ⟨⟨n / 10, by omega⟩, ⟨n % 10, by omega⟩, by show n / 10 * 10 + n % 10 = n; omega⟩

theorem exists_fin (ds : Digits) (i : Nat) : ∃ d : Fin 10, d.val = digitAt ds i :=
  ⟨⟨digitAt ds i, digitAt_lt ds i⟩, rfl⟩

theorem proper_of_partitions (h : WellFormed ds)
    (hpart : Partitions (codeOf ds) (bounds (squareOf ds (levelOf ds.length)))) :
    Proper (codeOf ds) := by
  have hfour : ds.length ≠ 4 := fun hlength => not_covered h hlength hpart
  have hsix : 6 ≤ ds.length := by
    have hlength := h.length
    omega
  obtain ⟨k, hk, hlevel⟩ := exists_level h hsix
  -- The square lies in that of its first four digits.
  have hwithin : digitAt ds 5 < 8 ∧ digitAt ds 4 < 8 := by
    rw [← within_first_iff ds k, ← hk]
    have hsplit := take_append_drop 4 ds
    have htake : (ds.take 4).length = 4 := by
      rw [length_take]
      omega
    have hformed : WellFormed (ds.take 4) := ⟨.inl htake, fun i hi hi' => by omega⟩
    have hnested := hpart.nested (codeOf (ds.take 4)) (codeOf (ds.drop 4)) _
      (by rw [← codeOf_append, hsplit]) (meshBounds_codeOf.mpr ⟨hformed, rfl⟩)
    have hzero : levelOf (ds.take 4).length = 0 := by rw [htake]; rfl
    have hfirst : lengthOf 0 ≤ (ds.take 4).length := Nat.le_of_eq htake.symm
    rw [hzero, ← @squareOf_append _ _ (ds.drop 4) hfirst, hsplit] at hnested
    exact hnested
  obtain ⟨a, ha⟩ := exists_fin ds 0
  obtain ⟨b, hb⟩ := exists_fin ds 1
  obtain ⟨c, hc⟩ := exists_fin ds 2
  obtain ⟨d, hd⟩ := exists_fin ds 3
  obtain ⟨e, he⟩ := exists_fin ds 4
  obtain ⟨f, hf⟩ := exists_fin ds 5
  rw [proper_codeOf]
  refine ⟨hsix, ?_, ?_⟩
  · by_contra hunsettled
    have hlow : digitAt ds 4 < 2 ∧ rowOf ds 0 ≠ 0 := by
      rw [Settled] at hunsettled
      omega
    obtain ⟨a', b', hfirst⟩ : ∃ a' b' : Fin 10, a'.val * 10 + b'.val = rowOf ds 0 - 1 :=
      fin_pair (by rw [rowOf]; omega)
    refine @not_apart ds h hsix [a', b', c, d, ⟨e.val + 8, by omega⟩, f] rfl ?_ ?_ 4
      (by decide) ?_ hpart
    · show 8 * (a'.val * 10 + b'.val) + (e.val + 8) = 8 * rowOf ds 0 + digitAt ds 4
      omega
    · show 8 * (c.val * 10 + d.val) + f.val = 8 * (digitAt ds 2 * 10 + digitAt ds 3) + digitAt ds 5
      omega
    · show e.val + 8 ≠ digitAt ds 4
      omega
  · by_contra hunsettled
    have hlow : digitAt ds 5 < 2 ∧ columnOf ds 0 ≠ 0 := by
      rw [Settled] at hunsettled
      omega
    obtain ⟨c', d', hfirst⟩ : ∃ c' d' : Fin 10, c'.val * 10 + d'.val = columnOf ds 0 - 1 :=
      fin_pair (by rw [columnOf]; omega)
    refine @not_apart ds h hsix [a, b, c', d', e, ⟨f.val + 8, by omega⟩] rfl ?_ ?_ 5
      (by decide) ?_ hpart
    · show 8 * (a.val * 10 + b.val) + e.val = 8 * (digitAt ds 0 * 10 + digitAt ds 1) + digitAt ds 4
      omega
    · show 8 * (c'.val * 10 + d'.val) + (f.val + 8) = 8 * columnOf ds 0 + digitAt ds 5
      omega
    · show f.val + 8 ≠ digitAt ds 5
      omega

end Partitions

/-- The squares of the accepted codes partition each other exactly around the proper ones. -/
theorem meshBounds_partitions {code : String} {b : MeshBounds} (h : meshBounds code = .ok b) :
    Partitions code b ↔ Proper code := by
  obtain ⟨ds, rfl⟩ := exists_digits h
  obtain ⟨hformed, rfl⟩ := meshBounds_codeOf.mp h
  constructor
  · exact proper_of_partitions hformed
  · intro hproper
    obtain ⟨k, hk, -⟩ := exists_level hformed (proper_codeOf.mp hproper).1
    refine ⟨?_, ?_, ?_, ?_⟩
    · intro other b' hne hlength hother
      obtain ⟨es, rfl⟩ := exists_digits hother
      obtain ⟨hother', rfl⟩ := meshBounds_codeOf.mp hother
      rw [byteLength_codeOf, byteLength_codeOf] at hlength
      exact apart_of_proper hformed hproper hother' hlength fun heq => hne (congrArg codeOf heq)
    · intro lead tail b' hcode hlead
      obtain ⟨es, rfl⟩ := exists_digits hlead
      obtain ⟨hlead', rfl⟩ := meshBounds_codeOf.mp hlead
      obtain ⟨ts, rfl⟩ := exists_append hcode
      exact nested_of_proper hformed hlead' hproper
    · intro hnext
      rw [byteLength_codeOf] at hnext
      rw [hk]
      exact covered_of_level hformed hk hnext
    · intro ext b' other b'' hext hother hne
      exact separate_of_level hformed hk hext hother hne

theorem wellFormed_six {ds : Digits} (h : ds.length = 6) : WellFormed ds :=
  ⟨.inr (.inl h), fun i hi hi' => by omega⟩

theorem meshBounds_partitions_nagoya :
    ∃ b, meshBounds "533945" = .ok b ∧ Partitions "533945" b := by
  have h : meshBounds (codeOf [5, 3, 3, 9, 4, 5]) = .ok _ :=
    meshBounds_codeOf.mpr ⟨wellFormed_six rfl, rfl⟩
  refine ⟨_, h, (meshBounds_partitions h).mpr (proper_codeOf.mpr ⟨?_, ?_, ?_⟩)⟩
  · exact le_refl 6
  · exact .inl (by decide)
  · exact .inl (by decide)

/-- Two codes of one square, of which one does not lie in the square that it begins with. -/
theorem meshBounds_overlap : ∃ b first, meshBounds "533980" = .ok b ∧
    meshBounds "543900" = .ok b ∧ meshBounds "5339" = .ok first ∧
    ¬ Disjoint b.interior b.interior ∧ ¬ b.region ⊆ first.region ∧ ¬ Partitions "533980" b := by
  have h : meshBounds (codeOf [5, 3, 3, 9, 8, 0]) = .ok (bounds (squareOf [5, 3, 3, 9, 8, 0] 1)) :=
    meshBounds_codeOf.mpr ⟨wellFormed_six rfl, rfl⟩
  have hother : meshBounds (codeOf [5, 4, 3, 9, 0, 0]) =
      .ok (bounds (squareOf [5, 3, 3, 9, 8, 0] 1)) :=
    meshBounds_codeOf.mpr ⟨wellFormed_six rfl, rfl⟩
  have hfirst : meshBounds (codeOf [5, 3, 3, 9]) = .ok (bounds (squareOf [5, 3, 3, 9, 8, 0] 0)) :=
    meshBounds_codeOf.mpr ⟨⟨.inl rfl, fun i hi hi' => absurd (hi.trans_lt hi') (by decide)⟩, rfl⟩
  have hdisjoint : ¬ Disjoint (bounds (squareOf [5, 3, 3, 9, 8, 0] 1)).interior
      (bounds (squareOf [5, 3, 3, 9, 8, 0] 1)).interior := by
    rw [squareOf, disjoint_interior_iff (partsOf_pos _)]
    exact not_not.mpr ⟨rfl, rfl⟩
  refine ⟨_, _, h, hother, hfirst, hdisjoint, ?_, ?_⟩
  · rw [within_first_iff]
    decide
  · intro hpart
    exact hdisjoint (hpart.apart "543900" _ (by decide) rfl hother)

end GeneGIS.Toolkit.Mesh
