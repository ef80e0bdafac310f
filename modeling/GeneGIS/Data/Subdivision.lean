/-
A cell is cut into equally wide ones, which are numbered on from its beginning.
-/
import Mathlib.Order.CompletePartialOrder
import Mathlib.Algebra.Order.Field.Basic
import Mathlib.Algebra.Order.Floor.Semiring
import Mathlib.Tactic.FieldSimp
import Mathlib.Tactic.Linarith

namespace GeneGIS.Subdivision

open Nat Set

variable {K : Type} [Field K] [LinearOrder K] [IsStrictOrderedRing K] {o w : K} {i j n : Nat}

def cell (o w : K) (i : Nat) : Set K := Set.Icc (o + i * w) (o + (i + 1) * w)

def openCell (o w : K) (i : Nat) : Set K := Ioo (o + i * w) (o + (i + 1) * w)

theorem le_of_overlap (hw : 0 < w) {x : K} (hx : x ∈ openCell o w i) (hy : x ∈ openCell o w j) :
    i ≤ j := by
  have hlt : (i : K) * w < (j + 1) * w := by
    have hlow := hx.1
    have hhigh := hy.2
    linarith
  have hcast : (i : K) < ((j + 1 : Nat) : K) := by
    rw [cast_add, cast_one]
    exact lt_of_mul_lt_mul_right hlt hw.le
  exact Nat.lt_succ_iff.mp (Nat.cast_lt.mp hcast)

theorem openCell_nonempty (hw : 0 < w) (i : Nat) : (openCell o w i).Nonempty := by
  rw [openCell, nonempty_Ioo]
  have hstep : ((i : K) + 1) * w = i * w + w := by rw [add_mul, one_mul]
  rw [hstep]
  linarith

theorem openCell_disjoint_iff (hw : 0 < w) :
    Disjoint (openCell o w i) (openCell o w j) ↔ i ≠ j := by
  constructor
  · intro h hij
    rw [hij, disjoint_self] at h
    exact (openCell_nonempty hw j).ne_empty h
  · intro hij
    rw [disjoint_left]
    intro x hx hy
    exact hij (le_antisymm (le_of_overlap hw hx hy) (le_of_overlap hw hy hx))

/-! ## Cells of a cell -/

theorem scaled (hn : 0 < n) (i : Nat) : (i : K) * w = ((n * i : Nat) : K) * (w / n) := by
  have hne : (n : K) ≠ 0 := cast_ne_zero.mpr hn.ne'
  rw [cast_mul]
  field_simp

theorem scaled_succ (hn : 0 < n) (i : Nat) :
    ((i : K) + 1) * w = ((n * i + n : Nat) : K) * (w / n) := by
  have hcast : ((i : K) + 1) = ((i + 1 : Nat) : K) := by rw [cast_add, cast_one]
  rw [hcast, scaled hn, mul_succ]

theorem cell_subset_iff (hn : 0 < n) (hw : 0 < w) :
    cell o (w / n) j ⊆ cell o w i ↔ n * i ≤ j ∧ j < n * i + n := by
  have hpart : 0 < w / n := div_pos hw (cast_pos.mpr hn)
  have hnonempty : o + (j : K) * (w / n) ≤ o + ((j : K) + 1) * (w / n) := by
    rw [add_mul, one_mul]
    linarith
  have hsucc : (j : K) + 1 = ((j + 1 : Nat) : K) := by rw [cast_add, cast_one]
  rw [cell, cell, Icc_subset_Icc_iff hnonempty, scaled hn i, scaled_succ hn i, hsucc,
    add_le_add_iff_left, add_le_add_iff_left, mul_le_mul_iff_left₀ hpart,
    mul_le_mul_iff_left₀ hpart, Nat.cast_le, Nat.cast_le, succ_le_iff]

theorem exists_part (hn : 0 < n) (hw : 0 < w) {x : K} [FloorSemiring K] (hx : x ∈ cell o w i) :
    ∃ d < n, x ∈ cell o (w / n) (n * i + d) := by
  have hpart : 0 < w / n := div_pos hw (cast_pos.mpr hn)
  have hlow : 0 ≤ (x - (o + i * w)) / (w / n) :=
    div_nonneg (by have h := hx.1; linarith) hpart.le
  obtain ⟨d, hd⟩ : ∃ d, d = ⌊(x - (o + i * w)) / (w / n)⌋₊ := ⟨_, rfl⟩
  have hdlow : (d : K) * (w / n) ≤ x - (o + i * w) := by
    rw [← le_div_iff₀ hpart, hd]
    exact floor_le hlow
  have hdhigh : x - (o + i * w) < ((d : K) + 1) * (w / n) := by
    rw [← div_lt_iff₀ hpart, hd]
    exact lt_floor_add_one _
  have hstart := scaled (w := w) hn i
  by_cases hlast : d < n
  · refine ⟨d, hlast, ?_, ?_⟩
    · rw [cast_add, add_mul, ← hstart]
      linarith
    · rw [cast_add, add_assoc, add_mul, ← hstart]
      linarith
  · -- The last point of the cell lies in the last part.
    have hend := hx.2
    have hwhole : (n : K) * (w / n) = w := mul_div_cancel₀ w (cast_ne_zero.mpr hn.ne')
    have hdn : (n : K) * (w / n) ≤ d * (w / n) :=
      mul_le_mul_of_nonneg_right (Nat.cast_le.mpr (Nat.le_of_not_lt hlast)) hpart.le
    have hx' : x = o + (i * w + w) := by
      rw [add_mul, one_mul] at hend
      linarith
    refine ⟨n - 1, by omega, ?_⟩
    have hcast : ((n * i + (n - 1) : Nat) : K) + 1 = ((n * i + n : Nat) : K) := by
      rw [← cast_succ]
      congr 1
      omega
    have hlastEnd : (((n * i + (n - 1) : Nat) : K) + 1) * (w / n) = i * w + w := by
      rw [hcast, ← scaled_succ hn, add_mul, one_mul]
    rw [cell, hlastEnd, hx']
    refine ⟨?_, le_refl _⟩
    rw [add_mul, one_mul] at hlastEnd
    linarith

theorem cell_eq_iUnion [FloorSemiring K] (hn : 0 < n) (hw : 0 < w) :
    cell o w i = ⋃ d < n, cell o (w / n) (n * i + d) := by
  refine Subset.antisymm ?_ ?_
  · intro x hx
    obtain ⟨d, hd, hmem⟩ := exists_part hn hw hx
    exact mem_iUnion₂.mpr ⟨d, hd, hmem⟩
  · refine iUnion₂_subset fun d hd => ?_
    exact (cell_subset_iff hn hw).mpr ⟨le_add_right _ _, by omega⟩

section

variable {o' w' : K} {i' j' : Nat}

theorem openBlock_disjoint_iff (hw : 0 < w) (hw' : 0 < w') :
    Disjoint (openCell o w i ×ˢ openCell o' w' i') (openCell o w j ×ˢ openCell o' w' j') ↔
      ¬ (i = j ∧ i' = j') := by
  rw [disjoint_prod, openCell_disjoint_iff hw, openCell_disjoint_iff hw']
  omega

theorem block_subset_iff (hn : 0 < n) (hw : 0 < w) (hw' : 0 < w') :
    cell o (w / n) j ×ˢ cell o' (w' / n) j' ⊆ cell o w i ×ˢ cell o' w' i' ↔
      (n * i ≤ j ∧ j < n * i + n) ∧ n * i' ≤ j' ∧ j' < n * i' + n := by
  have hpart : 0 < w / n := div_pos hw (cast_pos.mpr hn)
  have hpart' : 0 < w' / n := div_pos hw' (cast_pos.mpr hn)
  have hne : (cell o (w / n) j ×ˢ cell o' (w' / n) j').Nonempty :=
    ((openCell_nonempty hpart j).mono Ioo_subset_Icc_self).prod
      ((openCell_nonempty hpart' j').mono Ioo_subset_Icc_self)
  rw [prod_subset_prod_iff' hne, cell_subset_iff hn hw, cell_subset_iff hn hw']

theorem block_eq_iUnion [FloorSemiring K] (hn : 0 < n) (hw : 0 < w) (hw' : 0 < w') :
    cell o w i ×ˢ cell o' w' i' =
      ⋃ d < n, ⋃ d' < n, cell o (w / n) (n * i + d) ×ˢ cell o' (w' / n) (n * i' + d') := by
  ext x
  rw [mem_prod, cell_eq_iUnion hn hw, cell_eq_iUnion hn hw']
  simp only [mem_iUnion, mem_prod, exists_prop]
  constructor
  · intro h
    obtain ⟨⟨d, hd, hx⟩, d', hd', hx'⟩ := h
    exact ⟨d, hd, d', hd', hx, hx'⟩
  · intro h
    obtain ⟨d, hd, d', hd', hx, hx'⟩ := h
    exact ⟨⟨d, hd, hx⟩, d', hd', hx'⟩

end

end GeneGIS.Subdivision
