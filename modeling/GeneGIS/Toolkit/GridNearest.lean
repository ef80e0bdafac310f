/-
What a search has not seen is more rings away along one axis than were searched.  The point may lie
outside the grid; on the side of the item it lies in its cell.
-/
import GeneGIS.Toolkit.GridQuery
import Mathlib.Analysis.Real.Sqrt

namespace GeneGIS.Toolkit

open Arithmetic Nat BoundingBox
open List hiding any_eq_true getElem?_eq_some_iff
open Option hiding any_eq_true or_assoc
open Exact (finite)

noncomputable instance : SquareRoot (Exact ℝ) where
  sqrt
    | .finite a => if a < 0 then .nan else .finite (Real.sqrt a)
    | .infinity s => if s then .nan else .infinity s
    | .nan => .nan

def BoundingBox.exact (b : BoundingBox ℝ) : BoundingBox (Exact ℝ) where
  minX := .finite b.minX
  minY := .finite b.minY
  maxX := .finite b.maxX
  maxY := .finite b.maxY

def BoundingBox.region (b : BoundingBox ℝ) : Set (ℝ × ℝ) :=
  { p | (b.minX ≤ p.1 ∧ p.1 ≤ b.maxX) ∧ b.minY ≤ p.2 ∧ p.2 ≤ b.maxY }

variable (p q : ℝ × ℝ)

noncomputable def planeDistance : ℝ := Real.sqrt ((p.1 - q.1) ^ 2 + (p.2 - q.2) ^ 2)

theorem abs_fst_le_planeDistance : |p.1 - q.1| ≤ planeDistance p q := by
  rw [planeDistance, ← Real.sqrt_sq_eq_abs]
  exact Real.sqrt_le_sqrt (le_add_of_nonneg_right (sq_nonneg _))

theorem abs_snd_le_planeDistance : |p.2 - q.2| ≤ planeDistance p q := by
  rw [planeDistance, ← Real.sqrt_sq_eq_abs]
  exact Real.sqrt_le_sqrt (le_add_of_nonneg_left (sq_nonneg _))

/-! ### Operations on finite numbers -/

namespace Exact

variable (a b : ℝ)

theorem lt_finite : lt (finite a) (.finite b) = decide (a < b) := by
  show (decide (a ≤ b) && !decide (b ≤ a)) = decide (a < b)
  rw [← decide_not, ← Bool.decide_and, decide_eq_decide]
  exact lt_iff_le_not_ge.symm

theorem max_finite : max (finite a) (.finite b) = .finite (a ⊔ b) := by
  show (if lt (finite a) (.finite b) = true then finite b else .finite a) = _
  rw [lt_finite]
  by_cases h : a < b
  · rw [if_pos (decide_eq_true h), sup_eq_right.mpr h.le]
  · rw [if_neg (by rw [decide_eq_true_eq]; exact h), sup_eq_left.mpr (not_lt.mp h)]

theorem min_finite : min (finite a) (.finite b) = .finite (a ⊓ b) := by
  show (if lt (finite b) (.finite a) = true then finite b else .finite a) = _
  rw [lt_finite]
  by_cases h : b < a
  · rw [if_pos (decide_eq_true h), inf_eq_right.mpr h.le]
  · rw [if_neg (by rw [decide_eq_true_eq]; exact h), inf_eq_left.mpr (not_lt.mp h)]

theorem sub_finite : sub (finite a) (.finite b) = .finite (a - b) := by
  show finite (a + -b) = _
  rw [sub_eq_add_neg]

theorem mul_finite : mul (finite a) (.finite b) = .finite (a * b) := rfl

theorem div_finite {a b : ℝ} (h : b ≠ 0) : div (finite a) (.finite b) = .finite (a / b) := if_neg h

theorem floor_finite (a : ℝ) : floor (finite a) = .finite (⌊a⌋ : ℝ) := rfl

theorem ofNat_eq (n : Nat) : (ofNat n : Exact ℝ) = .finite (n : ℝ) := rfl

theorem sqrt_finite {a : ℝ} (h : 0 ≤ a) :
    SquareRoot.sqrt (finite a) = .finite (Real.sqrt a) := if_neg (not_lt.mpr h)

end Exact

namespace GridIndex

theorem extend_exact (e b : BoundingBox ℝ) : ∃ e' : BoundingBox ℝ,
    extend e.exact b.exact = e'.exact :=
  ⟨⟨e.minX ⊓ b.minX, e.minY ⊓ b.minY, e.maxX ⊔ b.maxX, e.maxY ⊔ b.maxY⟩, by
    simp only [extend, exact, Exact.min_finite, Exact.max_finite]⟩

variable (boxes : List (BoundingBox ℝ))

theorem foldl_exact (e : BoundingBox ℝ) :
    ∃ e' : BoundingBox ℝ, (boxes.map exact).foldl extend e.exact = e'.exact := by
  induction boxes generalizing e with
  | nil => exact ⟨e, rfl⟩
  | cons b boxes ih =>
    obtain ⟨e', he⟩ := extend_exact e b
    rw [map_cons, foldl_cons, he]
    exact ih e'

theorem extentOf_exact : ∃ e : BoundingBox ℝ, extentOf (boxes.map exact) = e.exact := by
  cases boxes with
  | nil => exact ⟨⟨(0 : Nat), (0 : Nat), (1 : Nat), (1 : Nat)⟩, rfl⟩
  | cons b boxes =>
    have hfirst : extend ⟨infinity false, infinity false, infinity true, infinity true⟩ b.exact =
        b.exact := rfl
    obtain ⟨e, he⟩ := foldl_exact boxes b
    refine ⟨e, ?_⟩
    rw [extentOf, map_cons, isEmpty_cons, if_neg Bool.false_ne_true, foldl_cons, hfirst, he]

/-- The grid has a finite corner and cells of a positive size. -/
structure Sized (index : GridIndex (Exact ℝ)) (corner : ℝ × ℝ) (size : ℝ) : Prop where
  origin : index.origin = (.finite corner.1, .finite corner.2)
  cell : index.cell = .finite size
  pos : 0 < size
  columns : index.columns ≤ 4096
  rows : index.rows ≤ 4096

variable (target : Nat)

theorem empty_cell (e : BoundingBox ℝ) (he : extentOf (boxes.map exact) = e.exact) :
    ∃ size : ℝ, 0 < size ∧ (empty (boxes.map exact) target).cell = .finite size := by
  have hside (a : ℝ) : 0 < a ⊔ 1 / 2 ^ 52 := lt_max_of_lt_right (by positivity)
  have hwidth := hside (e.maxX - e.minX)
  have hheight := hside (e.maxY - e.minY)
  have htarget (n : Nat) : (0 : ℝ) < ((clampNat n 1 (2 ^ 20) : Nat) : ℝ) :=
    cast_pos.mpr (clampNat_bounds (by decide)).1
  have hepsilon : (epsilon : Exact ℝ) = .finite (1 / 2 ^ 52) := rfl
  have hlimit : (0 : ℝ) < ((4096 : Nat) : ℝ) := by norm_num
  unfold empty
  dsimp only
  rw [he]
  simp only [exact]
  rw [Exact.sub_finite, Exact.sub_finite, hepsilon, Exact.max_finite, Exact.max_finite,
    Exact.mul_finite, Exact.ofNat_eq, Exact.div_finite (htarget _).ne',
    Exact.sqrt_finite (div_nonneg (mul_pos hwidth hheight).le (htarget _).le), Exact.ofNat_eq,
    Exact.max_finite, Exact.div_finite hlimit.ne', Exact.max_finite]
  exact ⟨_, lt_max_of_lt_right (div_pos (lt_max_of_lt_left hwidth) hlimit), rfl⟩

theorem empty_sized :
    ∃ corner size, Sized (empty (boxes.map exact) target) corner size := by
  obtain ⟨e, he⟩ := extentOf_exact boxes
  obtain ⟨size, hsize, hcell⟩ := empty_cell boxes target e he
  have horigin : (empty (boxes.map exact) target).origin =
      (.finite e.minX, .finite e.minY) := by
    rw [empty, he]
    rfl
  exact ⟨(e.minX, e.minY), size, horigin, hcell, hsize, (clampNat_bounds (by decide)).2,
    (clampNat_bounds (by decide)).2⟩

theorem build_sized :
    ∃ corner size, Sized (build (boxes.map exact) target) corner size := by
  obtain ⟨corner, size, h⟩ := empty_sized boxes target
  have hsame := build_same (boxes.map exact) target
  exact ⟨corner, size, hsame.origin.trans h.origin, hsame.cell.trans h.cell, h.pos,
    hsame.columns.le.trans h.columns, hsame.rows.le.trans h.rows⟩

/-! ## The cell of a coordinate -/

theorem slot_finite {origin size : ℝ} (hsize : 0 < size) (x : ℝ) :
    slot (finite origin) (.finite size) (.finite x) =
      Min.min usizeMax ⌊(x - origin) / size⌋.toNat := by
  rw [slot, Exact.sub_finite, Exact.div_finite hsize.ne', Exact.floor_finite, Exact.ofNat_eq,
    Exact.max_finite]
  show Min.min usizeMax ⌊((⌊(x - origin) / size⌋ : ℝ) ⊔ ((0 : Nat) : ℝ))⌋.toNat = _
  congr 1
  rw [cast_zero, ← Int.cast_zero, ← Int.cast_max, Int.floor_intCast]
  omega

theorem slot_finite_mono {origin size x y : ℝ} (hsize : 0 < size) (h : x ≤ y) :
    slot (finite origin) (.finite size) (.finite x) ≤
      slot (finite origin) (.finite size) (.finite y) := by
  rw [slot_finite hsize, slot_finite hsize]
  have hfloor : ⌊(x - origin) / size⌋ ≤ ⌊(y - origin) / size⌋ :=
    Int.floor_le_floor (div_le_div_of_nonneg_right (sub_le_sub_right h origin) hsize.le)
  exact min_le_min_left _ (Int.toNat_le_toNat hfloor)

theorem le_of_slot {origin size x : ℝ} (hsize : 0 < size) {k : Nat} (hk : 0 < k)
    (h : k ≤ slot (finite origin) (.finite size) (.finite x)) : k * size ≤ x - origin := by
  rw [slot_finite hsize] at h
  have hfloor : (k : Int) ≤ ⌊(x - origin) / size⌋ := by omega
  have hle : ((k : Int) : ℝ) ≤ (x - origin) / size := Int.le_floor.mp hfloor
  rw [Int.cast_natCast, le_div_iff₀ hsize] at hle
  exact hle

theorem lt_of_slot {origin size x : ℝ} (hsize : 0 < size) {k : Nat} (hk : k < usizeMax)
    (h : slot (finite origin) (.finite size) (.finite x) ≤ k) :
    x - origin < (k + 1) * size := by
  rw [slot_finite hsize] at h
  have hfloor : ⌊(x - origin) / size⌋ < (k + 1 : Int) := by omega
  have hlt : (x - origin) / size < ((k + 1 : Int) : ℝ) := Int.floor_lt.mp hfloor
  rw [div_lt_iff₀ hsize] at hlt
  push_cast at hlt
  exact hlt

theorem far_of_cell {origin size x y : ℝ} (hsize : 0 < size) {last ring : Nat}
    (hlast : last < usizeMax)
    (h : Min.min (slot (finite origin) (.finite size) (.finite x)) last + ring <
      Min.min (slot (finite origin) (.finite size) (.finite y)) last) :
    ring * size < y - x := by
  generalize hj : slot (finite origin) (.finite size) (.finite x) = j at h
  generalize hk : Min.min (slot (finite origin) (.finite size) (.finite y)) last = k at h
  have hjk : j + ring + 1 ≤ k := by omega
  have hfirst : x - origin < (j + 1) * size := lt_of_slot hsize (by omega) hj.le
  have hsecond : k * size ≤ y - origin := le_of_slot hsize (by omega) (by omega)
  have hcells : ((j + ring + 1 : Nat) : ℝ) * size ≤ k * size :=
    mul_le_mul_of_nonneg_right (cast_le.mpr hjk) hsize.le
  push_cast at hcells
  linarith

section

variable {index : GridIndex (Exact ℝ)} {corner : ℝ × ℝ} {size : ℝ}

theorem Sized.clampCol_eq (h : Sized index corner size) (x : ℝ) : index.clampCol (.finite x) =
    Min.min (slot (finite corner.1) (.finite size) (.finite x)) (index.columns - 1) := by
  rw [clampCol, h.origin, h.cell]

theorem Sized.clampRow_eq (h : Sized index corner size) (y : ℝ) : index.clampRow (.finite y) =
    Min.min (slot (finite corner.2) (.finite size) (.finite y)) (index.rows - 1) := by
  rw [clampRow, h.origin, h.cell]

variable {x y : ℝ}

theorem Sized.clampCol_mono (h : Sized index corner size) (hxy : x ≤ y) :
    index.clampCol (.finite x) ≤ index.clampCol (.finite y) := by
  rw [h.clampCol_eq, h.clampCol_eq]
  exact min_le_min_right _ (slot_finite_mono h.pos hxy)

theorem Sized.clampRow_mono (h : Sized index corner size) (hxy : x ≤ y) :
    index.clampRow (.finite x) ≤ index.clampRow (.finite y) := by
  rw [h.clampRow_eq, h.clampRow_eq]
  exact min_le_min_right _ (slot_finite_mono h.pos hxy)

theorem Sized.far_col (h : Sized index corner size) {ring : Nat}
    (hcells : index.clampCol (.finite x) + ring < index.clampCol (.finite y)) :
    ring * size < y - x := by
  have hlast := h.columns
  have hmax : usizeMax = 2 ^ 64 - 1 := rfl
  rw [h.clampCol_eq, h.clampCol_eq] at hcells
  exact far_of_cell h.pos (by omega) hcells

theorem Sized.far_row (h : Sized index corner size) {ring : Nat}
    (hcells : index.clampRow (.finite x) + ring < index.clampRow (.finite y)) :
    ring * size < y - x := by
  have hlast := h.rows
  have hmax : usizeMax = 2 ^ 64 - 1 := rfl
  rw [h.clampRow_eq, h.clampRow_eq] at hcells
  exact far_of_cell h.pos (by omega) hcells

theorem apart_of_disjoint {a b : CellRange} (hac : a.c0 ≤ a.c1) (har : a.r0 ≤ a.r1)
    (hbc : b.c0 ≤ b.c1) (hbr : b.r0 ≤ b.r1) (h : ∀ cell ∈ a.cells, cell ∉ b.cells) :
    a.c1 < b.c0 ∨ b.c1 < a.c0 ∨ a.r1 < b.r0 ∨ b.r1 < a.r0 := by
  by_contra hnot
  refine h (Max.max a.c0 b.c0, Max.max a.r0 b.r0) ?_ ?_
  · exact CellRange.mem_cells.mpr (by omega)
  · exact CellRange.mem_cells.mpr (by omega)

theorem Sized.far_of_outside (h : Sized index corner size) (hformed : index.Formed)
    {b : BoundingBox ℝ} {point q : ℝ × ℝ} (hq : q ∈ b.region) {ring : Nat}
    (hout : ∀ cell ∈ (index.cellRange b.exact).cells,
      cell ∉ (index.square (index.clampCol (.finite point.1)) (index.clampRow (.finite point.2))
        ring).cells) : ring * size < planeDistance point q := by
  obtain ⟨⟨hminx, hmaxx⟩, hminy, hmaxy⟩ := hq
  have hcolumns := hformed.columns_pos
  have hrows := hformed.rows_pos
  have hcol := h.clampCol_eq point.1
  have hrow := h.clampRow_eq point.2
  have hx := (le_abs_self (point.1 - q.1)).trans (abs_fst_le_planeDistance point q)
  have hx' := (neg_le_abs (point.1 - q.1)).trans (abs_fst_le_planeDistance point q)
  have hy := (le_abs_self (point.2 - q.2)).trans (abs_snd_le_planeDistance point q)
  have hy' := (neg_le_abs (point.2 - q.2)).trans (abs_snd_le_planeDistance point q)
  have hlast : index.clampCol (.finite b.minX) ≤ index.columns - 1 := min_le_right _ _
  have hlast' : index.clampRow (.finite b.minY) ≤ index.rows - 1 := min_le_right _ _
  have hapart := apart_of_disjoint (a := index.cellRange b.exact)
    (h.clampCol_mono (hminx.trans hmaxx)) (h.clampRow_mono (hminy.trans hmaxy))
    (by show _ - _ ≤ Min.min _ _; omega) (by show _ - _ ≤ Min.min _ _; omega) hout
  rcases hapart with hleft | hright | hbelow | habove
  · have hfar : ring * size < point.1 - b.maxX := h.far_col (add_lt_of_lt_sub hleft)
    linarith
  · have hfar : ring * size < b.minX - point.1 := h.far_col (by
      have hlt : Min.min (index.clampCol (.finite point.1) + ring) (index.columns - 1) <
        index.clampCol (.finite b.minX) := hright
      omega)
    linarith
  · have hfar : ring * size < point.2 - b.maxY := h.far_row (add_lt_of_lt_sub hbelow)
    linarith
  · have hfar : ring * size < b.minY - point.2 := h.far_row (by
      have hlt : Min.min (index.clampRow (.finite point.2) + ring) (index.rows - 1) <
        index.clampRow (.finite b.minY) := habove
      omega)
    linarith

end

/-- The best item so far, among the items seen. -/
structure Search.Sound (s : Search (Exact ℝ)) (n : Nat) (distance : Nat → ℝ) : Prop where
  length : s.seen.length = n
  best : ∀ k d, s.best = some (k, d) → k < n ∧ d = .finite (distance k)
  least : ∀ i, s.seen.getD i false = true →
    ∃ k, s.best = some (k, .finite (distance k)) ∧ distance k ≤ distance i

section

variable {n : Nat} {distance : Nat → ℝ} {s : Search (Exact ℝ)}

theorem seen_meet (hs : s.Sound n distance) {i : Nat} (hi : i < n) (j : Nat) :
    (meet (fun i => .finite (distance i)) s i).seen.getD j false = true ↔
      s.seen.getD j false = true ∨ j = i := by
  rw [meet]
  by_cases hseen : s.seen.getD i false = true
  · rw [if_pos hseen]
    constructor
    · exact .inl
    · intro h
      rcases h with h | rfl
      · exact h
      · exact hseen
  · rw [if_neg hseen]
    show (s.seen.set i true).getD j false = true ↔ _
    rw [getD_eq_getElem?_getD, getElem?_set, getD_eq_getElem?_getD, hs.length]
    by_cases hij : i = j
    · subst hij
      rw [if_pos rfl, if_pos hi]
      simp
    · rw [if_neg hij]
      have hji : j ≠ i := fun h => hij h.symm
      simp [hji]

theorem meet_sound (hs : s.Sound n distance) {i : Nat} (hi : i < n) :
    (meet (fun i => .finite (distance i)) s i).Sound n distance := by
  have hseen := seen_meet hs hi
  rw [meet] at hseen ⊢
  by_cases hold : s.seen.getD i false = true
  · rw [if_pos hold]
    exact hs
  · rw [if_neg hold] at hseen ⊢
    refine ⟨(length_set).trans hs.length, ?_, ?_⟩
    · intro k d hbest
      dsimp only at hbest
      split at hbest
      · cases hbest
        exact ⟨hi, rfl⟩
      · exact hs.best k d hbest
    · intro j hj
      have hcases := (hseen j).mp hj
      dsimp only
      cases hbest : s.best with
      | none =>
        rw [all_none, if_pos rfl]
        refine ⟨i, rfl, ?_⟩
        rcases hcases with h | rfl
        · obtain ⟨k, hk, -⟩ := hs.least j h
          rw [hbest] at hk
          cases hk
        · exact le_refl _
      | some b =>
        obtain ⟨k, d⟩ := b
        obtain ⟨-, rfl⟩ := hs.best k d hbest
        rw [all_some]
        have hlt : lt (finite (distance i)) (finite (distance k)) =
          decide (distance i < distance k) := Exact.lt_finite _ _
        rw [hlt]
        by_cases hcloser : distance i < distance k
        · rw [if_pos (decide_eq_true hcloser)]
          refine ⟨i, rfl, ?_⟩
          rcases hcases with h | rfl
          · obtain ⟨k', hk', hle⟩ := hs.least j h
            rw [hbest] at hk'
            cases hk'
            exact hcloser.le.trans hle
          · exact le_refl _
        · rw [if_neg (by rw [decide_eq_true_eq]; exact hcloser)]
          refine ⟨k, rfl, ?_⟩
          rcases hcases with h | rfl
          · obtain ⟨k', hk', hle⟩ := hs.least j h
            rw [hbest] at hk'
            cases hk'
            exact hle
          · exact not_lt.mp hcloser

theorem meetAll {items : List Nat} (hs : s.Sound n distance) (hitems : ∀ i ∈ items, i < n) :
    (items.foldl (meet fun i => .finite (distance i)) s).Sound n distance ∧
      ∀ j, (items.foldl (meet fun i => .finite (distance i)) s).seen.getD j false = true ↔
        s.seen.getD j false = true ∨ j ∈ items := by
  induction items generalizing s with
  | nil => exact ⟨hs, fun j => by simp⟩
  | cons i items ih =>
    have hi := hitems i mem_cons_self
    obtain ⟨hsound, hseen⟩ := ih (meet_sound hs hi) fun j hj =>
      hitems j (mem_cons_of_mem _ hj)
    refine ⟨hsound, fun j => ?_⟩
    rw [foldl_cons, hseen, seen_meet hs hi, mem_cons, or_assoc]

end

/-! ## The rings -/

theorem mem_square_pred {F : Type} {index : GridIndex F} {pc pr ring : Nat} {cell : Nat × Nat}
    (hpc : pc < index.columns) (hpr : pr < index.rows)
    (h : cell ∈ (index.square pc pr ring).cells)
    (hinner : (index.square pc pr ring).onRing cell = false) :
    ∃ before, before < ring ∧ cell ∈ (index.square pc pr before).cells := by
  have hcell := CellRange.mem_cells.mp h
  simp only [CellRange.onRing, square, Bool.or_eq_false_iff, beq_eq_false_iff_ne] at hinner hcell
  have hring : ring ≠ 0 := by
    intro hzero
    omega
  refine ⟨ring - 1, by omega, CellRange.mem_cells.mpr ?_⟩
  simp only [square]
  omega

theorem square_holds {F : Type} {index : GridIndex F} (hcolumns : 0 < index.columns)
    (hrows : 0 < index.rows) {pc pr ring : Nat} {cell : Nat × Nat}
    (h : cell ∈ (index.square pc pr ring).cells) : index.Holds cell := by
  have hcell := CellRange.mem_cells.mp h
  simp only [square] at hcell
  exact ⟨by omega, by omega⟩

/-- The items at the cells of a grid are the items of a list of boxes. -/
structure Indexes (index : GridIndex (Exact ℝ)) (boxes : List (BoundingBox ℝ)) : Prop where
  formed : index.Formed
  bound : ∀ cell, index.Holds cell → ∀ i ∈ index.itemsAt cell, i < boxes.length
  registered : ∀ i b cell, boxes[i]? = some b → cell ∈ (index.cellRange b.exact).cells →
    i ∈ index.itemsAt cell

theorem build_indexes : Indexes (build (boxes.map exact) target) boxes := by
  have hformed := build_formed (boxes.map exact) target
  refine ⟨hformed, ?_, ?_⟩
  · intro cell hcell i hi
    obtain ⟨b, hb, -⟩ := (mem_itemsAt_build _ target hcell).mp hi
    have hlt := (getElem?_eq_some_iff.mp hb).1
    rwa [length_map] at hlt
  · intro i b cell hb hrange
    refine (mem_itemsAt_build _ target (holds_of_mem hformed hrange)).mpr ⟨b.exact, ?_, hrange⟩
    rw [getElem?_map, hb, map_some]

/-- Every item at a cell of the squares below `k` is seen. -/
def Search.Covers (s : Search (Exact ℝ)) (index : GridIndex (Exact ℝ)) (pc pr k : Nat) : Prop :=
  ∀ ring, ring < k → ∀ cell ∈ (index.square pc pr ring).cells, ∀ i ∈ index.itemsAt cell,
    s.seen.getD i false = true

section

variable {index : GridIndex (Exact ℝ)} {boxes : List (BoundingBox ℝ)} {distance : Nat → ℝ}

variable {s : Search (Exact ℝ)}

theorem searchRing_covers (h : Indexes index boxes) {pc pr k : Nat}
    (hpc : pc < index.columns) (hpr : pr < index.rows) (hs : s.Sound boxes.length distance)
    (hcovers : s.Covers index pc pr k) :
    (index.searchRing (fun i => .finite (distance i)) pc pr k s).Sound boxes.length distance ∧
      (index.searchRing (fun i => .finite (distance i)) pc pr k s).Covers index pc pr (k + 1) := by
  have hitems : ∀ i ∈ ((index.square pc pr k).cells.filter (index.square pc pr k).onRing).flatMap
      index.itemsAt, i < boxes.length := by
    intro i hi
    obtain ⟨cell, hcell, hi⟩ := mem_flatMap.mp hi
    have hmem := (mem_filter.mp hcell).1
    exact h.bound cell (square_holds h.formed.columns_pos h.formed.rows_pos hmem) i hi
  obtain ⟨hsound, hseen⟩ := meetAll hs hitems
  refine ⟨hsound, ?_⟩
  intro ring hring cell hcell i hi
  refine (hseen i).mpr ?_
  by_cases hold : ring < k
  · exact .inl (hcovers ring hold cell hcell i hi)
  · have heq : ring = k := by omega
    subst heq
    cases hborder : (index.square pc pr ring).onRing cell with
    | true =>
      exact .inr (mem_flatMap.mpr ⟨cell, mem_filter.mpr ⟨hcell, hborder⟩, hi⟩)
    | false =>
      obtain ⟨before, hbefore, hcell'⟩ := mem_square_pred hpc hpr hcell hborder
      exact .inl (hcovers before hbefore cell hcell' i hi)

def Search.Least (s : Search (Exact ℝ)) (n : Nat) (distance : Nat → ℝ) : Prop :=
  ∀ j, j < n → ∃ i, i < n ∧ s.best = some (i, .finite (distance i)) ∧ distance i ≤ distance j

theorem Search.Sound.le_of_seen {n : Nat} (hs : s.Sound n distance) {j : Nat}
    (hj : s.seen.getD j false = true) :
    ∃ i, i < n ∧ s.best = some (i, .finite (distance i)) ∧ distance i ≤ distance j := by
  obtain ⟨i, hi, hle⟩ := hs.least j hj
  exact ⟨i, (hs.best i _ hi).1, hi, hle⟩

variable {corner : ℝ × ℝ} {size : ℝ} {point : ℝ × ℝ}

/-- A state that covers the rings up to `k` and whose best item is at most `k` cells away. -/
theorem least_of_settled (h : Indexes index boxes) (hsized : Sized index corner size)
    (hdistance : ∀ i b, boxes[i]? = some b → ∃ q ∈ b.region, planeDistance point q ≤ distance i)
    {k : Nat} (hs : s.Sound boxes.length distance)
    (hcovers : s.Covers index (index.clampCol (.finite point.1))
      (index.clampRow (.finite point.2)) (k + 1)) (hsettled : index.settled k s = true) :
    s.Least boxes.length distance := by
  intro j hj
  by_cases hseen : s.seen.getD j false = true
  · exact hs.le_of_seen hseen
  · rw [settled, Option.any_eq_true] at hsettled
    obtain ⟨⟨i, d⟩, hbest, hle⟩ := hsettled
    obtain ⟨hi, rfl⟩ := hs.best i d hbest
    have hbound : distance i ≤ k * size := by
      rw [hsized.cell, Exact.ofNat_eq, Exact.mul_finite] at hle
      exact of_decide_eq_true hle
    obtain ⟨q, hq, hfar⟩ := hdistance j boxes[j] (getElem?_eq_getElem hj)
    have hout : k * size < planeDistance point q := hsized.far_of_outside h.formed hq (by
      intro cell hrange hsquare
      have hitem := h.registered j boxes[j] cell (getElem?_eq_getElem hj) hrange
      exact hseen (hcovers k (by omega) cell hsquare j hitem))
    exact ⟨i, hi, hbest, by linarith⟩

theorem least_of_covered (h : Indexes index boxes) (hsized : Sized index corner size)
    (hdistance : ∀ i b, boxes[i]? = some b → ∃ q ∈ b.region, planeDistance point q ≤ distance i)
    {pc pr k : Nat} (hk : Max.max index.columns index.rows < k)
    (hpc : pc < index.columns) (hpr : pr < index.rows) (hs : s.Sound boxes.length distance)
    (hcovers : s.Covers index pc pr k) : s.Least boxes.length distance := by
  intro j hj
  obtain ⟨q, ⟨⟨hminx, hmaxx⟩, hminy, hmaxy⟩, -⟩ := hdistance j boxes[j] (getElem?_eq_getElem hj)
  have hfirst : (index.clampCol (.finite boxes[j].minX), index.clampRow (.finite boxes[j].minY)) ∈
      (index.cellRange boxes[j].exact).cells :=
    CellRange.mem_cells.mpr ⟨⟨le_refl _, hsized.clampCol_mono (hminx.trans hmaxx)⟩, le_refl _,
      hsized.clampRow_mono (hminy.trans hmaxy)⟩
  have hholds := holds_of_mem h.formed hfirst
  have hsquare : (index.clampCol (.finite boxes[j].minX), index.clampRow (.finite boxes[j].minY)) ∈
      (index.square pc pr (Max.max index.columns index.rows)).cells := by
    obtain ⟨hcolumn, hrow⟩ := hholds
    refine CellRange.mem_cells.mpr ?_
    simp only [square] at hcolumn hrow ⊢
    omega
  have hitem := h.registered j boxes[j] _ (getElem?_eq_getElem hj) hfirst
  exact hs.le_of_seen (hcovers _ hk _ hsquare j hitem)

/-- The search ends with a nearest item, whether it stops early or has seen everything. -/
theorem searchRings_least (h : Indexes index boxes) (hsized : Sized index corner size)
    (hdistance : ∀ i b, boxes[i]? = some b → ∃ q ∈ b.region, planeDistance point q ≤ distance i)
    (m k : Nat) (s : Search (Exact ℝ)) (hm : k + m = Max.max index.columns index.rows + 1)
    (hs : s.Sound boxes.length distance)
    (hcovers : s.Covers index (index.clampCol (.finite point.1))
      (index.clampRow (.finite point.2)) k) :
    (index.searchRings (fun i => .finite (distance i)) (index.clampCol (.finite point.1))
      (index.clampRow (.finite point.2)) (range' k m) s).Least boxes.length distance := by
  have hcolumns := h.formed.columns_pos
  have hrows := h.formed.rows_pos
  have hpc : index.clampCol (.finite point.1) < index.columns := by
    have hle : index.clampCol (.finite point.1) ≤ index.columns - 1 := min_le_right _ _
    omega
  have hpr : index.clampRow (.finite point.2) < index.rows := by
    have hle : index.clampRow (.finite point.2) ≤ index.rows - 1 := min_le_right _ _
    omega
  induction m generalizing k s with
  | zero => exact least_of_covered h hsized hdistance (by omega) hpc hpr hs hcovers
  | succ m ih =>
    obtain ⟨hsound, hcovers'⟩ := searchRing_covers h hpc hpr hs hcovers
    rw [range'_succ, searchRings]
    split
    · rename_i hsettled
      exact least_of_settled h hsized hdistance hsound hcovers' hsettled
    · exact ih (k + 1) _ (by omega) hsound hcovers'

end

theorem nearest_cases (point : ℝ × ℝ) (distance : Nat → ℝ)
    (hdistance : ∀ i b, boxes[i]? = some b → ∃ q ∈ b.region, planeDistance point q ≤ distance i) :
    (boxes = [] ∧ (build (boxes.map exact) target).nearest
      (.finite point.1, .finite point.2) (fun i => .finite (distance i)) = none) ∨
    ∃ i, i < boxes.length ∧ (build (boxes.map exact) target).nearest
        (.finite point.1, .finite point.2) (fun i => .finite (distance i)) =
          some (i, .finite (distance i)) ∧
      ∀ j, j < boxes.length → distance i ≤ distance j := by
  cases hempty : boxes with
  | nil =>
    left
    refine ⟨rfl, ?_⟩
    rw [nearest, build_boxes]
    rfl
  | cons first rest =>
    right
    rw [← hempty]
    obtain ⟨corner, size, hsized⟩ := build_sized boxes target
    have hstart : ({ best := none, seen := replicate boxes.length false } :
        Search (Exact ℝ)).Sound boxes.length distance := by
      refine ⟨length_replicate, fun k d h => (nomatch h), fun i h => ?_⟩
      rw [getD_eq_getElem?_getD, getElem?_replicate] at h
      split at h <;> cases h
    have hleast := searchRings_least (build_indexes boxes target) hsized hdistance
      (Max.max (build (boxes.map exact) target).columns
        (build (boxes.map exact) target).rows + 1) 0 _ (zero_add _) hstart
      (fun ring hring => absurd hring (not_lt_zero ring))
    have hnearest : (build (boxes.map exact) target).nearest
        (.finite point.1, .finite point.2) (fun i => .finite (distance i)) =
      ((build (boxes.map exact) target).searchRings (fun i => .finite (distance i))
        ((build (boxes.map exact) target).clampCol (.finite point.1))
        ((build (boxes.map exact) target).clampRow (.finite point.2))
        (range' 0 (Max.max (build (boxes.map exact) target).columns
          (build (boxes.map exact) target).rows + 1))
        { best := none, seen := replicate boxes.length false }).best := by
      rw [nearest, build_boxes, length_map, range_eq_range', hempty]
      rfl
    have hpos : 0 < boxes.length := by
      rw [hempty]
      exact succ_pos _
    obtain ⟨i, hi, hbest, -⟩ := hleast 0 hpos
    refine ⟨i, hi, hnearest.trans hbest, fun j hj => ?_⟩
    obtain ⟨i', -, hbest', hle⟩ := hleast j hj
    rw [hbest] at hbest'
    cases hbest'
    exact hle

/-- The nearest item, for distances not below that of the box: there is one unless there are no
items, and none is nearer. -/
theorem nearest_least (boxes : List (BoundingBox ℝ)) (target : Nat) (point : ℝ × ℝ)
    (distance : Nat → ℝ)
    (hdistance : ∀ i b, boxes[i]? = some b → ∃ q ∈ b.region, planeDistance point q ≤ distance i) :
    let found := (build (boxes.map BoundingBox.exact) target).nearest
      (.finite point.1, .finite point.2) (fun i => .finite (distance i))
    (found = none ↔ boxes = []) ∧ ∀ i d, found = some (i, d) →
      i < boxes.length ∧ d = .finite (distance i) ∧
        ∀ j, j < boxes.length → distance i ≤ distance j := by
  intro found
  rcases nearest_cases boxes target point distance hdistance with
    ⟨hempty, hnone⟩ | ⟨i, hi, hsome, hleast⟩
  · have hfound : found = none := hnone
    refine ⟨⟨fun _ => hempty, fun _ => hfound⟩, fun i d h => ?_⟩
    rw [hfound] at h
    cases h
  · have hfound : found = some (i, .finite (distance i)) := hsome
    refine ⟨⟨fun h => ?_, fun h => ?_⟩, fun i' d h => ?_⟩
    · rw [hfound] at h
      cases h
    · rw [h] at hi
      exact absurd hi (not_lt_zero i)
    · rw [hfound] at h
      cases h
      exact ⟨hi, rfl, hleast⟩

/-- Two lots and a point to the left of both. -/
theorem nearest_least_lots : (build ([⟨0, 0, 1, 1⟩, ⟨4, 0, 5, 1⟩].map BoundingBox.exact) 1).nearest
      (.finite (-3), .finite 0) (fun i => .finite (if i = 0 then 3 else 7)) =
        some (0, .finite 3) := by
  have hroot (a : ℝ) (ha : 0 ≤ a) : Real.sqrt (a ^ 2) ≤ a := (Real.sqrt_sq ha).le
  have hdistance : ∀ i b, ([⟨0, 0, 1, 1⟩, ⟨4, 0, 5, 1⟩] : List (BoundingBox ℝ))[i]? = some b →
      ∃ q ∈ b.region, planeDistance (-3, 0) q ≤ if i = 0 then 3 else 7 := by
    intro i b hb
    have hi := (getElem?_eq_some_iff.mp hb).1
    match i, hi, hb with
    | 0, _, rfl =>
      refine ⟨(0, 0), by norm_num [BoundingBox.region], ?_⟩
      rw [planeDistance, if_pos rfl]
      exact (congrArg Real.sqrt (by norm_num)).trans_le (hroot 3 (by norm_num))
    | 1, _, rfl =>
      refine ⟨(4, 0), by norm_num [BoundingBox.region], ?_⟩
      rw [planeDistance, if_neg one_ne_zero]
      exact (congrArg Real.sqrt (by norm_num)).trans_le (hroot 7 (by norm_num))
  obtain ⟨hnone, hsome⟩ := nearest_least [⟨0, 0, 1, 1⟩, ⟨4, 0, 5, 1⟩] 1 (-3, 0)
    (fun i => if i = 0 then 3 else 7) hdistance
  obtain ⟨⟨i, d⟩, hfound⟩ := ne_none_iff_exists'.mp fun h => cons_ne_nil _ _ (hnone.mp h)
  obtain ⟨-, rfl, hleast⟩ := hsome i d hfound
  have hfirst := hleast 0 (by decide)
  have hzero : i = 0 := by
    by_contra hne
    simp only [hne, if_false, if_true] at hfirst
    norm_num at hfirst
  rw [hzero, if_pos rfl] at hfound
  exact hfound

end GridIndex
end GeneGIS.Toolkit
