/-
Two intervals that meet have a common cell, because the cell of a coordinate grows with it.
Binary64 has this too: below a coordinate without a cell of its own everything is in the first one.
-/
import GeneGIS.Data.Sorted
import GeneGIS.Toolkit.GridIndex

namespace GeneGIS.Toolkit

open Arithmetic Nat

structure BoundingBox.Ordered {F : Type} [Arithmetic F] (b : BoundingBox F) : Prop where
  x : le b.minX b.maxX = true
  y : le b.minY b.maxY = true

namespace GridIndex

variable {F : Type} [Arithmetic F]

/-- The items that meet the padded box, by looking at every item. -/
def scan (boxes : List (BoundingBox F)) (q : BoundingBox F) (pad : F) : List Nat :=
  (List.range boxes.length).filter fun i => (boxes[i]?).any (intersects · (padded q pad))

/-- The cell of a coordinate grows with the coordinate. -/
structure Graded (index : GridIndex F) : Prop where
  col : ∀ x y, le x y = true → index.clampCol x ≤ index.clampCol y
  row : ∀ x y, le x y = true → index.clampRow x ≤ index.clampRow y

def Spans (index : GridIndex F) (q : BoundingBox F) : Prop :=
  index.clampCol q.minX ≤ index.clampCol q.maxX ∧ index.clampRow q.minY ≤ index.clampRow q.maxY

variable {index : GridIndex F} {b q : BoundingBox F}

theorem Graded.spans (h : index.Graded) (hb : b.Ordered) : index.Spans b :=
  ⟨h.col _ _ hb.x, h.row _ _ hb.y⟩

/-- Boxes that meet have a common cell: the later first column and the later first row. -/
theorem Graded.common_cell (h : index.Graded) (hb : index.Spans b) (hq : index.Spans q)
    (hmeet : intersects b q = true) :
    ∃ cell, cell ∈ (index.cellRange b).cells ∧ cell ∈ (index.cellRange q).cells := by
  rw [intersects, Bool.and_eq_true, Bool.and_eq_true, Bool.and_eq_true] at hmeet
  obtain ⟨⟨⟨hbq, hqb⟩, hbqy⟩, hqby⟩ := hmeet
  have hcol := h.col _ _ hbq
  have hcol' := h.col _ _ hqb
  have hrow := h.row _ _ hbqy
  have hrow' := h.row _ _ hqby
  refine ⟨(Max.max (index.clampCol b.minX) (index.clampCol q.minX),
    Max.max (index.clampRow b.minY) (index.clampRow q.minY)), ?_, ?_⟩
  · have hbx := hb.1
    have hby := hb.2
    refine CellRange.mem_cells.mpr ⟨⟨le_max_left _ _, ?_⟩, le_max_left _ _, ?_⟩
    · exact Nat.max_le.mpr ⟨hbx, hcol'⟩
    · exact Nat.max_le.mpr ⟨hby, hrow'⟩
  · have hqx := hq.1
    have hqy := hq.2
    refine CellRange.mem_cells.mpr ⟨⟨le_max_right _ _, ?_⟩, le_max_right _ _, ?_⟩
    · exact Nat.max_le.mpr ⟨hcol, hqx⟩
    · exact Nat.max_le.mpr ⟨hrow, hqy⟩

variable {boxes : List (BoundingBox F)}

theorem mem_scan {pad : F} {i : Nat} :
    i ∈ scan boxes q pad ↔ ∃ b, boxes[i]? = some b ∧ intersects b (padded q pad) = true := by
  rw [scan, List.mem_filter, List.mem_range, Option.any_eq_true]
  constructor
  · exact fun h => h.2
  · intro h
    obtain ⟨b, hb, hmeet⟩ := h
    exact ⟨(List.getElem?_eq_some_iff.mp hb).1, b, hb, hmeet⟩

variable [SquareRoot F]

theorem mem_query {target : Nat} {pad : F} {i : Nat} : i ∈ (build boxes target).query q pad ↔
      ∃ b, boxes[i]? = some b ∧ intersects b (padded q pad) = true ∧
        ∃ cell, cell ∈ ((build boxes target).cellRange b).cells ∧
          cell ∈ ((build boxes target).cellRange (padded q pad)).cells := by
  rw [query, Sorted.mem_destutter, List.mem_mergeSort, List.mem_flatMap, build_boxes]
  constructor
  · intro h
    obtain ⟨cell, hcell, hi⟩ := h
    rw [List.mem_filter, Option.any_eq_true] at hi
    obtain ⟨hitem, b, hb, hmeet⟩ := hi
    have hholds := holds_of_mem (build_formed boxes target) hcell
    obtain ⟨b', hb', hrange⟩ := (mem_itemsAt_build boxes target hholds).mp hitem
    rw [hb] at hb'
    cases hb'
    exact ⟨b, hb, hmeet, cell, hrange, hcell⟩
  · intro h
    obtain ⟨b, hb, hmeet, cell, hrange, hcell⟩ := h
    have hholds := holds_of_mem (build_formed boxes target) hcell
    refine ⟨cell, hcell, List.mem_filter.mpr ⟨?_, ?_⟩⟩
    · exact (mem_itemsAt_build boxes target hholds).mpr ⟨b, hb, hrange⟩
    · rw [hb]
      exact hmeet

omit [SquareRoot F] in
theorem query_sorted (index : GridIndex F) (q : BoundingBox F) (pad : F) :
    (index.query q pad).Pairwise (· < ·) := by
  refine Sorted.pairwise_lt_destutter ?_
  have hsorted := @List.pairwise_mergeSort Nat (fun a b => decide (a ≤ b)) (fun a b c hab hbc => by
      rw [decide_eq_true_eq] at hab hbc ⊢
      exact hab.trans hbc)
    (fun a b => by
      rw [Bool.or_eq_true, decide_eq_true_eq, decide_eq_true_eq]
      exact le_total a b)
  exact (hsorted _).imp fun h => of_decide_eq_true h

theorem Graded.query_eq {target : Nat} {pad : F}
    (h : (build boxes target).Graded) (hboxes : ∀ b ∈ boxes, b.Ordered)
    (hq : ∀ b, intersects b (padded q pad) = true → (build boxes target).Spans (padded q pad)) :
    (build boxes target).query q pad = scan boxes q pad := by
  refine List.Pairwise.eq_of_mem_iff (query_sorted _ q pad)
    (List.pairwise_lt_range.filter _) fun i => ?_
  rw [mem_query, mem_scan]
  constructor
  · intro hi
    obtain ⟨b, hb, hmeet, -⟩ := hi
    exact ⟨b, hb, hmeet⟩
  · intro hi
    obtain ⟨b, hb, hmeet⟩ := hi
    have hspans := h.spans (hboxes b (List.mem_of_getElem? hb))
    exact ⟨b, hb, hmeet, h.common_cell hspans (hq b hmeet) hmeet⟩

/-! ## Binary64 -/

section

open F64

/-- The whole number below a coordinate in cells, zero below the grid. -/
def wholeCell (t : F64) : Nat := F64.toUsize (F64.max (Expression.floor t) (F64.ofNat 0))

theorem zero_isNan : (F64.ofNat 0).isNan = false := isNan_ofNat (by decide)

theorem zero_rank : (F64.ofNat 0).rank = 0 := by
  rw [rank_ofNat (by decide)]
  exact Int.zero_mul _

theorem toUsize_zero : F64.toUsize (F64.ofNat 0) = 0 := by
  rw [F64.toUsize, zero_isNan, zero_rank, if_neg Bool.false_ne_true, Int.zero_tdiv, Int.toNat_zero,
    Nat.min_zero]

theorem toUsize_max_neg {z : F64} (h : z.isNan = true ∨ z.rank < 0) :
    F64.toUsize (F64.max z (F64.ofNat 0)) = 0 := by
  by_cases hnan : z.isNan = true
  · rw [F64.max, if_pos hnan, toUsize_zero]
  · rcases h with h | h
    · exact absurd h hnan
    · rw [Bool.not_eq_true] at hnan
      have hlt : F64.lt z (F64.ofNat 0) = true :=
        lt_iff.mpr ⟨hnan, zero_isNan, by rw [zero_rank]; exact h⟩
      rw [F64.max, hnan, zero_isNan, if_neg Bool.false_ne_true, if_neg Bool.false_ne_true,
        if_pos hlt, toUsize_zero]

theorem toUsize_max_nonneg {z : F64} (hnan : z.isNan = false) (h : 0 ≤ z.rank) :
    F64.toUsize (F64.max z (F64.ofNat 0)) = Min.min usizeMax (z.rank.tdiv (2 ^ 1074)).toNat := by
  have hlt : F64.lt z (F64.ofNat 0) = false := by
    rw [← Bool.not_eq_true, lt_iff, zero_rank]
    omega
  rw [F64.max, hnan, zero_isNan, if_neg Bool.false_ne_true, if_neg Bool.false_ne_true, hlt,
    if_neg Bool.false_ne_true, F64.toUsize, hnan, if_neg Bool.false_ne_true]

def cellOf (units : Nat) : Nat := Min.min usizeMax (units / 2 ^ 1074)

theorem cellOf_mono {m n : Nat} (h : m ≤ n) : cellOf m ≤ cellOf n := by
  have hquotient (d : Nat) : m / d ≤ n / d := Nat.div_le_div_right h
  exact min_le_min_left usizeMax (hquotient _)

theorem toUsize_max_units {z : F64} (hnan : z.isNan = false) {n : Nat} (h : z.rank = n) :
    F64.toUsize (F64.max z (F64.ofNat 0)) = cellOf n := by
  have hcast : (2 ^ 1074 : Int) = ((2 ^ 1074 : Nat) : Int) := by rw [cast_pow, cast_ofNat]
  have hquotient (d : Nat) : ((n : Int).tdiv (d : Int)).toNat = n / d := by
    rw [← Int.ofNat_tdiv, Int.toNat_natCast]
  rw [toUsize_max_nonneg hnan (by omega), h, hcast, hquotient, cellOf]

variable {t : F64}

theorem wholeCell_nan (h : t.isNan = true) : wholeCell t = 0 := by
  have hfinite : t.isFinite = false := by
    by_contra hfinite
    rw [Bool.not_eq_false] at hfinite
    rw [isNan_of_finite hfinite] at h
    cases h
  rw [wholeCell, Expression.floor, hfinite, Bool.not_false, if_pos rfl]
  exact toUsize_max_neg (.inl h)

theorem toUsize_round_neg (num : Nat) :
    F64.toUsize (F64.max (F64.round true num 1) (F64.ofNat 0)) = 0 := by
  have hrank := rank_round true num 1
  rw [if_pos rfl] at hrank
  by_cases hzero : (F64.round true num 1).rank = ((0 : Nat) : Int)
  · rw [toUsize_max_units (isNan_round true num 1) hzero, cellOf, Nat.zero_div, Nat.min_zero]
  · exact toUsize_max_neg (.inr (by omega))

theorem wholeCell_neg (hnan : t.isNan = false) (h : t.sign = true) : wholeCell t = 0 := by
  rw [wholeCell, Expression.floor]
  by_cases hfinite : t.isFinite = true
  · rw [hfinite, Bool.not_true, if_neg Bool.false_ne_true, h, if_pos rfl, Expression.integral]
    exact toUsize_round_neg _
  · rw [Bool.not_eq_true] at hfinite
    have hrank := rank_infinite hnan hfinite
    have htop := top_pos
    rw [h, if_pos rfl] at hrank
    rw [hfinite, Bool.not_false, if_pos rfl]
    exact toUsize_max_neg (.inr (by omega))

theorem wholeCell_finite (hfinite : t.isFinite = true) (h : t.sign = false) :
    wholeCell t = cellOf (rounded (t.magnitude / 2 ^ 1074 * 2 ^ 1074) 1) := by
  have hround (num : Nat) : F64.toUsize (F64.max (F64.round false num 1) (F64.ofNat 0)) =
      cellOf (rounded num 1) := by
    refine toUsize_max_units (isNan_round _ _ _) ?_
    rw [rank_round, if_neg Bool.false_ne_true]
  rw [wholeCell, Expression.floor, hfinite, Bool.not_true, if_neg Bool.false_ne_true, h,
    if_neg Bool.false_ne_true, Expression.integral, hround]

theorem wholeCell_infinite (hnan : t.isNan = false) (hinf : t.isFinite = false)
    (h : t.sign = false) : wholeCell t = cellOf top := by
  rw [wholeCell, Expression.floor, hinf, Bool.not_false, if_pos rfl]
  refine toUsize_max_units hnan ?_
  rw [rank_infinite hnan hinf, h, if_neg Bool.false_ne_true]

theorem rank_of_sign (hnan : t.isNan = false) (h : t.sign = true) : t.rank ≤ 0 := by
  rw [rank_eq hnan, h, if_pos rfl]
  omega

theorem wholeCell_nonpos (hnan : t.isNan = false) (h : t.rank ≤ 0) : wholeCell t = 0 := by
  cases hsign : t.sign with
  | true => exact wholeCell_neg hnan hsign
  | false =>
    have htop := top_pos
    by_cases hfinite : t.isFinite = true
    · have hmagnitude : t.magnitude = 0 := by
        rw [rank_finite hfinite, units, hsign, if_neg Bool.false_ne_true] at h
        omega
      rw [wholeCell_finite hfinite hsign, hmagnitude, Nat.zero_div, Nat.zero_mul,
        rounded_zero (by decide), cellOf, Nat.zero_div, Nat.min_zero]
    · rw [Bool.not_eq_true] at hfinite
      rw [rank_infinite hnan hfinite, hsign, if_neg Bool.false_ne_true] at h
      omega

theorem wholeCell_mono {t u : F64} (h : F64.le t u = true) : wholeCell t ≤ wholeCell u := by
  obtain ⟨htn, hun, hrank⟩ := le_iff.mp h
  by_cases htneg : t.rank ≤ 0
  · rw [wholeCell_nonpos htn htneg]
    exact zero_le _
  · have hts : t.sign = false := by
      by_contra hsign
      rw [Bool.not_eq_false] at hsign
      exact htneg (rank_of_sign htn hsign)
    have hus : u.sign = false := by
      by_contra hsign
      rw [Bool.not_eq_false] at hsign
      exact htneg (hrank.trans (rank_of_sign hun hsign))
    by_cases htf : t.isFinite = true
    · rw [wholeCell_finite htf hts]
      by_cases huf : u.isFinite = true
      · rw [wholeCell_finite huf hus]
        rw [rank_finite htf, rank_finite huf, units, units, hts, hus, if_neg Bool.false_ne_true,
          if_neg Bool.false_ne_true] at hrank
        have hmagnitude : t.magnitude ≤ u.magnitude := by omega
        exact cellOf_mono (rounded_mono (Nat.mul_le_mul_right _ (Nat.div_le_div_right hmagnitude)))
      · rw [Bool.not_eq_true] at huf
        rw [wholeCell_infinite hun huf hus]
        exact cellOf_mono (rounded_le _ _)
    · rw [Bool.not_eq_true] at htf
      have huf : u.isFinite = false := by
        by_contra hfinite
        rw [Bool.not_eq_false] at hfinite
        have hbounds := rank_bounds hfinite
        rw [rank_infinite htn htf, hts, if_neg Bool.false_ne_true] at hrank
        omega
      rw [wholeCell_infinite htn htf hts, wholeCell_infinite hun huf hus]

theorem slot_mono {origin cell x y : F64} (hcell : F64.lt F64.zero cell = true)
    (h : F64.le x y = true) : slot origin cell x ≤ slot origin cell y := by
  obtain ⟨hxn, hyn, -⟩ := le_iff.mp h
  show wholeCell (F64.div (F64.sub x origin) cell) ≤ wholeCell (F64.div (F64.sub y origin) cell)
  by_cases hx : (F64.div (F64.sub x origin) cell).isNan = true
  · rw [wholeCell_nan hx]
    exact zero_le _
  · rw [Bool.not_eq_true] at hx
    have hxs : (F64.sub x origin).isNan = false := by
      by_contra hnan
      rw [Bool.not_eq_false] at hnan
      rw [div_nan hnan] at hx
      cases hx
    by_cases hys : (F64.sub y origin).isNan = true
    · have hneg := sub_skips h hys hxs
      rw [wholeCell_nonpos hx (div_nonpos hxs hcell hneg.le hx)]
      exact zero_le _
    · rw [Bool.not_eq_true] at hys
      have hsub := le_iff.mpr ⟨hxs, hys, sub_mono h hxs hys⟩
      by_cases hy : (F64.div (F64.sub y origin) cell).isNan = true
      · have hinf := div_isNan hys hcell hy
        rw [wholeCell_nonpos hx (le_of_eq (div_by_infinite hinf hx))]
        exact zero_le _
      · rw [Bool.not_eq_true] at hy
        exact wholeCell_mono (le_iff.mpr ⟨hx, hy, div_mono hsub hcell hx hy⟩)

/-! ### The cells of a binary64 grid have a size -/

theorem le_max_left {x y : F64} (hx : x.isNan = false) : F64.le x (F64.max x y) = true := by
  by_cases hy : y.isNan = true
  · rw [F64.max, hx, hy, if_neg Bool.false_ne_true, if_pos rfl]
    exact le_iff.mpr ⟨hx, hx, le_refl _⟩
  · rw [Bool.not_eq_true] at hy
    rw [F64.max, hx, hy, if_neg Bool.false_ne_true, if_neg Bool.false_ne_true]
    split
    · rename_i hlt
      exact le_iff.mpr ⟨hx, hy, (lt_iff.mp hlt).2.2.le⟩
    · exact le_iff.mpr ⟨hx, hx, le_refl _⟩

theorem le_max_right {x y : F64} (hy : y.isNan = false) : F64.le y (F64.max x y) = true := by
  by_cases hx : x.isNan = true
  · rw [F64.max, hx, if_pos rfl]
    exact le_iff.mpr ⟨hy, hy, le_refl _⟩
  · rw [Bool.not_eq_true] at hx
    rw [F64.max, hx, hy, if_neg Bool.false_ne_true, if_neg Bool.false_ne_true]
    by_cases hlt : F64.lt x y = true
    · rw [if_pos hlt]
      exact le_iff.mpr ⟨hy, hy, le_refl _⟩
    · have hle : y.rank ≤ x.rank := Int.not_lt.mp fun hrank => hlt (lt_iff.mpr ⟨hx, hy, hrank⟩)
      rw [if_neg hlt]
      exact le_iff.mpr ⟨hy, hx, hle⟩

theorem le_trans_f64 {x y z : F64} (hxy : F64.le x y = true) (hyz : F64.le y z = true) :
    F64.le x z = true := by
  obtain ⟨hx, -, hxy⟩ := le_iff.mp hxy
  obtain ⟨-, hz, hyz⟩ := le_iff.mp hyz
  exact le_iff.mpr ⟨hx, hz, hxy.trans hyz⟩

theorem cell_pos (boxes : List (BoundingBox F64)) (target : Nat) :
    F64.lt F64.zero (empty boxes target).cell = true := by
  have hepsilon : F64.epsilon.isNan = false := by decide +kernel
  have hfour : F64.lt F64.zero (F64.ofNat 4096) = true := by decide +kernel
  have hleast : F64.lt F64.zero (F64.div F64.epsilon (F64.ofNat 4096)) = true := by decide +kernel
  obtain ⟨hzero, hleastn, hleastpos⟩ := lt_iff.mp hleast
  have hpositive (s width height : F64) (hwidth : F64.le F64.epsilon width = true)
      (hheight : F64.le F64.epsilon height = true) :
      F64.lt F64.zero (F64.max s (F64.div (F64.max width height) (F64.ofNat 4096))) = true := by
    have hside := le_trans_f64 hwidth (le_max_left (y := height) (le_iff.mp hwidth).2.1)
    have hsiden := (le_iff.mp hside).2.1
    have hsize : (F64.div (F64.max width height) (F64.ofNat 4096)).isNan = false := by
      by_contra hnan
      rw [Bool.not_eq_false] at hnan
      exact absurd (div_isNan hsiden hfour hnan) (by decide +kernel)
    have hmono := div_mono hside hfour hleastn hsize
    obtain ⟨-, hmax, hle⟩ := le_iff.mp (le_max_right (x := s) hsize)
    exact lt_iff.mpr ⟨hzero, hmax, by omega⟩
  exact hpositive _ _ _ (le_max_right hepsilon) (le_max_right hepsilon)

theorem build_graded (boxes : List (BoundingBox F64)) (target : Nat) :
    (build boxes target).Graded := by
  have hcell : F64.lt F64.zero (build boxes target).cell = true := by
    rw [(build_same boxes target).cell]
    exact cell_pos boxes target
  have hmin (n : Nat) {a b : Nat} (hab : a ≤ b) : Min.min a n ≤ Min.min b n :=
    min_le_min_right n hab
  exact ⟨fun x y h => hmin _ (slot_mono hcell h), fun x y h => hmin _ (slot_mono hcell h)⟩

/-- A query is the linear scan: exactly the items that meet the padded box, each once and in
ascending order. -/
theorem query_eq_scan (boxes : List (BoundingBox F64)) (target : Nat) (q : BoundingBox F64)
    (pad : F64) (hboxes : ∀ b ∈ boxes, b.Ordered) (hq : q.Ordered)
    (hpad : F64.le F64.zero pad = true) :
    (build boxes target).query q pad = scan boxes q pad := by
  have hgraded := build_graded boxes target
  refine hgraded.query_eq hboxes fun b hmeet => hgraded.spans ?_
  rw [intersects, Bool.and_eq_true, Bool.and_eq_true, Bool.and_eq_true] at hmeet
  obtain ⟨⟨⟨hbq, hqb⟩, hbqy⟩, hqby⟩ := hmeet
  exact ⟨padded_le hq.x hpad (le_iff.mp hqb).1 (le_iff.mp hbq).2.1,
    padded_le hq.y hpad (le_iff.mp hqby).1 (le_iff.mp hbqy).2.1⟩

/-- Four sheds on one lot; the last one covers several cells. -/
def sheds : List (BoundingBox F64) := [⟨F64.ofNat 0, F64.ofNat 0, F64.ofNat 1, F64.ofNat 1⟩,
   ⟨F64.ofNat 2, F64.ofNat 0, F64.ofNat 9, F64.ofNat 9⟩,
   ⟨F64.ofNat 20, F64.ofNat 20, F64.ofNat 30, F64.ofNat 30⟩,
   ⟨F64.ofNat 0, F64.ofNat 3, F64.ofNat 40, F64.ofNat 4⟩]

def yard : BoundingBox F64 := ⟨F64.ofNat 3, F64.ofNat 0, F64.ofNat 19, F64.ofNat 19⟩

theorem query_eq_scan_sheds : (build sheds 1).query yard (F64.ofNat 1) = [1, 2, 3] := by
  have hsheds : ∀ b ∈ sheds, F64.le b.minX b.maxX = true ∧ F64.le b.minY b.maxY = true := by
    decide +kernel
  have hscan : scan sheds yard (F64.ofNat 1) = [1, 2, 3] := by decide +kernel
  exact (query_eq_scan sheds 1 yard (F64.ofNat 1) (fun b hb => ⟨(hsheds b hb).1, (hsheds b hb).2⟩)
    ⟨by decide +kernel, by decide +kernel⟩ (by decide +kernel)).trans hscan

end

end GridIndex
end GeneGIS.Toolkit
