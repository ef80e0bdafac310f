/-
The curve of a level is four curves of the level below, one for each quadrant, turned so that each
begins beside the end of the one before it.
-/
import Mathlib.Algebra.Ring.Nat
import Mathlib.Data.Nat.Log
import Mathlib.Tactic.Common

namespace GeneGIS.HilbertCurve

open Nat

def Adjacent (p q : Nat × Nat) : Prop :=
  (p.1 = q.1 ∧ (p.2 + 1 = q.2 ∨ q.2 + 1 = p.2)) ∨ (p.2 = q.2 ∧ (p.1 + 1 = q.1 ∨ q.1 + 1 = p.1))

instance (p q : Nat × Nat) : Decidable (Adjacent p q) := by
  rw [Adjacent]
  infer_instance

/-- Where the curve of a quadrant lies in the square of twice the side. -/
def place (side quadrant : Nat) (p : Nat × Nat) : Nat × Nat :=
  match quadrant with
  | 0 => (p.2, p.1)
  | 1 => (p.1, p.2 + side)
  | 2 => (p.1 + side, p.2 + side)
  | _ => (2 * side - 1 - p.2, side - 1 - p.1)

/-- The cell that the curve reaches after a number of steps. -/
def point : Nat → Nat → Nat × Nat
  | 0, _ => (0, 0)
  | level + 1, d => place (2 ^ level) (d / 4 ^ level) (point level (d % 4 ^ level))

def Within (side : Nat) (p : Nat × Nat) : Prop := p.1 < side ∧ p.2 < side

variable {side level d : Nat} {p q : Nat × Nat}

theorem place_within (quadrant : Nat) (h : Within side p) :
    Within (2 * side) (place side quadrant p) := by
  obtain ⟨hx, hy⟩ := h
  match quadrant with
  | 0 => exact ⟨by simp only [place]; omega, by simp only [place]; omega⟩
  | 1 => exact ⟨by simp only [place]; omega, by simp only [place]; omega⟩
  | 2 => exact ⟨by simp only [place]; omega, by simp only [place]; omega⟩
  | _ + 3 => exact ⟨by simp only [place]; omega, by simp only [place]; omega⟩

theorem place_adjacent (quadrant : Nat) (hp : Within side p) (hq : Within side q)
    (h : Adjacent p q) : Adjacent (place side quadrant p) (place side quadrant q) := by
  obtain ⟨hx, hy⟩ := hp
  obtain ⟨hx', hy'⟩ := hq
  rw [Adjacent] at h ⊢
  match quadrant with
  | 0 => simp only [place]; omega
  | 1 => simp only [place]; omega
  | 2 => simp only [place]; omega
  | _ + 3 => simp only [place]; omega

theorem place_meets {quadrant : Nat} (hquadrant : quadrant < 3) (hside : 0 < side) :
    Adjacent (place side quadrant (side - 1, 0)) (place side (quadrant + 1) (0, 0)) := by
  have hcases : quadrant = 0 ∨ quadrant = 1 ∨ quadrant = 2 := by omega
  obtain h | h | h := hcases
  · rw [h]
    show Adjacent (0, side - 1) (0, 0 + side)
    rw [Adjacent]
    omega
  · rw [h]
    show Adjacent (side - 1, 0 + side) (0 + side, 0 + side)
    rw [Adjacent]
    omega
  · rw [h]
    show Adjacent (side - 1 + side, 0 + side) (2 * side - 1 - 0, side - 1 - 0)
    rw [Adjacent]
    omega

theorem point_within (level d : Nat) : Within (2 ^ level) (point level d) := by
  induction level generalizing d with
  | zero => exact ⟨Nat.one_pos, Nat.one_pos⟩
  | succ level ih =>
    have hplaced := place_within (d / 4 ^ level) (ih (d % 4 ^ level))
    rw [point, Nat.pow_succ, Nat.mul_comm]
    exact hplaced

theorem point_first (level : Nat) : point level 0 = (0, 0) := by
  induction level with
  | zero => rfl
  | succ level ih => rw [point, Nat.zero_div, Nat.zero_mod, ih, place]

theorem digits {size quadrant rest : Nat} (h : rest < size) :
    (size * quadrant + rest) / size = quadrant ∧ (size * quadrant + rest) % size = rest := by
  have hpos : 0 < size := by omega
  rw [mul_add_div hpos, div_eq_of_lt h, mul_add_mod, mod_eq_of_lt h]
  exact ⟨rfl, rfl⟩

theorem point_digits {quadrant rest : Nat} (h : rest < 4 ^ level) :
    point (level + 1) (4 ^ level * quadrant + rest) =
      place (2 ^ level) quadrant (point level rest) := by
  obtain ⟨hquotient, hrest⟩ := @digits (4 ^ level) quadrant rest h
  rw [point, hquotient, hrest]

theorem point_last (level : Nat) : point level (4 ^ level - 1) = (2 ^ level - 1, 0) := by
  induction level with
  | zero => rfl
  | succ level ih =>
    have hpos : 0 < 4 ^ level := Nat.pow_pos (by decide)
    have hside : 0 < 2 ^ level := Nat.two_pow_pos level
    have hlast : 4 ^ (level + 1) - 1 = 4 ^ level * 3 + (4 ^ level - 1) := by
      rw [Nat.pow_succ]
      omega
    rw [hlast, point_digits (by omega), ih]
    show (2 * 2 ^ level - 1 - 0, 2 ^ level - 1 - (2 ^ level - 1)) = _
    rw [Nat.sub_zero, Nat.sub_self, Nat.pow_succ, Nat.mul_comm]

/-- The curve goes from a cell to one beside it, within a quadrant and from one quadrant to the
next. -/
theorem point_adjacent (h : d + 1 < 4 ^ level) : Adjacent (point level d) (point level (d + 1)) := by
  induction level generalizing d with
  | zero =>
    rw [Nat.pow_zero] at h
    omega
  | succ level ih =>
    have hpos : 0 < 4 ^ level := Nat.pow_pos (by decide)
    have hrest := mod_lt d hpos
    have hsplit := div_add_mod d (4 ^ level)
    rw [Nat.pow_succ] at h
    by_cases hmore : d % 4 ^ level + 1 < 4 ^ level
    · have hnext : d + 1 = 4 ^ level * (d / 4 ^ level) + (d % 4 ^ level + 1) := by omega
      have hd : point (level + 1) d = place (2 ^ level) (d / 4 ^ level)
          (point level (d % 4 ^ level)) := rfl
      rw [hd, hnext, point_digits hmore]
      exact place_adjacent _ (point_within _ _) (point_within _ _) (ih hmore)
    · have hlast : d % 4 ^ level = 4 ^ level - 1 := by omega
      have hnext : d + 1 = 4 ^ level * (d / 4 ^ level + 1) + 0 := by
        rw [Nat.mul_add, Nat.mul_one]
        omega
      have hquadrant : d / 4 ^ level < 3 := by
        by_contra hbig
        have hmul := Nat.mul_le_mul_left (4 ^ level) (Nat.le_of_not_lt hbig)
        omega
      rw [hnext, point_digits hpos, point_first, point, hlast, point_last]
      exact place_meets hquadrant (Nat.two_pow_pos level)

/-! ## Levels

A step at one level is four steps at the next, within the cell of half the coordinates. -/

def half (p : Nat × Nat) : Nat × Nat := (p.1 / 2, p.2 / 2)

theorem half_place (quadrant : Nat) (h : Within (2 * side) p) :
    half (place (2 * side) quadrant p) = place side quadrant (half p) := by
  obtain ⟨hx, hy⟩ := h
  match quadrant with
  | 0 => rfl
  | 1 => exact Prod.ext rfl (by simp only [half, place]; omega)
  | 2 => exact Prod.ext (by simp only [half, place]; omega) (by simp only [half, place]; omega)
  | _ + 3 => exact Prod.ext (by simp only [half, place]; omega) (by simp only [half, place]; omega)

theorem half_point (level d : Nat) : half (point (level + 1) d) = point level (d / 4) := by
  induction level generalizing d with
  | zero =>
    obtain ⟨hx, hy⟩ := point_within 1 d
    exact Prod.ext (Nat.div_eq_of_lt hx) (Nat.div_eq_of_lt hy)
  | succ level ih =>
    have hcell := point_within (level + 1) (d % 4 ^ (level + 1))
    rw [Nat.pow_succ, Nat.mul_comm] at hcell
    rw [point, Nat.pow_succ 2, Nat.mul_comm (2 ^ level), half_place _ hcell, ih, point,
      Nat.div_div_eq_div_mul, Nat.pow_succ, Nat.mul_comm (4 ^ level), mod_mul_right_div_self]

end GeneGIS.HilbertCurve
