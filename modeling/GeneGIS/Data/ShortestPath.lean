/-
Labels that start from nothing, are costs of walks and cannot be improved along an edge are the
least costs, whatever the signs.  Least costs are symmetric, satisfy the triangle inequality and
scale where the edges do.
-/
import Mathlib.Algebra.Ring.Defs
import Mathlib.Algebra.Order.Monoid.Defs
import Mathlib.Order.Bounds.Basic

namespace GeneGIS.ShortestPath

variable {V K : Type}

/-- The walks from `a`, with their end and their cost. -/
inductive Walk [Zero K] [Add K] (edge : V → V → K → Prop) (a : V) : V → K → Prop
  | nil : Walk edge a a 0
  | snoc {b d : V} {c w : K} (walk : Walk edge a b c) (next : edge b d w) :
      Walk edge a d (c + w)

/-- The costs of the walks between two nodes. -/
def costs [Zero K] [Add K] (edge : V → V → K → Prop) (a b : V) : Set K := fun c =>
  Walk edge a b c

section Labels

variable [AddCommMonoid K] [LinearOrder K] [IsOrderedAddMonoid K]
  {edge : V → V → K → Prop} {origin : V} {label : V → Option K}

/-- Labels that cannot be improved. -/
structure Settled (edge : V → V → K → Prop) (origin : V) (label : V → Option K) : Prop where
  start : label origin = some 0
  sound : ∀ v c, label v = some c → Walk edge origin v c
  closed : ∀ u v c w, label u = some c → edge u v w → ∃ c', label v = some c' ∧ c' ≤ c + w

theorem Settled.le (h : Settled edge origin label) {v : V} {c : K} (walk : Walk edge origin v c) :
    ∃ c', label v = some c' ∧ c' ≤ c := by
  induction walk with
  | nil => exact ⟨0, h.start, le_refl 0⟩
  | @snoc b d c w _ next ih =>
    obtain ⟨c', hlabel, hle⟩ := ih
    obtain ⟨c'', hlabel', hle'⟩ := h.closed b d c' w hlabel next
    exact ⟨c'', hlabel', hle'.trans (add_le_add_left hle w)⟩

theorem Settled.isLeast (h : Settled edge origin label) {v : V} {c : K} :
    label v = some c ↔ IsLeast (costs edge origin v) c := by
  constructor
  · intro hlabel
    refine ⟨h.sound v c hlabel, fun c' walk => ?_⟩
    obtain ⟨d, hd, hle⟩ := h.le walk
    cases hlabel.symm.trans hd
    exact hle
  · intro hleast
    obtain ⟨d, hd, hle⟩ := h.le hleast.1
    rw [hd, le_antisymm hle (hleast.2 (h.sound v d hd))]

theorem Settled.eq_none (h : Settled edge origin label) {v : V} :
    label v = none ↔ ¬ ∃ c, Walk edge origin v c := by
  constructor
  · intro hnone hwalk
    obtain ⟨c, walk⟩ := hwalk
    obtain ⟨d, hd, -⟩ := h.le walk
    rw [hnone] at hd
    cases hd
  · intro hnone
    cases hlabel : label v with
    | none => rfl
    | some c => exact absurd ⟨c, h.sound v c hlabel⟩ hnone

end Labels

section Metric

variable [AddCommMonoid K] {edge : V → V → K → Prop} {a b d : V} {c c' w : K}

theorem Walk.cons (next : edge a b w) (walk : Walk edge b d c) : Walk edge a d (w + c) := by
  induction walk with
  | nil =>
    have hone := Walk.snoc Walk.nil next
    rwa [zero_add, ← add_zero w] at hone
  | snoc _ last ih =>
    rw [← add_assoc]
    exact ih.snoc last

theorem Walk.append (first : Walk edge a b c) (second : Walk edge b d c') :
    Walk edge a d (c + c') := by
  induction second with
  | nil =>
    rw [add_zero]
    exact first
  | snoc _ last ih =>
    rw [← add_assoc]
    exact ih.snoc last

theorem Walk.reverse (hsymm : ∀ u v w, edge u v w → edge v u w) (walk : Walk edge a b c) :
    Walk edge b a c := by
  induction walk with
  | nil => exact .nil
  | snoc _ last ih =>
    rw [add_comm]
    exact ih.cons (hsymm _ _ _ last)

theorem costs_symm (hsymm : ∀ u v w, edge u v w → edge v u w) (a b : V) :
    costs edge a b = costs edge b a :=
  Set.ext fun _ => ⟨Walk.reverse hsymm, Walk.reverse hsymm⟩

theorem least_triangle [LinearOrder K] {ab bd ad : K} (hab : IsLeast (costs edge a b) ab)
    (hbd : IsLeast (costs edge b d) bd) (had : IsLeast (costs edge a d) ad) : ad ≤ ab + bd :=
  had.2 (Walk.append hab.1 hbd.1)

end Metric

section Change

variable [AddCommMonoid K] {edge edge' : V → V → K → Prop} {a b : V}

theorem Walk.dearer [LinearOrder K] [IsOrderedAddMonoid K]
    (hedge : ∀ u v w, edge u v w → ∃ w', edge' u v w' ∧ w ≤ w') {c : K} (walk : Walk edge a b c) :
    ∃ c', Walk edge' a b c' ∧ c ≤ c' := by
  induction walk with
  | nil => exact ⟨0, .nil, le_refl 0⟩
  | snoc _ last ih =>
    obtain ⟨c', walk', hle⟩ := ih
    obtain ⟨w', last', hle'⟩ := hedge _ _ _ last
    exact ⟨c' + w', walk'.snoc last', add_le_add hle hle'⟩

theorem Walk.cheaper [LinearOrder K] [IsOrderedAddMonoid K]
    (hedge : ∀ u v w, edge u v w → ∃ w', edge' u v w' ∧ w' ≤ w) {c : K} (walk : Walk edge a b c) :
    ∃ c', Walk edge' a b c' ∧ c' ≤ c := by
  induction walk with
  | nil => exact ⟨0, .nil, le_refl 0⟩
  | snoc _ last ih =>
    obtain ⟨c', walk', hle⟩ := ih
    obtain ⟨w', last', hle'⟩ := hedge _ _ _ last
    exact ⟨c' + w', walk'.snoc last', add_le_add hle hle'⟩

end Change

theorem Walk.scale [Semiring K] {edge edge' : V → V → K → Prop} {a b : V} {factor : K}
    (hedge : ∀ u v w, edge u v w → edge' u v (w * factor)) {c : K} (walk : Walk edge a b c) :
    Walk edge' a b (c * factor) := by
  induction walk with
  | nil =>
    rw [zero_mul]
    exact .nil
  | snoc _ last ih =>
    rw [add_mul]
    exact ih.snoc (hedge _ _ _ last)

theorem Walk.unscale [Semiring K] {edge edge' : V → V → K → Prop} {a b : V} {factor : K}
    (hedge : ∀ u v w, edge' u v w → ∃ w', edge u v w' ∧ w' * factor = w) {c : K}
    (walk : Walk edge' a b c) : ∃ c', Walk edge a b c' ∧ c' * factor = c := by
  induction walk with
  | nil => exact ⟨0, .nil, zero_mul factor⟩
  | snoc _ last ih =>
    obtain ⟨c', walk', hc⟩ := ih
    obtain ⟨w', last', hw⟩ := hedge _ _ _ last
    exact ⟨c' + w', walk'.snoc last', by rw [add_mul, hc, hw]⟩

end GeneGIS.ShortestPath
