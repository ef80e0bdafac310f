/-
A class may be empty.  The least total cost over all partitions follows a recursion on the last
class.
-/
import Mathlib.Algebra.BigOperators.Group.List.Basic
import Mathlib.Algebra.Order.Monoid.Defs
import Mathlib.Order.Bounds.Basic

namespace GeneGIS.Contiguous

open List

variable {α R : Type}

/-- The classes are those of `xs` from left to right, at most `k` of them. -/
structure Into (k : Nat) (xs : List α) (classes : List (List α)) : Prop where
  flatten : classes.flatten = xs
  few : classes.length ≤ k

section Total

variable [AddCommMonoid R] {cost : List α → R}

def total (cost : List α → R) (classes : List (List α)) : R := (classes.map cost).sum

@[simp] theorem total_nil : total cost [] = 0 := rfl

@[simp] theorem total_cons (c : List α) (classes : List (List α)) :
    total cost (c :: classes) = cost c + total cost classes := by
  simp [total]

@[simp] theorem total_append (before after : List (List α)) :
    total cost (before ++ after) = total cost before + total cost after := by
  simp [total]

/-- The totals of the partitions into at most `k` classes. -/
def totals (cost : List α → R) (k : Nat) (xs : List α) : Set R :=
  {t | ∃ classes, Into k xs classes ∧ total cost classes = t}

theorem exists_nonempty (hnil : cost [] = 0) {k : Nat} {xs : List α} {classes : List (List α)}
    (h : Into k xs classes) : ∃ kept, Into k xs kept ∧ (∀ c ∈ kept, c ≠ []) ∧
      total cost kept = total cost classes := by
  refine ⟨classes.filter fun c => !c.isEmpty, ⟨?_, ?_⟩, ?_, ?_⟩
  · rw [← h.flatten]
    exact flatten_filter_not_isEmpty
  · exact (length_filter_le _ _).trans h.few
  · intro c hc
    simpa using (mem_filter.mp hc).2
  · clear h
    induction classes with
    | nil => rfl
    | cons c rest ih =>
      cases c with
      | nil => simpa [hnil] using ih
      | cons x c => simp [ih]

end Total

section Least

variable [AddCommMonoid R] [PartialOrder R] {cost : List α → R}

theorem isLeast_one (hnil : cost [] = 0) {xs : List α} (hxs : xs ≠ []) :
    IsLeast (totals cost 1 xs) (cost xs) := by
  refine ⟨⟨[xs], ⟨by simp, by simp⟩, by simp⟩, fun t ht => ?_⟩
  obtain ⟨classes, hinto, rfl⟩ := ht
  obtain ⟨kept, hkept, -, htotal⟩ := exists_nonempty hnil hinto
  rw [← htotal]
  match kept, hkept with
  | [], h => exact absurd h.flatten.symm hxs
  | [c], h =>
    have hc : c = xs := by simpa using h.flatten
    simp [hc]
  | _ :: _ :: _, h =>
    have hfew := h.few
    simp at hfew

theorem isLeast_single (hnil : cost [] = 0) {k : Nat} (hk : 0 < k) (x : α) :
    IsLeast (totals cost k [x]) (cost [x]) := by
  refine ⟨⟨[[x]], ⟨by simp, hk⟩, by simp⟩, fun t ht => ?_⟩
  obtain ⟨classes, hinto, rfl⟩ := ht
  obtain ⟨kept, hkept, hnonempty, htotal⟩ := exists_nonempty hnil hinto
  rw [← htotal]
  match kept, hkept, hnonempty with
  | [], h, _ => exact absurd h.flatten (by simp)
  | [c], h, _ =>
    have hc : c = [x] := by simpa using h.flatten
    simp [hc]
  | c :: d :: rest, h, hne =>
    have hlength := congrArg List.length h.flatten
    have hc := length_pos_iff.mpr (hne c (by simp))
    have hd := length_pos_iff.mpr (hne d (by simp))
    simp only [flatten_cons, length_append, length_singleton] at hlength
    omega

theorem exists_last {k : Nat} {xs : List α} {classes : List (List α)}
    (h : Into (k + 1) xs classes) (hne : ∀ c ∈ classes, c ≠ []) (hxs : xs ≠ []) :
    classes = [xs] ∨ ∃ i before, 0 < i ∧ i < xs.length ∧ Into k (xs.take i) before ∧
      classes = before ++ [xs.drop i] := by
  rcases eq_nil_or_concat classes with hnil | ⟨before, last, hlast⟩
  · rw [hnil] at h
    exact absurd h.flatten.symm hxs
  · rw [concat_eq_append] at hlast
    subst hlast
    have hflatten : before.flatten ++ last = xs := by simpa using h.flatten
    have hlast : 0 < last.length := length_pos_iff.mpr (hne last (by simp))
    cases before with
    | nil => exact Or.inl (by simpa using hflatten)
    | cons c rest =>
      have hc : 0 < c.length := length_pos_iff.mpr (hne c (by simp))
      refine Or.inr ⟨(c :: rest).flatten.length, c :: rest, ?_, ?_, ⟨?_, ?_⟩, ?_⟩
      · rw [flatten_cons, length_append]
        omega
      · rw [← hflatten, length_append]
        omega
      · rw [← hflatten, take_left]
      · have hfew := h.few
        rw [length_append, length_singleton] at hfew
        omega
      · rw [← hflatten, drop_left]

variable [IsOrderedAddMonoid R]

/-- The recursion on the last class.  Where cutting a class never costs more, the partition
into one class need not be looked at. -/
theorem isLeast_step (hnil : cost [] = 0) (hcut : ∀ a b, cost a + cost b ≤ cost (a ++ b))
    {k : Nat} (hk : 0 < k) {xs : List α} {least : Nat → R} {v : R} (hxs : 1 < xs.length)
    (hleast : ∀ i, 0 < i → i < xs.length → IsLeast (totals cost k (xs.take i)) (least i))
    (hattained : ∃ i, 0 < i ∧ i < xs.length ∧ v = cost (xs.drop i) + least i)
    (hbound : ∀ i, 0 < i → i < xs.length → v ≤ cost (xs.drop i) + least i) :
    IsLeast (totals cost (k + 1) xs) v := by
  have hne : xs ≠ [] := length_pos_iff.mp (by omega)
  constructor
  · obtain ⟨i, hpos, hlt, rfl⟩ := hattained
    obtain ⟨before, hinto, htotal⟩ := (hleast i hpos hlt).1
    refine ⟨before ++ [xs.drop i], ⟨?_, ?_⟩, ?_⟩
    · simp [hinto.flatten]
    · have hfew := hinto.few
      simp
      omega
    · rw [total_append, htotal, total_cons, total_nil, add_zero, add_comm]
  · intro t ht
    obtain ⟨classes, hclasses, rfl⟩ := ht
    obtain ⟨kept, hkept, hnonempty, htotal⟩ := exists_nonempty hnil hclasses
    rw [← htotal]
    rcases exists_last hkept hnonempty hne with hwhole | ⟨i, before, hpos, hlt, hinto, hlast⟩
    · have hi : xs.length - 1 < xs.length := by omega
      have hprefix : least (xs.length - 1) ≤ cost (xs.take (xs.length - 1)) :=
        (hleast _ (by omega) hi).2 ⟨[xs.take (xs.length - 1)], ⟨by simp, hk⟩, by simp⟩
      calc v ≤ cost (xs.drop (xs.length - 1)) + least (xs.length - 1) := hbound _ (by omega) hi
        _ ≤ cost (xs.drop (xs.length - 1)) + cost (xs.take (xs.length - 1)) := by gcongr
        _ = cost (xs.take (xs.length - 1)) + cost (xs.drop (xs.length - 1)) := add_comm _ _
        _ ≤ cost (xs.take (xs.length - 1) ++ xs.drop (xs.length - 1)) := hcut _ _
        _ = total cost kept := by rw [take_append_drop, hwhole]; simp
    · have hprefix : least i ≤ total cost before := (hleast i hpos hlt).2 ⟨before, hinto, rfl⟩
      calc v ≤ cost (xs.drop i) + least i := hbound i hpos hlt
        _ ≤ cost (xs.drop i) + total cost before := by gcongr
        _ = total cost kept := by rw [hlast]; simp [add_comm]

end Least

end GeneGIS.Contiguous
