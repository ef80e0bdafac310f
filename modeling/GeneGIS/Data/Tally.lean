/-
Bounds that do not fall cut a line into classes, and the first class whose upper bound is above a
value is the one it lies in.  The counts add up to the items that have a class.
-/
import Mathlib.Order.Lattice
import Mathlib.Algebra.Ring.Nat
import Mathlib.Data.List.Basic
import Mathlib.Order.Basic

namespace GeneGIS.Tally

open List hiding getElem?_eq_some_iff map_eq_map
open Option hiding map_eq_map

/-! ## Classes -/

section

variable {K : Type} [LinearOrder K] {bounds : List K} {v : K} {i j : Nat}

def InClass (bounds : List K) (v : K) (i : Nat) : Prop :=
  ∃ low high, bounds[i]? = some low ∧ bounds[i + 1]? = some high ∧ low ≤ v ∧
    (v < high ∨ i + 2 = bounds.length ∧ v ≤ high)

/-- The first of the classes before the last that the value is not above, or the last. -/
def classOf (n : Nat) (below : Nat → Bool) : Nat :=
  ((range n).find? fun i => below i || i == n - 1).getD (n - 1)

theorem classOf_spec {n : Nat} (hn : 0 < n) (below : Nat → Bool) :
    classOf n below < n ∧ (∀ j < classOf n below, below j = false) ∧
      (below (classOf n below) = true ∨ classOf n below = n - 1) := by
  have hsome : ((range n).find? fun i => below i || i == n - 1).isSome = true := by
    rw [find?_isSome]
    exact ⟨n - 1, mem_range.mpr (by omega), by simp⟩
  obtain ⟨i, hi⟩ := isSome_iff_exists.mp hsome
  have hclass : classOf n below = i := by rw [classOf, hi, getD_some]
  rw [find?_range_eq_some] at hi
  rw [hclass]
  obtain ⟨hfound, hlt, hbefore⟩ := hi
  refine ⟨mem_range.mp hlt, ?_, ?_⟩
  · intro j hj
    have hnot := hbefore j hj
    simp only [Bool.not_eq_eq_eq_not, Bool.not_true, Bool.or_eq_false_iff] at hnot
    exact hnot.1
  · rw [Bool.or_eq_true, beq_iff_eq] at hfound
    exact hfound

theorem classOf_inClass (hlength : 2 ≤ bounds.length)
    (hlow : ∀ low, bounds[0]? = some low → low ≤ v)
    (hhigh : ∀ high, bounds[bounds.length - 1]? = some high → v ≤ high) {below : Nat → Bool}
    (hbelow : ∀ i b, bounds[i + 1]? = some b → (below i = true ↔ v < b)) :
    InClass bounds v (classOf (bounds.length - 1) below) := by
  obtain ⟨hlt, hbefore, hstop⟩ := classOf_spec (n := bounds.length - 1) (by omega) below
  obtain ⟨i, hi⟩ : ∃ i, i = classOf (bounds.length - 1) below := ⟨_, rfl⟩
  rw [← hi] at hlt hbefore hstop ⊢
  have hget : ∀ j, (h : j < bounds.length) → bounds[j]? = some bounds[j] := fun j h =>
    getElem?_eq_getElem h
  refine ⟨bounds[i], bounds[i + 1], hget i (by omega), hget (i + 1) (by omega), ?_, ?_⟩
  · by_cases hzero : i = 0
    · have hfirst := hget i (by omega)
      exact hlow _ (by rw [← hfirst, hzero])
    · have hnot := hbefore (i - 1) (by omega)
      have hbound := hbelow (i - 1) bounds[i] (by
        rw [show i - 1 + 1 = i by omega]
        exact hget i (by omega))
      rw [hnot] at hbound
      exact not_lt.mp fun h => Bool.false_ne_true (hbound.mpr h)
  · rcases hstop with hfound | hlast
    · exact .inl ((hbelow i _ (hget (i + 1) (by omega))).mp hfound)
    · refine .inr ⟨by omega, hhigh _ ?_⟩
      rw [show bounds.length - 1 = i + 1 by omega]
      exact hget (i + 1) (by omega)

theorem inClass_unique (hbounds : bounds.Pairwise (· ≤ ·)) (hi : InClass bounds v i)
    (hj : InClass bounds v j) : i = j := by
  have hlt : ∀ {i j : Nat}, InClass bounds v i → InClass bounds v j → ¬ i < j := by
    intro i j hi hj hij
    obtain ⟨-, high, -, hhigh, -, hupper⟩ := hi
    obtain ⟨low, top, hlow, htop, hle, -⟩ := hj
    obtain ⟨hiLength, rfl⟩ := getElem?_eq_some_iff.mp hhigh
    obtain ⟨hjLength, rfl⟩ := getElem?_eq_some_iff.mp hlow
    obtain ⟨htopLength, -⟩ := getElem?_eq_some_iff.mp htop
    have hmono : bounds[i + 1] ≤ bounds[j] := by
      by_cases heq : i + 1 = j
      · exact le_of_eq (by simp [heq])
      · exact pairwise_iff_getElem.mp hbounds (i + 1) j hiLength hjLength (by omega)
    rcases hupper with hbelow | ⟨hlast, -⟩
    · exact absurd (lt_of_lt_of_le hbelow (hmono.trans hle)) (lt_irrefl v)
    · omega
  have hij := hlt hi hj
  have hji := hlt hj hi
  omega

end

variable {α : Type} (index : α → Option Nat)

def tally (counts : List Nat) (items : List α) : List Nat :=
  items.foldl (fun counts a => match index a with
    | some i => counts.modify i (· + 1)
    | none => counts) counts

theorem tally_getElem? (items : List α) (i : Nat) : ∀ counts : List Nat,
    (tally index counts items)[i]? = counts[i]?.map (· + items.countP fun a => index a = some i) := by
  induction items with
  | nil =>
    intro counts
    cases h : counts[i]? <;> simp [tally, h]
  | cons a rest ih =>
    intro counts
    rw [tally, foldl_cons, ← tally, ih, countP_cons]
    cases h : index a with
    | none => simp
    | some j =>
      rw [getElem?_modify]
      by_cases hj : j = i
      · cases counts[i]? with
        | none => rfl
        | some n =>
          simp only [Option.map_eq_map, Option.map_some, Option.some.injEq, hj, decide_true, if_true]
          omega
      · cases counts[i]? <;> simp [hj]

theorem sum_modify (counts : List Nat) : ∀ {i : Nat}, i < counts.length →
    (counts.modify i (· + 1)).sum = counts.sum + 1 := by
  induction counts with
  | nil =>
    intro i h
    cases h
  | cons n rest ih =>
    intro i h
    cases i with
    | zero =>
      rw [modify_zero_cons, sum_cons, sum_cons]
      omega
    | succ i =>
      rw [modify_succ_cons, sum_cons, sum_cons, ih (Nat.lt_of_succ_lt_succ h)]
      omega

theorem sum_tally (items : List α) : ∀ counts : List Nat,
    (∀ a ∈ items, ∀ i, index a = some i → i < counts.length) →
    (tally index counts items).sum = counts.sum + items.countP fun a => (index a).isSome := by
  induction items with
  | nil =>
    intro counts _
    rfl
  | cons a rest ih =>
    intro counts h
    have hrest := fun a ha => h a (mem_cons_of_mem _ ha)
    rw [tally, foldl_cons, ← tally, countP_cons]
    cases ha : index a with
    | none =>
      rw [ih _ hrest]
      simp
    | some i =>
      have hi := h a mem_cons_self i ha
      rw [ih _ (by rw [length_modify]; exact hrest), sum_modify counts hi]
      simp only [isSome_some, if_true]
      omega

end GeneGIS.Tally
