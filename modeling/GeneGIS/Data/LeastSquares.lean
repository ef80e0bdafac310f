/-
The deviation of a list is least at the mean, so cutting it never raises the total.  A best
partition can be told from the values at which its classes start (`total_grouped_le`).
-/
import GeneGIS.Data.Contiguous
import Mathlib.Algebra.BigOperators.Group.Finset.Piecewise
import Mathlib.Algebra.Order.BigOperators.Group.List
import Mathlib.Algebra.Order.Field.Basic
import Mathlib.Algebra.Order.Ring.Pow
import Mathlib.Data.List.Sort
import Mathlib.Tactic.FieldSimp
import Mathlib.Tactic.Linarith
import Mathlib.Tactic.Ring

namespace GeneGIS.LeastSquares

open List

open Contiguous (Into total)

variable {K : Type} [Field K]

/-- The sum of the squared deviations from a centre. -/
def deviation (c : K) (xs : List K) : K := (xs.map fun x => (x - c) ^ 2).sum

def mean (xs : List K) : K := xs.sum / xs.length

/-- The sum of the squared deviations from the mean. -/
def within (xs : List K) : K := deviation (mean xs) xs

@[simp] theorem deviation_nil (c : K) : deviation c [] = 0 := rfl

@[simp] theorem deviation_cons (c x : K) (xs : List K) :
    deviation c (x :: xs) = (x - c) ^ 2 + deviation c xs := by
  simp [deviation]

@[simp] theorem deviation_append (c : K) (xs ys : List K) :
    deviation c (xs ++ ys) = deviation c xs + deviation c ys := by
  simp [deviation]

@[simp] theorem within_nil : within ([] : List K) = 0 := rfl

@[simp] theorem within_single (x : K) : within [x] = 0 := by
  simp [within, mean]

theorem deviation_eq (c : K) (xs : List K) :
    deviation c xs = (xs.map fun x => x ^ 2).sum - 2 * c * xs.sum + xs.length * c ^ 2 := by
  induction xs with
  | nil => simp
  | cons x xs ih =>
    rw [deviation_cons, ih]
    simp only [map_cons, sum_cons, length_cons]
    push_cast
    ring

section CharZero

variable [CharZero K]

theorem within_eq (xs : List K) :
    within xs = (xs.map fun x => x ^ 2).sum - xs.sum * xs.sum / xs.length := by
  rw [within, deviation_eq, mean]
  by_cases h : (xs.length : K) = 0
  · have hnil : xs = [] := length_eq_zero_iff.mp (by exact_mod_cast h)
    rw [hnil]
    simp
  · field_simp
    ring

theorem deviation_eq_within (c : K) (xs : List K) :
    deviation c xs = within xs + xs.length * (c - mean xs) ^ 2 := by
  rw [deviation_eq, within_eq, mean]
  by_cases h : (xs.length : K) = 0
  · have hnil : xs = [] := length_eq_zero_iff.mp (by exact_mod_cast h)
    rw [hnil]
    simp
  · field_simp
    ring

end CharZero

section Ordered

variable [LinearOrder K] [IsStrictOrderedRing K]

theorem within_le (c : K) (xs : List K) : within xs ≤ deviation c xs := by
  rw [deviation_eq_within c xs]
  have hlength : (0 : K) ≤ xs.length := Nat.cast_nonneg _
  have hsquare : 0 ≤ (c - mean xs) ^ 2 := sq_nonneg _
  exact le_add_of_nonneg_right (mul_nonneg hlength hsquare)

theorem within_append_le (xs ys : List K) : within xs + within ys ≤ within (xs ++ ys) := by
  show _ ≤ deviation (mean (xs ++ ys)) (xs ++ ys)
  rw [deviation_append]
  exact add_le_add (within_le _ xs) (within_le _ ys)

end Ordered

section Starts

variable {K : Type} [LinearOrder K] (starts : List K)

/-- The class of a value is the number of starts that do not lie above it. -/
def classOf (v : K) : Nat := starts.countP fun s => decide (s ≤ v)

/-- The values between neighbouring starts. -/
def grouped (starts xs : List K) : List (List K) :=
  (List.range (starts.length + 1)).map fun i => xs.filter fun v => decide (classOf starts v = i)

theorem classOf_le_length (v : K) : classOf starts v ≤ starts.length := countP_le_length

theorem classOf_mono {v w : K} (h : v ≤ w) : classOf starts v ≤ classOf starts w := by
  refine countP_mono_left fun s _ hs => ?_
  exact decide_eq_true ((of_decide_eq_true hs).trans h)

theorem mem_grouped {starts xs c : List K} (h : c ∈ grouped starts xs) :
    ∃ i, c = xs.filter fun v => decide (classOf starts v = i) := by
  obtain ⟨i, -, rfl⟩ := mem_map.mp h
  exact ⟨i, rfl⟩

theorem grouped_perm (starts xs : List K) : (grouped starts xs).flatten.Perm xs := by
  refine perm_iff_count.mpr fun v => ?_
  rw [count_flatten, grouped, map_map]
  have hcount : ∀ i, (List.count v ∘ fun i => xs.filter fun v => decide (classOf starts v = i)) i =
      if classOf starts v = i then xs.count v else 0 := by
    intro i
    by_cases h : classOf starts v = i
    · rw [if_pos h, Function.comp_apply, count_filter (by simp [h])]
    · rw [if_neg h, Function.comp_apply]
      exact count_eq_zero.mpr fun hmem => h (of_decide_eq_true (mem_filter.mp hmem).2)
  rw [map_congr_left fun i _ => hcount i]
  have hclass : classOf starts v ∈ Finset.range (starts.length + 1) :=
    Finset.mem_range.mpr (Nat.lt_succ_of_le (classOf_le_length starts v))
  show Finset.sum (Finset.range (starts.length + 1))
    (fun i => if classOf starts v = i then xs.count v else 0) = xs.count v
  rw [Finset.sum_ite_eq, if_pos hclass]

theorem into_grouped {xs : List K} (hsorted : xs.Pairwise (· ≤ ·)) :
    Into (starts.length + 1) xs (grouped starts xs) := by
  refine ⟨?_, by simp [grouped]⟩
  have hpairwise : (grouped starts xs).flatten.Pairwise (· ≤ ·) := by
    refine pairwise_flatten.mpr ⟨fun c hc => ?_, ?_⟩
    · obtain ⟨i, rfl⟩ := mem_grouped hc
      exact hsorted.filter _
    · refine pairwise_map.mpr (pairwise_lt_range.imp fun {i j} hij v hv w hw => ?_)
      have hi : classOf starts v = i := of_decide_eq_true (mem_filter.mp hv).2
      have hj : classOf starts w = j := of_decide_eq_true (mem_filter.mp hw).2
      by_contra hlt
      have := classOf_mono starts (not_le.mp hlt).le
      omega
  exact (grouped_perm starts xs).eq_of_pairwise (fun a b _ _ hab hba => le_antisymm hab hba)
    hpairwise hsorted

end Starts

section Cuts

variable {α : Type}

/-- Every start is the first value at or behind the beginning of its class. -/
def Starts : List α → List (List α) → Prop
  | [], [] => True
  | s :: starts, c :: classes => (c :: classes).flatten.head? = some s ∧ Starts starts classes
  | _, _ => False

theorem Starts.mem {starts : List α} {classes : List (List α)} (h : Starts starts classes) :
    ∀ s ∈ starts, s ∈ classes.flatten := by
  induction starts generalizing classes with
  | nil => simp
  | cons s starts ih =>
    match classes, h with
    | c :: classes, h =>
      intro t ht
      rcases mem_cons.mp ht with rfl | ht
      · exact mem_of_mem_head? h.1
      · rw [flatten_cons]
        exact mem_append_right _ (ih h.2 t ht)

theorem Starts.length_eq {starts : List α} {classes : List (List α)} (h : Starts starts classes) :
    starts.length = classes.length := by
  induction starts generalizing classes with
  | nil =>
    cases classes with
    | nil => rfl
    | cons => exact h.elim
  | cons s starts ih =>
    match classes, h with
    | c :: classes, h => rw [length_cons, length_cons, ih h.2]

end Cuts

/-! ## Centres -/

section Centres

/-- The mean of the last class with a value among the first `i` classes behind `c`. -/
def centre (c : List K) : List (List K) → Nat → K
  | [], _ => mean c
  | _ :: _, 0 => mean c
  | next :: classes, i + 1 => centre (if next = [] then c else next) classes i

variable [LinearOrder K]

/-- The first value of a class is at least as near to the mean of its class as to the mean of
the class before. -/
def Stable (c : List K) : List (List K) → Prop
  | [] => True
  | next :: classes =>
    (∀ x, next.head? = some x → (x - mean next) ^ 2 ≤ (x - mean c) ^ 2) ∧
      Stable (if next = [] then c else next) classes

theorem grouped_deviation {starts xs : List K} (hsorted : xs.Pairwise (· ≤ ·)) (g : Nat → K) :
    ((List.range (starts.length + 1)).map fun i =>
      deviation (g i) (xs.filter fun v => decide (classOf starts v = i))).sum =
    (xs.map fun v => (v - g (classOf starts v)) ^ 2).sum := by
  conv_rhs => rw [← (into_grouped starts hsorted).flatten, grouped, map_flatten,
    sum_flatten, map_map, map_map]
  congr 1
  refine map_congr_left fun i _ => ?_
  show _ = (List.map (fun v => (v - g (classOf starts v)) ^ 2) _).sum
  rw [deviation]
  congr 1
  refine map_congr_left fun v hv => ?_
  rw [of_decide_eq_true (mem_filter.mp hv).2]

variable {classes : List (List K)} {starts : List K}

theorem carried_le (hstarts : Starts starts classes)
    (hsorted : classes.flatten.Pairwise (· ≤ ·)) {c : List K} (hstable : Stable c classes) {v : K}
    (hv : ∀ y ∈ classes.flatten, v ≤ y) :
    (v - centre c classes (classOf starts v)) ^ 2 ≤ (v - mean c) ^ 2 := by
  induction classes generalizing starts c with
  | nil => rw [centre]
  | cons next classes ih =>
    match starts, hstarts with
    | s :: starts, hstarts =>
      have hmem : s ∈ (next :: classes).flatten := mem_of_mem_head? hstarts.1
      by_cases hs : s ≤ v
      · have hsv : s = v := le_antisymm hs (hv s hmem)
        have hclass : classOf (s :: starts) v = classOf starts v + 1 := by
          simp [classOf, hs]
        rw [hclass, centre]
        rw [flatten_cons] at hsorted hv
        have hrest := (pairwise_append.mp hsorted).2.1
        have hvrest : ∀ y ∈ classes.flatten, v ≤ y := fun y hy => hv y (mem_append_right _ hy)
        refine (ih hstarts.2 hrest hstable.2 hvrest).trans ?_
        cases next with
        | nil => exact le_rfl
        | cons y rest =>
          have hy : y = v := by
            have hhead := hstarts.1
            rw [flatten_cons, cons_append, head?_cons] at hhead
            exact (Option.some.inj hhead).trans hsv
          rw [if_neg (cons_ne_nil y rest)]
          rw [← hy]
          exact hstable.1 y rfl
      · have hclass : classOf (s :: starts) v = 0 := by
          refine countP_eq_zero.mpr fun t ht => ?_
          have hst : s ≤ t := by
            obtain ⟨tail, htail⟩ : ∃ tail, (next :: classes).flatten = s :: tail :=
              head?_eq_some_iff.mp hstarts.1
            have hmem : t ∈ (next :: classes).flatten := by
              rcases mem_cons.mp ht with rfl | ht
              · exact hmem
              · rw [flatten_cons]
                exact mem_append_right _ (hstarts.2.mem t ht)
            rw [htail] at hmem hsorted
            rcases mem_cons.mp hmem with rfl | hmem
            · exact le_rfl
            · exact (pairwise_cons.mp hsorted).1 t hmem
          simpa using (not_le.mp hs).trans_le hst
        rw [hclass, centre]

variable [IsStrictOrderedRing K]

theorem first_le {k : Nat} {xs c rest : List K} {x : K} {before empty after : List (List K)}
    (hempty : empty.flatten = [])
    (hinto : Into k xs (before ++ c :: (empty ++ (x :: rest) :: after)))
    (hleast : ∀ classes, Into k xs classes →
      total within (before ++ c :: (empty ++ (x :: rest) :: after)) ≤ total within classes) :
    (x - mean (x :: rest)) ^ 2 ≤ (x - mean c) ^ 2 := by
  have hmoved : Into k xs (before ++ (c ++ [x]) :: (empty ++ rest :: after)) := by
    refine ⟨?_, ?_⟩
    · rw [← hinto.flatten]
      simp [hempty]
    · have hfew := hinto.few
      simp only [length_append, length_cons] at hfew ⊢
      exact hfew
  have hle := hleast _ hmoved
  simp only [Contiguous.total_append, Contiguous.total_cons] at hle
  have hleft : within (c ++ [x]) ≤ within c + (x - mean c) ^ 2 := by
    refine (within_le (mean c) _).trans_eq ?_
    rw [deviation_append]
    simp [within]
  have hright : within rest + (x - mean (x :: rest)) ^ 2 ≤ within (x :: rest) := by
    have h := within_le (mean (x :: rest)) rest
    have hcons : within (x :: rest) = (x - mean (x :: rest)) ^ 2 + deviation (mean (x :: rest)) rest :=
      deviation_cons _ _ _
    linarith
  linarith

theorem stable_of_least {k : Nat} {xs : List K} (classes : List (List K)) :
    ∀ (before empty : List (List K)) (c : List K), empty.flatten = [] →
      Into k xs (before ++ c :: (empty ++ classes)) →
      (∀ others, Into k xs others →
        total within (before ++ c :: (empty ++ classes)) ≤ total within others) →
      Stable c classes := by
  induction classes with
  | nil =>
    intro before empty c hempty hinto hleast
    trivial
  | cons next classes ih =>
    intro before empty c hempty hinto hleast
    constructor
    · intro x hx
      cases next with
      | nil => cases hx
      | cons y rest =>
        cases hx
        exact first_le hempty hinto hleast
    · by_cases hnext : next = []
      · rw [if_pos hnext]
        have hlist : before ++ c :: (empty ++ next :: classes) =
            before ++ c :: ((empty ++ [next]) ++ classes) := by simp
        rw [hlist] at hinto hleast
        exact ih before (empty ++ [next]) c (by simp [hempty, hnext]) hinto hleast
      · rw [if_neg hnext]
        have hlist : before ++ c :: (empty ++ next :: classes) =
            (before ++ c :: empty) ++ next :: ([] ++ classes) := by simp
        rw [hlist] at hinto hleast
        exact ih (before ++ c :: empty) [] next rfl hinto hleast

theorem carried_sum_le
    (hstarts : Starts starts classes) (hsorted : classes.flatten.Pairwise (· ≤ ·)) {c : List K}
    (hstable : Stable c classes) :
    (classes.flatten.map fun v => (v - centre c classes (classOf starts v)) ^ 2).sum ≤
      total within classes := by
  induction classes generalizing starts c with
  | nil => exact le_rfl
  | cons next classes ih =>
    match starts, hstarts with
    | s :: starts, hstarts =>
      obtain ⟨tail, htail⟩ : ∃ tail, (next :: classes).flatten = s :: tail :=
        head?_eq_some_iff.mp hstarts.1
      have hs : ∀ v ∈ (next :: classes).flatten, s ≤ v := by
        intro v hv
        rw [htail] at hv hsorted
        rcases mem_cons.mp hv with rfl | hv
        · exact le_rfl
        · exact (pairwise_cons.mp hsorted).1 v hv
      have hclass : ∀ v ∈ (next :: classes).flatten,
          (v - centre c (next :: classes) (classOf (s :: starts) v)) ^ 2 =
            (v - centre (if next = [] then c else next) classes (classOf starts v)) ^ 2 := by
        intro v hv
        have h : classOf (s :: starts) v = classOf starts v + 1 := by
          simp [classOf, hs v hv]
        rw [h, centre]
      rw [map_congr_left hclass]
      rw [flatten_cons] at hsorted
      obtain ⟨-, hrest, hbetween⟩ := pairwise_append.mp hsorted
      rw [flatten_cons, map_append, sum_append, Contiguous.total_cons]
      refine add_le_add ?_ (ih hstarts.2 hrest hstable.2)
      refine sum_le_sum fun v hv => ?_
      have hnext : next ≠ [] := ne_nil_of_mem hv
      have hstable' := hstable.2
      rw [if_neg hnext] at hstable' ⊢
      exact carried_le hstarts.2 hrest hstable' (hbetween v hv)

/-- Grouping sorted values by the starts of a partition with the least total costs no more. -/
theorem total_grouped_le {k : Nat} {xs c : List K}
    (hsorted : xs.Pairwise (· ≤ ·)) (hinto : Into k xs (c :: classes))
    (hleast : ∀ others, Into k xs others → total within (c :: classes) ≤ total within others)
    (hstarts : Starts starts classes) :
    total within (grouped starts xs) ≤ total within (c :: classes) := by
  have hstable : Stable c classes := stable_of_least classes [] [] c rfl hinto hleast
  have hflatten : c ++ classes.flatten = xs := hinto.flatten
  rw [← hflatten] at hsorted
  obtain ⟨-, hrest, hbetween⟩ := pairwise_append.mp hsorted
  rw [hflatten] at hsorted
  have hcentres : total within (grouped starts xs) ≤ ((List.range (starts.length + 1)).map fun i =>
        deviation (centre c classes i) (xs.filter fun v => decide (classOf starts v = i))).sum := by
    rw [total, grouped, map_map]
    exact sum_le_sum fun i _ => within_le _ _
  refine hcentres.trans ?_
  rw [grouped_deviation hsorted, ← hflatten, map_append, sum_append, Contiguous.total_cons]
  refine add_le_add (sum_le_sum fun v hv => ?_) (carried_sum_le hstarts hrest hstable)
  exact carried_le hstarts hrest hstable (hbetween v hv)

end Centres

end GeneGIS.LeastSquares
