/-
A row of the dynamic program has for every number of classes the least total of squared deviations
found, and where the last class starts, and reads earlier rows only.
-/
import GeneGIS.Data.LeastSquares
import GeneGIS.Toolkit.Arithmetic
import Mathlib.Data.List.GetD
import Mathlib.Data.Rat.Floor

namespace GeneGIS.Toolkit.Jenks

variable {F : Type} [Arithmetic F]

open Arithmetic

structure Entry (F : Type) where
  lower : Nat
  variance : F

abbrev Row (F : Type) := List (Entry F)

def Entry.unset : Entry F := ⟨0, infinity false⟩

def Row.entry (row : Row F) (j : Nat) : Entry F := row.getD j .unset

/-- The rows so far, by the number of values. -/
abbrev Rows (F : Type) := List (Row F)

def Rows.entry (rows : Rows F) (l j : Nat) : Entry F := Row.entry (rows.getD l []) j

/-- The sums over the last class, and its squared deviation. -/
structure Sums (F : Type) where
  s1 : F
  s2 : F
  w : F
  v : F

def Sums.zero : Sums F := ⟨ofNat 0, ofNat 0, ofNat 0, ofNat 0⟩

def Sums.push (sums : Sums F) (val : F) : Sums F :=
  let s2 := add sums.s2 (mul val val)
  let s1 := add sums.s1 val
  let w := add sums.w (ofNat 1)
  ⟨s1, s2, w, sub s2 (div (mul s1 s1) w)⟩

/-- The loop over the numbers of classes, for a last class that starts behind `i4` values.  A
tie moves the start. -/
def relax (previous : Row F) (v : F) (i4 : Nat) (row : Row F) : Row F := row.mapIdx fun j entry =>
    if 2 ≤ j then
      let candidate := add v (previous.entry (j - 1)).variance
      if le candidate entry.variance then ⟨i4 + 1, candidate⟩ else entry
    else entry

/-- The loop over the starts of the last class, from the last value down to the first. -/
def fill (data : List F) (rows : Rows F) : Nat → Sums F → Row F → Sums F × Row F
  | 0, sums, row => (sums, row)
  | i4 + 1, sums, row =>
    let sums := sums.push (data.getD i4 (ofNat 0))
    fill data rows i4 sums (if i4 ≠ 0 then relax (rows.getD i4 []) sums.v i4 row else row)

variable (data : List F)

/-- The row of `l` values. -/
def nextRow (k : Nat) (rows : Rows F) (l : Nat) : Row F :=
  let (sums, row) := fill data rows l .zero (List.replicate (k + 1) .unset)
  row.set 1 ⟨1, sums.v⟩

/-- The rows of no value and of one value. -/
def firstRows (k : Nat) : Rows F :=
  [List.replicate (k + 1) .unset, .unset :: List.replicate k ⟨1, ofNat 0⟩]

/-- The loop over the numbers of values: `count` rows behind the first two. -/
def table (data : List F) (k : Nat) : Nat → Rows F
  | 0 => firstRows k
  | count + 1 =>
    let rows := table data k count
    rows ++ [nextRow data k rows (count + 2)]

/-- The walk along the back-pointers, with the breaks found so far. -/
def walk (data : List F) (rows : Rows F) : Nat → Nat → List F → List F
  | 0, _, breaks => breaks
  | j + 1, idx, breaks =>
    let start := Max.max (rows.entry idx (j + 2)).lower 2
    walk data rows j (start - 1) (data.getD (start - 1) (ofNat 0) :: breaks)

def allRows (k : Nat) : Rows F := table data k (data.length - 1)

def readBreaks (k : Nat) : List F := walk data (allRows data k) (k - 1) data.length []

/-- At most two thousand values are looked at. -/
def sample (sorted : List F) : List F :=
  if 2000 < sorted.length then
    (List.range 2000).map fun i => sorted.getD (i * (sorted.length - 1) / 1999) (ofNat 0)
  else sorted

def jenks (sorted : List F) (k : Nat) : List F :=
  let data := sample sorted
  if data.length ≤ k then data.drop 1 else readBreaks data k

end GeneGIS.Toolkit.Jenks

/-! ## The natural breaks are optimal

Over exact numbers an entry of the table is the least total over the partitions of its values into
contiguous classes. -/

namespace GeneGIS.Toolkit.Jenks

open Contiguous LeastSquares List Nat GeneGIS.Exact

variable {data : List ℚ} {k l : Nat} {rows : Rows (Exact ℚ)}

def Entry.value (entry : Entry (Exact ℚ)) : ℚ :=
  match entry.variance with
  | .finite a => a
  | _ => 0

/-- The entry has the least total over the first `l` values. -/
structure Entry.Solved (data : List ℚ) (l j : Nat) (entry : Entry (Exact ℚ)) : Prop where
  finite : entry.variance = .finite entry.value
  least : IsLeast (totals within j (data.take l)) entry.value

/-- What the total is with a last class behind the first `i` values. -/
def candidate (data : List ℚ) (rows : Rows (Exact ℚ)) (l j i : Nat) : ℚ :=
  within ((data.take l).drop i) + (rows.entry i (j - 1)).value

/-- The entry has the least of the candidates from `low` up to `high`. -/
def Best (c : Nat → ℚ) (low high : Nat) (entry : Entry (Exact ℚ)) : Prop :=
  (high ≤ low ∧ entry = .unset) ∨ ∃ i, low ≤ i ∧ i < high ∧ entry = ⟨i + 1, .finite (c i)⟩ ∧
      ∀ i', low ≤ i' → i' < high → c i ≤ c i'

variable {entry : Entry (Exact ℚ)}

theorem Best.step {c : Nat → ℚ} {i high : Nat} (h : Best c (i + 1) high entry) (hi : i < high) :
    Best c i high (if le (.finite (c i)) entry.variance = true then ⟨i + 1, .finite (c i)⟩
      else entry) := by
  rcases h with ⟨hhigh, rfl⟩ | ⟨m, hlow, hm, rfl, hleast⟩
  · refine .inr ⟨i, le_rfl, hi, if_pos rfl, fun i' hlow' hhigh' => ?_⟩
    have heq : i' = i := by omega
    rw [heq]
  · by_cases hle : c i ≤ c m
    · refine .inr ⟨i, le_rfl, hi, if_pos (decide_eq_true hle), fun i' hlow' hhigh' => ?_⟩
      by_cases heq : i' = i
      · rw [heq]
      · exact hle.trans (hleast i' (by omega) hhigh')
    · refine .inr ⟨m, by omega, hm, if_neg ?_, fun i' hlow' hhigh' => ?_⟩
      · intro h
        exact hle (of_decide_eq_true h)
      · by_cases heq : i' = i
        · rw [heq]
          exact (not_le.mp hle).le
        · exact hleast i' (by omega) hhigh'

/-! ## One row -/

/-- The sums of a last class. -/
structure Sums.Of (sums : Sums (Exact ℚ)) (c : List ℚ) : Prop where
  s1 : sums.s1 = .finite c.sum
  s2 : sums.s2 = .finite (c.map fun x => x ^ 2).sum
  w : sums.w = .finite c.length

theorem Sums.of_zero : Sums.Of (.zero : Sums (Exact ℚ)) [] := by
  refine ⟨?_, ?_, ?_⟩ <;> simp [Sums.zero, Arithmetic.ofNat]

variable {sums : Sums (Exact ℚ)}

theorem Sums.Of.push {c : List ℚ} (h : sums.Of c) (x : ℚ) : (sums.push (.finite x)).Of (x :: c) ∧
      (sums.push (.finite x)).v = .finite (within (x :: c)) := by
  have hs1 : (sums.push (.finite x)).s1 = .finite (x :: c).sum := by
    show Exact.add sums.s1 (.finite x) = _
    rw [h.s1, Exact.add, sum_cons, add_comm]
  have hs2 : (sums.push (.finite x)).s2 = .finite ((x :: c).map fun x => x ^ 2).sum := by
    show Exact.add sums.s2 (.finite (x * x)) = _
    rw [h.s2, Exact.add, map_cons, sum_cons, add_comm, sq]
  have hw : (sums.push (.finite x)).w = .finite (x :: c).length := by
    show Exact.add sums.w (.finite ((1 : Nat) : ℚ)) = _
    rw [h.w, Exact.add, length_cons]
    push_cast
    rfl
  refine ⟨⟨hs1, hs2, hw⟩, ?_⟩
  show sub (sums.push (.finite x)).s2 (div (mul (sums.push (.finite x)).s1
    (sums.push (.finite x)).s1) (sums.push (.finite x)).w) = _
  have hlength : ((x :: c).length : ℚ) ≠ 0 := cast_ne_zero.mpr (by simp)
  rw [hs1, hs2, hw, mul, div, if_neg hlength, sub, neg, Exact.add,
    within_eq, sub_eq_add_neg]

/-- The state of the loop over the starts: the starts behind `i4` or more values are done. -/
structure Filled (data : List ℚ) (rows : Rows (Exact ℚ)) (k l i4 : Nat) (sums : Sums (Exact ℚ))
    (row : Row (Exact ℚ)) : Prop where
  length : row.length = k + 1
  summed : sums.Of ((data.take l).drop i4)
  deviation : i4 < l → sums.v = .finite (within ((data.take l).drop i4))
  best : ∀ j, 2 ≤ j → j ≤ k → Best (candidate data rows l j) (Max.max i4 1) l (row.entry j)

variable {row : Row (Exact ℚ)} {j : Nat}

theorem entry_eq (hj : j < row.length) : row.entry j = row.get ⟨j, hj⟩ := getD_eq_getElem _ _ hj

theorem entry_relax {previous row : Row (Exact ℚ)} {v : Exact ℚ} {i4 j : Nat} (hj : 2 ≤ j)
    (hlength : j < row.length) :
    (relax previous v i4 row).entry j =
      if le (Exact.add v (previous.entry (j - 1)).variance) (row.entry j).variance = true then
        ⟨i4 + 1, Exact.add v (previous.entry (j - 1)).variance⟩
      else row.entry j := by
  have hrelaxed : j < List.length (relax previous v i4 row) := by
    rw [relax, length_mapIdx]
    exact hlength
  rw [entry_eq hrelaxed, entry_eq hlength]
  simp only [relax, get_eq_getElem, getElem_mapIdx, if_pos hj]
  rfl

theorem Filled.step {i4 : Nat}
    (h : Filled data rows k l (i4 + 1) sums row) (hi4 : i4 < l) (hl : l ≤ data.length)
    (hrows : ∀ i, 0 < i → i < l → ∀ j, 0 < j → j ≤ k → (rows.entry i j).Solved data i j) :
    Filled data rows k l i4 (sums.push ((data.map Exact.finite).getD i4 (Arithmetic.ofNat 0)))
      (if i4 ≠ 0 then relax (rows.getD i4 [])
        (sums.push ((data.map Exact.finite).getD i4 (Arithmetic.ofNat 0))).v i4 row else row) := by
  have hlt : i4 < data.length := hi4.trans_le hl
  have hvalue : (data.map Exact.finite).getD i4 (Arithmetic.ofNat 0) = .finite data[i4] := by
    rw [getD_eq_getElem _ _ (by rw [length_map]; exact hlt), getElem_map]
  have hlengths : i4 < (data.take l).length := by
    rw [length_take]
    omega
  have hdrop : (data.take l).drop i4 = data[i4] :: (data.take l).drop (i4 + 1) := by
    rw [drop_eq_getElem_cons hlengths, getElem_take]
  obtain ⟨hsums, hdeviation⟩ := h.summed.push data[i4]
  rw [hvalue]
  rw [← hdrop] at hsums hdeviation
  refine ⟨?_, hsums, fun _ => hdeviation, fun j hj hk => ?_⟩
  · by_cases h0 : i4 = 0
    · rw [if_neg (not_not.mpr h0)]
      exact h.length
    · rw [if_pos h0, relax, length_mapIdx]
      exact h.length
  · have hbest := h.best j hj hk
    rw [max_eq_left (by omega : 1 ≤ i4 + 1)] at hbest
    by_cases h0 : i4 = 0
    · rw [if_neg (not_not.mpr h0), h0]
      rw [h0] at hbest
      exact hbest
    · rw [if_pos h0, max_eq_left (by omega), entry_relax hj (by rw [h.length]; omega),
        hdeviation]
      have hsolved := hrows i4 (by omega) hi4 (j - 1) (by omega) (by omega)
      have hcandidate : Exact.add (.finite (within ((data.take l).drop i4)))
          (Row.entry (rows.getD i4 []) (j - 1)).variance =
            .finite (candidate data rows l j i4) := by
        show Exact.add _ (rows.entry i4 (j - 1)).variance = _
        rw [hsolved.finite, Exact.add, candidate]
      rw [hcandidate]
      exact hbest.step hi4

theorem fill_filled {i4 : Nat}
    (h : Filled data rows k l i4 sums row) (hi4 : i4 ≤ l) (hl : l ≤ data.length)
    (hrows : ∀ i, 0 < i → i < l → ∀ j, 0 < j → j ≤ k → (rows.entry i j).Solved data i j) :
    Filled data rows k l 0 (fill (data.map Exact.finite) rows i4 sums row).1
      (fill (data.map Exact.finite) rows i4 sums row).2 := by
  induction i4 generalizing sums row with
  | zero => exact h
  | succ i4 ih => exact ih (h.step (by omega) hl hrows) (by omega)

theorem filled_start (hl : l ≤ data.length) :
    Filled data rows k l l .zero (List.replicate (k + 1) .unset) := by
  have hnil : (data.take l).drop l = [] := by
    refine drop_eq_nil_of_le ?_
    rw [length_take]
    omega
  refine ⟨length_replicate, ?_, fun h => absurd h (lt_irrefl l), fun j hj hk => Or.inl ⟨?_, ?_⟩⟩
  · rw [hnil]
    exact Sums.of_zero
  · exact Nat.le_max_left _ _
  · rw [Row.entry, getD_replicate _ (by omega)]

/-- What the table says about an entry: the least total, and a last class that attains it. -/
structure Entry.Right (data : List ℚ) (rows : Rows (Exact ℚ)) (l j : Nat) : Prop where
  solved : (rows.entry l j).Solved data l j
  pointer : 2 ≤ l → 2 ≤ j → ∃ i, 0 < i ∧ i < l ∧ (rows.entry l j).lower = i + 1 ∧
    (rows.entry l j).value = candidate data rows l j i
  first : l = 1 → (rows.entry l j).lower = 1

theorem solved_one (hl : 0 < l) (hlength : l ≤ data.length) (lower : Nat) :
    Entry.Solved data l 1 ⟨lower, .finite (within (data.take l))⟩ := by
  refine ⟨rfl, isLeast_one within_nil fun h => ?_⟩
  have hzero := congrArg List.length h
  rw [length_take, length_nil] at hzero
  omega

theorem solved_of_best (hl : 2 ≤ l) (hlength : l ≤ data.length) (hj : 2 ≤ j) (hk : j ≤ k)
    (hrows : ∀ i, 0 < i → i < l → ∀ j, 0 < j → j ≤ k → (rows.entry i j).Solved data i j)
    (hbest : Best (candidate data rows l j) 1 l entry) :
    entry.Solved data l j ∧ ∃ i, 0 < i ∧ i < l ∧ entry.lower = i + 1 ∧
      entry.value = candidate data rows l j i := by
  rcases hbest with ⟨hnone, -⟩ | ⟨i, hpos, hi, rfl, hleast⟩
  · omega
  · refine ⟨⟨rfl, ?_⟩, i, hpos, hi, rfl, rfl⟩
    have htake : (data.take l).length = l := by
      rw [length_take]
      omega
    have hprevious : ∀ m, 0 < m → m < (data.take l).length →
        IsLeast (totals within (j - 1) ((data.take l).take m)) (rows.entry m (j - 1)).value := by
      intro m hm hmlt
      rw [htake] at hmlt
      rw [take_take, min_eq_left hmlt.le]
      exact (hrows m hm hmlt (j - 1) (by omega) (by omega)).least
    have hstep : IsLeast (totals within (j - 1 + 1) (data.take l)) (candidate data rows l j i) :=
      isLeast_step within_nil within_append_le (by omega) (by omega) hprevious
        ⟨i, hpos, by omega, rfl⟩ fun m hm hmlt => hleast m hm (by omega)
    rw [Nat.sub_add_cancel (by omega)] at hstep
    exact hstep

theorem entry_set (hlength : 1 < row.length) :
    Row.entry (row.set 1 entry) j = if j = 1 then entry else row.entry j := by
  rw [Row.entry, Row.entry, getD_eq_getElem?_getD, getElem?_set]
  by_cases hj : j = 1
  · rw [if_pos hj.symm, if_pos (by omega), if_pos hj, Option.getD_some]
  · rw [if_neg fun h => hj h.symm, if_neg hj, getD_eq_getElem?_getD]

theorem nextRow_right (hk : 0 < k) (hl : 2 ≤ l) (hlength : l ≤ data.length)
    (hrows : ∀ i, 0 < i → i < l → ∀ j, 0 < j → j ≤ k → (rows.entry i j).Solved data i j)
    (hj : 0 < j) (hjk : j ≤ k) :
    ((nextRow (data.map Exact.finite) k rows l).entry j).Solved data l j ∧
      (2 ≤ j → ∃ i, 0 < i ∧ i < l ∧
        ((nextRow (data.map Exact.finite) k rows l).entry j).lower = i + 1 ∧
        ((nextRow (data.map Exact.finite) k rows l).entry j).value =
          candidate data rows l j i) := by
  have hfilled := fill_filled (k := k) (filled_start hlength) le_rfl hlength hrows
  rw [nextRow]
  generalize fill (data.map Exact.finite) rows l .zero (List.replicate (k + 1) .unset) = state
    at hfilled
  obtain ⟨sums, row⟩ := state
  have hrow : row.length = k + 1 := hfilled.length
  have hdeviation := hfilled.deviation (by omega)
  rw [drop_zero] at hdeviation
  show (Row.entry (row.set 1 ⟨1, sums.v⟩) j).Solved data l j ∧ (2 ≤ j → ∃ i, 0 < i ∧ i < l ∧
    (Row.entry (row.set 1 ⟨1, sums.v⟩) j).lower = i + 1 ∧
    (Row.entry (row.set 1 ⟨1, sums.v⟩) j).value = candidate data rows l j i)
  rw [entry_set (by omega)]
  by_cases hone : j = 1
  · rw [if_pos hone, hone]
    change sums.v = _ at hdeviation
    rw [hdeviation]
    exact ⟨solved_one (by omega) hlength 1, by omega⟩
  · rw [if_neg hone]
    have hbest := hfilled.best j (by omega) hjk
    obtain ⟨hsolved, hpointer⟩ := solved_of_best hl hlength (by omega) hjk hrows hbest
    exact ⟨hsolved, fun _ => hpointer⟩

/-- Every entry of the rows is right. -/
structure Rows.Right (data : List ℚ) (k : Nat) (rows : Rows (Exact ℚ)) : Prop where
  right : ∀ l, 0 < l → l < rows.length → ∀ j, 0 < j → j ≤ k → Entry.Right data rows l j

theorem entry_append {rows : Rows (Exact ℚ)} {i j : Nat}
    (hi : i < rows.length) : Rows.entry (rows ++ [row]) i j = rows.entry i j := by
  rw [Rows.entry, Rows.entry, getD_append _ _ _ _ hi]

theorem entry_last {rows : Rows (Exact ℚ)} :
    Rows.entry (rows ++ [row]) rows.length j = row.entry j := by
  rw [Rows.entry, getD_append_right _ _ _ _ le_rfl, Nat.sub_self, getD_cons_zero]

theorem Rows.Right.append (h : rows.Right data k) (hk : 0 < k) (hrows : 2 ≤ rows.length)
    (hlength : rows.length ≤ data.length) :
    Rows.Right data k (rows ++ [nextRow (data.map Exact.finite) k rows rows.length]) := by
  have hcandidate : ∀ l j i, i < rows.length →
      candidate data (rows ++ [nextRow (data.map Exact.finite) k rows rows.length]) l j i =
        candidate data rows l j i := by
    intro l j i hi
    rw [candidate, candidate, entry_append hi]
  refine ⟨fun l hl hlt j hj hjk => ?_⟩
  rw [length_append, length_singleton] at hlt
  by_cases hold : l < rows.length
  · have hright := h.right l hl hold j hj hjk
    refine ⟨?_, fun h2 hj2 => ?_, fun h1 => ?_⟩
    · rw [entry_append hold]
      exact hright.solved
    · obtain ⟨i, hpos, hi, hlower, hvalue⟩ := hright.pointer h2 hj2
      refine ⟨i, hpos, hi, ?_, ?_⟩
      · rw [entry_append hold]
        exact hlower
      · rw [entry_append hold, hcandidate l j i (by omega)]
        exact hvalue
    · rw [entry_append hold]
      exact hright.first h1
  · have heq : l = rows.length := by omega
    subst heq
    obtain ⟨hsolved, hpointer⟩ := nextRow_right hk hrows hlength
      (fun i hi hlt j hj hjk => (h.right i hi hlt j hj hjk).solved) hj hjk
    refine ⟨?_, fun _ hj2 => ?_, fun h1 => ?_⟩
    · rw [entry_last]
      exact hsolved
    · obtain ⟨i, hpos, hi, hlower, hvalue⟩ := hpointer hj2
      refine ⟨i, hpos, hi, ?_, ?_⟩
      · rw [entry_last]
        exact hlower
      · rw [entry_last, hcandidate _ j i hi]
        exact hvalue
    · omega

theorem firstRows_right (hlength : 0 < data.length) : Rows.Right data k (firstRows k) := by
  refine ⟨fun l hl hlt j hj hjk => ?_⟩
  have hone : l = 1 := by
    rw [firstRows, length_cons, length_singleton] at hlt
    omega
  subst hone
  have hentry : (firstRows k : Rows (Exact ℚ)).entry 1 j = ⟨1, .finite ((0 : Nat) : ℚ)⟩ := by
    obtain ⟨i, rfl⟩ : ∃ i, j = i + 1 := ⟨j - 1, by omega⟩
    show Row.entry (.unset :: List.replicate k ⟨1, Exact.finite ((0 : Nat) : ℚ)⟩) (i + 1) = _
    rw [Row.entry, getD_cons_succ, getD_eq_getElem _ _ (by rw [length_replicate]; omega),
      getElem_replicate]
  refine ⟨?_, by omega, fun _ => by rw [hentry]⟩
  rw [hentry]
  obtain ⟨x, rest, rfl⟩ := exists_cons_of_length_pos hlength
  have hleast := isLeast_single (R := ℚ) within_nil hj x
  rw [within_single] at hleast
  exact ⟨rfl, by simpa [Entry.value] using hleast⟩

theorem table_right (hk : 0 < k) (count : Nat) (hcount : count < data.length) :
    (table (data.map Exact.finite) k count).length = count + 2 ∧
      Rows.Right data k (table (data.map Exact.finite) k count) := by
  induction count with
  | zero => exact ⟨rfl, firstRows_right hcount⟩
  | succ count ih =>
    obtain ⟨hlength, hright⟩ := ih (by omega)
    rw [table]
    have happend := hright.append hk (by omega) (by omega)
    rw [hlength] at happend
    refine ⟨?_, happend⟩
    show (table (data.map Exact.finite) k count ++ [_]).length = _
    rw [length_append, hlength, length_singleton]

/-! ## The walk -/

/-- The last class that the walk takes from the first `idx` values.  Of one value it takes an
empty class. -/
theorem Rows.Right.back (h : rows.Right data k) (hdata : 2 ≤ data.length) {idx j : Nat}
    (hidx : 0 < idx) (hle : idx ≤ data.length) (hlt : idx < rows.length) (hj : j + 2 ≤ k) :
    ∃ i, 0 < i ∧ i ≤ idx ∧ i < data.length ∧ Max.max (rows.entry idx (j + 2)).lower 2 - 1 = i ∧
      (rows.entry idx (j + 2)).value =
        within ((data.take idx).drop i) + (rows.entry i (j + 1)).value := by
  have hright := h.right idx hidx hlt (j + 2) (by omega) hj
  by_cases hone : idx = 1
  · have hlower := hright.first hone
    refine ⟨1, one_pos, hidx, by omega, by rw [hlower]; rfl, ?_⟩
    have hbefore := h.right idx hidx hlt (j + 1) (by omega) (by omega)
    have hleast := hright.solved.least
    have hleast' := hbefore.solved.least
    subst hone
    obtain ⟨x, rest, rfl⟩ := exists_cons_of_length_pos (by omega : 0 < data.length)
    have hsingle := fun {m : Nat} (hm : 0 < m) => isLeast_single (R := ℚ) within_nil hm x
    rw [hleast.unique (hsingle (by omega)), hleast'.unique (hsingle (by omega))]
    simp
  · obtain ⟨i, hpos, hi, hlower, hvalue⟩ := hright.pointer (by omega) (by omega)
    refine ⟨i, hpos, hi.le, by omega, ?_, hvalue⟩
    rw [hlower, max_eq_left (by omega)]
    rfl

theorem walk_partition (h : rows.Right data k) (hdata : 2 ≤ data.length)
    (hrows : rows.length = data.length + 1) {idx j : Nat} (hidx : 0 < idx)
    (hle : idx ≤ data.length) (hj : j + 1 ≤ k) {classes : List (List ℚ)} {starts : List ℚ}
    (hstarts : Starts starts classes) (hflatten : classes.flatten = data.drop idx) :
    ∃ c rest starts', walk (data.map Exact.finite) rows j idx (starts.map Exact.finite) =
        starts'.map Exact.finite ∧ Starts starts' rest ∧ (c :: rest).flatten = data ∧
      rest.length = j + classes.length ∧
      total within (c :: rest) = (rows.entry idx (j + 1)).value + total within classes := by
  induction j generalizing idx classes starts with
  | zero =>
    refine ⟨data.take idx, classes, starts, rfl, hstarts, ?_, (zero_add _).symm, ?_⟩
    · rw [flatten_cons, hflatten, take_append_drop]
    · have hright := h.right idx hidx (by omega) 1 one_pos hj
      have hone : Entry.Solved data idx 1 ⟨0, .finite (within (data.take idx))⟩ :=
        solved_one hidx hle 0
      rw [total_cons, hright.solved.least.unique hone.least]
      rfl
  | succ j ih =>
    obtain ⟨i, hpos, hi, hlt, hstart, hvalue⟩ := h.back hdata hidx hle (by omega) hj
    have hget : (data.map Exact.finite).getD i (Arithmetic.ofNat 0) = .finite data[i] := by
      rw [getD_eq_getElem _ _ (by rw [length_map]; exact hlt), getElem_map]
    have hcut : (data.take idx).drop i ++ data.drop idx = data.drop i := by
      have hlength : i ≤ (data.take idx).length := by
        rw [length_take]
        omega
      rw [← drop_append_of_le_length hlength, take_append_drop]
    have hnext : Starts (data[i] :: starts) ((data.take idx).drop i :: classes) := by
      refine ⟨?_, hstarts⟩
      rw [flatten_cons, hflatten, hcut, head?_drop, getElem?_eq_getElem hlt]
    obtain ⟨c, rest, starts', hwalk, hstarts', hall, hlength, htotal⟩ :=
      ih hpos hlt.le (by omega) hnext (by rw [flatten_cons, hflatten, hcut])
    refine ⟨c, rest, starts', ?_, hstarts', hall, ?_, ?_⟩
    · rw [walk, hstart, hget]
      exact hwalk
    · rw [hlength, length_cons]
      omega
    · rw [htotal, total_cons, hvalue]
      ring

/-- The table has the least total over all partitions into at most `k` contiguous classes, and the
breaks that are read off attain it. -/
theorem readBreaks_least (data : List ℚ) (hsorted : data.Pairwise (· ≤ ·)) (k : Nat) (hk : 0 < k)
    (hn : k < data.length) :
    ∃ v starts, ((allRows (data.map Exact.finite) k).entry data.length k).variance = .finite v ∧
      IsLeast {t | ∃ classes, Into k data classes ∧ total within classes = t} v ∧
      readBreaks (data.map Exact.finite) k = starts.map Exact.finite ∧
      Into k data (grouped starts data) ∧ total within (grouped starts data) = v ∧
      ∀ sorted, sample sorted = data.map Exact.finite →
        jenks sorted k = starts.map Exact.finite := by
  have hlast : data.length - 1 < data.length := by omega
  obtain ⟨hlength, hright⟩ := table_right hk (data.length - 1) hlast
  have hrows : allRows (data.map Exact.finite) k =
      table (data.map Exact.finite) k (data.length - 1) := by
    rw [allRows, length_map]
  rw [← hrows] at hlength hright
  have hsolved := (hright.right data.length (by omega) (by omega) k hk le_rfl).solved
  obtain ⟨c, rest, starts, hwalk, hstarts, hflatten, hcount, htotal⟩ :=
    walk_partition hright (by omega) (by omega) (by omega : 0 < data.length) le_rfl
      (by omega : k - 1 + 1 ≤ k) (show Starts ([] : List ℚ) [] from trivial)
      (by rw [drop_length]; rfl)
  rw [Nat.sub_add_cancel hk, total_nil, add_zero] at htotal
  have hleast := hsolved.least
  rw [take_length] at hleast
  have hinto : Into k data (c :: rest) := by
    refine ⟨hflatten, ?_⟩
    rw [length_cons, hcount, length_nil]
    omega
  have hgrouped : Into k data (grouped starts data) := by
    have hclasses := into_grouped starts hsorted
    rw [hstarts.length_eq, hcount, length_nil, add_zero, Nat.sub_add_cancel hk] at hclasses
    exact hclasses
  have hbreaks : readBreaks (data.map Exact.finite) k = starts.map Exact.finite := by
    rw [readBreaks, length_map]
    exact hwalk
  refine ⟨_, starts, hsolved.finite, hleast, hbreaks, hgrouped, ?_, fun sorted hsample => ?_⟩
  · refine le_antisymm ?_ (hleast.2 ⟨_, hgrouped, rfl⟩)
    rw [← htotal]
    refine total_grouped_le hsorted hinto (fun others hothers => ?_) hstarts
    rw [htotal]
    exact hleast.2 ⟨others, hothers, rfl⟩
  · rw [jenks, hsample]
    simp only [length_map]
    rw [if_neg (by omega), hbreaks]

/-- Three groups of populations. -/
theorem readBreaks_least_populations : ∃ v starts,
      ((allRows (([10, 20, 30, 100, 110, 500] : List ℚ).map Exact.finite) 3).entry 6 3).variance =
        .finite v ∧
      IsLeast {t | ∃ classes, Into 3 ([10, 20, 30, 100, 110, 500] : List ℚ) classes ∧
        total within classes = t} v ∧
      readBreaks (([10, 20, 30, 100, 110, 500] : List ℚ).map Exact.finite) 3 =
        starts.map Exact.finite ∧
      Into 3 [10, 20, 30, 100, 110, 500] (grouped starts ([10, 20, 30, 100, 110, 500] : List ℚ)) ∧
      total within (grouped starts ([10, 20, 30, 100, 110, 500] : List ℚ)) = v ∧
      ∀ sorted, sample sorted = ([10, 20, 30, 100, 110, 500] : List ℚ).map Exact.finite →
        jenks sorted 3 = starts.map Exact.finite :=
  readBreaks_least [10, 20, 30, 100, 110, 500] (by decide +kernel) 3 (by decide) (by decide)

end GeneGIS.Toolkit.Jenks
