/-
A path remembers the state before each step and the label of the step.
-/
import Mathlib.Data.List.Basic

namespace GeneGIS

open List

variable {σ ι : Type} {step : σ → ι → σ → Prop} {first last : σ} {trace : List (σ × ι)}

inductive Path (step : σ → ι → σ → Prop) (first : σ) : List (σ × ι) → σ → Prop
  | nil : Path step first [] first
  | snoc {trace : List (σ × ι)} {s s' : σ} {i : ι} (path : Path step first trace s)
      (next : step s i s') : Path step first (trace ++ [(s, i)]) s'

namespace Path

/-- Every state of a run, the last one included. -/
def visited (trace : List (σ × ι)) (last : σ) : List σ := trace.map Prod.fst ++ [last]

theorem visited_snoc {s s' : σ} {i : ι} :
    visited (trace ++ [(s, i)]) s' = visited trace s ++ [s'] := by
  simp [visited]

theorem last_mem_visited : last ∈ visited trace last := by
  simp [visited]

/-- Every entry of a run is a step that was taken, and its state was visited. -/
theorem step_of_mem (path : Path step first trace last) :
    ∀ x ∈ trace, x.1 ∈ visited trace last ∧ ∃ s' ∈ visited trace last, step x.1 x.2 s' := by
  induction path with
  | nil =>
    intro x hx
    cases hx
  | @snoc trace s s' i path next ih =>
    intro x hx
    rw [visited_snoc]
    rcases mem_append.mp hx with hx | hx
    · obtain ⟨hfrom, q, hq, hstep⟩ := ih x hx
      exact ⟨mem_append_left _ hfrom, q, mem_append_left _ hq, hstep⟩
    · rw [mem_singleton.mp hx]
      exact ⟨mem_append_left _ last_mem_visited, s',
        mem_append_right _ (mem_singleton_self s'), next⟩

/-- The run of a list of labels where every step is a function. -/
def taken (f : σ → ι → σ) : σ → List ι → List (σ × ι)
  | _, [] => []
  | s, i :: rest => (s, i) :: taken f (f s i) rest

theorem extend_taken {f : σ → ι → σ} {s : σ}
    (path : Path (fun s i s' => f s i = s') first trace s) (labels : List ι) :
    Path (fun s i s' => f s i = s') first (trace ++ taken f s labels) (labels.foldl f s) := by
  induction labels generalizing trace s with
  | nil =>
    rw [taken, append_nil]
    exact path
  | cons i rest ih =>
    have hrest := ih (path.snoc (i := i) rfl)
    rw [append_assoc] at hrest
    exact hrest

theorem of_taken (f : σ → ι → σ) (s : σ) (labels : List ι) :
    Path (fun s i s' => f s i = s') s (taken f s labels) (labels.foldl f s) :=
  extend_taken .nil labels

theorem taken_concat {f : σ → ι → σ} {s : σ} (labels : List ι) (i : ι) :
    taken f s (labels ++ [i]) = taken f s labels ++ [(labels.foldl f s, i)] := by
  induction labels generalizing s with
  | nil => rfl
  | cons j rest ih => exact congrArg ((s, j) :: ·) ih

/-- What holds of the first state without a history and is kept by every step holds of
every state and the steps before it. -/
theorem history {P : List (σ × ι) → σ → Prop} (path : Path step first trace last)
    (hfirst : P [] first)
    (hstep : ∀ trace s i s', P trace s → step s i s' → P (trace ++ [(s, i)]) s') :
    ∀ n q, (visited trace last)[n]? = some q → P (trace.take n) q := by
  have hboth : P trace last ∧ ∀ n q, (visited trace last)[n]? = some q → P (trace.take n) q := by
    induction path with
    | nil =>
      refine ⟨hfirst, fun n q hq => ?_⟩
      cases n with
      | zero => exact Option.some.inj hq ▸ hfirst
      | succ n => cases hq
    | @snoc trace s s' i path next ih =>
      have hlast := hstep trace s i s' ih.1 next
      refine ⟨hlast, fun n q hq => ?_⟩
      have hlength : (visited trace s).length = trace.length + 1 := by simp [visited]
      rw [visited_snoc] at hq
      rcases Nat.lt_or_ge n (trace.length + 1) with hn | hn
      · rw [getElem?_append_left (by omega)] at hq
        rw [take_append_of_le_length (by omega)]
        exact ih.2 n q hq
      · rw [getElem?_append_right (by omega), getElem?_singleton] at hq
        by_cases h0 : n - (visited trace s).length = 0
        · rw [if_pos h0] at hq
          rw [← Option.some.inj hq, take_of_length_le]
          · exact hlast
          · rw [length_append, length_singleton]
            omega
        · rw [if_neg h0] at hq
          cases hq
  exact hboth.2

theorem invariant {P : σ → Prop} (path : Path step first trace last) (hfirst : P first)
    (hstep : ∀ s i s', P s → step s i s' → P s') : ∀ s ∈ visited trace last, P s := by
  induction path with
  | nil =>
    intro s hs
    obtain rfl : s = first := by simpa [visited] using hs
    exact hfirst
  | @snoc trace s s' i path next ih =>
    intro q hq
    rw [visited_snoc, mem_append, mem_singleton] at hq
    rcases hq with hq | rfl
    · exact ih q hq
    · exact hstep s i _ (ih s last_mem_visited) next

/-- Every state of a run is related to the last one by a preorder that the steps follow.
`K` is an invariant of the run. -/
theorem related {K : σ → Prop} {R : σ → σ → Prop} (path : Path step first trace last)
    (hfirst : K first) (hK : ∀ s i s', K s → step s i s' → K s') (hrefl : ∀ s, R s s)
    (htrans : ∀ a b c, R a b → R b c → R a c) (hstep : ∀ s i s', K s → step s i s' → R s s') :
    ∀ s ∈ visited trace last, R s last := by
  induction path with
  | nil =>
    intro s hs
    obtain rfl : s = first := by simpa [visited] using hs
    exact hrefl s
  | @snoc trace s s' i path next ih =>
    intro q hq
    rw [visited_snoc, mem_append, mem_singleton] at hq
    rcases hq with hq | hq
    · have hs := path.invariant hfirst hK s last_mem_visited
      exact htrans q s s' (ih q hq) (hstep s i s' hs next)
    · rw [hq]
      exact hrefl s'

/-- A property that exactly the steps with a condition keep holds along a run exactly when all its
steps have it. `K` is what is known of a state meanwhile. -/
theorem forall_visited_iff {K P : σ → Prop} {C : σ → ι → Prop}
    (path : Path step first trace last) (hfirst : K first) (hKP : ∀ s, K s → P s)
    (hK : ∀ s i s', K s → step s i s' → P s' → K s')
    (hstep : ∀ s i s', K s → step s i s' → (P s' ↔ C s i)) :
    (∀ s ∈ visited trace last, P s) ↔ ∀ x ∈ trace, C x.1 x.2 := by
  have hboth : ((∀ s ∈ visited trace last, P s) ↔ ∀ x ∈ trace, C x.1 x.2) ∧
      ((∀ s ∈ visited trace last, P s) → K last) := by
    induction path with
    | nil => simpa [visited, hfirst] using hKP first hfirst
    | @snoc trace s s' i path next ih =>
      obtain ⟨hiff, hlast⟩ := ih
      rw [visited_snoc, forall_mem_append, forall_mem_append, forall_mem_singleton,
        forall_mem_singleton]
      constructor
      · rw [← hiff]
        exact and_congr_right fun hall => hstep s i s' (hlast hall) next
      · intro hall
        exact hK s i s' (hlast hall.1) next hall.2
  exact hboth.1

/-- Every state of a run is related to every later one exactly when all its steps have a condition,
where just the steps with the condition follow the preorder. `K` is an invariant of the run. -/
theorem pairwise_visited_iff {K : σ → Prop} {R : σ → σ → Prop} {C : σ → ι → Prop}
    (path : Path step first trace last) (hfirst : K first)
    (hK : ∀ s i s', K s → step s i s' → K s') (hrefl : ∀ s, R s s)
    (htrans : ∀ a b c, R a b → R b c → R a c)
    (hstep : ∀ s i s', K s → step s i s' → (R s s' ↔ C s i)) :
    (visited trace last).Pairwise R ↔ ∀ x ∈ trace, C x.1 x.2 := by
  have hboth : ((visited trace last).Pairwise R ↔ ∀ x ∈ trace, C x.1 x.2) ∧ K last ∧
      ((visited trace last).Pairwise R → ∀ s ∈ visited trace last, R s last) := by
    induction path with
    | nil =>
      refine ⟨?_, hfirst, fun _ s hs => ?_⟩
      · simp [visited]
      · obtain rfl : s = first := by simpa [visited] using hs
        exact hrefl s
    | @snoc trace s s' i path next ih =>
      obtain ⟨hiff, hs, hlast⟩ := ih
      rw [visited_snoc, pairwise_append, forall_mem_append, forall_mem_singleton]
      have hcond := hstep s i s' hs next
      refine ⟨?_, hK s i s' hs next, ?_⟩
      · constructor
        · intro h
          refine ⟨hiff.mp h.1, hcond.mp ?_⟩
          exact h.2.2 s last_mem_visited s' (mem_singleton_self s')
        · intro h
          have hbefore := hiff.mpr h.1
          refine ⟨hbefore, pairwise_singleton R s', ?_⟩
          intro q hq q' hq'
          rw [mem_singleton.mp hq']
          exact htrans q s s' (hlast hbefore q hq) (hcond.mpr h.2)
      · intro h q hq
        rcases mem_append.mp hq with hq | hq
        · exact h.2.2 q hq s' (mem_singleton_self s')
        · rw [mem_singleton.mp hq]
          exact hrefl s'
  exact hboth.1

end Path
end GeneGIS
