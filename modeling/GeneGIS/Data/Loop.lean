/-
A loop is a step that returns `none` at the end, run for as many rounds as a bound allows.
-/
import Mathlib.Tactic.Common

namespace GeneGIS.Loop

/-- Repeat `step` until it returns `none`, at most `bound` times. -/
def run {σ : Type} (step : σ → Option σ) : Nat → σ → σ
  | 0, s => s
  | bound + 1, s =>
    match step s with
    | none => s
    | some s' => run step bound s'

/-- Writing one slot of a buffer that a loop keeps. -/
theorem getD_set {α : Type} {l : List α} {i : Nat} (h : i < l.length) (a default : α) (j : Nat) :
    (l.set i a).getD j default = if j = i then a else l.getD j default := by
  rw [List.getD_eq_getElem?_getD, List.getD_eq_getElem?_getD, List.getElem?_set]
  by_cases hj : j = i
  · rw [if_pos hj, if_pos hj.symm, if_pos h]
    rfl
  · rw [if_neg hj, if_neg (fun heq => hj heq.symm)]

variable {σ : Type} {step : σ → Option σ} {P : σ → Prop}

theorem run_zero (s : σ) : run step 0 s = s := rfl

theorem run_succ (bound : Nat) (s : σ) : run step (bound + 1) s =
    match step s with
    | none => s
    | some s' => run step bound s' := rfl

theorem run_done {s : σ} (h : step s = none) (bound : Nat) : run step bound s = s := by
  cases bound with
  | zero => rfl
  | succ bound => rw [run_succ, h]

theorem run_next {s s' : σ} (h : step s = some s') (bound : Nat) :
    run step (bound + 1) s = run step bound s' := by
  rw [run_succ, h]

theorem run_invariant (hstep : ∀ s s', P s → step s = some s' → P s') :
    ∀ (bound : Nat) (s : σ), P s → P (run step bound s) := by
  intro bound
  induction bound with
  | zero =>
    intro s hs
    exact hs
  | succ bound ih =>
    intro s hs
    rw [run_succ]
    cases hnext : step s with
    | none => exact hs
    | some s' => exact ih s' (hstep s s' hs hnext)

theorem run_ends (measure : σ → Nat)
    (hstep : ∀ s s', P s → step s = some s' → P s' ∧ measure s' < measure s) :
    ∀ (bound : Nat) (s : σ), P s → measure s ≤ bound → step (run step bound s) = none := by
  intro bound
  induction bound with
  | zero =>
    intro s hs hbound
    rw [run_zero]
    cases hnext : step s with
    | none => rfl
    | some s' =>
      have hless := (hstep s s' hs hnext).2
      omega
  | succ bound ih =>
    intro s hs hbound
    rw [run_succ]
    cases hnext : step s with
    | none => exact hnext
    | some s' =>
      obtain ⟨hs', hless⟩ := hstep s s' hs hnext
      exact ih s' hs' (by omega)

theorem run_ends_beside {γ : Type} {Q : γ → σ → Prop} (measure : γ → σ → Nat)
    (hstep : ∀ g s s', Q g s → step s = some s' → ∃ g', Q g' s' ∧ measure g' s' < measure g s) :
    ∀ (bound : Nat) (g : γ) (s : σ), Q g s → measure g s ≤ bound →
      step (run step bound s) = none ∧ ∃ g', Q g' (run step bound s) := by
  intro bound
  induction bound with
  | zero =>
    intro g s hs hbound
    rw [run_zero]
    cases hnext : step s with
    | none => exact ⟨rfl, g, hs⟩
    | some s' =>
      obtain ⟨g', -, hless⟩ := hstep g s s' hs hnext
      omega
  | succ bound ih =>
    intro g s hs hbound
    rw [run_succ]
    cases hnext : step s with
    | none => exact ⟨hnext, g, hs⟩
    | some s' =>
      obtain ⟨g', hs', hless⟩ := hstep g s s' hs hnext
      exact ih g' s' hs' (by omega)

end GeneGIS.Loop
