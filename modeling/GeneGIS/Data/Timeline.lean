/-
Moves keep the list of all states and change the position in it; a commit cuts the list after the
position and appends.
-/
import Mathlib.Tactic.Common

namespace GeneGIS

open List

/-- Both lists hold the nearest state first. -/
structure Timeline (α : Type) where
  past : List α
  present : α
  future : List α

namespace Timeline

variable {α : Type} {t t' : Timeline α}

def start (a : α) : Timeline α := ⟨[], a, []⟩

def back : Timeline α → Option (Timeline α)
  | ⟨[], _, _⟩ => none
  | ⟨a :: past, b, future⟩ => some ⟨past, a, b :: future⟩

def forth : Timeline α → Option (Timeline α)
  | ⟨_, _, []⟩ => none
  | ⟨past, a, b :: future⟩ => some ⟨a :: past, b, future⟩

def commit (t : Timeline α) (a : α) : Timeline α := ⟨t.present :: t.past, a, []⟩

def states (t : Timeline α) : List α := t.past.reverse ++ t.present :: t.future

def position (t : Timeline α) : Nat := t.past.length

theorem length_states (t : Timeline α) : t.states.length = t.position + t.future.length + 1 := by
  simp only [states, position, length_append, length_reverse, length_cons]
  omega

theorem position_lt (t : Timeline α) : t.position < t.states.length := by
  have h := t.length_states
  omega

theorem getElem?_position (t : Timeline α) : t.states[t.position]? = some t.present := by
  rw [states, position, getElem?_append_right (by simp)]
  simp

theorem take_states (t : Timeline α) : t.states.take t.position = t.past.reverse := by
  rw [states, position]
  simp

theorem drop_states (t : Timeline α) : t.states.drop (t.position + 1) = t.future := by
  rw [states, position, drop_append]
  simp

theorem ext_states (hstates : t.states = t'.states) (hposition : t.position = t'.position) :
    t = t' := by
  have hpast : t.past = t'.past := by
    have h := t.take_states
    rw [hstates, hposition, t'.take_states] at h
    exact (reverse_inj.mp h).symm
  have hpresent : t.present = t'.present := by
    have h := t.getElem?_position
    rw [hstates, hposition, t'.getElem?_position] at h
    exact (Option.some.inj h).symm
  have hfuture : t.future = t'.future := by
    have h := t.drop_states
    rw [hstates, hposition, t'.drop_states] at h
    exact h.symm
  cases t
  cases t'
  simp_all

theorem back_some (h : t.back = some t') : t'.states = t.states ∧ t'.position + 1 = t.position := by
  obtain ⟨past, a, future⟩ := t
  cases past with
  | nil => cases h
  | cons b past =>
    cases h
    exact ⟨by simp [states], rfl⟩

theorem forth_some (h : t.forth = some t') :
    t'.states = t.states ∧ t'.position = t.position + 1 := by
  obtain ⟨past, a, future⟩ := t
  cases future with
  | nil => cases h
  | cons b future =>
    cases h
    exact ⟨by simp [states], rfl⟩

theorem exists_back (h : 0 < t.position) : ∃ t', t.back = some t' := by
  obtain ⟨past, a, future⟩ := t
  cases past with
  | nil => exact absurd h (Nat.lt_irrefl 0)
  | cons b past => exact ⟨_, rfl⟩

theorem exists_forth (h : t.position + 1 < t.states.length) : ∃ t', t.forth = some t' := by
  have hlength := t.length_states
  obtain ⟨past, a, future⟩ := t
  cases future with
  | nil =>
    simp only [length_nil] at hlength
    omega
  | cons b future => exact ⟨_, rfl⟩

theorem states_commit (t : Timeline α) (a : α) :
    (t.commit a).states = t.states.take (t.position + 1) ++ [a] := by
  have htake : t.states.take (t.position + 1) = t.past.reverse ++ [t.present] := by
    rw [states, position, take_append, take_of_length_le (by simp)]
    simp
  rw [htake, states, commit]
  simp

end Timeline
end GeneGIS
