/-
Nested families.

The members around one point form a chain when no two cross.  The first one found is the innermost
exactly when it stands before the others.
-/
import Mathlib.Data.Fintype.Basic

namespace GeneGIS.Nesting

open List

variable {R : Type} (inside : R → R → Bool) (outer : List R)

/-- The member at this position lies around `a` and in every other member that does. -/
def Innermost (a : R) (i : Fin outer.length) : Prop := inside a outer[i] = true ∧
    ∀ j : Fin outer.length, j ≠ i → inside a outer[j] = true → inside outer[i] outer[j] = true

instance (a : R) (i : Fin outer.length) : Decidable (Innermost inside outer a i) :=
  inferInstanceAs (Decidable (_ ∧ _))

/-- The member at this position is the first around `a`. -/
def First (a : R) (i : Fin outer.length) : Prop :=
  inside a outer[i] = true ∧ ∀ j : Fin outer.length, j < i → inside a outer[j] = false

instance (a : R) (i : Fin outer.length) : Decidable (First inside outer a i) :=
  inferInstanceAs (Decidable (_ ∧ _))

/-- Of two members around a point one lies in the other, and lying in a member is transitive. -/
structure Nested (points : List R) : Prop where
  chain : ∀ a ∈ points, ∀ i j : Fin outer.length, i ≠ j → inside a outer[i] = true →
    inside a outer[j] = true → inside outer[i] outer[j] = true ∨ inside outer[j] outer[i] = true
  trans : ∀ i j k : Fin outer.length, i ≠ k → inside outer[i] outer[j] = true →
    inside outer[j] outer[k] = true → inside outer[i] outer[k] = true

/-- No other member around a point stands before the innermost one. -/
def InnermostFirst (points : List R) : Prop := ∀ a ∈ points, ∀ i, Innermost inside outer a i →
    ∀ j : Fin outer.length, j < i → inside a outer[j] = false

theorem exists_least {ι : Type} [DecidableEq ι] {r : ι → ι → Prop} {l : List ι} (hne : l ≠ [])
    (hchain : ∀ i ∈ l, ∀ j ∈ l, i ≠ j → r i j ∨ r j i)
    (htrans : ∀ i j k, i ≠ k → r i j → r j k → r i k) :
    ∃ i ∈ l, ∀ j ∈ l, j ≠ i → r i j := by
  induction l with
  | nil => exact absurd rfl hne
  | cons i rest ih =>
    by_cases hrest : rest = []
    · refine ⟨i, mem_cons_self, ?_⟩
      intro j hj hji
      rw [hrest, mem_singleton] at hj
      exact absurd hj hji
    · obtain ⟨m, hm, hleast⟩ := ih hrest fun j hj k hk =>
        hchain j (mem_cons_of_mem i hj) k (mem_cons_of_mem i hk)
      -- The new element is the least one or follows the one of the rest.
      by_cases hmi : r m i ∨ m = i
      · refine ⟨m, mem_cons_of_mem i hm, ?_⟩
        intro j hj hjm
        rcases mem_cons.mp hj with rfl | hj
        · rcases hmi with hmi | rfl
          · exact hmi
          · exact absurd rfl hjm
        · exact hleast j hj hjm
      · rw [not_or] at hmi
        have him : r i m := by
          rcases hchain i mem_cons_self m (mem_cons_of_mem i hm) (Ne.symm hmi.2) with h | h
          · exact h
          · exact absurd h hmi.1
        refine ⟨i, mem_cons_self, ?_⟩
        intro j hj hji
        rcases mem_cons.mp hj with rfl | hj
        · exact absurd rfl hji
        · by_cases hjm : j = m
          · rw [hjm]
            exact him
          · exact htrans i m j (Ne.symm hji) him (hleast j hj hjm)

variable {inside outer} {points : List R} {a : R} {i j : Fin outer.length}

theorem Nested.exists_innermost (h : Nested inside outer points) (ha : a ∈ points)
    (hi : inside a outer[i] = true) : ∃ m, Innermost inside outer a m := by
  have hmem : ∀ j, j ∈ (List.finRange outer.length).filter (fun j => inside a outer[j]) ↔
      inside a outer[j] = true := by
    intro j
    rw [mem_filter]
    exact and_iff_right (mem_finRange j)
  obtain ⟨m, hm, hleast⟩ := exists_least (r := fun j k => inside outer[j] outer[k] = true)
    (ne_nil_of_mem ((hmem i).mpr hi))
    (fun j hj k hk hjk => h.chain a ha j k hjk ((hmem j).mp hj) ((hmem k).mp hk)) h.trans
  exact ⟨m, (hmem m).mp hm, fun j hjm hj => hleast j ((hmem j).mpr hj) hjm⟩

theorem First.unique (hi : First inside outer a i) (hj : First inside outer a j) : i = j := by
  rcases lt_trichotomy i j with h | h | h
  · have hout := hj.2 i h
    rw [hi.1] at hout
    cases hout
  · exact h
  · have hout := hi.2 j h
    rw [hj.1] at hout
    cases hout

/-- The first member around every point is the innermost one exactly when no other stands
before it. -/
theorem first_iff_innermost (h : Nested inside outer points) :
    (∀ a ∈ points, ∀ i, First inside outer a i ↔ Innermost inside outer a i) ↔
      InnermostFirst inside outer points := by
  constructor
  · intro hagree a ha i hinner
    exact ((hagree a ha i).mpr hinner).2
  · intro hfirst a ha i
    constructor
    · intro hi
      obtain ⟨m, hm⟩ := h.exists_innermost ha hi.1
      have hmfirst : First inside outer a m := ⟨hm.1, hfirst a ha m hm⟩
      rw [hi.unique hmfirst]
      exact hm
    · intro hinner
      exact ⟨hinner.1, hfirst a ha i hinner⟩

end GeneGIS.Nesting
