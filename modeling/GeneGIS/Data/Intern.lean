/-
A value gets the index of its first entry that counts as the same, and any other value is appended.
-/
import Mathlib.Data.List.Nodup

namespace GeneGIS.Intern

open List hiding getElem?_eq_some_iff
open Option hiding or_assoc

variable {α : Type} {same : α → α → Bool} {table table' : List α} {a b : α} {i : Nat}

def intern (same : α → α → Bool) (table : List α) (a : α) : Nat × List α :=
  match table.findIdx? fun candidate => same candidate a with
  | some index => (index, table)
  | none => (table.length, table ++ [a])

theorem intern_cases (same : α → α → Bool) (table : List α) (a : α) :
    (∃ i, (table.findIdx? fun b => same b a) = some i ∧ intern same table a = (i, table)) ∨
      (table.findIdx? fun b => same b a) = none ∧
        intern same table a = (table.length, table ++ [a]) := by
  rw [intern]
  cases hfind : table.findIdx? fun b => same b a with
  | some i => exact .inl ⟨i, rfl, rfl⟩
  | none => exact .inr ⟨rfl, rfl⟩

theorem prefix_intern (same : α → α → Bool) (table : List α) (a : α) :
    table <+: (intern same table a).2 := by
  obtain ⟨i, -, h⟩ | ⟨-, h⟩ := intern_cases same table a
  · have hsame : (intern same table a).2 = table := by rw [h]
    exact hsame.symm ▸ prefix_rfl
  · rw [h]
    exact prefix_append _ _

theorem mem_intern (h : b ∈ (intern same table a).2) : b ∈ table ∨ b = a := by
  obtain ⟨i, -, hcase⟩ | ⟨-, hcase⟩ := intern_cases same table a
  · rw [hcase] at h
    exact .inl h
  · rw [hcase, mem_append, mem_singleton] at h
    exact h

theorem intern_entry (same : α → α → Bool) (table : List α) (a : α) :
    ∃ b, (intern same table a).2[(intern same table a).1]? = some b ∧
      (b = a ∨ same b a = true) := by
  obtain ⟨i, hfind, h⟩ | ⟨-, h⟩ := intern_cases same table a
  · rw [h]
    obtain ⟨hi, hsame, -⟩ := findIdx?_eq_some_iff_getElem.mp hfind
    exact ⟨table[i], getElem?_eq_getElem hi, .inr hsame⟩
  · rw [h]
    exact ⟨a, getElem?_concat_length, .inl rfl⟩

theorem intern_first (hsame : same a a = true) :
    ((intern same table a).2.findIdx? fun b => same b a) = some (intern same table a).1 := by
  obtain ⟨i, hfind, h⟩ | ⟨hfind, h⟩ := intern_cases same table a
  · rw [h]
    exact hfind
  · rw [h, findIdx?_append, hfind, none_or, findIdx?_singleton, if_pos hsame,
      map_some, Nat.zero_add]

theorem findIdx?_extend {p : α → Bool} (hgrown : table <+: table')
    (h : table.findIdx? p = some i) : table'.findIdx? p = some i := by
  obtain ⟨rest, rfl⟩ := hgrown
  rw [findIdx?_append, h, some_or]

theorem getElem?_extend (hgrown : table <+: table') (h : table[i]? = some a) :
    table'[i]? = some a := by
  obtain ⟨rest, rfl⟩ := hgrown
  rw [getElem?_append_left (getElem?_eq_some_iff.mp h).1]
  exact h

variable [DecidableEq α]

def enter (seen : List α) (a : α) : List α := if a ∈ seen then seen else seen ++ [a]

/-- The different values of a list in the order in which they first appear. -/
def firstSeen (l : List α) : List α := l.foldl enter []

theorem findIdx?_eq_none_iff_not_mem :
    (table.findIdx? fun b => decide (b = a)) = none ↔ a ∉ table := by
  rw [findIdx?_eq_none_iff]
  constructor
  · intro h ha
    exact absurd (h a ha) (by simp)
  · intro h b hb
    rw [decide_eq_false_iff_not]
    intro hba
    exact h (hba ▸ hb)

theorem intern_eq_enter (table : List α) (a : α) :
    (intern (fun b c => decide (b = c)) table a).2 = enter table a := by
  rw [enter]
  obtain ⟨i, hfind, h⟩ | ⟨hfind, h⟩ := intern_cases (fun b c => decide (b = c)) table a
  · have hmem : a ∈ table := by
      by_contra hnot
      rw [findIdx?_eq_none_iff_not_mem.mpr hnot] at hfind
      cases hfind
    rw [h, if_pos hmem]
  · rw [h, if_neg (findIdx?_eq_none_iff_not_mem.mp hfind)]

theorem mem_foldl_enter {l : List α} : b ∈ l.foldl enter table ↔ b ∈ table ∨ b ∈ l := by
  induction l generalizing table with
  | nil => simp
  | cons a rest ih =>
    rw [foldl_cons, ih, mem_cons, enter]
    by_cases ha : a ∈ table
    · rw [if_pos ha]
      constructor
      · intro h
        exact h.imp_right .inr
      · intro h
        rcases h with h | rfl | h
        · exact .inl h
        · exact .inl ha
        · exact .inr h
    · rw [if_neg ha, mem_append, mem_singleton, or_assoc]

end GeneGIS.Intern
