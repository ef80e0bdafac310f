/-
Sorting by a key.

A sorted list without equal keys does not depend on the order of its entries, and two sorts agree
exactly when their keys compare all entries alike.
-/
import Mathlib.Data.List.Destutter
import Mathlib.Data.List.Sort

namespace GeneGIS.Sorted

open List

variable {α β : Type} {l m : List α} (r s : α → α → Prop) [DecidableRel r] [DecidableRel s]

theorem insertionSort_congr (h : ∀ a ∈ l, ∀ b ∈ l, r a b ↔ s a b) :
    l.insertionSort r = l.insertionSort s := by
  have hmap := map_insertionSort (r := r) (s := s) id l h
  rwa [map_id, map_id] at hmap

omit [DecidableRel r] [DecidableRel s] in
theorem eq_of_map_eq {view : α → β} (hview : ∀ a ∈ l, ∀ b ∈ m, view a = view b → a = b)
    (h : l.map view = m.map view) : l = m := by
  induction l generalizing m with
  | nil => exact (map_eq_nil_iff.mp h.symm).symm
  | cons a rest ih =>
    cases m with
    | nil => cases h
    | cons b rest' =>
      obtain ⟨hab, hrest⟩ := cons.inj h
      rw [hview a mem_cons_self b mem_cons_self hab, ih (fun x hx y hy =>
        hview x (mem_cons_of_mem _ hx) y (mem_cons_of_mem _ hy)) hrest]

variable [Std.Total r] [IsTrans α r] [Std.Total s] [IsTrans α s]

theorem insertionSort_eq_of_perm (hanti : ∀ a ∈ l, ∀ b ∈ l, r a b → r b a → a = b)
    (h : l.Perm m) : l.insertionSort r = m.insertionSort r := by
  refine Perm.eq_of_pairwise ?_ (pairwise_insertionSort r l) (pairwise_insertionSort r m) ?_
  · intro a b ha hb
    exact hanti a ((mem_insertionSort r).mp ha) b (h.mem_iff.mpr ((mem_insertionSort r).mp hb))
  · exact (perm_insertionSort r l).trans (h.trans (perm_insertionSort r m).symm)

omit [DecidableRel r] [DecidableRel s] [Std.Total r] [IsTrans α r] [IsTrans α s] in
theorem rel_of_pairwise (hr : l.Pairwise r) (hs : l.Pairwise s)
    (hanti : ∀ a ∈ l, ∀ b ∈ l, r a b → r b a → a = b) :
    ∀ a ∈ l, ∀ b ∈ l, r a b → s a b := by
  have hrefl : ∀ c, s c c := fun c => (total_of s c c).elim id id
  induction l with
  | nil =>
    intro a ha
    cases ha
  | cons c rest ih =>
    rw [pairwise_cons] at hr hs
    intro a ha b hb hab
    rcases mem_cons.mp ha with rfl | ha'
    · rcases mem_cons.mp hb with rfl | hb'
      · exact hrefl b
      · exact hs.1 b hb'
    · rcases mem_cons.mp hb with rfl | hb'
      · rw [hanti a ha b hb hab (hr.1 a ha')]
        exact hrefl b
      · exact ih hr.2 hs.2 (fun x hx y hy => hanti x (mem_cons_of_mem _ hx) y
          (mem_cons_of_mem _ hy)) a ha' b hb' hab

theorem map_insertionSort_eq_iff {view : α → β} (hview : ∀ a ∈ l, ∀ b ∈ l, view a = view b → a = b)
    (hr : ∀ a ∈ l, ∀ b ∈ l, r a b → r b a → a = b)
    (hs : ∀ a ∈ l, ∀ b ∈ l, s a b → s b a → a = b) :
    (l.insertionSort r).map view = (l.insertionSort s).map view ↔
      ∀ a ∈ l, ∀ b ∈ l, r a b ↔ s a b := by
  constructor
  · intro h
    have heq : l.insertionSort r = l.insertionSort s := by
      refine eq_of_map_eq ?_ h
      intro a ha b hb
      exact hview a ((mem_insertionSort r).mp ha) b ((mem_insertionSort s).mp hb)
    have hsorted := pairwise_insertionSort s l
    rw [← heq] at hsorted
    have hmem : ∀ a, a ∈ l.insertionSort r ↔ a ∈ l := fun a => mem_insertionSort r
    intro a ha b hb
    constructor
    · exact rel_of_pairwise r s (pairwise_insertionSort r l) hsorted
        (fun x hx y hy => hr x ((hmem x).mp hx) y ((hmem y).mp hy)) a ((hmem a).mpr ha) b
        ((hmem b).mpr hb)
    · exact rel_of_pairwise s r hsorted (pairwise_insertionSort r l)
        (fun x hx y hy => hs x ((hmem x).mp hx) y ((hmem y).mp hy)) a ((hmem a).mpr ha) b
        ((hmem b).mpr hb)
  · intro h
    rw [insertionSort_congr r s h]

theorem mem_destutter' [DecidableEq α] {l : List α} {a b : α} :
    a ∈ l.destutter' (· ≠ ·) b ↔ a = b ∨ a ∈ l := by
  induction l generalizing b with
  | nil => simp
  | cons c l ih =>
    rw [destutter'_cons]
    by_cases h : b ≠ c
    · rw [if_pos h, mem_cons, ih, mem_cons]
    · rw [if_neg h, ih, mem_cons]
      rw [not_not] at h
      rw [h]
      tauto

theorem mem_destutter [DecidableEq α] {l : List α} {a : α} : a ∈ l.destutter (· ≠ ·) ↔ a ∈ l := by
  cases l with
  | nil => exact Iff.rfl
  | cons b l => rw [destutter_cons', mem_destutter', mem_cons]

theorem pairwise_lt_of_chain [LinearOrder α] {l : List α} (hle : l.Pairwise (· ≤ ·))
    (hne : l.IsChain (· ≠ ·)) : l.Pairwise (· < ·) := by
  induction l with
  | nil => exact Pairwise.nil
  | cons a l ih =>
    have hrest := ih (Pairwise.of_cons hle) hne.tail
    refine pairwise_cons.mpr ⟨fun c hc => ?_, hrest⟩
    cases l with
    | nil => cases hc
    | cons b l =>
      have hab : a < b := lt_of_le_of_ne (rel_of_pairwise_cons hle mem_cons_self)
        (isChain_cons_cons.mp hne).1
      rcases mem_cons.mp hc with rfl | hc
      · exact hab
      · exact hab.trans (rel_of_pairwise_cons hrest hc)

theorem pairwise_lt_destutter [LinearOrder α] {l : List α} (h : l.Pairwise (· ≤ ·)) :
    (l.destutter (· ≠ ·)).Pairwise (· < ·) :=
  pairwise_lt_of_chain (h.sublist (destutter_sublist _ l)) (isChain_destutter _ l)

theorem filter_eq_take {l : List α} {p : α → Bool}
    (h : l.Pairwise fun a b => p b = true → p a = true) :
    l.filter p = l.take (l.filter p).length := by
  induction l with
  | nil => rfl
  | cons a l ih =>
    obtain ⟨hfirst, hrest⟩ := pairwise_cons.mp h
    by_cases ha : p a = true
    · rw [filter_cons_of_pos ha, length_cons, take_succ_cons, ← ih hrest]
    · have hnone : (a :: l).filter p = [] := by
        rw [filter_eq_nil_iff]
        intro b hb
        rcases mem_cons.mp hb with rfl | hb
        · exact ha
        · exact fun hpb => ha (hfirst b hb hpb)
      rw [hnone]
      rfl

end GeneGIS.Sorted
