/-
Entries stand in the order of their keys, and those of one key as the list has them.  There is only
one such sort.
-/
import Mathlib.Data.List.Sort

namespace GeneGIS

open List

variable {α κ : Type} [LinearOrder κ] {key : α → κ} {l m n : List α}

structure StableSort (key : α → κ) (l m : List α) : Prop where
  perm : m.Perm l
  ordered : m.Pairwise fun a b => key a ≤ key b
  kept : ∀ k, m.filter (fun a => key a = k) = l.filter fun a => key a = k

namespace StableSort

theorem mem_iff_of_filters (h : ∀ k, m.filter (fun a => key a = k) = n.filter fun a => key a = k)
    (a : α) : a ∈ m ↔ a ∈ n := by
  have hm : a ∈ m ↔ a ∈ m.filter fun b => key b = key a := by simp
  rw [hm, h (key a)]
  simp

theorem eq_of_filters (hm : m.Pairwise fun a b => key a ≤ key b)
    (hn : n.Pairwise fun a b => key a ≤ key b)
    (h : ∀ k, m.filter (fun a => key a = k) = n.filter fun a => key a = k) : m = n := by
  induction m generalizing n with
  | nil =>
    cases n with
    | nil => rfl
    | cons b rest =>
      have hb := (mem_iff_of_filters h b).mpr mem_cons_self
      cases hb
  | cons a rest ih =>
    cases n with
    | nil =>
      have ha := (mem_iff_of_filters h a).mp mem_cons_self
      cases ha
    | cons b rest' =>
      rw [pairwise_cons] at hm hn
      have hab : key a ≤ key b := by
        rcases mem_cons.mp ((mem_iff_of_filters h b).mpr mem_cons_self) with heq | hmem
        · rw [heq]
        · exact hm.1 b hmem
      have hba : key b ≤ key a := by
        rcases mem_cons.mp ((mem_iff_of_filters h a).mp mem_cons_self) with heq | hmem
        · rw [heq]
        · exact hn.1 a hmem
      have hkey : key b = key a := le_antisymm hba hab
      have hheads := h (key a)
      rw [filter_cons_of_pos (by simp), filter_cons_of_pos (by simp [hkey])] at hheads
      obtain rfl := (List.cons.inj hheads).1
      have hrest : ∀ k, rest.filter (fun a => key a = k) = rest'.filter fun a => key a = k := by
        intro k
        have hk := h k
        by_cases hak : key a = k
        · rw [filter_cons_of_pos (by simp [hak]), filter_cons_of_pos (by simp [hak])] at hk
          exact (List.cons.inj hk).2
        · rw [filter_cons_of_neg (by simp [hak]), filter_cons_of_neg (by simp [hak])] at hk
          exact hk
      rw [ih hm.2 hn.2 hrest]

theorem unique (hm : StableSort key l m) (hn : StableSort key l n) : m = n :=
  eq_of_filters hm.ordered hn.ordered fun k => (hm.kept k).trans (hn.kept k).symm

theorem mergeSort {le : α → α → Bool} (hle : ∀ a b, le a b = true ↔ key a ≤ key b)
    (l : List α) : StableSort key l (l.mergeSort le) := by
  have htrans : ∀ a b c, le a b = true → le b c = true → le a c = true := by
    intro a b c hab hbc
    rw [hle] at hab hbc ⊢
    exact hab.trans hbc
  have htotal : ∀ a b, (le a b || le b a) = true := by
    intro a b
    rw [Bool.or_eq_true, hle, hle]
    exact le_total _ _
  have hperm : (l.mergeSort le).Perm l := mergeSort_perm l le
  refine ⟨hperm, ?_, ?_⟩
  · exact (pairwise_mergeSort htrans htotal l).imp fun h => (hle _ _).mp h
  · intro k
    -- The entries of one key are in order, so sorting keeps them as a sublist.
    have hties : (l.filter fun a => key a = k).Pairwise fun a b => le a b = true := by
      refine pairwise_of_forall_mem_list ?_
      intro a ha b hb
      have hak : key a = k := by simpa using (mem_filter.mp ha).2
      have hbk : key b = k := by simpa using (mem_filter.mp hb).2
      rw [hle, hak, hbk]
    have hsub := sublist_mergeSort htrans htotal hties filter_sublist
    have hkept := hsub.filter fun a => key a = k
    rw [filter_filter] at hkept
    simp only [Bool.and_self] at hkept
    exact (hkept.eq_of_length ((hperm.filter _).length_eq).symm).symm

theorem keys_mirrored (hm : StableSort key l m)
    (hn : StableSort (fun a => OrderDual.toDual (key a)) l n) :
    n.map key = (m.map key).reverse := by
  have hfalling : (n.map key).Pairwise fun j k => k ≤ j := pairwise_map.mpr hn.ordered
  have hrising : (m.map key).reverse.Pairwise fun j k => k ≤ j :=
    pairwise_reverse.mpr (pairwise_map.mpr hm.ordered)
  have hperm : (n.map key).Perm (m.map key).reverse :=
    ((hn.perm.trans hm.perm.symm).map key).trans (reverse_perm _).symm
  refine hperm.eq_of_pairwise ?_ hfalling hrising
  intro j k _ _ hkj hjk
  exact le_antisymm hjk hkj

end StableSort
end GeneGIS
