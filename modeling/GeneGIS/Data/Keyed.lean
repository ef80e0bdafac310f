/-
Where no two records share a key, a search by key is membership and replacing a record changes
nothing else.
-/
import Mathlib.Data.List.Nodup
import Mathlib.Data.List.Perm.Subperm
import Std.Data.ExtTreeSet.Lemmas

namespace GeneGIS.Keyed

open List hiding contains_iff_mem contains_insert getElem?_insert map_map
open Std.ExtTreeMap hiding contains_iff_mem contains_insert getElem?_insert length_toList map_map mem_insert mem_ofList ofList_eq_foldl size_insert

variable {α κ : Type} {key : α → κ} {l : List α} {x y : α} {k : κ}

theorem eq_of_mem (hl : (l.map key).Nodup) (hx : x ∈ l) (hy : y ∈ l) (h : key x = key y) : x = y :=
  inj_on_of_nodup_map hl hx hy h

theorem find?_eq_some [DecidableEq κ] (hl : (l.map key).Nodup) :
    l.find? (fun y => key y = k) = some x ↔ x ∈ l ∧ key x = k := by
  constructor
  · intro h
    have hkey := find?_some h
    exact ⟨mem_of_find?_eq_some h, by simpa using hkey⟩
  · intro h
    obtain ⟨hx, hkey⟩ := h
    have hsome : (l.find? fun y => key y = k).isSome := by
      rw [find?_isSome]
      exact ⟨x, hx, by simpa using hkey⟩
    obtain ⟨y, hy⟩ := Option.isSome_iff_exists.mp hsome
    have hykey : key y = k := by simpa using find?_some hy
    rw [hy, eq_of_mem hl hx (mem_of_find?_eq_some hy) (hkey.trans hykey.symm)]

/-- Replace the first record with the key of `x`. -/
def replace [DecidableEq κ] (key : α → κ) (x : α) (l : List α) : List α :=
  l.replaceF fun y => if key y = key x then some x else none

theorem replace_cons [DecidableEq κ] :
    replace key x (y :: l) = if key y = key x then x :: l else y :: replace key x l := by
  by_cases h : key y = key x
  · simp [replace, h]
  · simp [replace, h]

theorem map_replace [DecidableEq κ] : (replace key x l).map key = l.map key := by
  induction l with
  | nil => rfl
  | cons y rest ih =>
    rw [replace_cons]
    by_cases h : key y = key x
    · rw [if_pos h, map_cons, map_cons, h]
    · rw [if_neg h, map_cons, map_cons, ih]

theorem mem_replace [DecidableEq κ] (hl : (l.map key).Nodup) (hx : ∃ z ∈ l, key z = key x) :
    y ∈ replace key x l ↔ y = x ∨ y ∈ l ∧ key y ≠ key x := by
  induction l with
  | nil => simp at hx
  | cons z rest ih =>
    rw [map_cons, nodup_cons] at hl
    rw [replace_cons]
    by_cases h : key z = key x
    · have hrest : ∀ w ∈ rest, key w ≠ key x := by
        intro w hw hkey
        exact hl.1 (mem_map.mpr ⟨w, hw, hkey.trans h.symm⟩)
      rw [if_pos h, mem_cons, mem_cons]
      constructor
      · intro hy
        rcases hy with hy | hy
        · exact .inl hy
        · exact .inr ⟨.inr hy, hrest y hy⟩
      · intro hy
        rcases hy with hy | ⟨hy | hy, hkey⟩
        · exact .inl hy
        · rw [hy] at hkey
          exact absurd h hkey
        · exact .inr hy
    · have hx' : ∃ w ∈ rest, key w = key x := by
        obtain ⟨w, hw, hkey⟩ := hx
        rcases mem_cons.mp hw with hw | hw
        · rw [hw] at hkey
          exact absurd hkey h
        · exact ⟨w, hw, hkey⟩
      rw [if_neg h, mem_cons, mem_cons, ih hl.2 hx']
      constructor
      · intro hy
        rcases hy with hy | hy | hy
        · exact .inr ⟨.inl hy, by rw [hy]; exact h⟩
        · exact .inl hy
        · exact .inr ⟨.inr hy.1, hy.2⟩
      · intro hy
        rcases hy with hy | ⟨hy | hy, hkey⟩
        · exact .inr (.inl hy)
        · exact .inl hy
        · exact .inr (.inr ⟨hy, hkey⟩)

/-! ## Maps -/

variable [Ord κ] [Std.TransOrd κ] {m : Std.ExtTreeMap κ α}

def Indexed (key : α → κ) (m : Std.ExtTreeMap κ α) : Prop := ∀ k x, m[k]? = some x → key x = k

theorem indexed_empty (key : α → κ) : Indexed key (∅ : Std.ExtTreeMap κ α) := by
  intro k x h
  simp at h

variable [Std.LawfulEqOrd κ]

theorem getElem?_insert_ne {a : κ} (h : a ≠ k) : (m.insert k x)[a]? = m[a]? := by
  rw [Std.ExtTreeMap.getElem?_insert, if_neg]
  intro heq
  exact h (Std.LawfulEqOrd.eq_of_compare heq).symm

theorem insert_cases {a : κ} (h : (m.insert k x)[a]? = some y) :
    (a = k ∧ y = x) ∨ (a ≠ k ∧ m[a]? = some y) := by
  by_cases ha : a = k
  · rw [ha, getElem?_insert_self] at h
    exact .inl ⟨ha, (Option.some.inj h).symm⟩
  · rw [getElem?_insert_ne ha] at h
    exact .inr ⟨ha, h⟩

theorem Indexed.insert (h : Indexed key m) (x : α) : Indexed key (m.insert (key x) x) := by
  intro k y hy
  rcases insert_cases hy with hnew | hold
  · rw [hnew.1, hnew.2]
  · exact h k y hold.2

theorem Indexed.insertAll (h : Indexed key m) (l : List α) :
    Indexed key (l.foldl (fun m x => m.insert (key x) x) m) := by
  induction l generalizing m with
  | nil => exact h
  | cons x rest ih => exact ih (h.insert x)

theorem indexed_ofList (l : List α) :
    Indexed key (Std.ExtTreeMap.ofList (l.map fun x => (key x, x)) compare) := by
  rw [Std.ExtTreeMap.ofList_eq_foldl, List.foldl_map]
  exact (indexed_empty key).insertAll l

theorem getElem?_foldl_insert [DecidableEq κ] (l : List (κ × α)) (m : Std.ExtTreeMap κ α) (k : κ) :
    (l.foldl (fun m e => m.insert e.1 e.2) m)[k]? =
      ((l.filter fun e => e.1 = k).getLast?.map Prod.snd).or m[k]? := by
  induction l generalizing m with
  | nil => simp
  | cons e rest ih =>
    rw [List.foldl_cons, ih, filter_cons]
    by_cases he : e.1 = k
    · rw [if_pos (by simpa using he), he, getElem?_insert_self, getLast?_cons]
      cases (rest.filter fun e => e.1 = k).getLast? <;> simp
    · rw [if_neg (by simpa using he), getElem?_insert_ne (Ne.symm he)]

variable {l : List (κ × α)}

theorem mem_foldl_insert :
    k ∈ l.foldl (fun m e => m.insert e.1 e.2) m ↔ k ∈ m ∨ ∃ e ∈ l, e.1 = k := by
  induction l generalizing m with
  | nil => simp
  | cons e rest ih =>
    rw [List.foldl_cons, ih, Std.ExtTreeMap.mem_insert, Std.LawfulEqCmp.compare_eq_iff_eq]
    simp only [exists_mem_cons_iff]
    tauto

theorem found_foldl_insert [DecidableEq κ] (hmem : (k, x) ∈ l) (hall : ∀ e ∈ l, e.1 = k → e.2 = x) :
    (l.foldl (fun m e => m.insert e.1 e.2) m)[k]? = some x := by
  rw [getElem?_foldl_insert]
  have hfound : (k, x) ∈ l.filter fun e => e.1 = k := mem_filter.mpr ⟨hmem, by simp⟩
  cases hlast : (l.filter fun e => e.1 = k).getLast? with
  | none =>
    rw [getLast?_eq_none_iff] at hlast
    rw [hlast] at hfound
    cases hfound
  | some e =>
    have he := mem_filter.mp (mem_of_getLast? hlast)
    show some e.2 = some x
    rw [hall e he.1 (of_decide_eq_true he.2)]

theorem found_foldl_insert_iff [DecidableEq κ] :
    (∀ e ∈ l, (l.foldl (fun m e => m.insert e.1 e.2) m)[e.1]? = some e.2) ↔
      ∀ e ∈ l, ∀ f ∈ l, e.1 = f.1 → e.2 = f.2 := by
  constructor
  · intro h e he f hf hkey
    have hfound := h e he
    rw [hkey, h f hf] at hfound
    exact (Option.some.inj hfound).symm
  · exact fun h e he => found_foldl_insert he fun f hf hkey => h f hf e he hkey

theorem size_foldl_insert (h : (l.map Prod.fst).Nodup) :
    (l.foldl (fun m e => m.insert e.1 e.2) m).size =
      m.size + l.countP fun e => !m.contains e.1 := by
  induction l generalizing m with
  | nil => rfl
  | cons e rest ih =>
    rw [map_cons, nodup_cons] at h
    have hrest : rest.countP (fun f => !(m.insert e.1 e.2).contains f.1) =
        rest.countP fun f => !m.contains f.1 := by
      refine countP_congr fun f hf => ?_
      have hne : ¬ compare e.1 f.1 = .eq := by
        intro heq
        refine h.1 ?_
        rw [Std.LawfulEqOrd.eq_of_compare heq]
        exact mem_map_of_mem hf
      rw [Std.ExtTreeMap.contains_insert]
      simp [hne]
    rw [List.foldl_cons, ih h.2, hrest, Std.ExtTreeMap.size_insert, List.countP_cons]
    cases hmem : m.contains e.1 with
    | true =>
      show m.size + _ = m.size + (_ + 0)
      omega
    | false =>
      show m.size + 1 + _ = m.size + (_ + 1)
      omega

theorem insert_self (h : m[k]? = some x) : m.insert k x = m := by
  refine ext_getElem? ?_
  intro a
  by_cases ha : a = k
  · rw [ha, getElem?_insert_self, h]
  · rw [getElem?_insert_ne ha]

variable [DecidableEq κ]

theorem getElem?_ofList {l : List α} (hl : (l.map key).Nodup) :
    (Std.ExtTreeMap.ofList (l.map fun x => (key x, x)) compare)[k]? = some x ↔
      x ∈ l ∧ key x = k := by
  have hpair : (l.map fun x => (key x, x)).Pairwise fun a b => ¬ compare a.1 b.1 = .eq := by
    rw [List.Nodup, pairwise_map] at hl
    rw [pairwise_map]
    exact hl.imp fun h heq => h (Std.LawfulEqOrd.eq_of_compare heq)
  have hbound : ∀ y ∈ l,
      (Std.ExtTreeMap.ofList (l.map fun x => (key x, x)) compare)[key y]? = some y := by
    intro y hy
    exact getElem?_ofList_of_mem Std.ReflCmp.compare_self hpair
      (mem_map_of_mem (f := fun x => (key x, x)) hy)
  constructor
  · intro h
    have hkey : key x = k := indexed_ofList l k x h
    by_cases hk : ∃ y ∈ l, key y = k
    · obtain ⟨y, hy, hyk⟩ := hk
      rw [← hyk, hbound y hy, Option.some.injEq] at h
      rw [← h]
      exact ⟨hy, hyk⟩
    · rw [getElem?_ofList_of_contains_eq_false] at h
      · cases h
      · rw [List.map_map, Bool.eq_false_iff, ne_eq, List.contains_iff_mem]
        intro hmem
        obtain ⟨y, hy, hyk⟩ := mem_map.mp hmem
        exact hk ⟨y, hy, hyk⟩
  · intro ⟨hx, hk⟩
    rw [← hk]
    exact hbound x hx

theorem ofList_toList (m : Std.ExtTreeMap κ α) : Std.ExtTreeMap.ofList m.toList compare = m := by
  refine ext_getElem? ?_
  intro k
  cases hk : m[k]? with
  | some v =>
    have hmem : (k, v) ∈ m.toList := mem_toList_iff_getElem?_eq_some.mpr hk
    exact getElem?_ofList_of_mem Std.ReflCmp.compare_self distinct_keys_toList hmem
  | none =>
    refine getElem?_ofList_of_contains_eq_false ?_
    rw [Bool.eq_false_iff, ne_eq, List.contains_iff_mem]
    intro hmem
    obtain ⟨⟨k', v⟩, hentry, rfl⟩ := mem_map.mp hmem
    rw [mem_toList_iff_getElem?_eq_some.mp hentry] at hk
    cases hk

theorem Indexed.ofList (h : Indexed key m) :
    Std.ExtTreeMap.ofList ((m.toList.map Prod.snd).map fun x => (key x, x)) compare = m := by
  have hentries : (m.toList.map Prod.snd).map (fun x => (key x, x)) = m.toList := by
    rw [List.map_map]
    refine (map_congr_left ?_).trans (map_id _)
    intro entry hentry
    obtain ⟨k, x⟩ := entry
    have hkey := h k x (mem_toList_iff_getElem?_eq_some.mp hentry)
    show (key x, x) = (k, x)
    rw [hkey]
  rw [hentries, ofList_toList]

theorem Indexed.foldl_insert (h : Indexed key m) :
    (m.toList.map Prod.snd).foldl (fun m x => m.insert (key x) x) ∅ = m := by
  have hrebuilt := h.ofList
  rw [Std.ExtTreeMap.ofList_eq_foldl, List.foldl_map] at hrebuilt
  exact hrebuilt

variable {β : Type} [Ord β] [Std.TransOrd β]

theorem nodup_toList (t : Std.ExtTreeSet β) : t.toList.Nodup := by
  refine Std.ExtTreeSet.distinct_toList.imp fun {a b} hne heq => hne ?_
  rw [heq]
  exact Std.ReflCmp.compare_self

theorem size_ofList [BEq β] [LawfulBEq β] [Std.LawfulEqOrd β] {l : List β} :
    (Std.ExtTreeSet.ofList l).size = l.length ↔ l.Nodup := by
  constructor
  · intro h
    have hsubset : (Std.ExtTreeSet.ofList l).toList ⊆ l := by
      intro a ha
      rwa [Std.ExtTreeSet.mem_toList, Std.ExtTreeSet.mem_ofList, List.contains_iff_mem] at ha
    have hlength : l.length ≤ (Std.ExtTreeSet.ofList l).toList.length :=
      Nat.le_of_eq (Std.ExtTreeSet.length_toList.trans h).symm
    have hperm := (subperm_of_subset (nodup_toList _) hsubset).perm_of_length_le hlength
    exact hperm.nodup_iff.mp (nodup_toList _)
  · intro h
    refine Std.ExtTreeSet.size_ofList (h.imp fun hne heq => hne ?_)
    exact Std.LawfulEqCmp.eq_of_compare heq

end GeneGIS.Keyed
