/-
A tile is selected while a saturating sum is within the budget, and its bytes are added to a
counter that does not saturate.  They agree unless the budget is the largest number.
-/
import GeneGIS.Render.CityScene
import Mathlib.Algebra.BigOperators.Group.List.Basic

namespace GeneGIS.CityScene

open List
open Bool hiding and_true

variable {manifest : CitySceneManifest} {view : SharedSpatialViewState} {budget : CityStreamBudget}
  {libm : Libm} {tile : CityTile} {done : List CityTile} {s : Selection}

def byteSum (tiles : List CityTile) : Nat := (tiles.map fun tile => tile.contentBytes.toNat).sum

theorem byteSum_append (a b : List CityTile) : byteSum (a ++ b) = byteSum a + byteSum b := by
  rw [byteSum, map_append, sum_append, byteSum, byteSum]

theorem byteSum_singleton (tile : CityTile) : byteSum [tile] = tile.contentBytes.toNat := by
  rw [byteSum, map_singleton, sum_singleton]

theorem byteSum_perm {a b : List CityTile} (h : a.Perm b) : byteSum a = byteSum b :=
  (h.map fun tile : CityTile => tile.contentBytes.toNat).sum_eq

def admits (budget : CityStreamBudget) (s : Selection) (tile : CityTile) : Bool :=
  s.selectedTiles.length < budget.maximumTiles.toNat &&
    decide (saturatingAdd s.transferBytes tile.contentBytes ≤ budget.maximumTransferBytes)

/-- The addition of the counter that a selected tile causes does not fit into 64 bits. -/
def OverflowsAt (budget : CityStreamBudget) (done : List CityTile) (tile : CityTile) : Prop :=
  admits budget (selection budget done) tile = true ∧
    2 ^ 64 ≤ (selection budget done).transferBytes.toNat + tile.contentBytes.toNat

def Overflows (budget : CityStreamBudget) (frontier : List CityTile) : Prop :=
  ∃ done tile rest, frontier = done ++ tile :: rest ∧ OverflowsAt budget done tile

def selectedOf (manifest : CitySceneManifest) (plan : CitySceneFramePlan) : List CityTile :=
  manifest.tiles.filter fun tile => plan.selectedTiles.contains tile.id

def selectedBefore (manifest : CitySceneManifest) (plan : CitySceneFramePlan) (id : String) :
    List CityTile :=
  manifest.tiles.filter fun tile => plan.selectedTiles.contains tile.id && decide (tile.id < id)

structure Accounted (manifest : CitySceneManifest) (budget : CityStreamBudget)
    (plan : CitySceneFramePlan) : Prop where
  exact : plan.transferBytes.toNat = byteSum (selectedOf manifest plan)
  within : byteSum (selectedOf manifest plan) ≤ budget.maximumTransferBytes.toNat
  deferred : ∀ tile ∈ manifest.tiles, tile.id ∈ plan.deferredTiles →
    budget.maximumTiles.toNat < (selectedBefore manifest plan tile.id).length + 1 ∨
      budget.maximumTransferBytes.toNat <
        byteSum (selectedBefore manifest plan tile.id) + tile.contentBytes.toNat

/-- Tiles at the beginning of the frontier, at most as many as may be selected. -/
structure Leading (libm : Libm) (manifest : CitySceneManifest) (view : SharedSpatialViewState)
    (budget : CityStreamBudget) (tiles : List CityTile) : Prop where
  nodup : tiles.Nodup
  count : tiles.length ≤ budget.maximumTiles.toNat
  onFrontier : ∀ tile ∈ tiles, OnFrontier libm manifest view budget tile
  closed : ∀ tile ∈ tiles, ∀ other, OnFrontier libm manifest view budget other →
    other.id < tile.id → other ∈ tiles

/-- The budget is not the largest number, or the leading tiles fit into 64 bits. -/
def Fits (libm : Libm) (manifest : CitySceneManifest) (view : SharedSpatialViewState)
    (budget : CityStreamBudget) : Prop :=
  budget.maximumTransferBytes.toNat ≠ 2 ^ 64 - 1 ∨
    ∀ tiles, Leading libm manifest view budget tiles → byteSum tiles < 2 ^ 64

theorem select_of_admits (h : admits budget s tile = true) : select budget s tile =
    { selectedTiles := s.selectedTiles ++ [tile.id], deferredTiles := s.deferredTiles
      transferBytes := s.transferBytes + tile.contentBytes
      selectedFeatures := s.selectedFeatures.insertMany tile.featureIds
      selectedLayers := s.selectedLayers.insert tile.layerId } := if_pos h

theorem select_of_not_admits (h : admits budget s tile = false) :
    select budget s tile = { s with deferredTiles := s.deferredTiles ++ [tile.id] } :=
  if_neg (eq_false_iff.mp h)

theorem selection_concat (budget : CityStreamBudget) (done : List CityTile) (tile : CityTile) :
    selection budget (done ++ [tile]) = select budget (selection budget done) tile := by
  rw [selection, foldl_append, foldl_cons, foldl_nil, ← selection]

/-- The test on the sum that stops is a test on the exact sum, except at the largest budget. -/
theorem saturatingAdd_le {a b bound : UInt64} : saturatingAdd a b ≤ bound ↔
    a.toNat + b.toNat ≤ bound.toNat ∨ bound.toNat = 2 ^ 64 - 1 := by
  have hbound := UInt64.toNat_lt bound
  rw [saturatingAdd]
  by_cases hfits : a.toNat + b.toNat < 2 ^ 64
  · have hsum : (a + b).toNat = a.toNat + b.toNat := by
      rw [UInt64.toNat_add]
      exact Nat.mod_eq_of_lt hfits
    rw [if_pos hfits, UInt64.le_iff_toNat_le, hsum]
    omega
  · have hmax : (-1 : UInt64).toNat = 2 ^ 64 - 1 := rfl
    rw [if_neg hfits, UInt64.le_iff_toNat_le, hmax]
    omega

theorem admits_iff : admits budget s tile = true ↔
    s.selectedTiles.length < budget.maximumTiles.toNat ∧
      (s.transferBytes.toNat + tile.contentBytes.toNat ≤ budget.maximumTransferBytes.toNat ∨
        budget.maximumTransferBytes.toNat = 2 ^ 64 - 1) := by
  rw [admits, and_eq_true, decide_eq_true_eq, decide_eq_true_eq, saturatingAdd_le]

/-! ## The loop -/

/-- What is known of the tiles that the loop has seen, and of those of them that it took. -/
structure Ledger (budget : CityStreamBudget) (done taken : List CityTile) : Prop where
  selected : (selection budget done).selectedTiles = taken.map CityTile.id
  sublist : taken.Sublist done
  bytes : (selection budget done).transferBytes.toNat ≤ byteSum taken
  exact : ¬ Overflows budget done → (selection budget done).transferBytes.toNat = byteSum taken
  full : budget.maximumTransferBytes.toNat = 2 ^ 64 - 1 →
    taken = done.take budget.maximumTiles.toNat
  deferred : ¬ Overflows budget done → ∀ tile ∈ done,
    tile.id ∈ (selection budget done).deferredTiles →
      budget.maximumTiles.toNat < (taken.filter fun t => decide (t.id < tile.id)).length + 1 ∨
        budget.maximumTransferBytes.toNat <
          byteSum (taken.filter fun t => decide (t.id < tile.id)) + tile.contentBytes.toNat

theorem Overflows.concat (h : Overflows budget done) : Overflows budget (done ++ [tile]) := by
  obtain ⟨before, first, rest, hdone, hfirst⟩ := h
  refine ⟨before, first, rest ++ [tile], ?_, hfirst⟩
  rw [hdone, append_assoc, cons_append]

theorem ledger_nil (budget : CityStreamBudget) : Ledger budget [] [] where
  selected := rfl
  sublist := Sublist.refl _
  bytes := Nat.zero_le _
  exact _ := rfl
  full _ := by rw [take_nil]
  deferred _ tile htile := by cases htile

section Step

variable {taken : List CityTile}

theorem Ledger.length (h : Ledger budget done taken) :
    (selection budget done).selectedTiles.length = taken.length := by
  rw [h.selected, length_map]

theorem Ledger.filter_eq (h : Ledger budget done taken) (hlast : ∀ t ∈ done, t.id < tile.id) :
    taken.filter (fun t => decide (t.id < tile.id)) = taken := by
  rw [filter_eq_self]
  intro t ht
  exact decide_eq_true (hlast t (h.sublist.subset ht))

theorem filter_concat {other : CityTile} (h : ¬ tile.id < other.id) :
    (taken ++ [tile]).filter (fun t => decide (t.id < other.id)) =
      taken.filter fun t => decide (t.id < other.id) := by
  rw [filter_append, filter_singleton, decide_eq_false h]
  exact append_nil _

theorem Ledger.take (h : Ledger budget done taken)
    (hadmits : admits budget (selection budget done) tile = true)
    (hlast : ∀ t ∈ done, t.id < tile.id) (hdeferred : ∀ id ∈
      (selection budget done).deferredTiles, id ∈ done.map CityTile.id) :
    Ledger budget (done ++ [tile]) (taken ++ [tile]) := by
  have hnext := (selection_concat budget done tile).trans (select_of_admits hadmits)
  have hroom : taken.length < budget.maximumTiles.toNat := by
    rw [← h.length]
    exact (admits_iff.mp hadmits).1
  refine ⟨?_, h.sublist.append (Sublist.refl _), ?_, ?_, ?_, ?_⟩
  · rw [hnext, map_append, map_singleton, ← h.selected]
  · have hbytes := h.bytes
    have hmod := Nat.mod_le ((selection budget done).transferBytes.toNat +
      tile.contentBytes.toNat) (2 ^ 64)
    rw [hnext, byteSum_append, byteSum_singleton, UInt64.toNat_add]
    omega
  · intro hnone
    have hexact := h.exact fun hover => hnone hover.concat
    have hfits : (selection budget done).transferBytes.toNat + tile.contentBytes.toNat < 2 ^ 64 := by
      by_contra hlarge
      exact hnone ⟨done, tile, [], rfl, hadmits, Nat.le_of_not_lt hlarge⟩
    rw [hnext, byteSum_append, byteSum_singleton, UInt64.toNat_add, Nat.mod_eq_of_lt hfits, hexact]
  · intro hmax
    have htaken := h.full hmax
    have hshort : done.length < budget.maximumTiles.toNat := by
      rw [htaken, length_take] at hroom
      omega
    rw [take_of_length_le (Nat.le_of_lt hshort)] at htaken
    rw [htaken, take_of_length_le]
    rw [length_append, length_singleton]
    omega
  · intro hnone other hother hid
    rw [hnext] at hid
    have hseen := hdeferred other.id hid
    obtain ⟨t, ht, hsame⟩ := mem_map.mp hseen
    have hlt : other.id < tile.id := by
      rw [← hsame]
      exact hlast t ht
    have hmem : other ∈ done := by
      rcases mem_append.mp hother with hmem | hmem
      · exact hmem
      · rw [mem_singleton.mp hmem] at hlt
        exact absurd hlt (String.lt_irrefl _)
    rw [filter_concat (String.lt_asymm hlt)]
    exact h.deferred (fun hover => hnone hover.concat) other hmem hid

theorem Ledger.skip (h : Ledger budget done taken)
    (hadmits : admits budget (selection budget done) tile = false)
    (hlast : ∀ t ∈ done, t.id < tile.id) :
    Ledger budget (done ++ [tile]) taken := by
  have hnext := (selection_concat budget done tile).trans (select_of_not_admits hadmits)
  have hrefused : ¬ (taken.length < budget.maximumTiles.toNat ∧
      ((selection budget done).transferBytes.toNat + tile.contentBytes.toNat ≤
        budget.maximumTransferBytes.toNat ∨
          budget.maximumTransferBytes.toNat = 2 ^ 64 - 1)) := by
    rw [← h.length, ← admits_iff, hadmits]
    exact false_ne_true
  refine ⟨?_, ?_, ?_, ?_, ?_, ?_⟩
  · rw [hnext]
    exact h.selected
  · exact h.sublist.trans (sublist_append_left _ _)
  · rw [hnext]
    exact h.bytes
  · intro hnone
    rw [hnext]
    exact h.exact fun hover => hnone hover.concat
  · intro hmax
    have htaken := h.full hmax
    have hlong : budget.maximumTiles.toNat ≤ done.length := by
      have hlength : taken.length = Min.min budget.maximumTiles.toNat done.length := by
        rw [htaken, length_take]
      by_contra hshort
      exact hrefused ⟨by omega, .inr hmax⟩
    rw [take_append_of_le_length hlong]
    exact htaken
  · intro hnone other hother hid
    have hbefore : ¬ Overflows budget done := fun hover => hnone hover.concat
    rw [hnext] at hid
    rcases mem_append.mp hother with hmem | hmem
    · rcases mem_append.mp hid with hid | hid
      · exact h.deferred hbefore other hmem hid
      · have hlt := hlast other hmem
        rw [mem_singleton.mp hid] at hlt
        exact absurd hlt (String.lt_irrefl _)
    · rw [mem_singleton.mp hmem, h.filter_eq hlast]
      have hexact := h.exact hbefore
      omega

end Step

theorem deferred_mem (budget : CityStreamBudget) (done : List CityTile) {id : String}
    (h : id ∈ (selection budget done).deferredTiles) : id ∈ done.map CityTile.id :=
  (kept_selection budget done).covered.subset (mem_append_right _ h)

theorem exists_ledger (budget : CityStreamBudget) :
    (done.Pairwise fun a b => a.id < b.id) → ∃ taken, Ledger budget done taken := by
  induction done using reverseRecOn with
  | nil => exact fun _ => ⟨[], ledger_nil budget⟩
  | append_singleton done tile ih =>
    intro hsorted
    obtain ⟨hdone, -, hlast⟩ := pairwise_append.mp hsorted
    have hlast' : ∀ t ∈ done, t.id < tile.id := fun t ht => hlast t ht tile (by simp)
    obtain ⟨taken, h⟩ := ih hdone
    cases hadmits : admits budget (selection budget done) tile with
    | true => exact ⟨_, h.take hadmits hlast' fun id hid => deferred_mem budget done hid⟩
    | false => exact ⟨_, h.skip hadmits hlast'⟩

/-! ## The plan -/

/-- The frontier of the scene, in the order of the loop. -/
def orderedFrontier (libm : Libm) (manifest : CitySceneManifest) (view : SharedSpatialViewState)
    (budget : CityStreamBudget) : List CityTile :=
  byId (traversal libm manifest view budget).frontier

variable {taken : List CityTile}

theorem mem_orderedFrontier (hids : (tileIds manifest).Nodup) :
    tile ∈ orderedFrontier libm manifest view budget ↔
      OnFrontier libm manifest view budget tile := by
  rw [orderedFrontier, byId, mem_insertionSort]
  exact (frontier_spec libm view budget hids).2.2 tile

theorem orderedFrontier_sorted (libm : Libm) (view : SharedSpatialViewState)
    (budget : CityStreamBudget) (hids : (tileIds manifest).Nodup) :
    (orderedFrontier libm manifest view budget).Pairwise fun a b => a.id < b.id := by
  have hnodup : (orderedFrontier libm manifest view budget).Nodup :=
    (perm_insertionSort _ _).nodup_iff.mpr (frontier_spec libm view budget hids).2.1
  have hsorted : (orderedFrontier libm manifest view budget).Pairwise fun a b => a.id ≤ b.id :=
    pairwise_insertionSort _ _
  refine (hsorted.and hnodup).imp_of_mem fun {a b} ha hb h => ?_
  refine Std.lt_of_le_of_ne h.1 fun hsame => h.2 ?_
  have hmem : ∀ t ∈ orderedFrontier libm manifest view budget, t ∈ manifest.tiles :=
    fun t ht => mem_of_frontier hids ((mem_orderedFrontier hids).mp ht)
  exact eq_of_id hids (hmem a ha) (hmem b hb) hsame

theorem Ledger.selectedOf_perm (rt : Runtime) (hids : (tileIds manifest).Nodup)
    (h : Ledger budget (orderedFrontier libm manifest view budget) taken) (p : CityTile → Bool) :
    (manifest.tiles.filter fun tile => (framePlan rt manifest view budget
        (orderedFrontier libm manifest view budget)).selectedTiles.contains tile.id &&
      p tile).Perm (taken.filter p) := by
  have hsorted := orderedFrontier_sorted libm view budget hids
  have htaken : taken.Nodup := h.sublist.nodup (hsorted.imp fun hlt hsame => by
    rw [hsame] at hlt
    exact String.lt_irrefl _ hlt)
  have hmem : ∀ t ∈ taken, t ∈ manifest.tiles := fun t ht =>
    mem_of_frontier hids ((mem_orderedFrontier hids).mp (h.sublist.subset ht))
  have hselected : (framePlan rt manifest view budget
      (orderedFrontier libm manifest view budget)).selectedTiles = taken.map CityTile.id := h.selected
  rw [perm_ext_iff_of_nodup ((nodup_tiles hids).filter _) (htaken.filter _)]
  intro t
  rw [mem_filter, mem_filter, hselected, and_eq_true, contains_iff_mem]
  constructor
  · intro ht
    obtain ⟨u, hu, hsame⟩ := mem_map.mp ht.2.1
    rw [← eq_of_id hids (hmem u hu) ht.1 hsame]
    exact ⟨hu, eq_of_id hids (hmem u hu) ht.1 hsame ▸ ht.2.2⟩
  · intro ht
    exact ⟨hmem t ht.1, mem_map_of_mem ht.1, ht.2⟩

theorem Ledger.accounted (rt : Runtime) (hids : (tileIds manifest).Nodup)
    (h : Ledger budget (orderedFrontier libm manifest view budget) taken)
    (hnone : ¬ Overflows budget (orderedFrontier libm manifest view budget)) :
    Accounted manifest budget
      (framePlan rt manifest view budget (orderedFrontier libm manifest view budget)) := by
  have hexact := h.exact hnone
  have hselected : byteSum (selectedOf manifest
      (framePlan rt manifest view budget (orderedFrontier libm manifest view budget))) =
        byteSum taken := by
    have hperm := h.selectedOf_perm rt hids fun _ => true
    simp only [Bool.and_true, filter_true] at hperm
    exact byteSum_perm hperm
  refine ⟨?_, ?_, ?_⟩
  · rw [hselected]
    exact hexact
  · have hbudget := UInt64.le_iff_toNat_le.mp
      (kept_selection budget (orderedFrontier libm manifest view budget)).bytes
    rw [hselected, ← hexact]
    exact hbudget
  · intro tile htile hid
    have hbefore := h.selectedOf_perm rt hids fun t => decide (t.id < tile.id)
    rw [selectedBefore, hbefore.length_eq, byteSum_perm hbefore]
    obtain ⟨t, ht, hsame⟩ := mem_map.mp (deferred_mem budget _ hid)
    have hmem := mem_of_frontier hids ((mem_orderedFrontier hids).mp ht)
    rw [eq_of_id hids hmem htile hsame] at ht
    exact h.deferred hnone tile ht hid

/-! ## When the counter overflows -/

theorem leading_take (hids : (tileIds manifest).Nodup) (n : Nat)
    (hn : n ≤ budget.maximumTiles.toNat) :
    Leading libm manifest view budget ((orderedFrontier libm manifest view budget).take n) := by
  have hsorted := orderedFrontier_sorted libm view budget hids
  have hsplit := take_append_drop n (orderedFrontier libm manifest view budget)
  refine ⟨?_, ?_, ?_, ?_⟩
  · refine (take_sublist _ _).nodup (hsorted.imp fun hlt hsame => ?_)
    rw [hsame] at hlt
    exact String.lt_irrefl _ hlt
  · rw [length_take]
    omega
  · exact fun tile htile => (mem_orderedFrontier hids).mp (mem_of_mem_take htile)
  · intro tile htile other hother hlt
    have hmem := (mem_orderedFrontier hids).mpr hother
    rw [← hsplit] at hmem hsorted
    rcases mem_append.mp hmem with hmem | hmem
    · exact hmem
    · exact absurd ((pairwise_append.mp hsorted).2.2 tile htile other hmem) (String.lt_asymm hlt)

theorem Leading.perm_take {tiles : List CityTile} (hids : (tileIds manifest).Nodup)
    (h : Leading libm manifest view budget tiles) :
    tiles.Perm ((orderedFrontier libm manifest view budget).take tiles.length) := by
  have hsorted := orderedFrontier_sorted libm view budget hids
  have hfilter : tiles.Perm ((orderedFrontier libm manifest view budget).filter
      fun t => decide (t ∈ tiles)) := by
    have hnodup : (orderedFrontier libm manifest view budget).Nodup :=
      hsorted.imp fun hlt hsame => by
        rw [hsame] at hlt
        exact String.lt_irrefl _ hlt
    rw [perm_ext_iff_of_nodup h.nodup (hnodup.filter _)]
    intro t
    rw [mem_filter, decide_eq_true_eq, mem_orderedFrontier hids]
    exact ⟨fun ht => ⟨h.onFrontier t ht, ht⟩, fun ht => ht.2⟩
  have htake := @Sorted.filter_eq_take CityTile _ (fun t => decide (t ∈ tiles))
    (hsorted.imp_of_mem fun {t u} ht _ hlt hu => by
      rw [decide_eq_true_eq] at hu ⊢
      exact h.closed u hu t ((mem_orderedFrontier hids).mp ht) hlt)
  rw [← hfilter.length_eq] at htake
  rw [← htake]
  exact hfilter

theorem overflows_iff (hids : (tileIds manifest).Nodup) :
    Overflows budget (orderedFrontier libm manifest view budget) ↔
      ¬ Fits libm manifest view budget := by
  have hsorted := orderedFrontier_sorted libm view budget hids
  constructor
  · intro h
    obtain ⟨done, tile, rest, hfrontier, hadmits, hlarge⟩ := h
    have hmax : budget.maximumTransferBytes.toNat = 2 ^ 64 - 1 := by
      have hbudget := UInt64.toNat_lt budget.maximumTransferBytes
      have hbytes := (admits_iff.mp hadmits).2
      omega
    have hdone : done.Pairwise fun a b => a.id < b.id := by
      rw [hfrontier] at hsorted
      exact (pairwise_append.mp hsorted).1
    obtain ⟨taken, hledger⟩ := exists_ledger budget hdone
    have htaken := hledger.full hmax
    have hroom := (admits_iff.mp hadmits).1
    rw [hledger.length, htaken, length_take] at hroom
    rw [take_of_length_le (by omega)] at htaken
    have htake : (orderedFrontier libm manifest view budget).take (done.length + 1) =
        done ++ [tile] := by
      rw [hfrontier, take_append, take_of_length_le (Nat.le_succ _),
        show done.length + 1 - done.length = 1 by omega]
      rfl
    have hleading : Leading libm manifest view budget _ :=
      leading_take hids (done.length + 1) (by omega)
    intro hfits
    have hbytes := hledger.bytes
    rw [htaken] at hbytes
    rcases hfits with hfits | hfits
    · exact hfits hmax
    · have hsum := hfits _ hleading
      rw [htake, byteSum_append, byteSum_singleton] at hsum
      omega
  · intro h
    obtain ⟨hmax, hlarge⟩ := not_or.mp h
    have hmax := not_not.mp hmax
    obtain ⟨tiles, htiles⟩ := not_forall.mp hlarge
    obtain ⟨hleading, hsum⟩ := Classical.not_imp.mp htiles
    have hperm := hleading.perm_take hids
    by_contra hnone
    obtain ⟨done, hdone⟩ : ∃ done,
        done = (orderedFrontier libm manifest view budget).take tiles.length := ⟨_, rfl⟩
    obtain ⟨after, hsplit⟩ : ∃ after, done ++ after = orderedFrontier libm manifest view budget :=
      ⟨_, hdone ▸ take_append_drop tiles.length _⟩
    rw [← hdone] at hperm
    have hdoneSorted : done.Pairwise fun a b => a.id < b.id := by
      rw [← hsplit] at hsorted
      exact (pairwise_append.mp hsorted).1
    have hdoneNone : ¬ Overflows budget done := by
      intro hover
      obtain ⟨before, tile, rest, hbefore, hat⟩ := hover
      refine hnone ⟨before, tile, rest ++ after, ?_, hat⟩
      rw [← hsplit, hbefore, append_assoc, cons_append]
    obtain ⟨taken, hledger⟩ := exists_ledger budget hdoneSorted
    have htaken := hledger.full hmax
    rw [take_of_length_le (by rw [← hperm.length_eq]; exact hleading.count)] at htaken
    have hexact := hledger.exact hdoneNone
    have hlt := UInt64.toNat_lt (selection budget done).transferBytes
    rw [hexact, htaken, ← byteSum_perm hperm] at hlt
    exact hsum hlt

/-- The bytes of a frame are counted exactly, within the budget, and a tile is deferred only
where it would break it, if and only if the scene fits. -/
theorem planCitySceneFrame_accounted (libm : Libm) (rt : Runtime) (manifest : CitySceneManifest)
    (view : SharedSpatialViewState) (budget : CityStreamBudget)
    (hvalid : validate manifest view budget = .ok ()) :
    ∃ plan, planCitySceneFrame libm rt manifest view budget = .ok plan ∧
      (¬ Overflows budget (orderedFrontier libm manifest view budget) ∧
          Accounted manifest budget plan ↔
        Fits libm manifest view budget) := by
  have hids := (validate_ok.mp hvalid).1.nodup_ids
  refine ⟨_, planCitySceneFrame_ok hvalid, ?_⟩
  constructor
  · intro h
    by_contra hfits
    exact h.1 ((overflows_iff hids).mpr hfits)
  · intro hfits
    have hnone : ¬ Overflows budget (orderedFrontier libm manifest view budget) := fun hover =>
      (overflows_iff hids).mp hover hfits
    obtain ⟨taken, hledger⟩ := exists_ledger budget (orderedFrontier_sorted libm view budget hids)
    exact ⟨hnone, hledger.accounted rt hids hnone⟩

theorem planCitySceneFrame_accounted_block :
    ∃ plan, planCitySceneFrame Block.tangent Runtime.reference Block.scene Block.camera
        Block.limits = .ok plan ∧ Accounted Block.scene Block.limits plan := by
  obtain ⟨plan, hplan, hiff⟩ := planCitySceneFrame_accounted Block.tangent Runtime.reference
    Block.scene Block.camera Block.limits Block.validate_scene
  exact ⟨plan, hplan, (hiff.mpr (.inl (by decide))).2⟩

namespace Block

def east : CityTile := { Block.tile "east" none with contentBytes := -1 }

def west : CityTile := { Block.tile "west" none with contentBytes := 1 }

/-- A whole counter of bytes and one byte more. -/
def hugeScene : CitySceneManifest := { scene with tiles := [east, west] }

def noLimit : CityStreamBudget := { limits with maximumTransferBytes := -1 }

theorem validate_hugeScene : validate hugeScene camera noLimit = .ok () := by decide +kernel

theorem hugeScene_frontier :
    byId (traversal tangent hugeScene camera noLimit).frontier = hugeScene.tiles := by
  decide +kernel

end Block

/-- A scene of two tiles of which both are selected and no byte is counted. -/
theorem planCitySceneFrame_overflows :
    validate Block.hugeScene Block.camera Block.noLimit = .ok () ∧ Overflows Block.noLimit
        (orderedFrontier Block.tangent Block.hugeScene Block.camera Block.noLimit) ∧
      ∃ plan, planCitySceneFrame Block.tangent Runtime.reference Block.hugeScene Block.camera
          Block.noLimit = .ok plan ∧
        plan.selectedTiles = ["east", "west"] ∧ plan.transferBytes = 0 ∧
        ¬ Accounted Block.hugeScene Block.noLimit plan := by
  refine ⟨Block.validate_hugeScene, ?_, _, planCitySceneFrame_ok Block.validate_hugeScene, ?_⟩
  · rw [orderedFrontier, Block.hugeScene_frontier]
    exact ⟨[Block.east], Block.west, [], rfl, by decide, by decide⟩
  · rw [Block.hugeScene_frontier]
    refine ⟨by decide, by decide, fun h => ?_⟩
    have hexact := h.exact
    revert hexact
    decide

end GeneGIS.CityScene
