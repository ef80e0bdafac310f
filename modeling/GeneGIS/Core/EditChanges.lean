/-
The receipt lists exactly the identities whose entry differs, except that a split leaves out its
source and that a feature at the last revision can be written as it was.
-/
import GeneGIS.Core.EditInvariant

namespace GeneGIS.EditableLayer

open Fallible Std.ExtTreeMap Std.ExtTreeSet Std List

/-- Strictly increasing, and exactly the identities whose entry differs. -/
def NamesChanges (l l' : EditableLayer) (ids : List String) : Prop :=
  (ids.Pairwise fun a b => compare a b = .lt) ∧ ∀ id, id ∈ ids ↔ l.features[id]? ≠ l'.features[id]?

def memberPolygons (l : EditableLayer) (ids : List String) : List (List Ring) :=
  ids.flatMap fun id => ((l.features[id]?.bind fun f => f.geometry.polygons).getD [])

/-- A split keeps the identity of its source, and what is written is not there already with
the last revision. -/
def Reports (l : EditableLayer) : FeatureEdit → Prop
  | .create _ => True
  | .delete _ _ => True
  | .update feature _ => l.features[feature.id]? ≠ some (intoFeature feature u64Max)
  | .split featureId _ parts => featureId ∈ parts.map FeatureDraft.id
  | .merge featureIds _ merged => l.features[merged.id]? ≠
      some (intoFeature { merged with geometry := .multiPolygon (l.memberPolygons featureIds) }
        u64Max)
  | .repair featureId _ => ∀ f, l.features[featureId]? = some f → f.revision = u64Max →
      f.geometry.repair ≠ f.geometry

/-! ## Entries after an edit -/

variable {l l' : EditableLayer}

theorem getElem?_insertFeature (id key : String) (f : EditableFeature) (l : EditableLayer) :
    (l.insertFeature id f).features[key]? = if key = id then some f else l.features[key]? := by
  by_cases hkey : key = id
  · rw [if_pos hkey, hkey]
    exact getElem?_insert_self
  · rw [if_neg hkey]
    exact Keyed.getElem?_insert_ne hkey

theorem getElem?_removeFeature (id key : String) (l : EditableLayer) :
    (l.removeFeature id).features[key]? = if key = id then none else l.features[key]? := by
  show (l.features.erase id)[key]? = _
  rw [getElem?_erase]
  by_cases hkey : key = id
  · rw [if_pos hkey, hkey, if_pos ReflCmp.compare_self]
  · rw [if_neg hkey, if_neg]
    intro h
    exact hkey (LawfulEqOrd.eq_of_compare h).symm

theorem getElem?_removeAll (ids : List String) (key : String) (l : EditableLayer) :
    (ids.foldl (fun l id => l.removeFeature id) l).features[key]? =
      if key ∈ ids then none else l.features[key]? := by
  induction ids generalizing l with
  | nil => simp
  | cons id rest ih =>
    rw [foldl_cons, ih, getElem?_removeFeature]
    by_cases hkey : key = id
    · simp [hkey]
    · simp [hkey]

theorem getElem?_insertAll (parts : List FeatureDraft) (revision : Nat) (key : String)
    (l : EditableLayer) :
    (∃ part ∈ parts, part.id = key ∧
        (parts.foldl (fun l part => l.insertFeature part.id (intoFeature part revision)) l).features[
          key]? = some (intoFeature part revision)) ∨
      key ∉ parts.map FeatureDraft.id ∧
        (parts.foldl (fun l part => l.insertFeature part.id (intoFeature part revision)) l).features[
          key]? = l.features[key]? := by
  induction parts generalizing l with
  | nil => exact .inr ⟨not_mem_nil, rfl⟩
  | cons part rest ih =>
    rw [foldl_cons]
    rcases ih (l.insertFeature part.id (intoFeature part revision)) with h | h
    · obtain ⟨other, hother, hid, hentry⟩ := h
      exact .inl ⟨other, mem_cons_of_mem _ hother, hid, hentry⟩
    · obtain ⟨hkey, hentry⟩ := h
      rw [getElem?_insertFeature] at hentry
      by_cases hpart : key = part.id
      · rw [if_pos hpart] at hentry
        exact .inl ⟨part, mem_cons_self, hpart.symm, hentry⟩
      · rw [if_neg hpart] at hentry
        refine .inr ⟨?_, hentry⟩
        rw [List.map_cons, List.mem_cons, not_or]
        exact ⟨hpart, hkey⟩

theorem validateParts_ids {featureId : String} {parts : List FeatureDraft}
    {ids ids' : ExtTreeSet String} (h : l.validateParts featureId ids parts = .ok ids') :
    (∀ id, id ∈ ids' ↔ id ∈ ids ∨ id ∈ parts.map FeatureDraft.id) ∧
      ∀ part ∈ parts, part.id = featureId ∨ l.features[part.id]? = none := by
  induction parts generalizing ids with
  | nil =>
    rw [validateParts, Except.ok.injEq] at h
    rw [h]
    simp
  | cons part rest ih =>
    rw [validateParts] at h
    obtain ⟨_, -, h⟩ := bind_iff.mp h
    obtain ⟨_, hnew, h⟩ := bind_iff.mp h
    rw [require, except_guard_ok, Bool.and_eq_true, Bool.or_eq_true, decide_eq_true_eq] at hnew
    obtain ⟨hids, hrest⟩ := ih h
    constructor
    · intro id
      rw [hids, ExtTreeSet.mem_insert, List.map_cons, List.mem_cons]
      have hsame : compare part.id id = .eq ↔ id = part.id := by
        rw [LawfulEqOrd.compare_eq_iff_eq]
        exact eq_comm
      rw [hsame]
      rw [or_assoc, or_left_comm]
    · intro other hother
      rcases List.mem_cons.mp hother with heq | hother
      · rw [heq]
        refine hnew.2.imp id fun hfresh => ?_
        rw [Bool.not_eq_true', ← Bool.not_eq_true, ExtTreeMap.contains_iff_mem] at hfresh
        exact getElem?_eq_none hfresh
      · exact hrest other hother

theorem collectMembers_ok {pairs : List (String × Nat)} {members members' : Members}
    (h : l.collectMembers pairs members = .ok members') :
    members.maxRevision ≤ members'.maxRevision ∧
      members'.polygons = members.polygons ++ l.memberPolygons (pairs.map Prod.fst) ∧
      ∀ id ∈ pairs.map Prod.fst, ∃ f, l.features[id]? = some f ∧
        f.revision ≤ members'.maxRevision := by
  induction pairs generalizing members with
  | nil =>
    rw [collectMembers, Except.ok.injEq] at h
    rw [h]
    simp [memberPolygons]
  | cons pair rest ih =>
    obtain ⟨id, revision⟩ := pair
    rw [collectMembers] at h
    obtain ⟨feature, hfeature, h⟩ := bind_iff.mp h
    have hentry := (featureWithRevision_ok hfeature).1
    cases hpolygons : feature.geometry.polygons with
    | none =>
      rw [hpolygons] at h
      cases h
    | some polygons =>
      rw [hpolygons] at h
      obtain ⟨hmax, hall, hmembers⟩ := ih h
      refine ⟨(Nat.le_max_left _ _).trans hmax, ?_, ?_⟩
      · rw [hall, append_assoc]
        simp [memberPolygons, hentry, hpolygons]
      · intro key hkey
        rcases List.mem_cons.mp hkey with heq | hkey
        · rw [heq]
          exact ⟨feature, hentry, (Nat.le_max_right _ _).trans hmax⟩
        · exact hmembers key hkey

/-! ## What is named -/

variable {f : EditableFeature}

theorem rewritten_iff {draft : FeatureDraft} {n : Nat} (h : f.revision ≤ n) :
    f = intoFeature draft (saturatingSucc n) ↔ f = intoFeature draft u64Max := by
  have hsucc : saturatingSucc n = min (n + 1) u64Max := rfl
  constructor
  · intro hf
    have hrevision : f.revision = saturatingSucc n := by
      rw [hf]
      rfl
    have hlast : saturatingSucc n = u64Max := by
      omega
    rw [hlast] at hf
    exact hf
  · intro hf
    have hrevision : f.revision = u64Max := by
      rw [hf]
      rfl
    have hlast : saturatingSucc n = u64Max := by
      omega
    rw [hlast]
    exact hf

theorem names_insert (id : String) (f : EditableFeature) (l : EditableLayer) :
    NamesChanges l (l.insertFeature id f) [id] ↔ l.features[id]? ≠ some f := by
  constructor
  · intro h
    have hid := (h.2 id).mp mem_cons_self
    rw [getElem?_insertFeature, if_pos rfl] at hid
    exact hid
  · intro h
    refine ⟨pairwise_singleton _ _, fun key => ?_⟩
    rw [mem_singleton, getElem?_insertFeature]
    by_cases hkey : key = id
    · rw [if_pos hkey, hkey]
      exact iff_of_true rfl h
    · rw [if_neg hkey]
      exact iff_of_false hkey (not_not_intro rfl)

theorem names_remove {id : String} (h : l.features[id]? = some f) :
    NamesChanges l (l.removeFeature id) [id] := by
  refine ⟨pairwise_singleton _ _, fun key => ?_⟩
  rw [mem_singleton, getElem?_removeFeature]
  by_cases hkey : key = id
  · rw [if_pos hkey, hkey, h]
    exact iff_of_true rfl (by simp)
  · rw [if_neg hkey]
    exact iff_of_false hkey (not_not_intro rfl)

theorem sorted_toList (ids : ExtTreeSet String) :
    ids.toList.Pairwise fun a b => compare a b = .lt := ordered_toList

variable {ids : Std.ExtTreeSet String}

theorem names_split {featureId : String} {source : EditableFeature} {parts : List FeatureDraft}
    (hsource : l.features[featureId]? = some source)
    (hparts : l.validateParts featureId ∅ parts = .ok ids) :
    NamesChanges l (parts.foldl (fun l part =>
        l.insertFeature part.id (intoFeature part ((source.revision + 1) % 2 ^ 64)))
          (l.removeFeature featureId)) ids.toList ↔ featureId ∈ parts.map FeatureDraft.id := by
  obtain ⟨hids, hfresh⟩ := validateParts_ids hparts
  have hmem : ∀ id, id ∈ ids.toList ↔ id ∈ parts.map FeatureDraft.id := by
    intro id
    rw [ExtTreeSet.mem_toList, hids]
    simp
  have hentry := fun key => getElem?_insertAll parts ((source.revision + 1) % 2 ^ 64) key
    (l.removeFeature featureId)
  constructor
  · intro h
    by_contra hnot
    have hsame := (not_congr (h.2 featureId)).mp fun hin => hnot ((hmem featureId).mp hin)
    rcases hentry featureId with hpart | hnone
    · obtain ⟨part, hpart, hid, -⟩ := hpart
      exact hnot (mem_map.mpr ⟨part, hpart, hid⟩)
    · rw [hnone.2, getElem?_removeFeature, if_pos rfl, hsource] at hsame
      exact hsame (by simp)
  · intro h
    refine ⟨sorted_toList ids, fun key => ?_⟩
    rw [hmem]
    rcases hentry key with hpart | hnone
    · obtain ⟨part, hpart, hid, hnew⟩ := hpart
      rw [hnew]
      refine iff_of_true (mem_map.mpr ⟨part, hpart, hid⟩) ?_
      rcases hfresh part hpart with heq | hnone
      · rw [← hid, heq, hsource]
        intro hsame
        have hrevision : source.revision = (source.revision + 1) % 2 ^ 64 :=
          congrArg EditableFeature.revision (Option.some.inj hsame)
        omega
      · rw [← hid, hnone]
        exact (Option.some_ne_none _).symm
    · rw [hnone.2, getElem?_removeFeature]
      refine iff_of_false hnone.1 ?_
      have hkey : key ≠ featureId := by
        intro hkey
        rw [hkey] at hnone
        exact hnone.1 h
      rw [if_neg hkey]
      exact not_not_intro rfl

theorem names_merge {id : String} (hmembers : ∀ key ∈ ids, l.features[key]?.isSome) :
    NamesChanges l ((ids.toList.foldl (fun l id => l.removeFeature id) l).insertFeature id f)
      (ids.insert id).toList ↔ l.features[id]? ≠ some f := by
  have hmem : ∀ key, key ∈ (ids.insert id).toList ↔ key = id ∨ key ∈ ids := by
    intro key
    rw [ExtTreeSet.mem_toList, ExtTreeSet.mem_insert, LawfulEqOrd.compare_eq_iff_eq, eq_comm]
  constructor
  · intro h
    have hid := (h.2 id).mp ((hmem id).mpr (.inl rfl))
    rw [getElem?_insertFeature, if_pos rfl] at hid
    exact hid
  · intro h
    refine ⟨sorted_toList _, fun key => ?_⟩
    rw [hmem, getElem?_insertFeature, getElem?_removeAll]
    by_cases hkey : key = id
    · rw [if_pos hkey, hkey]
      exact iff_of_true (.inl rfl) h
    · rw [if_neg hkey]
      by_cases hin : key ∈ ids
      · rw [if_pos (ExtTreeSet.mem_toList.mpr hin)]
        exact iff_of_true (.inr hin) (Option.isSome_iff_ne_none.mp (hmembers key hin))
      · rw [if_neg fun h => hin (ExtTreeSet.mem_toList.mp h)]
        exact iff_of_false (by simp [hkey, hin]) (not_not_intro rfl)

theorem applyEdit_names {edit : FeatureEdit} {ids : List String}
    (h : applyEdit edit l = .ok ids l') : NamesChanges l l' ids ↔ Reports l edit := by
  cases applyEdit_ok h with
  | create feature _ hnew =>
    have hnone : l.features[feature.id]? = none := by
      refine getElem?_eq_none fun hin => ?_
      rw [ExtTreeMap.contains_iff_mem.mpr hin] at hnew
      cases hnew
    rw [names_insert, hnone, Reports]
    simp
  | update feature expected previous _ hprev =>
    rw [names_insert, (featureWithRevision_ok hprev).1, Reports,
      (featureWithRevision_ok hprev).1, ne_eq, ne_eq, Option.some.injEq, Option.some.injEq,
      rewritten_iff (Nat.le_refl _)]
  | delete featureId expected previous hprev =>
    exact iff_of_true (names_remove (featureWithRevision_ok hprev).1) trivial
  | split featureId expected parts source ids hsource hparts =>
    exact names_split (featureWithRevision_ok hsource).1 hparts
  | merge featureIds expected merged members hlength hcollect _ hnew =>
    obtain ⟨-, hpolygons, hmembers⟩ := collectMembers_ok hcollect
    rw [map_fst_zip hlength.2.le] at hpolygons hmembers
    have hin : ∀ key, key ∈ ofList featureIds compare → key ∈ featureIds := by
      intro key hkey
      simpa [ExtTreeSet.mem_ofList] using hkey
    have hthere : ∀ key ∈ ofList featureIds compare,
        l.features[key]?.isSome := by
      intro key hkey
      obtain ⟨f, hf, -⟩ := hmembers key (hin key hkey)
      rw [hf]
      rfl
    rw [names_merge hthere, Reports, hpolygons, nil_append]
    cases hentry : l.features[merged.id]? with
    | none => simp
    | some f =>
      have hmerged : merged.id ∈ featureIds := by
        refine hin _ (ExtTreeSet.contains_iff_mem.mp ?_)
        have hcontains : l.features.contains merged.id = true := by
          rw [← ExtTreeMap.isSome_getElem?_eq_contains, hentry]
          rfl
        rw [hcontains, Bool.not_true, Bool.or_false] at hnew
        exact hnew
      obtain ⟨g, hg, hrevision⟩ := hmembers _ hmerged
      rw [hentry, Option.some.injEq] at hg
      rw [← hg] at hrevision
      rw [ne_eq, ne_eq, Option.some.injEq, Option.some.injEq, rewritten_iff hrevision]
  | repair featureId expected previous hprev =>
    have hentry := (featureWithRevision_ok hprev).1
    rw [names_insert, hentry, ne_eq, Option.some.injEq, rewritten_iff (Nat.le_refl _), Reports]
    constructor
    · intro hne f hf hrevision hgeometry
      rw [hentry, Option.some.injEq] at hf
      rw [← hf] at hrevision hgeometry
      refine hne ?_
      rw [intoFeature, hgeometry, ← hrevision]
    · intro hreports hsame
      have hrevision := congrArg EditableFeature.revision hsame
      have hgeometry := congrArg EditableFeature.geometry hsame
      exact hreports previous hentry hrevision hgeometry.symm

theorem changed_features_iff (l l' : EditableLayer) (expected : Nat) (edit : FeatureEdit)
    (r : EditReceipt) (h : apply expected edit l = .ok r l') :
    NamesChanges l l' r.changedFeatures ↔ Reports l edit := by
  obtain ⟨-, ids, l₁, hedit, hl', hr⟩ := apply_ok.mp h
  rw [hr, hl', ← applyEdit_names hedit]
  rfl

def parcel (id : String) (west east : Nat) : FeatureDraft :=
  { id := id
    geometry := .polygon [[(.ofNat west, .ofNat 35), (.ofNat east, .ofNat 35),
      (.ofNat east, .ofNat 36), (.ofNat west, .ofNat 36), (.ofNat west, .ofNat 35)]]
    attributes := .ofList [("code", AttributeValue.text id)] }

def parcels : EditableLayer :=
  { layerId := Uuid.ofNat 1, crs := Crs.epsg 4326, coordinateUnit := .degrees,
    geometryKind := .polygon, schema := sampleSchema, revision := 1,
    features := .ofList [("a", intoFeature (parcel "a" 136 138) 1)] }

def halves (first : String) : List FeatureDraft := [parcel first 136 137, parcel "b" 137 138]

theorem apply_halves {first : String} (h : parcels.validateParts "a" ∅ (halves first) = .ok ids) :
    ∃ r l', apply 1 (.split "a" 1 (halves first)) parcels = .ok r l' := by
  have hsource : parcels.featureWithRevision "a" 1 =
      .ok (intoFeature (parcel "a" 136 138) 1) := by
    rfl
  have harea : requireAreaConservation (intoFeature (parcel "a" 136 138) 1).geometry.area
      (F64.sum ((halves first).map fun part => part.geometry.area)) = .ok () := by
    show requireAreaConservation (parcel "a" 136 138).geometry.area
      (F64.sum [(parcel "a" 136 137).geometry.area, (parcel "b" 137 138).geometry.area]) = _
    decide +kernel
  have hedit : applyEdit (.split "a" 1 (halves first)) parcels = .ok ids.toList
      ((halves first).foldl (fun l part => l.insertFeature part.id (intoFeature part 2))
        (parcels.removeFeature "a")) := by
    simp only [applyEdit, applySplit, bind_ok, get_ok, lift_ok, check_ok, modify_ok, pure_ok]
    exact ⟨_, _, ⟨rfl, rfl⟩, _, _, ⟨hsource, rfl⟩, (), _, ⟨rfl, rfl⟩, ids, _, ⟨h, rfl⟩, (), _,
      ⟨harea, rfl⟩, ⟨⟩, _, rfl, ⟨⟩, _, rfl, rfl, rfl⟩
  exact ⟨_, _, apply_ok.mpr ⟨rfl, ids.toList, _, hedit, rfl, rfl⟩⟩

/-- One half keeps the identity of the parcel. -/
theorem kept_parcel_named : ∃ r l', apply 1 (.split "a" 1 (halves "a")) parcels = .ok r l' ∧
    (NamesChanges parcels l' r.changedFeatures ↔ Reports parcels (.split "a" 1 (halves "a"))) := by
  have hparts : parcels.validateParts "a" ∅ (halves "a") = .ok (.ofList ["a", "b"]) := by
    decide +kernel
  obtain ⟨r, l', happly⟩ := apply_halves hparts
  exact ⟨r, l', happly, changed_features_iff parcels l' 1 _ r happly⟩

/-- Neither half keeps the identity of the parcel, and the receipt does not name it. -/
theorem divided_parcel_unnamed : ∃ r l', apply 1 (.split "a" 1 (halves "c")) parcels = .ok r l' ∧
      ¬ NamesChanges parcels l' r.changedFeatures := by
  have hparts : parcels.validateParts "a" ∅ (halves "c") = .ok (.ofList ["c", "b"]) := by
    decide +kernel
  obtain ⟨r, l', happly⟩ := apply_halves hparts
  refine ⟨r, l', happly, ?_⟩
  obtain ⟨-, ids, l₁, hedit, hl', hr⟩ := apply_ok.mp happly
  rw [hr, hl']
  show ¬ NamesChanges parcels l₁ ids
  rw [applyEdit_names hedit]
  show "a" ∉ (halves "c").map FeatureDraft.id
  decide

end GeneGIS.EditableLayer
