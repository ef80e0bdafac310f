/-
`apply` is atomic and each accepted edit is a `Rewrite`: every feature was there before or was
validated under its own identity.
-/
import GeneGIS.Data.Keyed
import GeneGIS.Core.Edit

namespace GeneGIS

def EditableFeature.draft (f : EditableFeature) : FeatureDraft :=
  { id := f.id, geometry := f.geometry, attributes := f.attributes }

namespace EditableLayer

open Fallible

theorem applySplit_atomic (featureId : String) (expected : Nat) (parts : List FeatureDraft) :
    Atomic (applySplit featureId expected parts) := by
  unfold applySplit
  refine observes_get.bind fun l => ?_
  refine (observes_lift _).bind fun source => ?_
  refine (observes_check _ _).bind fun _ => ?_
  refine (observes_lift _).bind fun ids => ?_
  refine (observes_lift _).bind fun _ => ?_
  exact ((total_modify _).bind fun _ => (total_modify _).bind fun _ => total_pure _).atomic

theorem applyMerge_atomic (featureIds : List String) (expected : List Nat)
    (merged : FeatureDraft) : Atomic (applyMerge featureIds expected merged) := by
  unfold applyMerge
  refine (observes_check _ _).bind fun _ => ?_
  refine (observes_check _ _).bind fun _ => ?_
  refine observes_get.bind fun l => ?_
  refine (observes_lift _).bind fun members => ?_
  refine (observes_lift _).bind fun _ => ?_
  refine (observes_lift _).bind fun _ => ?_
  refine (observes_check _ _).bind fun _ => ?_
  exact ((total_modify _).bind fun _ => (total_modify _).bind fun _ => total_pure _).atomic

theorem applyEdit_atomic (edit : FeatureEdit) : Atomic (applyEdit edit) := by
  have hwrite : ∀ (f : EditableLayer → EditableLayer) (ids : List String),
      Atomic (do modify f; return ids : Fallible EditError EditableLayer (List String)) :=
    fun f ids => ((total_modify f).bind fun _ => total_pure ids).atomic
  cases edit with
  | create feature =>
    refine observes_get.bind fun l => ?_
    refine (observes_lift _).bind fun _ => ?_
    exact (observes_check _ _).bind fun _ => hwrite _ _
  | update feature expected =>
    refine observes_get.bind fun l => ?_
    refine (observes_lift _).bind fun _ => ?_
    exact (observes_lift _).bind fun previous => hwrite _ _
  | delete featureId expected =>
    refine observes_get.bind fun l => ?_
    exact (observes_lift _).bind fun _ => hwrite _ _
  | split featureId expected parts => exact applySplit_atomic featureId expected parts
  | merge featureIds expected merged => exact applyMerge_atomic featureIds expected merged
  | repair featureId expected =>
    refine observes_get.bind fun l => ?_
    refine (observes_lift _).bind fun previous => ?_
    exact (observes_lift _).bind fun _ => hwrite _ _

theorem apply_atomic (expected : Nat) (edit : FeatureEdit) : Atomic (apply expected edit) := by
  refine observes_get.bind fun l => ?_
  refine (observes_check _ _).bind fun _ => ?_
  exact (applyEdit_atomic edit).bind fun _ => (total_modify _).bind fun _ => total_pure _

/-! ## What an edit may change -/

/-- The layers differ in their features at most. -/
def SameFrame (l l' : EditableLayer) : Prop := l' = { l with features := l'.features }

theorem SameFrame.trans {l l' l'' : EditableLayer} (h : SameFrame l l') (h' : SameFrame l' l'') :
    SameFrame l l'' := by
  rw [SameFrame] at h h' ⊢
  rw [h', h]

theorem SameFrame.insert (id : String) (f : EditableFeature) (l : EditableLayer) :
    SameFrame l (l.insertFeature id f) := rfl

theorem SameFrame.remove (id : String) (l : EditableLayer) : SameFrame l (l.removeFeature id) := rfl

theorem SameFrame.removeAll (ids : List String) (l : EditableLayer) :
    SameFrame l (ids.foldl (fun l id => l.removeFeature id) l) := by
  induction ids generalizing l with
  | nil => rfl
  | cons id rest ih => exact (SameFrame.remove id l).trans (ih (l.removeFeature id))

theorem SameFrame.insertAll (parts : List FeatureDraft) (revision : Nat) (l : EditableLayer) :
    SameFrame l
      (parts.foldl (fun l part => l.insertFeature part.id (intoFeature part revision)) l) := by
  induction parts generalizing l with
  | nil => rfl
  | cons part rest ih =>
    exact (SameFrame.insert part.id _ l).trans
      (ih (l.insertFeature part.id (intoFeature part revision)))

variable {l l' : EditableLayer} {edit : FeatureEdit}

/-- What an accepted edit does, and the checks it passed. -/
inductive Edited (l : EditableLayer) : FeatureEdit → List String → EditableLayer → Prop
  | create (feature : FeatureDraft) (valid : l.validateDraft feature = .ok ())
      (fresh : l.features.contains feature.id = false) :
      Edited l (.create feature) [feature.id] (l.insertFeature feature.id (intoFeature feature 1))
  | update (feature : FeatureDraft) (expected : Nat) (previous : EditableFeature)
      (valid : l.validateDraft feature = .ok ())
      (read : l.featureWithRevision feature.id expected = .ok previous) :
      Edited l (.update feature expected) [feature.id]
        (l.insertFeature feature.id (intoFeature feature (saturatingSucc previous.revision)))
  | delete (featureId : String) (expected : Nat) (previous : EditableFeature)
      (read : l.featureWithRevision featureId expected = .ok previous) :
      Edited l (.delete featureId expected) [featureId] (l.removeFeature featureId)
  | split (featureId : String) (expected : Nat) (parts : List FeatureDraft)
      (source : EditableFeature) (ids : Std.ExtTreeSet String)
      (read : l.featureWithRevision featureId expected = .ok source)
      (valid : l.validateParts featureId ∅ parts = .ok ids) :
      Edited l (.split featureId expected parts) ids.toList
        (parts.foldl (fun l part => l.insertFeature part.id
          (intoFeature part ((source.revision + 1) % 2 ^ 64))) (l.removeFeature featureId))
  | merge (featureIds : List String) (expected : List Nat) (merged : FeatureDraft)
      (members : Members)
      (lengths : 2 ≤ featureIds.length ∧ featureIds.length = expected.length)
      (read : l.collectMembers (featureIds.zip expected) ⟨[], .zero, 0⟩ = .ok members)
      (valid : l.validateDraft { merged with geometry := .multiPolygon members.polygons } = .ok ())
      (fresh : ((Std.ExtTreeSet.ofList featureIds).contains merged.id ||
        !l.features.contains merged.id) = true) :
      Edited l (.merge featureIds expected merged)
        ((Std.ExtTreeSet.ofList featureIds).insert merged.id).toList
        (((Std.ExtTreeSet.ofList featureIds).toList.foldl (fun l id => l.removeFeature id) l)
          |>.insertFeature merged.id (intoFeature
            { merged with geometry := .multiPolygon members.polygons }
            (saturatingSucc members.maxRevision)))
  | repair (featureId : String) (expected : Nat) (previous : EditableFeature)
      (read : l.featureWithRevision featureId expected = .ok previous)
      (valid : l.validateDraft ⟨previous.id, previous.geometry.repair, previous.attributes⟩ =
        .ok ()) :
      Edited l (.repair featureId expected) [featureId] (l.insertFeature featureId (intoFeature
        ⟨previous.id, previous.geometry.repair, previous.attributes⟩
        (saturatingSucc previous.revision)))

theorem applyEdit_ok {ids : List String} (h : applyEdit edit l = .ok ids l') :
    Edited l edit ids l' := by
  cases edit with
  | create feature =>
    simp only [applyEdit, bind_ok, get_ok, lift_ok, check_ok, modify_ok, pure_ok] at h
    obtain ⟨_, _, ⟨rfl, rfl⟩, _, _, ⟨hvalid, rfl⟩, _, _, ⟨hnew, rfl⟩, _, _, rfl, rfl, rfl⟩ := h
    exact .create feature hvalid (by simpa using hnew)
  | update feature expected =>
    simp only [applyEdit, bind_ok, get_ok, lift_ok, modify_ok, pure_ok] at h
    obtain ⟨_, _, ⟨rfl, rfl⟩, _, _, ⟨hvalid, rfl⟩, previous, _, ⟨hread, rfl⟩, _, _, rfl, rfl,
      rfl⟩ := h
    exact .update feature expected previous hvalid hread
  | delete featureId expected =>
    simp only [applyEdit, bind_ok, get_ok, lift_ok, modify_ok, pure_ok] at h
    obtain ⟨_, _, ⟨rfl, rfl⟩, previous, _, ⟨hread, rfl⟩, _, _, rfl, rfl, rfl⟩ := h
    exact .delete featureId expected previous hread
  | split featureId expected parts =>
    simp only [applyEdit, applySplit, bind_ok, get_ok, lift_ok, check_ok, modify_ok, pure_ok] at h
    obtain ⟨_, _, ⟨rfl, rfl⟩, source, _, ⟨hread, rfl⟩, _, _, ⟨-, rfl⟩, ids, _, ⟨hparts, rfl⟩, _, _,
      ⟨-, rfl⟩, _, _, rfl, _, _, rfl, rfl, rfl⟩ := h
    exact .split featureId expected parts source ids hread hparts
  | merge featureIds expected merged =>
    simp only [applyEdit, applyMerge, bind_ok, get_ok, lift_ok, check_ok, modify_ok, pure_ok] at h
    obtain ⟨_, _, ⟨hlength, rfl⟩, _, _, ⟨-, rfl⟩, _, _, ⟨rfl, rfl⟩, members, _, ⟨hread, rfl⟩, _, _,
      ⟨hvalid, rfl⟩, _, _, ⟨-, rfl⟩, _, _, ⟨hnew, rfl⟩, _, _, rfl, _, _, rfl, rfl, rfl⟩ := h
    rw [Bool.and_eq_true, decide_eq_true_eq, decide_eq_true_eq] at hlength
    exact .merge featureIds expected merged members hlength hread hvalid hnew
  | repair featureId expected =>
    simp only [applyEdit, bind_ok, get_ok, lift_ok, modify_ok, pure_ok] at h
    obtain ⟨_, _, ⟨rfl, rfl⟩, previous, _, ⟨hread, rfl⟩, _, _, ⟨hvalid, rfl⟩, _, _, rfl, rfl,
      rfl⟩ := h
    exact .repair featureId expected previous hread hvalid

theorem applyEdit_frame {ids : List String}
    (h : applyEdit edit l = .ok ids l') : SameFrame l l' := by
  cases applyEdit_ok h with
  | create => exact SameFrame.insert _ _ l
  | update => exact SameFrame.insert _ _ l
  | delete => exact SameFrame.remove _ l
  | split featureId _ parts =>
    exact (SameFrame.remove featureId l).trans (SameFrame.insertAll parts _ _)
  | merge => exact (SameFrame.removeAll _ l).trans (SameFrame.insert _ _ _)
  | repair => exact SameFrame.insert _ _ l

structure Rewrite (l l' : EditableLayer) : Prop where
  frame : l' = { l with features := l'.features }
  features : ∀ (id : String) (f : EditableFeature), l'.features[id]? = some f →
    l.features[id]? = some f ∨ (f.id = id ∧ l.validateDraft f.draft = .ok ())

namespace Rewrite

variable {l'' : EditableLayer}

theorem validateDraft_eq (h : Rewrite l l') : l'.validateDraft = l.validateDraft := by
  rw [h.frame]
  rfl

theorem trans (h : Rewrite l l') (h' : Rewrite l' l'') : Rewrite l l'' where
  frame := by
    rw [h'.frame, h.frame]
  features id f hf := by
    rcases h'.features id f hf with hf | ⟨hid, hvalid⟩
    · exact h.features id f hf
    · rw [h.validateDraft_eq] at hvalid
      exact .inr ⟨hid, hvalid⟩

theorem insert {id : String} {f : EditableFeature} (hid : f.id = id)
    (hvalid : l.validateDraft f.draft = .ok ()) : Rewrite l (l.insertFeature id f) where
  frame := rfl
  features key g hg := by
    rcases Keyed.insert_cases hg with hnew | hold
    · rw [hnew.1, hnew.2]
      exact .inr ⟨hid, hvalid⟩
    · exact .inl hold.2

theorem remove (id : String) : Rewrite l (l.removeFeature id) where
  frame := rfl
  features key g hg := by
    rw [removeFeature, Std.ExtTreeMap.getElem?_erase] at hg
    split at hg
    · cases hg
    · exact .inl hg

theorem refl (l : EditableLayer) : Rewrite l l := ⟨rfl, fun _ _ hf => .inl hf⟩

theorem removeAll (ids : List String) (l : EditableLayer) :
    Rewrite l (ids.foldl (fun l id => l.removeFeature id) l) := by
  induction ids generalizing l with
  | nil => exact refl l
  | cons id rest ih => exact (remove id).trans (ih _)

theorem insertAll {parts : List FeatureDraft} {revision : Nat} (l : EditableLayer)
    (hvalid : ∀ part ∈ parts, l.validateDraft part = .ok ()) :
    Rewrite l (parts.foldl (fun l part =>
      l.insertFeature part.id (intoFeature part revision)) l) := by
  induction parts generalizing l with
  | nil => exact refl l
  | cons part rest ih =>
    have hpart : Rewrite l (l.insertFeature part.id (intoFeature part revision)) :=
      insert rfl (hvalid part (by simp))
    refine hpart.trans (ih _ fun p hp => ?_)
    rw [hpart.validateDraft_eq]
    exact hvalid p (by simp [hp])

end Rewrite

theorem validateParts_valid {featureId : String} {parts : List FeatureDraft}
    {ids ids' : Std.ExtTreeSet String} (h : l.validateParts featureId ids parts = .ok ids') :
    ∀ part ∈ parts, l.validateDraft part = .ok () := by
  induction parts generalizing ids with
  | nil => simp
  | cons part rest ih =>
    rw [validateParts] at h
    cases hdraft : l.validateDraft part with
    | error e => simp [hdraft, bind, Except.bind] at h
    | ok u =>
      simp only [hdraft, bind, Except.bind] at h
      cases hnew : require (!ids.contains part.id &&
          (part.id = featureId || !l.features.contains part.id)) (.duplicateFeature part.id) with
      | error e => simp [hnew] at h
      | ok v =>
        rw [hnew] at h
        intro p hp
        rcases List.mem_cons.mp hp with rfl | hp
        · exact hdraft
        · exact ih h p hp

/-- Every key is the identity of its feature, and every feature passes the
validation of a draft. -/
structure WellFormed (l : EditableLayer) : Prop where
  key : ∀ (id : String) (f : EditableFeature), l.features[id]? = some f → f.id = id
  valid : ∀ (id : String) (f : EditableFeature), l.features[id]? = some f →
    l.validateDraft f.draft = .ok ()

theorem Rewrite.wellFormed (h : Rewrite l l') (hl : WellFormed l) :
    WellFormed l' where
  key id f hf := by
    rcases h.features id f hf with hf | ⟨hid, -⟩
    · exact hl.key id f hf
    · exact hid
  valid id f hf := by
    rw [h.validateDraft_eq]
    rcases h.features id f hf with hf | ⟨-, hvalid⟩
    · exact hl.valid id f hf
    · exact hvalid

variable {expected : Nat}

theorem featureWithRevision_ok {id : String}
    {f : EditableFeature} (h : l.featureWithRevision id expected = .ok f) :
    l.features[id]? = some f ∧ f.revision = expected := by
  rw [featureWithRevision] at h
  cases hf : l.features[id]? with
  | none => simp [hf] at h
  | some g =>
    simp only [hf] at h
    split at h
    · cases h
    · next hrev =>
      cases h
      exact ⟨rfl, not_not.mp hrev⟩

theorem applyEdit_rewrite {ids : List String}
    (hl : WellFormed l) (h : applyEdit edit l = .ok ids l') : Rewrite l l' := by
  cases applyEdit_ok h with
  | create _ hvalid => exact Rewrite.insert rfl hvalid
  | update _ _ _ hvalid => exact Rewrite.insert rfl hvalid
  | delete featureId => exact Rewrite.remove featureId
  | split featureId _ parts source ids _ hparts =>
    have hremove : Rewrite l (l.removeFeature featureId) := Rewrite.remove featureId
    refine hremove.trans (Rewrite.insertAll _ fun part hpart => ?_)
    rw [hremove.validateDraft_eq]
    exact validateParts_valid hparts part hpart
  | merge featureIds _ _ _ _ _ hvalid =>
    have hremove := Rewrite.removeAll (Std.ExtTreeSet.ofList featureIds).toList l
    refine hremove.trans (Rewrite.insert rfl ?_)
    rw [hremove.validateDraft_eq]
    exact hvalid
  | repair featureId _ previous hread hvalid =>
    -- The repaired feature is stored under the key it was read from.
    have hkey : previous.id = featureId := hl.key _ _ (featureWithRevision_ok hread).1
    exact Rewrite.insert hkey hvalid

variable {r : EditReceipt}

theorem apply_ok : apply expected edit l = .ok r l' ↔
      l.revision = expected ∧ ∃ ids l₁, applyEdit edit l = .ok ids l₁ ∧ l' = l₁.bumpRevision ∧
        r = { beforeRevision := l.revision, afterRevision := saturatingSucc l.revision,
              changedFeatures := ids } := by
  simp only [apply, bind_ok, get_ok, check_ok, modify_ok, pure_ok, decide_eq_true_eq]
  constructor
  · rintro ⟨_, _, ⟨rfl, rfl⟩, _, _, ⟨hrev, rfl⟩, ids, l₁, hedit, _, _, rfl, rfl, rfl⟩
    exact ⟨hrev, ids, l₁, hedit, rfl, rfl⟩
  · rintro ⟨hrev, ids, l₁, hedit, rfl, rfl⟩
    exact ⟨l, l, ⟨rfl, rfl⟩, (), l, ⟨hrev, rfl⟩, ids, l₁, hedit, ⟨⟩, _, rfl, rfl, rfl⟩

theorem apply_frame (h : apply expected edit l = .ok r l') :
    l'.layerId = l.layerId ∧ l'.schema = l.schema ∧ l'.revision = saturatingSucc l.revision := by
  obtain ⟨-, ids, l₁, hedit, rfl, -⟩ := apply_ok.mp h
  have hframe := applyEdit_frame hedit
  rw [SameFrame] at hframe
  rw [hframe]
  exact ⟨rfl, rfl, rfl⟩

theorem WellFormed.bumpRevision (h : WellFormed l) : WellFormed l.bumpRevision := ⟨h.key, h.valid⟩

theorem apply_wellFormed (hl : WellFormed l) (h : apply expected edit l = .ok r l') :
    WellFormed l' ∧ l'.revision = saturatingSucc l.revision := by
  obtain ⟨-, ids, l₁, hedit, rfl, -⟩ := apply_ok.mp h
  have hrewrite := applyEdit_rewrite hl hedit
  refine ⟨(hrewrite.wellFormed hl).bumpRevision, ?_⟩
  have hrev : l₁.revision = l.revision := by rw [hrewrite.frame]
  show saturatingSucc l₁.revision = _
  rw [hrev]

/-- An edit with the layer revision its client read. -/
structure Call where
  expectedRevision : Nat
  edit : FeatureEdit

/-- Make every call in turn, counting the accepted ones. -/
def run : List Call → EditableLayer × Nat → EditableLayer × Nat
  | [], s => s
  | c :: rest, (l, accepted) =>
    match apply c.expectedRevision c.edit l with
    | .ok _ l' => run rest (l', accepted + 1)
    | .error _ l' => run rest (l', accepted)

theorem run_invariant (calls : List Call) {accepted : Nat}
    (hl : WellFormed l) (hrev : l.revision = min accepted u64Max) :
    WellFormed (run calls (l, accepted)).1 ∧
      (run calls (l, accepted)).1.revision = min (run calls (l, accepted)).2 u64Max := by
  induction calls generalizing l accepted with
  | nil => exact ⟨hl, hrev⟩
  | cons c rest ih =>
    rw [run]
    cases h : apply c.expectedRevision c.edit l with
    | ok r l' =>
      obtain ⟨hl', hrev'⟩ := apply_wellFormed hl h
      refine ih hl' ?_
      rw [hrev', hrev, saturatingSucc]
      omega
    | error e l' =>
      obtain rfl := apply_atomic _ _ _ _ _ h
      exact ih hl hrev

theorem new_ok {layerId : Uuid} {crs : Crs} {kind : EditableGeometryKind} {schema : FeatureSchema}
    (h : new layerId crs kind schema = .ok l) :
    l.layerId = layerId ∧ l.schema = schema ∧ l.revision = 0 ∧ l.features = ∅ := by
  rw [new] at h
  cases hcrs : crs.requireKnown with
  | error e => simp [hcrs, throw, throwThe, MonadExceptOf.throw] at h
  | ok d =>
    simp only [hcrs] at h
    cases hschema : validateSchema schema with
    | error e => simp [hschema, bind, Except.bind] at h
    | ok u =>
      simp only [hschema, bind, Except.bind, pure, Except.pure, Except.ok.injEq] at h
      subst h
      exact ⟨rfl, rfl, rfl, rfl⟩

theorem new_wellFormed {layerId : Uuid} {crs : Crs} {kind : EditableGeometryKind}
    {schema : FeatureSchema} (h : new layerId crs kind schema = .ok l) :
    WellFormed l := by
  obtain ⟨-, -, -, hempty⟩ := new_ok h
  have hnone : ∀ (id : String) (f : EditableFeature), l.features[id]? ≠ some f := by
    intro id f hf
    rw [hempty] at hf
    simp at hf
  exact ⟨fun id f hf => absurd hf (hnone id f), fun id f hf => absurd hf (hnone id f)⟩

/-- Over any run on a new layer the keys are the identities, every feature is valid, the revision
counts the accepted edits as far as it goes, and a rejected edit changes nothing. -/
theorem run_new {layerId : Uuid} {crs : Crs} {kind : EditableGeometryKind}
    {schema : FeatureSchema} {l₀ : EditableLayer} (h : new layerId crs kind schema = .ok l₀)
    (calls : List Call) :
    let l := (run calls (l₀, 0)).1
    (∀ (id : String) (f : EditableFeature), l.features[id]? = some f → f.id = id) ∧
      (∀ (id : String) (f : EditableFeature), l.features[id]? = some f →
        l.validateDraft f.draft = .ok ()) ∧
      l.revision = min (run calls (l₀, 0)).2 u64Max ∧
      ∀ expected edit e l', apply expected edit l = .error e l' → l' = l := by
  have hzero : l₀.revision = min 0 u64Max := by
    rw [(new_ok h).2.2.1]
    rfl
  obtain ⟨hl, hrev⟩ := run_invariant calls (new_wellFormed h) hzero
  exact ⟨hl.key, hl.valid, hrev, fun expected edit => apply_atomic expected edit _⟩

/-- The calls that are accepted when they are made in turn. -/
def accepted : List Call → EditableLayer → List Call
  | [], _ => []
  | c :: rest, l =>
    match apply c.expectedRevision c.edit l with
    | .ok _ l' => c :: accepted rest l'
    | .error _ l' => accepted rest l'

theorem accepted_revisions (calls : List Call) {n : Nat} (hrev : l.revision = min n u64Max) :
    (accepted calls l).map Call.expectedRevision =
        (List.range' n (accepted calls l).length).map (fun i => min i u64Max) ∧
      run (accepted calls l) (l, n) = run calls (l, n) := by
  induction calls generalizing l n with
  | nil => exact ⟨rfl, rfl⟩
  | cons c rest ih =>
    rw [accepted, run]
    cases h : apply c.expectedRevision c.edit l with
    | ok r l' =>
      obtain ⟨hexpected, -⟩ := apply_ok.mp h
      have hrev' : l'.revision = min (n + 1) u64Max := by
        rw [(apply_frame h).2.2, hrev, saturatingSucc]
        omega
      obtain ⟨hmap, hrun⟩ := ih hrev'
      simp only [List.map_cons, List.length_cons, List.range'_succ]
      rw [hmap, ← hexpected, hrev, run, h]
      exact ⟨rfl, hrun⟩
    | error e l' =>
      obtain rfl := apply_atomic _ _ _ _ _ h
      exact ih hrev

/-- Whatever calls its clients make, in any order, the accepted ones alone make the same layer, and
each has read the revision that the one before it made. -/
theorem run_accepted {layerId : Uuid} {crs : Crs} {kind : EditableGeometryKind}
    {schema : FeatureSchema} {l₀ : EditableLayer} (h : new layerId crs kind schema = .ok l₀)
    (calls : List Call) : (accepted calls l₀).map Call.expectedRevision =
        (List.range (accepted calls l₀).length).map (fun i => min i u64Max) ∧
      run (accepted calls l₀) (l₀, 0) = run calls (l₀, 0) := by
  have hzero : l₀.revision = min 0 u64Max := by
    rw [(new_ok h).2.2.1]
    rfl
  rw [List.range_eq_range']
  exact accepted_revisions calls hzero

/-! ## A layer of one point -/

def sampleSchema : FeatureSchema :=
  { primaryKey := "code", fields := [{ name := "code", valueType := .text, nullable := false }] }

def sampleLayer : EditableLayer :=
  { layerId := Uuid.ofNat 1, crs := Crs.epsg 4326, coordinateUnit := .degrees,
    geometryKind := .point, schema := sampleSchema, revision := 0, features := ∅ }

def sampleDraft : FeatureDraft :=
  { id := "a", geometry := .point (.ofNat 136, .ofNat 35),
    attributes := .ofList [("code", AttributeValue.text "a")] }

theorem new_sampleLayer :
    new (Uuid.ofNat 1) (Crs.epsg 4326) .point sampleSchema = .ok sampleLayer := by
  rfl

theorem sampleDraft_valid : sampleLayer.validateDraft sampleDraft = .ok () := by
  decide +kernel

theorem run_new_sampleLayer :
    let l := (run [⟨0, .create sampleDraft⟩, ⟨0, .delete "a" 1⟩] (sampleLayer, 0)).1
    (∀ (id : String) (f : EditableFeature), l.features[id]? = some f → f.id = id) ∧
      (∀ (id : String) (f : EditableFeature), l.features[id]? = some f →
        l.validateDraft f.draft = .ok ()) ∧
      l.revision =
        min (run [⟨0, .create sampleDraft⟩, ⟨0, .delete "a" 1⟩] (sampleLayer, 0)).2 u64Max ∧
      ∀ expected edit e l', apply expected edit l = .error e l' → l' = l :=
  run_new new_sampleLayer [⟨0, .create sampleDraft⟩, ⟨0, .delete "a" 1⟩]

theorem run_accepted_sampleLayer :
    let calls : List Call := [⟨0, .create sampleDraft⟩, ⟨0, .delete "a" 1⟩]
    (accepted calls sampleLayer).map Call.expectedRevision =
        (List.range (accepted calls sampleLayer).length).map (fun i => min i u64Max) ∧
      run (accepted calls sampleLayer) (sampleLayer, 0) = run calls (sampleLayer, 0) :=
  run_accepted new_sampleLayer _

/-- The point has been written `n` times. -/
structure Written (l : EditableLayer) (n : Nat) : Prop where
  wellFormed : WellFormed l
  valid : l.validateDraft sampleDraft = .ok ()
  revision : l.revision = min n u64Max
  feature : ∃ f, l.features["a"]? = some f ∧ f.revision = min n u64Max

theorem Written.succ {n : Nat} (hl : WellFormed l) (hvalid : l.validateDraft sampleDraft = .ok ())
    (hrev : l.revision = min n u64Max)
    (hedit : applyEdit edit l =
      .ok ["a"] (l.insertFeature "a" (intoFeature sampleDraft (min (n + 1) u64Max)))) :
    ∃ r l', apply (min n u64Max) edit l = .ok r l' ∧ Written l' (n + 1) := by
  have happly := apply_ok.mpr ⟨hrev, ["a"], _, hedit, rfl, rfl⟩
  obtain ⟨hl', hrev'⟩ := apply_wellFormed hl happly
  refine ⟨_, _, happly, hl', hvalid, ?_, intoFeature sampleDraft (min (n + 1) u64Max), ?_, rfl⟩
  · rw [hrev', hrev, saturatingSucc]
    omega
  · simp [bumpRevision, insertFeature]

theorem written_create :
    ∃ r l, apply 0 (.create sampleDraft) sampleLayer = .ok r l ∧ Written l 1 := by
  refine Written.succ (n := 0) (new_wellFormed new_sampleLayer) sampleDraft_valid rfl ?_
  simp only [applyEdit, bind_ok, get_ok, lift_ok, check_ok, modify_ok, pure_ok]
  exact ⟨_, _, ⟨rfl, rfl⟩, (), _, ⟨sampleDraft_valid, rfl⟩, (), _, ⟨rfl, rfl⟩, ⟨⟩, _, rfl, rfl,
    rfl⟩

theorem written_update {n : Nat} (h : Written l n) :
    ∃ r l', apply (min n u64Max) (.update sampleDraft (min n u64Max)) l = .ok r l' ∧
      Written l' (n + 1) := by
  obtain ⟨f, hf, hfrev⟩ := h.feature
  have hsucc : saturatingSucc (min n u64Max) = min (n + 1) u64Max := by
    rw [saturatingSucc]
    omega
  have hread : l.featureWithRevision "a" (min n u64Max) = .ok f := by
    simp [featureWithRevision, hf, hfrev]
  refine Written.succ h.wellFormed h.valid h.revision ?_
  simp only [applyEdit, bind_ok, get_ok, lift_ok, modify_ok, pure_ok]
  refine ⟨l, l, ⟨rfl, rfl⟩, (), l, ⟨h.valid, rfl⟩, f, l, ⟨hread, rfl⟩, ⟨⟩, _, rfl, rfl, ?_⟩
  rw [hfrev, hsucc]
  rfl

/-- `count` updates of the point, which has been written `n` times. -/
def updates : Nat → Nat → List Call
  | _, 0 => []
  | n, count + 1 =>
    ⟨min n u64Max, .update sampleDraft (min n u64Max)⟩ :: updates (n + 1) count

theorem run_updates (count : Nat) {n : Nat} (h : Written l n) :
    (run (updates n count) (l, n)).2 = n + count := by
  induction count generalizing l n with
  | zero => rfl
  | succ count ih =>
    obtain ⟨r, l', happly, h'⟩ := written_update h
    rw [updates, run]
    simp only [happly]
    rw [ih h']
    omega

/-- Create the point and update it `count` times. -/
def script (count : Nat) : List Call := ⟨0, .create sampleDraft⟩ :: updates 1 count

theorem run_script (count : Nat) : (run (script count) (sampleLayer, 0)).2 = count + 1 := by
  obtain ⟨r, l, hcreate, h⟩ := written_create
  rw [script, run]
  simp only [hcreate]
  rw [run_updates count h]
  omega

/-- After `2 ^ 64` accepted edits the revision is one behind. -/
theorem run_revision_saturates :
    new (Uuid.ofNat 1) (Crs.epsg 4326) .point sampleSchema = .ok sampleLayer ∧
      (run (script u64Max) (sampleLayer, 0)).1.revision ≠
        (run (script u64Max) (sampleLayer, 0)).2 := by
  refine ⟨new_sampleLayer, ?_⟩
  have hzero : sampleLayer.revision = min 0 u64Max := rfl
  have hinv := run_invariant (script u64Max) (new_wellFormed new_sampleLayer) hzero
  rw [hinv.2, run_script]
  omega

end EditableLayer
end GeneGIS
