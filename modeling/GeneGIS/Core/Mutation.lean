/-
`Mutates` says for each command when it is accepted and which project results; later files argue
from it.  A command does the same to projects that differ in their update time only.
-/
import GeneGIS.Core.EditInvariant
import GeneGIS.Core.Bus

namespace GeneGIS.Project

open Fallible List

variable {α : Type}

theorem onLayer_atomic (layerId : Uuid) {m : Fallible CommandError Layer α}
    (hm : Atomic m) : Atomic (onLayer layerId m) :=
  hm.onFirst.zoom fun _ => rfl

theorem onView_atomic (viewId : Uuid) {m : Fallible CommandError View α}
    (hm : Atomic m) : Atomic (onView viewId m) :=
  hm.onFirst.zoom fun _ => rfl

theorem onEditableLayer_atomic (layerId : Uuid)
    {m : Fallible CommandError EditableLayer α} (hm : Atomic m) :
    Atomic (onEditableLayer layerId m) :=
  hm.onFirst.zoom fun _ => rfl

theorem initializeEditableLayer_atomic (envelope : CommandEnvelope) (layerId : Uuid) (crs : Crs)
    (kind : EditableGeometryKind) (schema : FeatureSchema) (workflow : MutationWorkflowBinding) :
    Atomic (initializeEditableLayer envelope layerId crs kind schema workflow) := by
  refine observes_get.bind fun p => ?_
  cases p.workspace.layers.find? fun layer => layer.id = layerId with
  | none => exact atomic_throw _
  | some layer =>
    refine (observes_check _ _).bind fun _ => ?_
    refine (observes_check _ _).bind fun _ => ?_
    refine (observes_lift _).bind fun editable => ?_
    exact ((total_modify _).bind fun _ => (total_modify _).bind fun _ => total_modify _).atomic

theorem applyMutation_atomic (rt : Runtime) (now : DateTime) (envelope : CommandEnvelope)
    (run : Option (WorkflowDigest × WorkflowExecution)) :
    Atomic (applyMutation rt now envelope run) := by
  unfold applyMutation
  split
  next name sourceId _ =>
    refine observes_get.bind fun p => (observes_check _ _).bind fun _ => ?_
    exact ((total_modify _).bind fun _ => total_modify _).atomic
  next layerId _ =>
    refine observes_get.bind fun p => ?_
    cases p.workspace.layers.findIdx? fun layer => layer.id = layerId with
    | none => exact atomic_throw _
    | some index =>
      exact ((total_modify _).bind fun _ => (total_modify _).bind fun _ => total_modify _).atomic
  next layerId visible _ =>
    refine (onLayer_atomic layerId (total_modify _).atomic).bind fun _ => ?_
    exact (total_modify _).bind fun _ => total_modify _
  next viewId center zoom _ =>
    refine (onView_atomic viewId (total_modify _).atomic).bind fun _ => ?_
    exact (total_modify _).bind fun _ => total_modify _
  next layerId crs kind schema workflow _ =>
    exact initializeEditableLayer_atomic envelope layerId crs kind schema workflow
  next layerId expected edit workflow _ =>
    refine (onEditableLayer_atomic layerId (EditableLayer.apply_atomic _ _).mapError).bind
      fun receipt => ?_
    refine (total_modify _).bind fun _ => ?_
    exact Total.bind (fun s e s' h => by cases h) fun _ => total_modify _
  next style workflow _ =>
    refine (observes_lift _).bind fun _ => ?_
    refine (onLayer_atomic style.layerId (total_modify _).atomic).bind fun _ => ?_
    exact (total_modify _).bind fun _ => (total_modify _).bind fun _ => total_modify _
  next workflowId _ =>
    cases run with
    | none => exact atomic_throw _
    | some r => exact (total_modify _).atomic
  next => exact atomic_throw _

/-! ## Accepted commands -/

def setLayers (layers : List Layer) (p : Project) : Project :=
  p.modifyWorkspace fun w => { w with layers := layers }

def setViews (views : List View) (p : Project) : Project :=
  p.modifyWorkspace fun w => { w with views := views }

def setEditableLayers (layers : List EditableLayer) (p : Project) : Project :=
  p.modifyWorkspace fun w => { w with editableLayers := layers }

def setMapStyles (styles : List EvidenceMapStyle) (p : Project) : Project :=
  p.modifyWorkspace fun w => { w with mapStyles := styles }

/-- `x` is the first element of `l` that satisfies `P`. -/
structure FirstAt {α : Type} (P : α → Prop) (l before : List α) (x : α) (after : List α) :
    Prop where
  split : l = before ++ x :: after
  earlier : ∀ y ∈ before, ¬ P y
  here : P x

/-- The details an edit records, read from the project after the edit. -/
def editDetails (envelope : CommandEnvelope) (layerId : Uuid) (receipt : EditReceipt)
    (workflow : MutationWorkflowBinding) (p : Project) : Value :=
  let editable := p.workspace.editableLayers.find? fun editable => editable.layerId = layerId
  .object ([("receipt", receipt.toJson),
    ("crs", .ofOption (fun editable => editable.crs.toJson) editable),
    ("coordinate_unit", .ofOption (fun editable => editable.coordinateUnit.toJson) editable)] ++
    bindingDetails envelope workflow)

def Mutates (rt : Runtime) (now : DateTime) (envelope : CommandEnvelope)
    (run : Option (WorkflowDigest × WorkflowExecution)) (p p' : Project) : Prop :=
  match envelope.command with
  | .addLayer name sourceId =>
    (∀ layer ∈ p.workspace.layers, layer.id ≠ envelope.id) ∧
      recordCommandProvenance envelope "add_layer" envelope.id.toText
        (.object [("name", .str name), ("source_id", .str sourceId.toText)])
        (touch now (p.setLayers (p.workspace.layers ++ [layerOf envelope name sourceId]))) = p'
  | .removeLayer layerId =>
    ∃ before layer after, FirstAt (fun l => l.id = layerId) p.workspace.layers before layer after ∧
      recordCommandProvenance envelope "remove_layer" layerId.toText (.object [])
        (touch envelope.timestamp (p.setLayers (before ++ after))) = p'
  | .setLayerVisibility layerId visible =>
    ∃ before layer after, FirstAt (fun l => l.id = layerId) p.workspace.layers before layer after ∧
      recordCommandProvenance envelope "set_layer_visibility" layerId.toText
        (.object [("visible", .bool visible)])
        (touch envelope.timestamp
          (p.setLayers (before ++ { layer with visible := visible } :: after))) = p'
  | .setViewCamera viewId center zoom =>
    ∃ before view after, FirstAt (fun v => v.id = viewId) p.workspace.views before view after ∧
      recordCommandProvenance envelope "set_view_camera" viewId.toText
        (.object [("center", Point.toJson center), ("zoom", .ofF64 zoom)])
        (touch envelope.timestamp
          (p.setViews (before ++ { view with center := some center, zoom := some zoom } :: after)))
        = p'
  | .initializeEditableLayer layerId crs geometryKind schema workflow =>
    ∃ layer editable, p.workspace.layers.find? (fun l => l.id = layerId) = some layer ∧
      layer.kind = .vector ∧ (∀ e ∈ p.workspace.editableLayers, e.layerId ≠ layerId) ∧
      EditableLayer.new layerId crs geometryKind schema = .ok editable ∧
      recordCommandProvenance envelope "initialize_editable_layer" layerId.toText
        (.object ([("crs", crs.toJson), ("coordinate_unit", editable.coordinateUnit.toJson),
          ("geometry_kind", .str geometryKind.asStr), ("schema", schema.toJson)] ++
          bindingDetails envelope workflow))
        (touch envelope.timestamp
          (p.setEditableLayers (p.workspace.editableLayers ++ [editable]))) = p'
  | .editFeatures layerId expected edit workflow =>
    ∃ before editable edited after receipt,
      FirstAt (fun e => e.layerId = layerId) p.workspace.editableLayers before editable after ∧
      EditableLayer.apply expected edit editable = .ok receipt edited ∧
      recordCommandProvenance envelope edit.workflowOperation layerId.toText
        (editDetails envelope layerId receipt workflow
          (touch envelope.timestamp (p.setEditableLayers (before ++ edited :: after))))
        (touch envelope.timestamp (p.setEditableLayers (before ++ edited :: after))) = p'
  | .setEvidenceMapStyle style workflow =>
    style.validate = .ok () ∧
    ∃ before layer after,
      FirstAt (fun l => l.id = style.layerId) p.workspace.layers before layer after ∧
      recordCommandProvenance envelope "set_evidence_map_style" style.layerId.toText
        (.object (("style", style.toJson) :: bindingDetails envelope workflow))
        (touch envelope.timestamp
          ((p.setLayers (before ++ { layer with styleId := some style.id } :: after)).setMapStyles
            (putStyle style p.workspace.mapStyles))) = p'
  | .runWorkflow workflowId =>
    ∃ digest execution, run = some (digest, execution) ∧
      Project.runWorkflow rt envelope workflowId digest execution p = .ok () p'
  | _ => False

theorem onFirst_ok_iff {α β ε : Type} {P : α → Prop} [DecidablePred P] {missing : ε}
    {m : Fallible ε α β} {b : β} {l l' : List α} :
    onFirst (fun x => decide (P x)) missing m l = .ok b l' ↔
      ∃ before x x' after, FirstAt P l before x after ∧ m x = .ok b x' ∧
        before ++ x' :: after = l' := by
  rw [onFirst_ok]
  constructor
  · rintro ⟨before, x, x', after, hsplit, hearlier, hhere, hm, rfl⟩
    exact ⟨before, x, x', after, ⟨hsplit, fun y hy => by simpa using hearlier y hy,
      by simpa using hhere⟩, hm, rfl⟩
  · rintro ⟨before, x, x', after, ⟨hsplit, hearlier, hhere⟩, hm, rfl⟩
    exact ⟨before, x, x', after, hsplit, fun y hy => by simpa using hearlier y hy,
      by simpa using hhere, hm, rfl⟩

variable {p p' : Project} {layerId : Uuid}

theorem zoomFirst_ok {α β ε : Type} {view : Project → List α} {put : Project → List α → Project}
    {P : α → Prop} [DecidablePred P] {missing : ε} {m : Fallible ε α β} {b : β} :
    Fallible.zoom view put (onFirst (fun x => decide (P x)) missing m) p = .ok b p' ↔
      ∃ before x x' after, FirstAt P (view p) before x after ∧ m x = .ok b x' ∧
        put p (before ++ x' :: after) = p' := by
  simp only [zoom_ok, onFirst_ok_iff]
  constructor
  · rintro ⟨t, ⟨before, x, x', after, hfirst, hm, rfl⟩, rfl⟩
    exact ⟨before, x, x', after, hfirst, hm, rfl⟩
  · rintro ⟨before, x, x', after, hfirst, hm, rfl⟩
    exact ⟨_, ⟨before, x, x', after, hfirst, hm, rfl⟩, rfl⟩

theorem onLayer_ok {f : Layer → Layer} {u : PUnit} : onLayer layerId (modify f) p = .ok u p' ↔
      ∃ before layer after,
        FirstAt (fun l => l.id = layerId) p.workspace.layers before layer after ∧
        p.setLayers (before ++ f layer :: after) = p' := by
  simp [onLayer, zoomFirst_ok, setLayers]

theorem onView_ok {viewId : Uuid} {f : View → View} {u : PUnit} :
    onView viewId (modify f) p = .ok u p' ↔
      ∃ before view after, FirstAt (fun v => v.id = viewId) p.workspace.views before view after ∧
        p.setViews (before ++ f view :: after) = p' := by
  simp [onView, zoomFirst_ok, setViews]

theorem onEditableLayer_ok {expected : Nat} {edit : FeatureEdit} {receipt : EditReceipt} :
    onEditableLayer layerId (mapError .featureEditRejected (EditableLayer.apply expected edit)) p =
        .ok receipt p' ↔
      ∃ before editable edited after,
        FirstAt (fun e => e.layerId = layerId) p.workspace.editableLayers before editable after ∧
        EditableLayer.apply expected edit editable = .ok receipt edited ∧
        p.setEditableLayers (before ++ edited :: after) = p' := by
  simp [onEditableLayer, zoomFirst_ok, setEditableLayers]

theorem findIdx?_firstAt {P : α → Prop} [DecidablePred P] {l : List α} {index : Nat} :
    l.findIdx? (fun x => decide (P x)) = some index ↔
      ∃ before x after, FirstAt P l before x after ∧ before.length = index := by
  induction l generalizing index with
  | nil =>
    constructor
    · intro h
      simp at h
    · rintro ⟨before, x, after, hfirst, -⟩
      simpa using hfirst.split
  | cons y rest ih =>
    by_cases hy : P y
    · simp only [findIdx?_cons, hy, decide_true, if_true, Option.some.injEq]
      constructor
      · rintro rfl
        exact ⟨[], y, rest, ⟨rfl, by simp, hy⟩, rfl⟩
      · rintro ⟨before, x, after, hfirst, rfl⟩
        cases before with
        | nil => rfl
        | cons z before =>
          obtain ⟨rfl, -⟩ := cons.inj hfirst.split
          exact absurd hy (hfirst.earlier y (by simp))
    · simp only [findIdx?_cons, hy, decide_false, Bool.false_eq_true, if_false,
        Option.map_eq_some_iff, ih]
      constructor
      · rintro ⟨_, ⟨before, x, after, hfirst, rfl⟩, rfl⟩
        refine ⟨y :: before, x, after, ⟨by rw [hfirst.split]; rfl, ?_, hfirst.here⟩, rfl⟩
        simpa using ⟨hy, hfirst.earlier⟩
      · rintro ⟨before, x, after, hfirst, rfl⟩
        cases before with
        | nil =>
          obtain ⟨rfl, -⟩ := cons.inj hfirst.split
          exact absurd hfirst.here hy
        | cons z before =>
          obtain ⟨-, hrest⟩ := cons.inj hfirst.split
          exact ⟨_, ⟨before, x, after, ⟨hrest, fun w hw => hfirst.earlier w (by simp [hw]),
            hfirst.here⟩, rfl⟩, rfl⟩

theorem FirstAt.eraseIdx {P : α → Prop} {l before after : List α} {x : α}
    (h : FirstAt P l before x after) : l.eraseIdx before.length = before ++ after := by
  rw [h.split, eraseIdx_append_of_length_le (Nat.le_refl _), Nat.sub_self]
  rfl

variable {envelope : CommandEnvelope} {rt : Runtime} {now : DateTime}
  {run : Option (WorkflowDigest × WorkflowExecution)} {u : Unit}

theorem removeLayer_ok (h : envelope.command = .removeLayer layerId) :
    removeLayer envelope layerId p = .ok u p' ↔ Mutates rt now envelope run p p' := by
  simp only [removeLayer, Mutates, h, bind_ok, get_ok]
  constructor
  · rintro ⟨_, _, ⟨rfl, rfl⟩, h⟩
    cases hfind : p.workspace.layers.findIdx? fun layer => decide (layer.id = layerId) with
    | none => simp [hfind] at h
    | some index =>
      obtain ⟨before, layer, after, hfirst, rfl⟩ := findIdx?_firstAt.mp hfind
      simp only [hfind, bind_ok, modify_ok] at h
      obtain ⟨_, _, rfl, _, _, rfl, rfl⟩ := h
      refine ⟨before, layer, after, hfirst, ?_⟩
      rw [← hfirst.eraseIdx]
      rfl
  · rintro ⟨before, layer, after, hfirst, rfl⟩
    refine ⟨p, p, ⟨rfl, rfl⟩, ?_⟩
    rw [findIdx?_firstAt.mpr ⟨before, layer, after, hfirst, rfl⟩]
    simp only [bind_ok, modify_ok]
    refine ⟨⟨⟩, _, rfl, ⟨⟩, _, rfl, ?_⟩
    rw [← hfirst.eraseIdx]
    rfl

theorem initializeEditableLayer_ok {crs : Crs}
    {kind : EditableGeometryKind} {schema : FeatureSchema} {workflow : MutationWorkflowBinding}
    (h : envelope.command = .initializeEditableLayer layerId crs kind schema workflow) :
    initializeEditableLayer envelope layerId crs kind schema workflow p = .ok u p' ↔
      Mutates rt now envelope run p p' := by
  have hfresh : (!p.workspace.editableLayers.any fun e => decide (e.layerId = layerId)) = true ↔
      ∀ e ∈ p.workspace.editableLayers, e.layerId ≠ layerId := by
    simp
  simp only [initializeEditableLayer, Mutates, h, bind_ok, get_ok]
  constructor
  · rintro ⟨_, _, ⟨rfl, rfl⟩, h⟩
    cases hfind : p.workspace.layers.find? fun l => decide (l.id = layerId) with
    | none => simp [hfind] at h
    | some layer =>
      simp only [hfind, bind_ok, check_ok, lift_ok, modify_ok, decide_eq_true_eq, mapError_iff, hfresh] at h
      obtain ⟨_, _, ⟨hkind, rfl⟩, _, _, ⟨hids, rfl⟩, editable, _, ⟨hok, rfl⟩, _, _, rfl, _, _, rfl,
        rfl⟩ := h
      exact ⟨layer, editable, rfl, hkind, hids, hok, rfl⟩
  · rintro ⟨layer, editable, hfind, hkind, hids, hok, rfl⟩
    refine ⟨p, p, ⟨rfl, rfl⟩, ?_⟩
    rw [hfind]
    simp only [bind_ok, check_ok, lift_ok, modify_ok, decide_eq_true_eq, mapError_iff, hfresh]
    exact ⟨(), p, ⟨hkind, rfl⟩, (), p, ⟨hids, rfl⟩, editable, p, ⟨hok, rfl⟩, ⟨⟩, _, rfl, ⟨⟩, _, rfl,
      rfl⟩

theorem applyMutation_ok :
    applyMutation rt now envelope run p = .ok u p' ↔ Mutates rt now envelope run p p' := by
  unfold applyMutation
  cases hcommand : envelope.command with
  | addLayer name sourceId =>
    simp only [Mutates, hcommand, addLayer, bind_ok, get_ok, check_ok, modify_ok]
    constructor
    · rintro ⟨_, _, ⟨rfl, rfl⟩, _, _, ⟨hids, rfl⟩, _, _, rfl, rfl⟩
      exact ⟨by simpa using hids, rfl⟩
    · rintro ⟨hids, rfl⟩
      exact ⟨p, p, ⟨rfl, rfl⟩, (), p, ⟨by simpa using hids, rfl⟩, ⟨⟩, _, rfl, rfl⟩
  | removeLayer layerId => exact removeLayer_ok hcommand
  | setLayerVisibility layerId visible =>
    simp only [Mutates, hcommand, setLayerVisibility, bind_ok, onLayer_ok, modify_ok]
    constructor
    · rintro ⟨_, _, ⟨before, layer, after, hfirst, rfl⟩, _, _, rfl, rfl⟩
      exact ⟨before, layer, after, hfirst, rfl⟩
    · rintro ⟨before, layer, after, hfirst, rfl⟩
      exact ⟨⟨⟩, _, ⟨before, layer, after, hfirst, rfl⟩, ⟨⟩, _, rfl, rfl⟩
  | setViewCamera viewId center zoom =>
    simp only [Mutates, hcommand, setViewCamera, bind_ok, onView_ok, modify_ok]
    constructor
    · rintro ⟨_, _, ⟨before, view, after, hfirst, rfl⟩, _, _, rfl, rfl⟩
      exact ⟨before, view, after, hfirst, rfl⟩
    · rintro ⟨before, view, after, hfirst, rfl⟩
      exact ⟨⟨⟩, _, ⟨before, view, after, hfirst, rfl⟩, ⟨⟩, _, rfl, rfl⟩
  | initializeEditableLayer layerId crs kind schema workflow => exact initializeEditableLayer_ok hcommand
  | editFeatures layerId expected edit workflow =>
    simp only [Mutates, hcommand, editFeatures, bind_ok, onEditableLayer_ok, modify_ok, get_ok]
    constructor
    · rintro ⟨receipt, _, ⟨before, editable, edited, after, hfirst, happly, rfl⟩, _, _, rfl, _, _,
        ⟨rfl, rfl⟩, rfl⟩
      exact ⟨before, editable, edited, after, receipt, hfirst, happly, rfl⟩
    · rintro ⟨before, editable, edited, after, receipt, hfirst, happly, rfl⟩
      exact ⟨receipt, _, ⟨before, editable, edited, after, hfirst, happly, rfl⟩, ⟨⟩, _, rfl, _, _,
        ⟨rfl, rfl⟩, rfl⟩
  | setEvidenceMapStyle style workflow =>
    simp only [Mutates, hcommand, setEvidenceMapStyle, bind_ok, lift_ok, mapError_iff, onLayer_ok,
      modify_ok]
    constructor
    · rintro ⟨_, _, ⟨hstyle, rfl⟩, _, _, ⟨before, layer, after, hfirst, rfl⟩, _, _, rfl, _, _, rfl,
        rfl⟩
      exact ⟨hstyle, before, layer, after, hfirst, rfl⟩
    · rintro ⟨hstyle, before, layer, after, hfirst, rfl⟩
      exact ⟨(), p, ⟨hstyle, rfl⟩, ⟨⟩, _, ⟨before, layer, after, hfirst, rfl⟩, ⟨⟩, _, rfl,
        ⟨⟩, _, rfl, rfl⟩
  | runWorkflow workflowId =>
    cases run with
    | none => simp [Mutates, hcommand]
    | some r =>
      obtain ⟨digest, execution⟩ := r
      simp [Mutates, hcommand]
  | _ => simp [Mutates, hcommand]

def Similar (p q : Project) : Prop := ∃ t, q = p.touch t

theorem Similar.refl (p : Project) : Similar p p := ⟨p.workspace.updatedAt, rfl⟩

theorem canonicalStateJson_touch (rt : Runtime) (p : Project) (t : DateTime) :
    (p.touch t).canonicalStateJson rt = p.canonicalStateJson rt := by
  have hworkspace : ((p.workspace.touch t).toJson rt).strip runtimeFields =
      (p.workspace.toJson rt).strip runtimeFields := by
    refine Value.strip_object_congr (by simp) (by simp) fun key hkey => ?_
    have hne : (key == "updated_at") = false := by
      rw [beq_eq_false_iff_ne]
      rintro rfl
      exact hkey (by decide)
    simp only [lookup_cons, hne]
    rfl
  have hmanifest : ((p.touch t).manifest.toJson rt).strip runtimeFields =
      (p.manifest.toJson rt).strip runtimeFields := by
    refine Value.strip_object_congr (by simp) (by simp) fun key _ => ?_
    simp only [lookup_cons]
    cases key == "schema_version" with
    | true => rfl
    | false =>
      cases key == "workspace" with
      | true => exact congrArg some hworkspace
      | false => rfl
  refine Value.strip_object_congr (by simp) (by simp) fun key _ => ?_
  simp only [lookup_cons]
  cases key == "manifest" with
  | true => exact congrArg some hmanifest
  | false => rfl

theorem Similar.canonicalStateJson {p q : Project} (h : Similar p q) (rt : Runtime) :
    q.canonicalStateJson rt = p.canonicalStateJson rt := by
  obtain ⟨t, rfl⟩ := h
  exact canonicalStateJson_touch rt p t

theorem Similar.stateDigest {p q : Project} (h : Similar p q) (rt : Runtime) :
    q.stateDigest rt = p.stateDigest rt := by
  rw [Project.stateDigest, h.canonicalStateJson rt]
  rfl

theorem Mutates.similar {rt : Runtime} {now : DateTime}
    {run : Option (WorkflowDigest × WorkflowExecution)} {p p' q : Project}
    (h : Mutates rt now envelope run p p') (hq : Similar p q) (later : DateTime) :
    ∃ q', Mutates rt later envelope run q q' ∧ Similar p' q' := by
  obtain ⟨t, rfl⟩ := hq
  unfold Mutates at h ⊢
  cases hcommand : envelope.command with
  | addLayer name sourceId =>
    simp only [hcommand] at h ⊢
    obtain ⟨hids, rfl⟩ := h
    exact ⟨_, ⟨hids, rfl⟩, later, rfl⟩
  | removeLayer layerId =>
    simp only [hcommand] at h ⊢
    obtain ⟨before, layer, after, hfirst, rfl⟩ := h
    exact ⟨_, ⟨before, layer, after, hfirst, rfl⟩, envelope.timestamp, rfl⟩
  | setLayerVisibility layerId visible =>
    simp only [hcommand] at h ⊢
    obtain ⟨before, layer, after, hfirst, rfl⟩ := h
    exact ⟨_, ⟨before, layer, after, hfirst, rfl⟩, envelope.timestamp, rfl⟩
  | setViewCamera viewId center zoom =>
    simp only [hcommand] at h ⊢
    obtain ⟨before, view, after, hfirst, rfl⟩ := h
    exact ⟨_, ⟨before, view, after, hfirst, rfl⟩, envelope.timestamp, rfl⟩
  | initializeEditableLayer layerId crs kind schema workflow =>
    simp only [hcommand] at h ⊢
    obtain ⟨layer, editable, hfind, hkind, hids, hok, rfl⟩ := h
    exact ⟨_, ⟨layer, editable, hfind, hkind, hids, hok, rfl⟩, envelope.timestamp, rfl⟩
  | editFeatures layerId expected edit workflow =>
    simp only [hcommand] at h ⊢
    obtain ⟨before, editable, edited, after, receipt, hfirst, happly, rfl⟩ := h
    exact ⟨_, ⟨before, editable, edited, after, receipt, hfirst, happly, rfl⟩,
      envelope.timestamp, rfl⟩
  | setEvidenceMapStyle style workflow =>
    simp only [hcommand] at h ⊢
    obtain ⟨hstyle, before, layer, after, hfirst, rfl⟩ := h
    exact ⟨_, ⟨hstyle, before, layer, after, hfirst, rfl⟩, envelope.timestamp, rfl⟩
  | runWorkflow workflowId =>
    simp only [hcommand] at h ⊢
    obtain ⟨digest, execution, hrun, h⟩ := h
    rw [Project.runWorkflow, modify_ok] at h
    subst h
    exact ⟨_, ⟨digest, execution, hrun, rfl⟩, t, rfl⟩
  | _ => simp only [hcommand] at h

end GeneGIS.Project
