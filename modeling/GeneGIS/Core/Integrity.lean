/-
Cross references between the collections of a project.

Two commands can break them: removing a layer that has an editable layer, and setting a style whose
identifier another layer uses (`Mutates.integral_iff`).
-/
import GeneGIS.Core.Run

namespace GeneGIS
namespace Project

open List Keyed

structure Integral (p : Project) : Prop where
  layer : ∀ e ∈ p.workspace.editableLayers, ∃ layer ∈ p.workspace.layers, layer.id = e.layerId
  once : (p.workspace.editableLayers.map EditableLayer.layerId).Nodup
  style : ∀ layer ∈ p.workspace.layers, ∀ styleId, layer.styleId = some styleId →
    ∃ style, p.workspace.mapStyles.find? (fun style => style.id = styleId) = some style ∧
      style.layerId = layer.id

/-- Identifiers of layers and of styles occur once. -/
structure Unique (p : Project) : Prop where
  layers : (p.workspace.layers.map Layer.id).Nodup
  styles : (p.workspace.mapStyles.map EvidenceMapStyle.id).Nodup

/-- The command leaves no reference behind. -/
def KeepsReferences (p : Project) : Command → Prop
  | .removeLayer layerId => ∀ e ∈ p.workspace.editableLayers, e.layerId ≠ layerId
  | .setEvidenceMapStyle style _ =>
    ∀ layer ∈ p.workspace.layers, layer.id ≠ style.layerId → layer.styleId ≠ some style.id
  | _ => True

variable {rt : Runtime} {now : DateTime} {envelope : CommandEnvelope}
  {run : Option (WorkflowDigest × WorkflowExecution)} {p p' : Project}

theorem integral_new (id : Uuid) (now : DateTime) (name : String) :
    Integral (Project.new id now name) ∧ Unique (Project.new id now name) := by
  have hlayers : (Project.new id now name).workspace.layers = [] := rfl
  have heditable : (Project.new id now name).workspace.editableLayers = [] := rfl
  have hstyles : (Project.new id now name).workspace.mapStyles = [] := rfl
  exact ⟨⟨by simp [heditable], by simp [heditable], by simp [hlayers]⟩,
    ⟨by simp [hlayers], by simp [hstyles]⟩⟩

def layerRefs (p : Project) : List (Uuid × Option Uuid) :=
  p.workspace.layers.map fun layer => (layer.id, layer.styleId)

def editableRefs (p : Project) : List Uuid := p.workspace.editableLayers.map EditableLayer.layerId

variable {layer : Layer}

theorem mem_layerRefs (h : layer ∈ p.workspace.layers) : (layer.id, layer.styleId) ∈ p.layerRefs :=
  mem_map.mpr ⟨layer, h, rfl⟩

theorem Integral.congr (h : Integral p) (hlayers : p'.layerRefs = p.layerRefs)
    (heditable : p'.editableRefs = p.editableRefs)
    (hstyles : p'.workspace.mapStyles = p.workspace.mapStyles) : Integral p' where
  layer e he := by
    have hid : e.layerId ∈ p'.editableRefs := mem_map.mpr ⟨e, he, rfl⟩
    rw [heditable] at hid
    obtain ⟨e₀, he₀, hid⟩ := mem_map.mp hid
    obtain ⟨layer, hlayer, hlid⟩ := h.layer e₀ he₀
    have href := mem_layerRefs hlayer
    rw [← hlayers] at href
    obtain ⟨layer', hlayer', heq⟩ := mem_map.mp href
    simp only [Prod.mk.injEq] at heq
    exact ⟨layer', hlayer', by rw [heq.1, hlid, hid]⟩
  once := by
    show p'.editableRefs.Nodup
    rw [heditable]
    exact h.once
  style layer hlayer styleId hstyle := by
    have href := mem_layerRefs hlayer
    rw [hlayers] at href
    obtain ⟨layer₀, hlayer₀, heq⟩ := mem_map.mp href
    simp only [Prod.mk.injEq] at heq
    obtain ⟨style, hfind, hsid⟩ := h.style layer₀ hlayer₀ styleId (by rw [heq.2, hstyle])
    rw [hstyles]
    exact ⟨style, hfind, by rw [hsid, heq.1]⟩

theorem integral_congr (hlayers : p'.layerRefs = p.layerRefs)
    (heditable : p'.editableRefs = p.editableRefs)
    (hstyles : p'.workspace.mapStyles = p.workspace.mapStyles) : Integral p' ↔ Integral p :=
  ⟨fun h => h.congr hlayers.symm heditable.symm hstyles.symm,
    fun h => h.congr hlayers heditable hstyles⟩

theorem layerIds_eq : p.layerRefs.map Prod.fst = p.workspace.layers.map Layer.id := by
  rw [layerRefs, map_map]
  rfl

theorem Unique.congr (h : Unique p) (hlayers : p'.layerRefs = p.layerRefs)
    (hstyles : p'.workspace.mapStyles = p.workspace.mapStyles) : Unique p' where
  layers := by
    rw [← layerIds_eq, hlayers, layerIds_eq]
    exact h.layers
  styles := by
    rw [hstyles]
    exact h.styles

theorem putStyle_eq (style : EvidenceMapStyle) (styles : List EvidenceMapStyle) :
    putStyle style styles = if styles.any fun candidate => candidate.id = style.id then
        Keyed.replace EvidenceMapStyle.id style styles
      else (styles ++ [style]).insertionSort fun a b => (compare a.id b.id).isLE = true := rfl

variable {styles : List EvidenceMapStyle}

theorem nodup_putStyle {style : EvidenceMapStyle} (h : (styles.map EvidenceMapStyle.id).Nodup) :
    ((putStyle style styles).map EvidenceMapStyle.id).Nodup := by
  rw [putStyle_eq]
  split
  · rw [map_replace]
    exact h
  next hany =>
    have hfresh : style.id ∉ styles.map EvidenceMapStyle.id := by
      intro hmem
      obtain ⟨candidate, hcandidate, hid⟩ := mem_map.mp hmem
      exact hany (List.any_eq_true.mpr ⟨candidate, hcandidate, by simpa using hid⟩)
    have hperm := (perm_insertionSort
      (fun a b : EvidenceMapStyle => (compare a.id b.id).isLE = true) (styles ++ [style])).map
        EvidenceMapStyle.id
    rw [hperm.nodup_iff, map_append, nodup_append]
    refine ⟨h, by simp, ?_⟩
    intro a ha b hb hab
    rw [map_singleton, mem_singleton] at hb
    rw [hab, hb] at ha
    exact hfresh ha

theorem mem_putStyle {style x : EvidenceMapStyle} (h : (styles.map EvidenceMapStyle.id).Nodup) :
    x ∈ putStyle style styles ↔ x = style ∨ x ∈ styles ∧ x.id ≠ style.id := by
  rw [putStyle_eq]
  split
  next hany =>
    obtain ⟨candidate, hcandidate, hid⟩ := List.any_eq_true.mp hany
    exact mem_replace h ⟨candidate, hcandidate, by simpa using hid⟩
  next hany =>
    have hfresh : ∀ y ∈ styles, y.id ≠ style.id := by
      intro y hy hid
      exact hany (List.any_eq_true.mpr ⟨y, hy, by simpa using hid⟩)
    rw [mem_insertionSort, mem_append, mem_singleton]
    constructor
    · intro hx
      rcases hx with hx | hx
      · exact .inr ⟨hx, hfresh x hx⟩
      · exact .inl hx
    · intro hx
      rcases hx with hx | hx
      · exact .inr hx
      · exact .inl hx.1

theorem find?_putStyle {style x : EvidenceMapStyle} {id : Uuid}
    (h : (styles.map EvidenceMapStyle.id).Nodup) :
    (putStyle style styles).find? (fun y => y.id = id) = some x ↔ (x = style ∧ style.id = id) ∨
        (id ≠ style.id ∧ styles.find? (fun y => y.id = id) = some x) := by
  rw [find?_eq_some (nodup_putStyle h), find?_eq_some h, mem_putStyle h]
  constructor
  · intro hx
    obtain ⟨hx | ⟨hx, hne⟩, hid⟩ := hx
    · exact .inl ⟨hx, by rw [← hx]; exact hid⟩
    · exact .inr ⟨by rw [← hid]; exact hne, hx, hid⟩
  · intro hx
    rcases hx with ⟨hx, hid⟩ | ⟨hne, hx, hid⟩
    · exact ⟨.inl hx, by rw [hx]; exact hid⟩
    · exact ⟨.inr ⟨hx, by rw [hid]; exact hne⟩, hid⟩

/-! ## One command -/

variable {before after : List Layer}

theorem layerRefs_setLayers {layer layer' : Layer}
    (hsplit : p.workspace.layers = before ++ layer :: after) (hid : layer'.id = layer.id)
    (hstyle : layer'.styleId = layer.styleId) :
    (p.setLayers (before ++ layer' :: after)).layerRefs = p.layerRefs := by
  show (before ++ layer' :: after).map _ = p.workspace.layers.map _
  rw [hsplit, map_append, map_append, map_cons, map_cons, hid, hstyle]

theorem editableRefs_edited {before after : List EditableLayer} {editable edited : EditableLayer}
    (hsplit : p.workspace.editableLayers = before ++ editable :: after)
    (hid : edited.layerId = editable.layerId) :
    (p.setEditableLayers (before ++ edited :: after)).editableRefs = p.editableRefs := by
  show (before ++ edited :: after).map _ = p.workspace.editableLayers.map _
  rw [hsplit, map_append, map_append, map_cons, map_cons, hid]

theorem Unique.removed (hunique : Unique p)
    (hsplit : p.workspace.layers = before ++ layer :: after) :
    ∀ l ∈ before ++ after, l.id ≠ layer.id := by
  intro l hl
  have hnodup := hunique.layers
  rw [hsplit, map_append, map_cons, nodup_middle, nodup_cons, ← map_append] at hnodup
  intro hid
  exact hnodup.1 (mem_map.mpr ⟨l, hl, hid⟩)

theorem mem_of_mem_removed {layer l : Layer}
    (hsplit : p.workspace.layers = before ++ layer :: after) (hl : l ∈ before ++ after) :
    l ∈ p.workspace.layers := by
  rw [hsplit]
  rcases mem_append.mp hl with hl | hl
  · exact mem_append_left _ hl
  · exact mem_append_right _ (mem_cons_of_mem _ hl)

theorem integral_removeLayer (hp : Integral p)
    (hunique : Unique p) (hsplit : p.workspace.layers = before ++ layer :: after) :
    Integral (p.setLayers (before ++ after)) ↔
      ∀ e ∈ p.workspace.editableLayers, e.layerId ≠ layer.id := by
  have hremoved := hunique.removed hsplit
  constructor
  · intro h e he hid
    obtain ⟨l, hl, hlid⟩ := h.layer e he
    exact hremoved l hl (hlid.trans hid)
  · intro h
    refine ⟨?_, hp.once, ?_⟩
    · intro e he
      obtain ⟨l, hl, hlid⟩ := hp.layer e he
      refine ⟨l, ?_, hlid⟩
      show l ∈ before ++ after
      rw [hsplit, mem_append, List.mem_cons] at hl
      rcases hl with hl | hl | hl
      · exact mem_append_left _ hl
      · rw [hl] at hlid
        exact absurd hlid.symm (h e he)
      · exact mem_append_right _ hl
    · intro l hl styleId hstyle
      exact hp.style l (mem_of_mem_removed hsplit hl) styleId hstyle

theorem integral_setStyle {style : EvidenceMapStyle} (hp : Integral p) (hunique : Unique p)
    (hsplit : p.workspace.layers = before ++ layer :: after) (hid : layer.id = style.layerId) :
    Integral ((p.setLayers (before ++ { layer with styleId := some style.id } :: after)).setMapStyles
        (putStyle style p.workspace.mapStyles)) ↔
      ∀ l ∈ p.workspace.layers, l.id ≠ style.layerId → l.styleId ≠ some style.id := by
  have hremoved := hunique.removed hsplit
  have hmem : ∀ l, l ∈ before ++ { layer with styleId := some style.id } :: after ↔
      l = { layer with styleId := some style.id } ∨ l ∈ before ++ after := by
    intro l
    rw [mem_append, List.mem_cons, mem_append]
    tauto
  constructor
  · intro h l hl hne hstyle
    have hl' : l ∈ before ++ { layer with styleId := some style.id } :: after := by
      rw [hmem, mem_append]
      rw [hsplit, mem_append, List.mem_cons] at hl
      rcases hl with hl | hl | hl
      · exact .inr (.inl hl)
      · rw [hl] at hne
        exact absurd hid hne
      · exact .inr (.inr hl)
    obtain ⟨found, hfound, hfid⟩ := h.style l hl' style.id hstyle
    rcases (find?_putStyle hunique.styles).mp hfound with ⟨heq, -⟩ | ⟨hcontra, -⟩
    · rw [heq] at hfid
      exact hne hfid.symm
    · exact absurd rfl hcontra
  · intro h
    refine ⟨?_, hp.once, ?_⟩
    · intro e he
      obtain ⟨l, hl, hlid⟩ := hp.layer e he
      rw [hsplit, mem_append, List.mem_cons] at hl
      rcases hl with hl | hl | hl
      · exact ⟨l, (hmem l).mpr (.inr (mem_append_left _ hl)), hlid⟩
      · rw [hl] at hlid
        exact ⟨_, (hmem _).mpr (.inl rfl), hlid⟩
      · exact ⟨l, (hmem l).mpr (.inr (mem_append_right _ hl)), hlid⟩
    · intro l hl styleId hstyle
      rcases (hmem l).mp hl with hl | hl
      · rw [hl] at hstyle ⊢
        refine ⟨style, (find?_putStyle hunique.styles).mpr (.inl ⟨rfl, ?_⟩), hid.symm⟩
        exact Option.some.inj hstyle
      · have hlp := mem_of_mem_removed hsplit hl
        have hne : l.id ≠ style.layerId := by
          rw [← hid]
          exact hremoved l hl
        obtain ⟨found, hfound, hfid⟩ := hp.style l hlp styleId hstyle
        refine ⟨found, (find?_putStyle hunique.styles).mpr (.inr ⟨?_, hfound⟩), hfid⟩
        intro heq
        rw [heq] at hstyle
        exact h l hlp hne hstyle

theorem Mutates.integral_iff (h : Mutates rt now envelope run p p') (hp : Integral p)
    (hunique : Unique p) : Integral p' ↔ KeepsReferences p envelope.command := by
  unfold Mutates at h
  cases hcommand : envelope.command with
  | addLayer name sourceId =>
    simp only [hcommand] at h
    obtain ⟨hfresh, rfl⟩ := h
    simp only [KeepsReferences, iff_true]
    refine ⟨?_, hp.once, ?_⟩
    · intro e he
      obtain ⟨l, hl, hlid⟩ := hp.layer e he
      exact ⟨l, mem_append_left _ hl, hlid⟩
    · intro l hl styleId hstyle
      rcases mem_append.mp hl with hl | hl
      · exact hp.style l hl styleId hstyle
      · rw [mem_singleton.mp hl] at hstyle
        cases hstyle
  | removeLayer layerId =>
    simp only [hcommand] at h
    obtain ⟨before, layer, after, hfirst, rfl⟩ := h
    have hkeeps := integral_removeLayer hp hunique hfirst.split
    rw [hfirst.here] at hkeeps
    rw [KeepsReferences, ← hkeeps]
    exact integral_congr rfl rfl rfl
  | setLayerVisibility layerId visible =>
    simp only [hcommand] at h
    obtain ⟨before, layer, after, hfirst, rfl⟩ := h
    simp only [KeepsReferences, iff_true]
    exact hp.congr (layerRefs_setLayers hfirst.split rfl rfl) rfl rfl
  | setViewCamera viewId center zoom =>
    simp only [hcommand] at h
    obtain ⟨before, view, after, hfirst, rfl⟩ := h
    simp only [KeepsReferences, iff_true]
    exact hp.congr rfl rfl rfl
  | initializeEditableLayer layerId crs kind schema workflow =>
    simp only [hcommand] at h
    obtain ⟨layer, editable, hfind, -, hfresh, hnew, rfl⟩ := h
    have hid : editable.layerId = layerId := (EditableLayer.new_ok hnew).1
    simp only [KeepsReferences, iff_true]
    refine ⟨?_, ?_, hp.style⟩
    · intro e he
      rcases mem_append.mp he with he | he
      · exact hp.layer e he
      · rw [mem_singleton.mp he, hid]
        exact ⟨layer, mem_of_find?_eq_some hfind, by simpa using find?_some hfind⟩
    · show (List.map _ (p.workspace.editableLayers ++ [editable])).Nodup
      rw [map_append, nodup_append]
      refine ⟨hp.once, by simp, ?_⟩
      intro a ha b hb hab
      rw [map_singleton, mem_singleton, hid] at hb
      obtain ⟨e, he, heid⟩ := mem_map.mp ha
      exact hfresh e he (by rw [heid, hab, hb])
  | editFeatures layerId expected edit workflow =>
    simp only [hcommand] at h
    obtain ⟨before, editable, edited, after, receipt, hfirst, happly, rfl⟩ := h
    simp only [KeepsReferences, iff_true]
    refine hp.congr rfl (editableRefs_edited hfirst.split ?_) rfl
    exact (EditableLayer.apply_frame happly).1
  | setEvidenceMapStyle style workflow =>
    simp only [hcommand] at h
    obtain ⟨-, before, layer, after, hfirst, rfl⟩ := h
    rw [KeepsReferences, ← integral_setStyle hp hunique hfirst.split hfirst.here]
    exact integral_congr rfl rfl rfl
  | runWorkflow workflowId =>
    simp only [hcommand] at h
    obtain ⟨digest, execution, -, h⟩ := h
    rw [Project.runWorkflow, Fallible.modify_ok] at h
    subst h
    simp only [KeepsReferences, iff_true]
    exact hp.congr rfl rfl rfl
  | _ => simp only [hcommand] at h

theorem Mutates.unique (h : Mutates rt now envelope run p p') (hunique : Unique p) : Unique p' := by
  unfold Mutates at h
  cases hcommand : envelope.command with
  | addLayer name sourceId =>
    simp only [hcommand] at h
    obtain ⟨hfresh, rfl⟩ := h
    refine ⟨?_, hunique.styles⟩
    show (List.map _ (p.workspace.layers ++ [layerOf envelope name sourceId])).Nodup
    rw [map_append, nodup_append]
    refine ⟨hunique.layers, by simp, ?_⟩
    intro a ha b hb hab
    rw [map_singleton, mem_singleton] at hb
    obtain ⟨layer, hlayer, hid⟩ := mem_map.mp ha
    exact hfresh layer hlayer (by rw [hid, hab, hb]; rfl)
  | removeLayer layerId =>
    simp only [hcommand] at h
    obtain ⟨before, layer, after, hfirst, rfl⟩ := h
    refine ⟨?_, hunique.styles⟩
    have hlayers := hunique.layers
    rw [hfirst.split, map_append, map_cons, nodup_middle, nodup_cons, ← map_append] at hlayers
    exact hlayers.2
  | setLayerVisibility layerId visible =>
    simp only [hcommand] at h
    obtain ⟨before, layer, after, hfirst, rfl⟩ := h
    exact hunique.congr (layerRefs_setLayers hfirst.split rfl rfl) rfl
  | setEvidenceMapStyle style workflow =>
    simp only [hcommand] at h
    obtain ⟨-, before, layer, after, hfirst, rfl⟩ := h
    refine ⟨?_, nodup_putStyle hunique.styles⟩
    have hlayers := hunique.layers
    rw [hfirst.split, map_append, map_cons] at hlayers
    show (List.map _ (before ++ { layer with styleId := some style.id } :: after)).Nodup
    rw [map_append, map_cons]
    exact hlayers
  | setViewCamera viewId center zoom =>
    simp only [hcommand] at h
    obtain ⟨before, view, after, hfirst, rfl⟩ := h
    exact hunique.congr rfl rfl
  | initializeEditableLayer layerId crs kind schema workflow =>
    simp only [hcommand] at h
    obtain ⟨layer, editable, -, -, -, -, rfl⟩ := h
    exact hunique.congr rfl rfl
  | editFeatures layerId expected edit workflow =>
    simp only [hcommand] at h
    obtain ⟨before, editable, edited, after, receipt, -, -, rfl⟩ := h
    exact hunique.congr rfl rfl
  | runWorkflow workflowId =>
    simp only [hcommand] at h
    obtain ⟨digest, execution, -, h⟩ := h
    rw [Project.runWorkflow, Fallible.modify_ok] at h
    subst h
    exact hunique.congr rfl rfl
  | _ => simp only [hcommand] at h

end Project

namespace Session

open Project CommandBus

variable {rt : Runtime} {s s' : Session} {op : Op}

/-- Every project of the session has integrity and unique identifiers. -/
def Sound (s : Session) : Prop := Keeps (fun p => Integral p ∧ Unique p) s

def LeavesNone (s : Session) (op : Op) : Prop :=
  ∀ envelope, op.envelope? = some envelope → KeepsReferences s.project envelope.command

theorem Sound.step (h : Sound s) (hcalled : Called rt s op s')
    (hintegral : Integral s'.project) : Sound s' := by
  refine Keeps.called h hcalled ⟨hintegral, ?_⟩
  rcases hcalled.project with ⟨now, envelope, executor, run, -, -, hmutates, -⟩ | ⟨-, hkept⟩
  · exact hmutates.unique h.project.2
  · exact (hkept _ h).2

theorem Sound.integral_iff (h : Sound s) (hcalled : Called rt s op s') :
    Integral s'.project ↔ LeavesNone s op := by
  rcases hcalled.project with ⟨now, envelope, executor, run, his, -, hmutates, -⟩ | ⟨hmoves, hkept⟩
  · rw [hmutates.integral_iff h.project.1 h.project.2]
    constructor
    · intro hkeeps e he
      rw [his] at he
      rw [← Option.some.inj he]
      exact hkeeps
    · intro hkeeps
      exact hkeeps envelope his
  · constructor
    · intro _ e he
      rcases hmoves e he with hcommand | hcommand
      · rw [hcommand]
        trivial
      · rw [hcommand]
        trivial
    · intro _
      exact (hkept _ h).1

/-- Along a run from a new project, all projects have referential integrity exactly if no accepted
command leaves a reference behind. -/
theorem path_integral (rt : Runtime) (id : Uuid) (now : DateTime) (name : String)
    {trace : List (Session × Op)} {s : Session}
    (path : Path (Accepts rt) (start (Project.new id now name)) trace s) :
    (∀ q ∈ Path.visited trace s, Integral q.project) ↔ ∀ x ∈ trace, LeavesNone x.1 x.2 := by
  have hsound : Sound (start (Project.new id now name)) := keeps_start (integral_new id now name)
  refine path.forall_visited_iff hsound ?_ ?_ ?_
  · intro s hs
    exact hs.project.1
  · intro s op s' hs haccepts hintegral
    exact Sound.step hs haccepts.called hintegral
  · intro s op s' hs haccepts
    exact Sound.integral_iff hs haccepts.called

theorem path_integral_roadsEditable :
    roadsEditable.project.workspace.editableLayers.isEmpty = false ∧ ∀ q ∈ Path.visited
      [(start sampleProject, Op.apply ⟨0⟩ addRoads), (roadsAdded, .registerWorkflow editWorkflow),
        (roadsBound, .apply ⟨0⟩ initializeRoads)] roadsEditable, Integral q.project := by
  refine ⟨by rfl, ?_⟩
  refine (path_integral .reference (Uuid.ofNat 0) ⟨0⟩ "sample" path_roadsEditable).mpr ?_
  intro x hx
  simp only [List.mem_cons, List.not_mem_nil, or_false] at hx
  rcases hx with rfl | rfl | rfl
  · intro envelope he
    cases he
    trivial
  · intro envelope he
    cases he
  · intro envelope he
    cases he
    trivial

def removeRoads : CommandEnvelope := sampleEnvelope 3 (.removeLayer (Uuid.ofNat 1))

/-- The layer is removed, and its editable layer stays. -/
theorem removeRoads_dangles :
    ∃ trace s, Path (Accepts .reference) (start (Project.new (Uuid.ofNat 0) ⟨0⟩ "sample")) trace s ∧
      ¬ Integral s.project := by
  have hremove : Accepts .reference roadsEditable (.apply ⟨0⟩ removeRoads)
      (roadsEditable.issue removeRoads) :=
    accepts_issue (by decide) (by decide) rfl (by rfl)
  refine ⟨_, _, path_roadsEditable.snoc hremove, ?_⟩
  intro hintegral
  have hlayers : (roadsEditable.issue removeRoads).project.workspace.layers = [] := by
    decide
  have heditable : (roadsEditable.issue removeRoads).project.workspace.editableLayers.any
      (fun e => e.layerId = Uuid.ofNat 1) = true := by
    decide
  obtain ⟨e, he, -⟩ := List.any_eq_true.mp heditable
  obtain ⟨layer, hlayer, -⟩ := hintegral.layer e he
  rw [hlayers] at hlayer
  cases hlayer

end Session
end GeneGIS
