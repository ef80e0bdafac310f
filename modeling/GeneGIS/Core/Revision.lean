/-
An identifier and a revision should name one content over a whole run.  Undo and the saturation of
the counter are the only ways to name two alike (`path_versions`).
-/
import GeneGIS.Core.Run

namespace GeneGIS

open List Option Except EditableLayer

/-! ## The result of an edit depends on the features alone -/

namespace EditableLayer

open Fallible

variable {l₁ l₂ l₁' l₂' : EditableLayer}

theorem featureWithRevision_congr (h : l₁.features = l₂.features) (id : String) (expected : Nat) :
    l₁.featureWithRevision id expected = l₂.featureWithRevision id expected := by
  rw [featureWithRevision, featureWithRevision, h]

theorem collectMembers_congr (h : l₁.features = l₂.features) (ids : List (String × Nat))
    (members : Members) : l₁.collectMembers ids members = l₂.collectMembers ids members := by
  induction ids generalizing members with
  | nil => rfl
  | cons x rest ih =>
    obtain ⟨id, revision⟩ := x
    rw [collectMembers, collectMembers, featureWithRevision_congr h]
    simp only [ih]

theorem features_removeAll (h : l₁.features = l₂.features) (ids : List String) :
    (ids.foldl (fun l id => l.removeFeature id) l₁).features =
      (ids.foldl (fun l id => l.removeFeature id) l₂).features := by
  induction ids generalizing l₁ l₂ with
  | nil => exact h
  | cons id rest ih =>
    refine ih ?_
    show l₁.features.erase id = l₂.features.erase id
    rw [h]

theorem features_insertFeature (h : l₁.features = l₂.features) (id : String)
    (f : EditableFeature) : (l₁.insertFeature id f).features = (l₂.insertFeature id f).features := by
  rw [insertFeature, insertFeature, h]

theorem features_insertAll (h : l₁.features = l₂.features) (parts : List FeatureDraft)
    (revision : Nat) :
    (parts.foldl (fun l part => l.insertFeature part.id (intoFeature part revision)) l₁).features =
      (parts.foldl (fun l part => l.insertFeature part.id (intoFeature part revision))
        l₂).features := by
  induction parts generalizing l₁ l₂ with
  | nil => exact h
  | cons part rest ih => exact ih (features_insertFeature h part.id _)

theorem applyEdit_features {edit : FeatureEdit} {ids₁ ids₂ : List String}
    (h : l₁.features = l₂.features) (h₁ : applyEdit edit l₁ = .ok ids₁ l₁')
    (h₂ : applyEdit edit l₂ = .ok ids₂ l₂') : l₁'.features = l₂'.features := by
  cases applyEdit_ok h₁ with
  | create feature =>
    cases applyEdit_ok h₂
    exact features_insertFeature h _ _
  | update feature expected previous _ hread =>
    cases applyEdit_ok h₂ with | update _ _ _ _ hread₂ =>
    rw [featureWithRevision_congr h, hread₂] at hread
    cases hread
    exact features_insertFeature h _ _
  | delete featureId =>
    cases applyEdit_ok h₂
    exact features_removeAll h [featureId]
  | split featureId expected parts source _ hread =>
    cases applyEdit_ok h₂ with | split _ _ _ _ _ hread₂ =>
    rw [featureWithRevision_congr h, hread₂] at hread
    cases hread
    exact features_insertAll (features_removeAll h [featureId]) parts _
  | merge featureIds expected merged members _ hread =>
    cases applyEdit_ok h₂ with | merge _ _ _ _ _ hread₂ =>
    rw [collectMembers_congr h, hread₂] at hread
    cases hread
    exact features_insertFeature (features_removeAll h _) _ _
  | repair featureId expected previous hread =>
    cases applyEdit_ok h₂ with | repair _ _ _ hread₂ =>
    rw [featureWithRevision_congr h, hread₂] at hread
    cases hread
    exact features_insertFeature h _ _

theorem apply_content {edit : FeatureEdit} {expected₁ expected₂ : Nat} {r₁ r₂ : EditReceipt}
    (hfeatures : l₁.features = l₂.features) (hschema : l₁.schema = l₂.schema)
    (h₁ : apply expected₁ edit l₁ = .ok r₁ l₁') (h₂ : apply expected₂ edit l₂ = .ok r₂ l₂') :
    l₁'.features = l₂'.features ∧ l₁'.schema = l₂'.schema := by
  obtain ⟨-, ids₁, l₁'', hedit₁, heq₁, -⟩ := apply_ok.mp h₁
  obtain ⟨-, ids₂, l₂'', hedit₂, heq₂, -⟩ := apply_ok.mp h₂
  have hresult : l₁''.features = l₂''.features := applyEdit_features hfeatures hedit₁ hedit₂
  refine ⟨?_, ?_⟩
  · rw [heq₁, heq₂]
    exact hresult
  · rw [(apply_frame h₁).2.1, (apply_frame h₂).2.1, hschema]

end EditableLayer

/-! ## Commands and the editable layer with an identifier -/

namespace Project

def editable? (p : Project) (layerId : Uuid) : Option EditableLayer :=
  p.workspace.editableLayers.find? fun e => e.layerId = layerId

variable {rt : Runtime} {now : DateTime} {envelope : CommandEnvelope}
  {run : Option (WorkflowDigest × WorkflowExecution)} {p p' : Project}

theorem FirstAt.find? {α : Type} {Q : α → Prop} [DecidablePred Q] {l before after : List α} {x : α}
    (h : FirstAt Q l before x after) : l.find? (fun y => Q y) = some x := by
  have hbefore : before.find? (fun y => Q y) = none := by
    rw [find?_eq_none]
    intro y hy
    simpa using h.earlier y hy
  rw [h.split, find?_append, hbefore, none_or, find?_cons_of_pos]
  simpa using h.here

theorem find?_replaced {before after : List EditableLayer} {e e' : EditableLayer} {layerId : Uuid}
    (h : e.layerId ≠ layerId) (h' : e'.layerId ≠ layerId) :
    (before ++ e' :: after).find? (fun x => x.layerId = layerId) =
      (before ++ e :: after).find? (fun x => x.layerId = layerId) := by
  rw [find?_append, find?_append, find?_cons_of_neg, find?_cons_of_neg]
  · simpa using h
  · simpa using h'

/-- What a command does to the editable layers: nothing, or it initializes one,
or it edits one. -/
inductive Versions (envelope : CommandEnvelope) (p p' : Project) : Prop
  | same (kept : ∀ layerId, p'.editable? layerId = p.editable? layerId)
  | initialized (layerId : Uuid) (crs : Crs) (kind : EditableGeometryKind) (schema : FeatureSchema)
      (workflow : MutationWorkflowBinding) (editable : EditableLayer)
      (command : envelope.command = .initializeEditableLayer layerId crs kind schema workflow)
      (absent : p.editable? layerId = none)
      (new : EditableLayer.new layerId crs kind schema = .ok editable)
      (found : p'.editable? layerId = some editable)
      (kept : ∀ other, other ≠ layerId → p'.editable? other = p.editable? other)
  | edited (layerId : Uuid) (expected : Nat) (edit : FeatureEdit)
      (workflow : MutationWorkflowBinding) (editable edited : EditableLayer)
      (receipt : EditReceipt)
      (command : envelope.command = .editFeatures layerId expected edit workflow)
      (read : p.editable? layerId = some editable)
      (applied : apply expected edit editable = .ok receipt edited)
      (found : p'.editable? layerId = some edited)
      (kept : ∀ other, other ≠ layerId → p'.editable? other = p.editable? other)

theorem Mutates.versions (h : Mutates rt now envelope run p p') : Versions envelope p p' := by
  unfold Mutates at h
  cases hcommand : envelope.command with
  | addLayer name sourceId =>
    simp only [hcommand] at h
    obtain ⟨-, rfl⟩ := h
    exact .same fun _ => rfl
  | removeLayer layerId =>
    simp only [hcommand] at h
    obtain ⟨before, layer, after, -, rfl⟩ := h
    exact .same fun _ => rfl
  | setLayerVisibility layerId visible =>
    simp only [hcommand] at h
    obtain ⟨before, layer, after, -, rfl⟩ := h
    exact .same fun _ => rfl
  | setViewCamera viewId center zoom =>
    simp only [hcommand] at h
    obtain ⟨before, view, after, -, rfl⟩ := h
    exact .same fun _ => rfl
  | initializeEditableLayer layerId crs kind schema workflow =>
    simp only [hcommand] at h
    obtain ⟨layer, editable, -, -, hfresh, hnew, rfl⟩ := h
    have habsent : p.editable? layerId = none := by
      rw [editable?, find?_eq_none]
      intro e he
      simpa using hfresh e he
    have hid : editable.layerId = layerId := (new_ok hnew).1
    refine .initialized layerId crs kind schema workflow editable hcommand habsent hnew ?_ ?_
    · show (p.workspace.editableLayers ++ [editable]).find? _ = _
      rw [editable?] at habsent
      rw [find?_append, habsent, none_or, find?_cons_of_pos]
      simpa using hid
    · intro other hother
      show (p.workspace.editableLayers ++ [editable]).find? _ = _
      have hskip : [editable].find? (fun e => decide (e.layerId = other)) = none := by
        rw [find?_eq_none]
        intro e he
        rw [mem_singleton.mp he, hid]
        simpa using hother.symm
      rw [find?_append, hskip, or_none]
      rfl
  | editFeatures layerId expected edit workflow =>
    simp only [hcommand] at h
    obtain ⟨before, editable, edited, after, receipt, hfirst, happly, rfl⟩ := h
    have hid : edited.layerId = layerId := (EditableLayer.apply_frame happly).1.trans hfirst.here
    refine .edited layerId expected edit workflow editable edited receipt hcommand hfirst.find?
      happly ?_ ?_
    · have hfirst' : FirstAt (fun e => e.layerId = layerId) (before ++ edited :: after) before
          edited after := ⟨rfl, hfirst.earlier, hid⟩
      exact hfirst'.find?
    · intro other hother
      show (before ++ edited :: after).find? _ = p.workspace.editableLayers.find? _
      have hne : editable.layerId ≠ other := by
        rw [hfirst.here]
        exact hother.symm
      have hne' : edited.layerId ≠ other := by
        rw [hid]
        exact hother.symm
      rw [hfirst.split, find?_replaced hne hne']
  | setEvidenceMapStyle style workflow =>
    simp only [hcommand] at h
    obtain ⟨-, before, layer, after, -, rfl⟩ := h
    exact .same fun _ => rfl
  | runWorkflow workflowId =>
    simp only [hcommand] at h
    obtain ⟨digest, execution, -, h⟩ := h
    rw [Project.runWorkflow, Fallible.modify_ok] at h
    subst h
    exact .same fun _ => rfl
  | _ => simp only [hcommand] at h

end Project

/-! ## Versions along a run -/

namespace Session

open Project CommandBus

/-- Where the content of a layer comes from: the first project, an initialization, or an edit of an
earlier content. -/
inductive Origin (first : Project) (log : List CommandEnvelope) (moments : Set Project)
    (layerId : Uuid) (e : EditableLayer) : Prop
  | first (e₀ : EditableLayer) (read : first.editable? layerId = some e₀)
      (revision : e.revision = e₀.revision)
  | initialized (envelope : CommandEnvelope) (logged : envelope ∈ log) (crs : Crs)
      (kind : EditableGeometryKind) (workflow : MutationWorkflowBinding)
      (command : envelope.command =
        .initializeEditableLayer layerId crs kind e.schema workflow)
      (revision : e.revision = 0) (features : e.features = ∅)
  | edited (envelope : CommandEnvelope) (logged : envelope ∈ log) (edit : FeatureEdit)
      (workflow : MutationWorkflowBinding) (p : Project) (moment : p ∈ moments)
      (before : EditableLayer) (receipt : EditReceipt) (read : p.editable? layerId = some before)
      (command : envelope.command = .editFeatures layerId before.revision edit workflow)
      (applied : EditableLayer.apply before.revision edit before = .ok receipt e)
      (revision : e.revision = before.revision + 1)

/-- What is known of the projects seen so far. -/
structure Versioned (first : Project) (log : List CommandEnvelope) (moments : Set Project) :
    Prop where
  agree : ∀ p ∈ moments, ∀ q ∈ moments, ∀ layerId e f, p.editable? layerId = some e →
    q.editable? layerId = some f → e.revision = f.revision →
    e.features = f.features ∧ e.schema = f.schema
  origin : ∀ p ∈ moments, ∀ layerId e, p.editable? layerId = some e →
    Origin first log moments layerId e
  later : ∀ p ∈ moments, ∀ layerId e₀, first.editable? layerId = some e₀ →
    ∃ e, p.editable? layerId = some e ∧ e₀.revision ≤ e.revision

section Versions

variable {first p' : Project} {log log' : List CommandEnvelope} {moments moments' : Set Project}

theorem Origin.mono {layerId : Uuid} {e : EditableLayer}
    (h : Origin first log moments layerId e) (hlog : ∀ x ∈ log, x ∈ log')
    (hmoments : ∀ p ∈ moments, p ∈ moments') : Origin first log' moments' layerId e := by
  cases h with
  | first e₀ hread hrevision => exact .first e₀ hread hrevision
  | initialized envelope hlogged crs kind workflow hcommand hrevision hfeatures =>
    exact .initialized envelope (hlog _ hlogged) crs kind workflow hcommand hrevision hfeatures
  | edited envelope hlogged edit workflow p hp before receipt hread hcommand happlied hrevision =>
    exact .edited envelope (hlog _ hlogged) edit workflow p (hmoments p hp) before receipt hread
      hcommand happlied hrevision

theorem versioned_start (first : Project) : Versioned first log {first} where
  agree p hp q hq layerId e f he hf _ := by
    rw [Set.mem_singleton_iff.mp hp] at he
    rw [Set.mem_singleton_iff.mp hq, he] at hf
    rw [some.inj hf]
    exact ⟨rfl, rfl⟩
  origin p hp layerId e he := by
    rw [Set.mem_singleton_iff.mp hp] at he
    exact .first e he rfl
  later p hp layerId e₀ he₀ := by
    rw [Set.mem_singleton_iff.mp hp]
    exact ⟨e₀, he₀, Nat.le_refl _⟩

/-- One more project, whose layers were seen before or agree with what was seen under the same
revision. -/
theorem Versioned.extend (h : Versioned first log moments) (hlog : ∀ x ∈ log, x ∈ log')
    (hseen : ∀ layerId e, p'.editable? layerId = some e →
      (∃ q ∈ moments, q.editable? layerId = some e) ∨
        Origin first log' moments layerId e ∧ ∀ q ∈ moments, ∀ f, q.editable? layerId = some f →
          f.revision = e.revision → f.features = e.features ∧ f.schema = e.schema)
    (hlater : ∀ layerId e₀, first.editable? layerId = some e₀ →
      ∃ e, p'.editable? layerId = some e ∧ e₀.revision ≤ e.revision) :
    Versioned first log' (insert p' moments) where
  agree p hp q hq layerId e f he hf hrevision := by
    rcases Set.mem_insert_iff.mp hp with heq | hpast
    · rw [heq] at he
      rcases Set.mem_insert_iff.mp hq with heq | hqpast
      · rw [heq, he] at hf
        rw [some.inj hf]
        exact ⟨rfl, rfl⟩
      · rcases hseen layerId e he with ⟨r, hr, he⟩ | ⟨-, hagree⟩
        · exact h.agree r hr q hqpast layerId e f he hf hrevision
        · obtain ⟨hfeatures, hschema⟩ := hagree q hqpast f hf hrevision.symm
          exact ⟨hfeatures.symm, hschema.symm⟩
    · rcases Set.mem_insert_iff.mp hq with heq | hqpast
      · rw [heq] at hf
        rcases hseen layerId f hf with ⟨r, hr, hf⟩ | ⟨-, hagree⟩
        · exact h.agree p hpast r hr layerId e f he hf hrevision
        · exact hagree p hpast e he hrevision
      · exact h.agree p hpast q hqpast layerId e f he hf hrevision
  origin p hp layerId e he := by
    have hmono : ∀ q ∈ moments, q ∈ insert p' moments :=
      fun q hq => Set.mem_insert_of_mem p' hq
    rcases Set.mem_insert_iff.mp hp with heq | hpast
    · rw [heq] at he
      rcases hseen layerId e he with ⟨r, hr, he⟩ | ⟨horigin, -⟩
      · exact (h.origin r hr layerId e he).mono hlog hmono
      · exact horigin.mono (fun _ hx => hx) hmono
    · exact (h.origin p hpast layerId e he).mono hlog hmono
  later p hp layerId e₀ he₀ := by
    rcases Set.mem_insert_iff.mp hp with heq | hpast
    · rw [heq]
      exact hlater layerId e₀ he₀
    · exact h.later p hpast layerId e₀ he₀

/-- The command says the same as every logged command about the same version. -/
def SameAsLogged (log : List CommandEnvelope) : Command → Prop
  | .editFeatures layerId expected edit _ =>
    expected < u64Max ∧ ∀ envelope ∈ log, ∀ edit' workflow,
      envelope.command = .editFeatures layerId expected edit' workflow → edit' = edit
  | .initializeEditableLayer layerId _ _ schema _ =>
    ∀ envelope ∈ log, ∀ crs kind schema' workflow,
      envelope.command = .initializeEditableLayer layerId crs kind schema' workflow →
      schema' = schema
  | _ => True

variable {p : Project} {envelope : CommandEnvelope}

theorem Versioned.revisit (h : Versioned first log moments) (hp : p ∈ moments)
    (hlog : ∀ x ∈ log, x ∈ log') (hsame : ∀ layerId, p'.editable? layerId = p.editable? layerId) :
    Versioned first log' (insert p' moments) := by
  refine h.extend hlog ?_ ?_
  · intro layerId e he
    rw [hsame] at he
    exact .inl ⟨p, hp, he⟩
  · intro layerId e₀ he₀
    rw [hsame]
    exact h.later p hp layerId e₀ he₀

theorem Versioned.initialize (h : Versioned first log moments) (hp : p ∈ moments)
    {layerId : Uuid} {crs : Crs} {kind : EditableGeometryKind} {schema : FeatureSchema}
    {workflow : MutationWorkflowBinding} {editable : EditableLayer}
    (hcommand : envelope.command = .initializeEditableLayer layerId crs kind schema workflow)
    (habsent : p.editable? layerId = none)
    (hnew : new layerId crs kind schema = .ok editable)
    (hfound : p'.editable? layerId = some editable)
    (hkept : ∀ other, other ≠ layerId → p'.editable? other = p.editable? other)
    (hlogged : SameAsLogged log envelope.command) :
    Versioned first (log ++ [envelope]) (insert p' moments) := by
  obtain ⟨-, hschema, hrevision, hfeatures⟩ := EditableLayer.new_ok hnew
  rw [hcommand] at hlogged
  refine h.extend (fun x hx => mem_append_left _ hx) ?_ ?_
  · intro other e he
    by_cases hother : other = layerId
    · rw [hother, hfound] at he
      cases he
      rw [hother]
      refine .inr ⟨?_, ?_⟩
      · rw [← hschema] at hcommand
        exact .initialized envelope (by simp) crs kind workflow hcommand hrevision hfeatures
      · intro q hq f hf hrev
        cases h.origin q hq layerId f hf with
        | first e₀ hread _ =>
          -- The first project has the layer, so every later one has.
          obtain ⟨e, he, -⟩ := h.later p hp layerId e₀ hread
          rw [habsent] at he
          cases he
        | initialized envelope' hmem crs' kind' workflow' hcommand' _ hempty =>
          have hsame := hlogged envelope' hmem crs' kind' f.schema workflow' hcommand'
          exact ⟨by rw [hempty, hfeatures], by rw [hsame, hschema]⟩
        | edited _ _ _ _ _ _ before _ _ _ _ hsucc => omega
    · rw [hkept other hother] at he
      exact .inl ⟨p, hp, he⟩
  · intro other e₀ he₀
    obtain ⟨e, he, hle⟩ := h.later p hp other e₀ he₀
    have hother : other ≠ layerId := by
      intro heq
      rw [heq, habsent] at he
      cases he
    exact ⟨e, by rw [hkept other hother, he], hle⟩

theorem Versioned.edit (h : Versioned first log moments) (hp : p ∈ moments) {layerId : Uuid}
    {expected : Nat} {edit : FeatureEdit} {workflow : MutationWorkflowBinding}
    {editable edited : EditableLayer} {receipt : EditReceipt}
    (hcommand : envelope.command = .editFeatures layerId expected edit workflow)
    (hread : p.editable? layerId = some editable)
    (happly : EditableLayer.apply expected edit editable = .ok receipt edited)
    (hfound : p'.editable? layerId = some edited)
    (hkept : ∀ other, other ≠ layerId → p'.editable? other = p.editable? other)
    (hlogged : SameAsLogged log envelope.command) :
    Versioned first (log ++ [envelope]) (insert p' moments) := by
  obtain ⟨hexpected, -⟩ := EditableLayer.apply_ok.mp happly
  have hcommand' := hcommand
  rw [hcommand] at hlogged
  obtain ⟨hmax, hedits⟩ := hlogged
  have hrevision : edited.revision = expected + 1 := by
    rw [(apply_frame happly).2.2, hexpected, saturatingSucc]
    omega
  rw [← hexpected] at hcommand' happly
  refine h.extend (fun x hx => mem_append_left _ hx) ?_ ?_
  · intro other e he
    by_cases hother : other = layerId
    · rw [hother, hfound] at he
      cases he
      rw [hother]
      refine .inr ⟨?_, ?_⟩
      · exact .edited envelope (by simp) edit workflow p hp editable receipt hread hcommand'
          happly (by omega)
      · intro q hq f hf hrev
        cases h.origin q hq layerId f hf with
        | first e₀ hread₀ hrev₀ =>
          -- The revision never falls below the one of the first project.
          obtain ⟨e, he, hle⟩ := h.later p hp layerId e₀ hread₀
          rw [hread] at he
          cases he
          omega
        | initialized _ _ _ _ _ _ hzero _ => omega
        | edited envelope₁ hmem edit₁ workflow₁ r hr before receipt₁ hread₁ hcommand₁ happly₁
            hsucc =>
          have hbefore : before.revision = editable.revision := by omega
          rw [hbefore, hexpected] at hcommand₁
          obtain rfl := hedits envelope₁ hmem edit₁ workflow₁ hcommand₁
          obtain ⟨hfeatures, hschema⟩ :=
            h.agree r hr p hp layerId before editable hread₁ hread hbefore
          exact apply_content hfeatures hschema happly₁ happly
    · rw [hkept other hother] at he
      exact .inl ⟨p, hp, he⟩
  · intro other e₀ he₀
    obtain ⟨e, he, hle⟩ := h.later p hp other e₀ he₀
    by_cases hother : other = layerId
    · rw [hother, hread] at he
      cases he
      rw [hother]
      exact ⟨edited, hfound, by omega⟩
    · exact ⟨e, by rw [hkept other hother, he], hle⟩

theorem Versioned.mutates (h : Versioned first log moments) (hp : p ∈ moments)
    (hversions : Versions envelope p p') (hlogged : SameAsLogged log envelope.command) :
    Versioned first (log ++ [envelope]) (insert p' moments) := by
  cases hversions with
  | same hkept => exact h.revisit hp (fun x hx => mem_append_left _ hx) hkept
  | initialized layerId crs kind schema workflow editable hcommand habsent hnew hfound hkept =>
    exact h.initialize hp hcommand habsent hnew hfound hkept hlogged
  | edited layerId expected edit workflow editable edited receipt hcommand hread happly hfound
      hkept =>
    exact h.edit hp hcommand hread happly hfound hkept hlogged

end Versions

/-! ## Runs -/

variable {rt : Runtime} {first : Project} {s s' : Session} {op : Op} {trace : List (Session × Op)}

def shown (trace : List (Session × Op)) (s : Session) : Set Project :=
  { p | ∃ q ∈ Path.visited trace s, q.project = p }

theorem shown_nil : shown [] s = {s.project} := by
  ext p
  simp [shown, Path.visited, eq_comm]

theorem shown_snoc : shown (trace ++ [(s, op)]) s' = insert s'.project (shown trace s) := by
  ext p
  simp only [shown, Path.visited_snoc, mem_append, mem_singleton, Set.mem_ofPred_eq,
    Set.mem_insert_iff]
  constructor
  · intro h
    obtain ⟨q, hq | hq, hproject⟩ := h
    · exact .inr ⟨q, hq, hproject⟩
    · rw [hq] at hproject
      exact .inl hproject.symm
  · intro h
    rcases h with h | ⟨q, hq, hproject⟩
    · exact ⟨s', .inr rfl, h.symm⟩
    · exact ⟨q, .inl hq, hproject⟩

theorem Called.auditLog (hcalled : Called rt s op s') :
    ∀ x ∈ s.bus.auditLog, x ∈ s'.bus.auditLog := by
  intro x hx
  cases hcalled with
  | command _ now envelope executor _ _ haccepted =>
    cases haccepted with
    | undo => exact mem_append_left _ hx
    | redo => exact mem_append_left _ hx
    | mutation => exact mem_append_left _ hx
  | register => exact hx
  | undo => exact hx
  | redo => exact hx

/-- The step of the run is no new content for a version that has one. -/
def KeepsVersions (s : Session) (op : Op) : Prop :=
  ∀ envelope, op.envelope? = some envelope → SameAsLogged s.bus.auditLog envelope.command

theorem path_versioned (path : Path (Accepts rt) (start first) trace s)
    (hsteps : ∀ x ∈ trace, KeepsVersions x.1 x.2) :
    Versioned first s.bus.auditLog (shown trace s) ∧ Keeps (· ∈ shown trace s) s := by
  induction path with
  | nil =>
    rw [shown_nil]
    exact ⟨versioned_start first, keeps_start rfl⟩
  | @snoc trace s s' op path haccepts ih =>
    obtain ⟨hversioned, hkeeps⟩ := ih fun x hx => hsteps x (mem_append_left _ hx)
    have hstep : KeepsVersions s op := hsteps (s, op) (by simp)
    have hcalled := haccepts.called
    rw [shown_snoc]
    have hmono : Keeps (· ∈ insert s'.project (shown trace s)) s :=
      ⟨Set.mem_insert_of_mem _ hkeeps.project,
        fun q hq => Set.mem_insert_of_mem _ (hkeeps.before q hq),
        fun q hq => Set.mem_insert_of_mem _ (hkeeps.after q hq)⟩
    refine ⟨?_, hmono.called hcalled (Set.mem_insert _ _)⟩
    rcases hcalled.project with ⟨now, envelope, executor, run, his, -, hmutates, hs'⟩ | ⟨-, hkept⟩
    · have hlog : s'.bus.auditLog = s.bus.auditLog ++ [envelope] := by
        rw [hs']
        rfl
      rw [hlog]
      exact hversioned.mutates hkeeps.project hmutates.versions (hstep envelope his)
    · exact hversioned.revisit (hkept _ hkeeps) hcalled.auditLog fun _ => rfl

theorem mem_shown {q : Session} (hq : q ∈ Path.visited trace s) : q.project ∈ shown trace s :=
  ⟨q, hq, rfl⟩

/-- In a run that repeats what was logged for the same version and never meets the largest revision,
an identifier and a revision have one content, and an edit finds the content that was read. -/
theorem path_versions (rt : Runtime) (first : Project) {trace : List (Session × Op)} {s : Session}
    (path : Path (Accepts rt) (start first) trace s)
    (hsteps : ∀ x ∈ trace, KeepsVersions x.1 x.2) :
    (∀ q ∈ Path.visited trace s, ∀ q' ∈ Path.visited trace s, ∀ layerId e f,
      q.project.editable? layerId = some e → q'.project.editable? layerId = some f →
      e.revision = f.revision → e.features = f.features ∧ e.schema = f.schema) ∧
    (∀ q ∈ Path.visited trace s, ∀ layerId e, q.project.editable? layerId = some e →
      ∀ now envelope executor edit workflow r s',
        envelope.command = .editFeatures layerId e.revision edit workflow →
        dispatch rt now envelope executor s = .ok r s' →
        ∃ f, s.project.editable? layerId = some f ∧ f.features = e.features ∧
          f.schema = e.schema) := by
  obtain ⟨hversioned, -⟩ := path_versioned path hsteps
  refine ⟨?_, ?_⟩
  · intro q hq q' hq' layerId e f he hf hrevision
    exact hversioned.agree _ (mem_shown hq) _ (mem_shown hq') layerId e f he hf hrevision
  · intro q hq layerId e he now envelope executor edit workflow r s' hcommand hdispatch
    cases dispatch_ok.mp ⟨r, hdispatch⟩ with
    | undo _ hundo =>
      rw [hcommand] at hundo
      cases hundo
    | redo _ hredo =>
      rw [hcommand] at hredo
      cases hredo
    | mutation run after _ _ _ hmutates =>
      rw [Project.Mutates, hcommand] at hmutates
      obtain ⟨before, f, edited, rest, receipt, hfirst, happly, -⟩ := hmutates
      have hrevision : f.revision = e.revision := (EditableLayer.apply_ok.mp happly).1
      obtain ⟨hfeatures, hschema⟩ := hversioned.agree _ (mem_shown Path.last_mem_visited) _
        (mem_shown hq) layerId f e hfirst.find? he hrevision
      exact ⟨f, hfirst.find?, hfeatures, hschema⟩

def createRoad (id : Nat) (code : String) : CommandEnvelope :=
  boundEnvelope id (.editFeatures (Uuid.ofNat 1) 0
    (.create { sampleDraft with
      id := code, attributes := .ofList [("code", AttributeValue.text code)] })
    (boundTo "create"))

theorem accepts_createRoad (id : Nat) {code : String} {s : Session}
    (hworkflow : s.bus.workflows[editWorkflow.id]? = some editWorkflow)
    (hmutable : mutable (createRoad id code) none s.project = true) :
    Accepts .reference s (.apply ⟨0⟩ (createRoad id code)) (s.issue (createRoad id code)) :=
  accepts_issue (by simp [createRoad, boundEnvelope, sampleEnvelope])
    (by simp [createRoad, boundEnvelope, sampleEnvelope])
    (authorized_bound rfl hworkflow ⟨_, rfl, rfl⟩) hmutable

def roadCreated : Session := roadsEditable.issue (createRoad 3 "a")

theorem accepts_roadCreated :
    Accepts .reference roadsEditable (.apply ⟨0⟩ (createRoad 3 "a")) roadCreated :=
  accepts_createRoad 3 roadsBound_workflow (by decide +kernel)

/-- Every road of the created layer was read with it. -/
theorem path_versions_roadCreated :
    ∃ trace, Path (Accepts .reference) (start sampleProject) trace roadCreated ∧
      ∀ q ∈ Path.visited trace roadCreated, ∀ e f, q.project.editable? (Uuid.ofNat 1) = some e →
        roadCreated.project.editable? (Uuid.ofNat 1) = some f →
        e.revision = f.revision → e.features = f.features ∧ e.schema = f.schema := by
  refine ⟨_, path_roadsEditable.snoc accepts_roadCreated, ?_⟩
  intro q hq e f he hf hrevision
  refine (path_versions .reference sampleProject (path_roadsEditable.snoc accepts_roadCreated)
    ?_).1 q hq roadCreated Path.last_mem_visited (Uuid.ofNat 1) e f he hf hrevision
  intro x hx
  simp only [cons_append, nil_append, mem_cons, not_mem_nil, or_false] at hx
  rcases hx with rfl | rfl | rfl | rfl
  · intro envelope h
    cases h
    trivial
  · intro envelope h
    cases h
  · intro envelope h
    cases h
    intro other hother crs kind schema workflow hcommand
    rw [show (roadsBound, Op.apply ⟨0⟩ initializeRoads).1.bus.auditLog = [addRoads] from rfl,
      mem_singleton] at hother
    rw [hother] at hcommand
    cases hcommand
  · intro envelope h
    cases h
    refine ⟨by decide, ?_⟩
    intro other hother edit workflow hcommand
    rw [show (roadsEditable, Op.apply ⟨0⟩ (createRoad 3 "a")).1.bus.auditLog =
      [addRoads, initializeRoads] from rfl] at hother
    simp only [mem_cons, not_mem_nil, or_false] at hother
    rcases hother with rfl | rfl
    · cases hcommand
    · cases hcommand

/-- A road is created, the creation is undone, and another road is created: both
layers have revision 1. -/
theorem undo_reuses_revision : ∃ trace s, Path (Accepts .reference) (start sampleProject) trace s ∧
      ∃ q ∈ Path.visited trace s, ∃ e f, q.project.editable? (Uuid.ofNat 1) = some e ∧
        s.project.editable? (Uuid.ofNat 1) = some f ∧
        e.revision = f.revision ∧ e.features ≠ f.features := by
  let undone := roadCreated.moveTo 2 roadsEditable.project
  let recreated := undone.issue (createRoad 4 "b")
  have hundo : Accepts .reference roadCreated .undo undone := undo_ok.mpr ⟨by decide, _, rfl, rfl⟩
  have hcreate : Accepts .reference undone (.apply ⟨0⟩ (createRoad 4 "b")) recreated :=
    accepts_createRoad 4 roadsBound_workflow (by decide +kernel)
  have hfirst : (roadCreated.project.editable? (Uuid.ofNat 1)).any
      (fun e => e.revision = 1 && e.features.contains "a") = true := by
    decide +kernel
  have hsecond : (recreated.project.editable? (Uuid.ofNat 1)).any
      (fun e => e.revision = 1 && !e.features.contains "a") = true := by
    decide +kernel
  rw [Option.any_eq_true] at hfirst hsecond
  obtain ⟨e, he, hecontent⟩ := hfirst
  obtain ⟨f, hf, hfcontent⟩ := hsecond
  simp only [Bool.and_eq_true, decide_eq_true_eq, Bool.not_eq_true'] at hecontent hfcontent
  refine ⟨_, recreated, ((path_roadsEditable.snoc accepts_roadCreated).snoc hundo).snoc hcreate,
    roadCreated, by simp [Path.visited], e, f, he, hf, ?_, ?_⟩
  · rw [hecontent.1, hfcontent.1]
  · intro heq
    rw [heq, hfcontent.2] at hecontent
    exact Bool.false_ne_true hecontent.2

end Session
end GeneGIS
