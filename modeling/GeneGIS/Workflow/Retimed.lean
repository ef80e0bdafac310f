/-
Retrieval times.

They are left out of the document only after its lists have been sorted by a text that has them and
a step without a name got one from its parameters.  Digests agree exactly when neither makes a
difference.
-/
import GeneGIS.Workflow.Alike
import GeneGIS.Workflow.Authorises

namespace GeneGIS

open List

open GeoWorkflow (retrievalFields)
open WorkflowStep (nodeId)
open Value (members members_cons ofOption optional_eq strip strip_members_eq strip_str)

/-! ## Contracts without their times -/

theorem strip_option_eq {α β : Type} {write : α → Value} {view : α → β}
    (h : ∀ {a b : α}, view a = view b →
      (write a).strip retrievalFields = (write b).strip retrievalFields)
    {o p : Option α} (hview : o.map view = p.map view) :
    (o.map write).map (strip retrievalFields) = (p.map write).map (strip retrievalFields) := by
  cases o with
  | none =>
    cases p with
    | none => rfl
    | some b => cases hview
  | some a =>
    cases p with
    | none => cases hview
    | some b => exact congrArg some (h (Option.some.inj hview))

theorem strip_ofOption {α : Type} (write : α → Value) (o : Option α) :
    (ofOption write o).strip retrievalFields =
      ((o.map write).map (strip retrievalFields)).getD .null := by
  cases o <;> rfl

namespace SourceMetadata

def untimed (s : SourceMetadata) : SourceMetadata := { s with retrievedAt := none }

theorem strip_eq {a b : SourceMetadata} (h : a.untimed = b.untimed) :
    a.toJson.strip retrievalFields = b.toJson.strip retrievalFields := by
  have hmembers : ∀ s : SourceMetadata, s.toJson = .object (members
      [("dataset_id", fun s : SourceMetadata => s.datasetId.map .str),
        ("uri", fun s => some (.str s.uri)), ("license", fun s => s.license.map .str),
        ("checksum", fun s => s.checksum.map .str),
        ("expected_checksum", fun s => s.expectedChecksum.map .str),
        ("observed_checksum", fun s => s.observedChecksum.map .str),
        ("retrieved_at", fun s => s.retrievedAt.map .str),
        ("source_version", fun s => s.sourceVersion.map .str),
        ("checksum_status", fun s => some (.str s.checksumStatus.asStr))] s) := by
    intro s
    simp [toJson, members_cons, optional_eq]
  rw [hmembers, hmembers, strip_members_eq _ (by simp)]
  simp only [untimed, mk.injEq] at h
  obtain ⟨h₁, h₂, h₃, h₄, h₅, h₆, -, h₈, h₉⟩ := h
  simp [h₁, h₂, h₃, h₄, h₅, h₆, h₈, h₉]

end SourceMetadata

namespace SourceContract

def untimed (c : SourceContract) : SourceContract := { c with snapshot := c.snapshot.untimed }

theorem strip_eq {a b : SourceContract} (h : a.untimed = b.untimed) :
    a.toJson.strip retrievalFields = b.toJson.strip retrievalFields := by
  have hmembers : ∀ c : SourceContract, c.toJson = .object (members
      [("snapshot", fun c : SourceContract => some c.snapshot.toJson),
        ("authority", fun c => c.authority.map .str),
        ("max_age_days", fun c => c.maxAgeDays.map .ofNat)] c) := by
    intro c
    simp [toJson, members_cons, optional_eq]
  rw [hmembers, hmembers, strip_members_eq _ (by simp)]
  simp only [untimed, mk.injEq] at h
  obtain ⟨hsnapshot, hauthority, hage⟩ := h
  simp [SourceMetadata.strip_eq hsnapshot, hauthority, hage]

end SourceContract

namespace GeoContract

def untimed (c : GeoContract) : GeoContract :=
  { c with source := c.source.map SourceContract.untimed }

theorem strip_eq {a b : GeoContract} (h : a.untimed = b.untimed) :
    a.toJson.strip retrievalFields = b.toJson.strip retrievalFields := by
  have hmembers : ∀ c : GeoContract, c.toJson = .object (members
      [("schema_version", fun c : GeoContract => some (.str c.schemaVersion)),
        ("id", fun c => some (.str c.id)), ("spatial", fun c => c.spatial.map SpatialContract.toJson),
        ("measure", fun c => c.measure.map MeasureContract.toJson),
        ("temporal", fun c => c.temporal.map TemporalContract.toJson),
        ("coverage", fun c => c.coverage.map CoverageContract.toJson),
        ("source", fun c => c.source.map SourceContract.toJson),
        ("quality", fun c => some c.quality.toJson)] c) := by
    intro c
    simp [toJson, members_cons, optional_eq]
  rw [hmembers, hmembers, strip_members_eq _ (by simp)]
  simp only [untimed, mk.injEq] at h
  obtain ⟨h₁, h₂, h₃, h₄, h₅, h₆, hsource, h₈⟩ := h
  have hstrip := strip_option_eq SourceContract.strip_eq hsource
  simp only [Option.map_map] at hstrip
  simp [h₁, h₂, h₃, h₄, h₅, h₆, hstrip, h₈]

theorem validate_untimed (c : GeoContract) : c.untimed.validate = c.validate := by
  have hsource : whenSome c.untimed.source validateSource = whenSome c.source validateSource := by
    rw [untimed]
    cases c.source <;> rfl
  rw [validate, validate, hsource]
  rfl

end GeoContract

namespace WorkflowPortContract

def untimed (c : WorkflowPortContract) : WorkflowPortContract :=
  { c with contract := c.contract.untimed }

theorem strip_eq {a b : WorkflowPortContract} (h : a.untimed = b.untimed) :
    a.toJson.strip retrievalFields = b.toJson.strip retrievalFields := by
  simp only [untimed, mk.injEq] at h
  refine (Value.strip_pair_eq (by decide) (by decide) (by decide)).mpr ⟨?_, ?_⟩
  · rw [h.1]
  · exact GeoContract.strip_eq h.2

theorem port_of_strip {a b : WorkflowPortContract}
    (h : a.toJson.strip retrievalFields = b.toJson.strip retrievalFields) : a.port = b.port := by
  have hport := ((Value.strip_pair_eq (by decide) (by decide) (by decide)).mp h).1
  rwa [strip_str, strip_str, Value.str_inj] at hport

end WorkflowPortContract

namespace WorkflowInputContract

def untimed (c : WorkflowInputContract) : WorkflowInputContract :=
  { c with
    sourceSnapshot := c.sourceSnapshot.map SourceMetadata.untimed
    geoContract := c.geoContract.map GeoContract.untimed }

theorem strip_eq_iff {a b : WorkflowInputContract} :
    a.toJson.strip retrievalFields = b.toJson.strip retrievalFields ↔ a.name = b.name ∧
      (ofOption Crs.toJson a.crs).strip retrievalFields =
        (ofOption Crs.toJson b.crs).strip retrievalFields ∧
      (ofOption CoordinateUnit.toJson a.coordinateUnit).strip retrievalFields =
        (ofOption CoordinateUnit.toJson b.coordinateUnit).strip retrievalFields ∧
      (ofOption .str a.valueUnit).strip retrievalFields =
        (ofOption .str b.valueUnit).strip retrievalFields ∧
      (ofOption SourceMetadata.toJson a.sourceSnapshot).strip retrievalFields =
        (ofOption SourceMetadata.toJson b.sourceSnapshot).strip retrievalFields ∧
      (a.geoContract.map GeoContract.toJson).map (strip retrievalFields) =
        (b.geoContract.map GeoContract.toJson).map (strip retrievalFields) := by
  have hmembers : ∀ c : WorkflowInputContract, c.toJson = .object (members
      [("name", fun c : WorkflowInputContract => some (.str c.name)),
        ("crs", fun c => some (.ofOption Crs.toJson c.crs)),
        ("coordinate_unit", fun c => some (.ofOption CoordinateUnit.toJson c.coordinateUnit)),
        ("value_unit", fun c => some (.ofOption .str c.valueUnit)),
        ("source_snapshot", fun c => some (.ofOption SourceMetadata.toJson c.sourceSnapshot)),
        ("geo_contract", fun c => c.geoContract.map GeoContract.toJson)] c) := by
    intro c
    simp [toJson, members_cons, optional_eq]
  rw [hmembers, hmembers, strip_members_eq _ (by simp)]
  simp

theorem strip_eq {a b : WorkflowInputContract} (h : a.untimed = b.untimed) :
    a.toJson.strip retrievalFields = b.toJson.strip retrievalFields := by
  simp only [untimed, mk.injEq] at h
  obtain ⟨hname, hcrs, hunit, hvalue, hsnapshot, hgeo⟩ := h
  rw [strip_eq_iff, hname, hcrs, hunit, hvalue]
  refine ⟨rfl, rfl, rfl, rfl, ?_, strip_option_eq GeoContract.strip_eq hgeo⟩
  rw [strip_ofOption, strip_ofOption, strip_option_eq SourceMetadata.strip_eq hsnapshot]

end WorkflowInputContract

namespace GeoWorkflow

variable {rt : Runtime} {w w' : GeoWorkflow}

theorem validateInputContract_untimed (c : WorkflowInputContract) :
    validateInputContract c.untimed = validateInputContract c := by
  rw [validateInputContract, validateInputContract]
  obtain ⟨name, crs, unit, value, snapshot, geo⟩ := c
  cases geo with
  | none => cases snapshot <;> rfl
  | some g =>
    simp only [WorkflowInputContract.untimed, Option.map_some, GeoContract.validate_untimed]
    obtain ⟨version, id, spatial, measure, temporal, coverage, source, quality⟩ := g
    cases snapshot <;> cases source <;> rfl

/-! ## Versions -/

/-- The same step up to the retrieval times in its documents and contracts. -/
structure StepRetimed (s t : WorkflowStep) : Prop where
  stableId : s.stableId = t.stableId
  operation : s.operation = t.operation
  parameters : s.parameters.strip retrievalFields = t.parameters.strip retrievalFields
  expectedSchema : s.expectedSchema.map (strip retrievalFields) =
    t.expectedSchema.map (strip retrievalFields)
  validation : s.validation.map (strip retrievalFields) =
    t.validation.map (strip retrievalFields)
  provenance : s.provenance = t.provenance
  dependsOn : s.dependsOn = t.dependsOn
  inputs : s.inputs = t.inputs
  outputs : s.outputs = t.outputs
  outputContracts : s.outputContracts.map WorkflowPortContract.untimed =
    t.outputContracts.map WorkflowPortContract.untimed

/-- The same workflow up to the retrieval times of its source snapshots. -/
structure Retimed (w w' : GeoWorkflow) : Prop where
  goal : w.goal = w'.goal
  assumptions : w.assumptions = w'.assumptions
  inputs : w.inputs = w'.inputs
  outputs : w.outputs = w'.outputs
  outputRefs : w.outputRefs = w'.outputRefs
  citations : w.citations = w'.citations
  inputContracts : w.inputContracts.map WorkflowInputContract.untimed =
    w'.inputContracts.map WorkflowInputContract.untimed
  steps : Forall₂ StepRetimed w.steps w'.steps

/-- Two lists, entry by entry, are ordered alike by the texts of their entries. -/
def SortedAlike {α : Type} (rt : Runtime) (write : α → Value) (l m : List α) : Prop :=
  ∀ e ∈ l.zip m, ∀ f ∈ l.zip m,
    (TextOrder rt (write e.1) (write f.1) ↔ TextOrder rt (write e.2) (write f.2))

instance {α : Type} (rt : Runtime) (write : α → Value) (l m : List α) :
    Decidable (SortedAlike rt write l m) :=
  inferInstanceAs (Decidable (∀ e ∈ l.zip m, ∀ f ∈ l.zip m,
    (TextOrder rt (write e.1) (write f.1) ↔ TextOrder rt (write e.2) (write f.2))))

/-- The retrieval times decide nothing: steps keep their identifiers, and contracts compare as
before. -/
structure Unmoved (rt : Runtime) (w w' : GeoWorkflow) : Prop where
  ids : w.steps.map (nodeId rt) = w'.steps.map (nodeId rt)
  inputContracts : SortedAlike rt WorkflowInputContract.toJson w.inputContracts w'.inputContracts
  outputContracts : ∀ e ∈ w.steps.zip w'.steps,
    SortedAlike rt WorkflowPortContract.toJson e.1.outputContracts e.2.outputContracts

/-- Sorted lists agree up to hidden members when these do not change how the entries compare. -/
theorem strip_sortedList_iff {α : Type} {write : α → Value} (hf : Json.FloatText rt.floatText)
    {l m : List α}
    (hsame : Forall₂ (fun a b => (write a).strip retrievalFields =
      (write b).strip retrievalFields) l m)
    (hdistinct : (l.map fun a => (write a).strip retrievalFields).Nodup) :
    (sortedList rt write l).strip retrievalFields = (sortedList rt write m).strip retrievalFields ↔
      SortedAlike rt write l m := by
  obtain ⟨hlength, hzip⟩ := forall₂_iff_zip.mp hsame
  let r : α × α → α × α → Prop := fun e f => TextOrder rt (write e.1) (write f.1)
  let s : α × α → α × α → Prop := fun e f => TextOrder rt (write e.2) (write f.2)
  let view : α × α → Value := fun e => (write e.1).strip retrievalFields
  have hdr : DecidableRel r := fun e f => inferInstanceAs (Decidable (TextOrder rt _ _))
  have hds : DecidableRel s := fun e f => inferInstanceAs (Decidable (TextOrder rt _ _))
  have hr : Std.Total r := ⟨fun e f => total_of (TextOrder rt) _ _⟩
  have hs : Std.Total s := ⟨fun e f => total_of (TextOrder rt) _ _⟩
  have hrt : IsTrans _ r := ⟨fun _ _ _ => trans_of (TextOrder rt)⟩
  have hst : IsTrans _ s := ⟨fun _ _ _ => trans_of (TextOrder rt)⟩
  have hfst : (l.zip m).map Prod.fst = l := map_fst_zip hlength.le
  have hsnd : (l.zip m).map Prod.snd = m := map_snd_zip hlength.ge
  have hview : ∀ e ∈ l.zip m, view e = (write e.2).strip retrievalFields := fun e he => hzip he
  have hinj : ∀ e ∈ l.zip m, ∀ f ∈ l.zip m, view e = view f → e = f := by
    have hnodup : ((l.zip m).map view).Nodup := by
      rw [← hfst, map_map] at hdistinct
      exact hdistinct
    exact fun e he f hf => inj_on_of_nodup_map hnodup he hf
  have hleft : (rt.sortByCanonicalJson (l.map write)).map (strip retrievalFields) =
      ((l.zip m).insertionSort r).map view := by
    rw [sortByCanonicalJson_eq, ← congrArg (List.map write) hfst, map_map,
      ← map_insertionSort (r := r) (s := TextOrder rt) (write ∘ Prod.fst) (l.zip m)
        (fun _ _ _ _ => Iff.rfl), map_map]
    rfl
  have hright : (rt.sortByCanonicalJson (m.map write)).map (strip retrievalFields) =
      ((l.zip m).insertionSort s).map view := by
    rw [sortByCanonicalJson_eq, ← congrArg (List.map write) hsnd, map_map,
      ← map_insertionSort (r := s) (s := TextOrder rt) (write ∘ Prod.snd) (l.zip m)
        (fun _ _ _ _ => Iff.rfl), map_map]
    refine map_congr_left ?_
    intro e he
    exact (hview e ((mem_insertionSort s).mp he)).symm
  rw [strip_sortedList_eq, hleft, hright, Sorted.map_insertionSort_eq_iff r s hinj]
  · rfl
  · intro e he f hf' hef hfe
    refine hinj e he f hf' ?_
    exact congrArg (strip retrievalFields) (TextOrder.antisymm hf hef hfe)
  · intro e he f hf' hef hfe
    refine hinj e he f hf' ?_
    rw [hview e he, hview f hf', TextOrder.antisymm hf hef hfe]

theorem forall₂_strip {α β : Type} {write : α → Value} {view : α → β} {l m : List α}
    (h : ∀ {a b : α}, view a = view b →
      (write a).strip retrievalFields = (write b).strip retrievalFields)
    (hlm : l.map view = m.map view) :
    Forall₂ (fun a b => (write a).strip retrievalFields = (write b).strip retrievalFields) l m := by
  rw [← forall₂_eq_eq_eq, forall₂_map_left_iff, forall₂_map_right_iff] at hlm
  exact hlm.imp fun _ _ => h

theorem nodup_strip {α : Type} {write : α → Value} {name : α → String} {l : List α}
    (h : ∀ {a b : α}, (write a).strip retrievalFields = (write b).strip retrievalFields →
      name a = name b) (hl : (l.map name).Nodup) :
    (l.map fun a => (write a).strip retrievalFields).Nodup := by
  rw [Nodup, pairwise_map] at *
  exact hl.imp fun hne heq => hne (h heq)

theorem strip_inputContracts_iff (hf : Json.FloatText rt.floatText)
    {l m : List WorkflowInputContract}
    (hlm : l.map WorkflowInputContract.untimed = m.map WorkflowInputContract.untimed)
    (hl : (l.map WorkflowInputContract.name).Nodup) :
    (sortedList rt WorkflowInputContract.toJson l).strip retrievalFields =
        (sortedList rt WorkflowInputContract.toJson m).strip retrievalFields ↔
      SortedAlike rt WorkflowInputContract.toJson l m :=
  strip_sortedList_iff hf (forall₂_strip WorkflowInputContract.strip_eq hlm)
    (nodup_strip (fun h => (WorkflowInputContract.strip_eq_iff.mp h).1) hl)

theorem strip_outputContracts_iff (hf : Json.FloatText rt.floatText)
    {l m : List WorkflowPortContract}
    (hlm : l.map WorkflowPortContract.untimed = m.map WorkflowPortContract.untimed)
    (hl : (l.map WorkflowPortContract.port).Nodup) :
    (sortedList rt WorkflowPortContract.toJson l).strip retrievalFields =
        (sortedList rt WorkflowPortContract.toJson m).strip retrievalFields ↔
      SortedAlike rt WorkflowPortContract.toJson l m :=
  strip_sortedList_iff hf (forall₂_strip WorkflowPortContract.strip_eq hlm)
    (nodup_strip WorkflowPortContract.port_of_strip hl)

/-! ## Graphs -/

structure NodeRetimed (n m : Node) : Prop where
  id : n.id = m.id
  deps : n.deps = m.deps
  inputs : n.inputs = m.inputs
  step : StepRetimed n.step m.step

theorem graphNodes_retimed {steps steps' : List WorkflowStep} (legacy : Bool)
    (previous : Option WorkflowNodeId) (h : Forall₂ StepRetimed steps steps')
    (hids : steps.map (nodeId rt) = steps'.map (nodeId rt)) :
    Forall₂ NodeRetimed (graphNodes rt legacy previous steps)
      (graphNodes rt legacy previous steps') := by
  induction h generalizing previous with
  | nil => exact .nil
  | @cons s t rest rest' hst _ ih =>
    obtain ⟨hid, hrest⟩ := cons.inj hids
    have hnext := ih (some (t.nodeId rt)) hrest
    cases legacy with
    | false =>
      simp only [graphNodes, hid]
      exact .cons ⟨rfl, hst.dependsOn, hst.inputs, hst⟩ hnext
    | true =>
      cases previous with
      | none =>
        simp only [graphNodes, hid]
        exact .cons ⟨rfl, hst.dependsOn, hst.inputs, hst⟩ hnext
      | some p =>
        simp only [graphNodes, hid]
        exact .cons ⟨rfl, rfl, rfl, hst⟩ hnext

namespace Retimed

variable (h : Retimed w w')

include h

theorem isLegacyLinear : w'.isLegacyLinear = w.isLegacyLinear := by
  have hall : ∀ {steps steps' : List WorkflowStep}, Forall₂ StepRetimed steps steps' →
      steps'.all (fun s => Text.isBlank s.stableId && s.dependsOn.isEmpty && s.inputs.isEmpty &&
          s.outputs.isEmpty) =
        steps.all (fun s => Text.isBlank s.stableId && s.dependsOn.isEmpty && s.inputs.isEmpty &&
          s.outputs.isEmpty) := by
    intro steps steps' hsteps
    induction hsteps with
    | nil => rfl
    | cons hst _ ih =>
      rw [all_cons, all_cons, ih, hst.stableId, hst.dependsOn, hst.inputs, hst.outputs]
  exact hall h.steps

theorem nodes (hids : w.steps.map (nodeId rt) = w'.steps.map (nodeId rt)) :
    Forall₂ NodeRetimed (w.graph rt) (w'.graph rt) := by
  rw [graph, graph, h.isLegacyLinear]
  exact graphNodes_retimed _ _ h.steps hids

theorem alike (hids : w.steps.map (nodeId rt) = w'.steps.map (nodeId rt)) : Alike rt w w' := by
  refine ⟨h.isLegacyLinear, Perm.of_eq ?_, Perm.of_eq h.outputRefs, _, .refl _, ?_⟩
  · have hview := congrArg (List.map fun c => (c.name, validateInputContract c)) h.inputContracts
    simp only [map_map, Function.comp_def, validateInputContract_untimed] at hview
    exact hview
  · refine (h.nodes hids).imp ?_
    intro n m hnm
    refine ⟨hnm.id, .of_eq hnm.deps, .of_eq hnm.inputs, .of_eq hnm.step.outputs, .of_eq ?_⟩
    have hview := congrArg (List.map fun c : WorkflowPortContract => (c.port, c.contract.validate))
      hnm.step.outputContracts
    simp only [map_map, Function.comp_def, WorkflowPortContract.untimed,
      GeoContract.validate_untimed] at hview
    exact hview

omit h in
theorem mem_zip_steps {e : WorkflowStep × WorkflowStep} (rt : Runtime) : e ∈ w.steps.zip w'.steps ↔
      ∃ n m, (n, m) ∈ (w.graph rt).zip (w'.graph rt) ∧ e = (n.step, m.step) := by
  rw [← @graph_steps rt w, ← @graph_steps rt w', zip_map, mem_map]
  constructor
  · intro he
    obtain ⟨⟨n, m⟩, hnm, rfl⟩ := he
    exact ⟨n, m, hnm, rfl⟩
  · intro he
    obtain ⟨n, m, hnm, rfl⟩ := he
    exact ⟨(n, m), hnm, rfl⟩

theorem digestOutputRefs_eq (hids : w.steps.map (nodeId rt) = w'.steps.map (nodeId rt)) :
    digestOutputRefs w'.isLegacyLinear w' (w'.graph rt) =
      digestOutputRefs w.isLegacyLinear w (w.graph rt) := by
  have hlast : ((w'.graph rt).getLast?).map Node.id = ((w.graph rt).getLast?).map Node.id := by
    rw [← getLast?_map, ← getLast?_map]
    show (ids (w'.graph rt)).getLast? = (ids (w.graph rt)).getLast?
    rw [ids_graph, ids_graph, hids]
  have hread : ∀ (v : GeoWorkflow) (graph : List Node), digestOutputRefs w.isLegacyLinear v graph =
      if v.outputRefs.isEmpty && w.isLegacyLinear then
        ((graph.getLast?.map Node.id).map fun id => WorkflowDataRef.output id "result").toList
      else v.outputRefs := by
    intro v graph
    rw [digestOutputRefs]
    cases graph.getLast? <;> rfl
  rw [h.isLegacyLinear, hread, hread, hlast, h.outputRefs]

theorem stepDocument_iff (hf : Json.FloatText rt.floatText) {n m : Node} (hnm : NodeRetimed n m)
    (hports : (n.step.outputContracts.map WorkflowPortContract.port).Nodup) :
    (stepDocument rt w.isLegacyLinear n).strip retrievalFields =
        (stepDocument rt w'.isLegacyLinear m).strip retrievalFields ↔
      SortedAlike rt WorkflowPortContract.toJson n.step.outputContracts m.step.outputContracts := by
  have hexported : m.exported w'.isLegacyLinear = n.exported w.isLegacyLinear := by
    rw [Node.exported, Node.exported, h.isLegacyLinear, hnm.id, hnm.step.outputs]
  have hgetD : ∀ {o p : Option Value}, o.map (strip retrievalFields) =
      p.map (strip retrievalFields) →
        (o.getD .null).strip retrievalFields = (p.getD .null).strip retrievalFields := by
    intro o p hop
    have hread : ∀ o : Option Value, (o.getD .null).strip retrievalFields =
        (o.map (strip retrievalFields)).getD .null := by
      intro o
      cases o <;> rfl
    rw [hread, hread, hop]
  rw [stepDocument_eq_iff, hexported, ← hnm.id, ← hnm.deps, ← hnm.inputs, ← hnm.step.operation,
    ← hnm.step.provenance, strip_outputContracts_iff hf hnm.step.outputContracts hports]
  simp only [hnm.step.parameters, hgetD hnm.step.expectedSchema, hgetD hnm.step.validation,
    true_and]

theorem stepDocuments_iff (hf : Json.FloatText rt.floatText) (hw : Valid rt w) (hw' : Valid rt w')
    (hids : w.steps.map (nodeId rt) = w'.steps.map (nodeId rt)) :
    stepDocuments rt w = stepDocuments rt w' ↔ ∀ e ∈ w.steps.zip w'.steps,
        SortedAlike rt WorkflowPortContract.toJson e.1.outputContracts e.2.outputContracts := by
  obtain ⟨hlength, hzip⟩ := forall₂_iff_zip.mp (h.nodes hids)
  have hiff : ∀ n m, (n, m) ∈ (w.graph rt).zip (w'.graph rt) → _ := fun n m hnm =>
    h.stepDocument_iff hf (hzip hnm) (hw.ports n (of_mem_zip hnm).1)
  constructor
  · intro heq e he
    obtain ⟨n, m, hnm, rfl⟩ := (mem_zip_steps rt).mp he
    obtain ⟨m', hm', hdocument⟩ := stepDocuments_node heq (of_mem_zip hnm).1
    have hid := (stepDocument_eq_iff.mp hdocument).1
    obtain rfl := inj_on_of_nodup_map hw'.nodup hm' (of_mem_zip hnm).2
      (hid.symm.trans (hzip hnm).id)
    exact (hiff n m' hnm).mp hdocument
  · intro hall
    refine map_sortNodes hf _ _ (Perm.of_eq ?_) hw.nodup
    rw [← forall₂_eq_eq_eq, forall₂_map_left_iff, forall₂_map_right_iff, forall₂_iff_zip]
    refine ⟨hlength, ?_⟩
    intro n m hnm
    exact Prod.ext (hzip hnm).id
      ((hiff n m hnm).mpr (hall _ ((mem_zip_steps rt).mpr ⟨n, m, hnm, rfl⟩)))

theorem digestDocument_iff (hf : Json.FloatText rt.floatText) (hw : Valid rt w) (hw' : Valid rt w')
    (hids : w.steps.map (nodeId rt) = w'.steps.map (nodeId rt)) :
    w.digestDocument rt = w'.digestDocument rt ↔
      SortedAlike rt WorkflowInputContract.toJson w.inputContracts w'.inputContracts ∧
        ∀ e ∈ w.steps.zip w'.steps,
          SortedAlike rt WorkflowPortContract.toJson e.1.outputContracts e.2.outputContracts := by
  rw [digestDocument_eq_iff, h.digestOutputRefs_eq hids, ← h.goal, ← h.assumptions, ← h.inputs,
    ← h.outputs, ← h.citations, strip_inputContracts_iff hf h.inputContracts hw.contractNames,
    h.stepDocuments_iff hf hw hw' hids]
  simp only [true_and, and_true]

theorem ids_of_document (hf : Json.FloatText rt.floatText) (hw : Valid rt w) (hw' : Valid rt w')
    (hdocument : stepDocuments rt w = stepDocuments rt w') :
    w.steps.map (nodeId rt) = w'.steps.map (nodeId rt) := by
  cases hlegacy : w.isLegacyLinear with
  | false =>
    -- Every step exports something under its own name.
    have hlegacy' := h.isLegacyLinear.trans hlegacy
    have hown : ∀ {v : GeoWorkflow}, Valid rt v → v.isLegacyLinear = false →
        ∀ s ∈ v.steps, s.outputs ≠ [] ∧ ∀ output ∈ s.outputs, output.node = some (s.nodeId rt) := by
      intro v hv hlegacy s hs
      rw [← @graph_steps rt v] at hs
      obtain ⟨n, hn, rfl⟩ := mem_map.mp hs
      obtain ⟨hne, hall⟩ := validateOutputs_ok.mp (hv.outputs hlegacy n hn)
      rw [← node_id_eq hn]
      exact ⟨hne, fun output houtput => (hall output houtput).1⟩
    obtain ⟨hlength, hzip⟩ := forall₂_iff_zip.mp h.steps
    rw [← forall₂_eq_eq_eq, forall₂_map_left_iff, forall₂_map_right_iff, forall₂_iff_zip]
    refine ⟨hlength, ?_⟩
    intro s t hst
    obtain ⟨hs, ht⟩ := of_mem_zip hst
    obtain ⟨hne, hs⟩ := hown hw hlegacy s hs
    obtain ⟨-, ht⟩ := hown hw' hlegacy' t ht
    obtain ⟨output, houtput⟩ := exists_mem_of_ne_nil _ hne
    exact Option.some.inj ((hs output houtput).symm.trans
      (ht output ((hzip hst).outputs ▸ houtput)))
  | true =>
    -- The chain of a legacy workflow determines the list.
    have hlegacy' := h.isLegacyLinear.trans hlegacy
    have hnodes : ∀ {v v' : GeoWorkflow}, stepDocuments rt v = stepDocuments rt v' →
        ∀ n ∈ v.graph rt, ∃ m ∈ v'.graph rt, n.id = m.id ∧ n.deps.Perm m.deps := by
      intro v v' hv n hn
      obtain ⟨m, hm, heq⟩ := stepDocuments_node hv hn
      obtain ⟨hid, -, -, -, -, -, hdeps, -⟩ := stepDocument_eq_iff.mp heq
      exact ⟨m, hm, hid, (strip_sortedList_perm hf (str_inj retrievalFields)).mp hdeps⟩
    have hmem : ∀ {v v' : GeoWorkflow}, stepDocuments rt v = stepDocuments rt v' →
        ∀ id ∈ ids (v.graph rt), id ∈ ids (v'.graph rt) := by
      intro v v' hv id hid
      obtain ⟨n, hn, rfl⟩ := mem_ids.mp hid
      obtain ⟨m, hm, hid, -⟩ := hnodes hv n hn
      exact mem_ids.mpr ⟨m, hm, hid.symm⟩
    have hdep : ∀ {v v' : GeoWorkflow}, stepDocuments rt v = stepDocuments rt v' →
        ∀ b a, Dep (v.graph rt) b a → Dep (v'.graph rt) b a := by
      intro v v' hv b a hba
      obtain ⟨n, hn, rfl, ha⟩ := hba
      obtain ⟨m, hm, hid, hdeps⟩ := hnodes hv n hn
      exact ⟨m, hm, hid.symm, hdeps.mem_iff.mp ha⟩
    have hsame : ∀ id, id ∈ ids (w'.graph rt) ↔ id ∈ ids (w.graph rt) :=
      fun id => ⟨hmem hdocument.symm id, hmem hdocument id⟩
    have hDep : Dep (w'.graph rt) = Dep (w.graph rt) := by
      funext b a
      exact propext ⟨hdep hdocument.symm b a, hdep hdocument b a⟩
    have hgreedy' := (greedy_legacy hlegacy' hw'.nodup).congr_nodes hsame
    rw [hDep] at hgreedy'
    rw [← ids_graph, ← ids_graph]
    exact (greedy_legacy hlegacy hw.nodup).unique (.refl _) hgreedy'
      ((perm_ext_iff_of_nodup hw'.nodup hw.nodup).mpr hsame)

end Retimed

/-- Two versions of a valid workflow have one digest exactly when the retrieval times neither name a
step nor order two contracts. The hash is only asked to tell these two apart. -/
theorem stableDigest_retimed_iff (h : Retimed w w') (hf : Json.FloatText rt.floatText)
    (hvalid : w.validate rt = .ok ())
    (hhash : rt.sha256 (rt.canonicalJson (w.digestDocument rt)) =
        rt.sha256 (rt.canonicalJson (w'.digestDocument rt)) →
      rt.canonicalJson (w.digestDocument rt) = rt.canonicalJson (w'.digestDocument rt)) :
    w'.stableDigest rt = w.stableDigest rt ↔ Unmoved rt w w' := by
  have hw := validate_ok.mp hvalid
  have hdigest : w.stableDigest rt = .ok (w.stableDigestUnchecked rt) := by
    rw [stableDigest, hvalid]
    rfl
  rw [hdigest]
  constructor
  · intro heq
    obtain ⟨_, hvalid', heq⟩ := Fallible.bind_iff.mp heq
    have hw' := validate_ok.mp hvalid'
    have htext : rt.sha256 (rt.canonicalJson (w.digestDocument rt)) =
        rt.sha256 (rt.canonicalJson (w'.digestDocument rt)) := by
      have hprefixed := Except.ok.inj heq
      rw [stableDigestUnchecked, stableDigestUnchecked, Runtime.digestJson, Runtime.digestJson]
        at hprefixed
      exact (String.append_right_inj _).mp hprefixed.symm
    have hdocument := Value.canonicalJson_inj hf (hhash htext)
    have hids := h.ids_of_document hf hw hw' (digestDocument_eq_iff.mp hdocument).2.2.2.2.2.2.1
    obtain ⟨hinputs, houtputs⟩ := (h.digestDocument_iff hf hw hw' hids).mp hdocument
    exact ⟨hids, hinputs, houtputs⟩
  · intro hunmoved
    have hw' := (h.alike hunmoved.ids).valid hw
    have hdocument := (h.digestDocument_iff hf hw hw' hunmoved.ids).mpr
      ⟨hunmoved.inputContracts, hunmoved.outputContracts⟩
    rw [stableDigest, validate_ok.mpr hw', stableDigestUnchecked, stableDigestUnchecked, hdocument]
    rfl

/-! Two inputs from one source, fetched at two times. -/

def fetchedInput (name retrievedAt : String) : WorkflowInputContract :=
  { name := name, crs := none, coordinateUnit := none, valueUnit := none, sourceSnapshot := none,
    geoContract := some { GeoContract.new "census" with
      source := some
        { snapshot := { SourceMetadata.new "file:census" with retrievedAt := some retrievedAt }
          authority := none, maxAgeDays := none } } }

def fetchedWorkflow (first second : String) : GeoWorkflow :=
  { plainWorkflow [plainStep "measure" []] with
    inputContracts := [fetchedInput "households" first, fetchedInput "persons" second] }

theorem fetchedWorkflow_retimed (first second first' second' : String) :
    Retimed (fetchedWorkflow first second) (fetchedWorkflow first' second') where
  goal := rfl
  assumptions := rfl
  inputs := rfl
  outputs := rfl
  outputRefs := rfl
  citations := rfl
  inputContracts := rfl
  steps := .cons ⟨rfl, rfl, rfl, rfl, rfl, rfl, rfl, rfl, rfl, rfl⟩ .nil

theorem fetchedWorkflow_unmoved : Unmoved .reference (fetchedWorkflow "2026-01-01" "2026-01-02")
      (fetchedWorkflow "2026-01-03" "2026-01-04") := by
  refine ⟨rfl, by decide +kernel, ?_⟩
  intro e he
  obtain rfl := mem_singleton.mp he
  decide

theorem stableDigest_retimed_iff_fetched :
    (fetchedWorkflow "2026-01-03" "2026-01-04").stableDigest .reference =
      (fetchedWorkflow "2026-01-01" "2026-01-02").stableDigest .reference := by
  have hretimed := fetchedWorkflow_retimed "2026-01-01" "2026-01-02" "2026-01-03" "2026-01-04"
  have hvalid : (fetchedWorkflow "2026-01-01" "2026-01-02").validate .reference = .ok () := by
    decide
  have hw := validate_ok.mp hvalid
  have hunmoved := fetchedWorkflow_unmoved
  have hdocument := (hretimed.digestDocument_iff Runtime.floatText_reference hw
    ((hretimed.alike hunmoved.ids).valid hw) hunmoved.ids).mpr
      ⟨hunmoved.inputContracts, hunmoved.outputContracts⟩
  exact (stableDigest_retimed_iff hretimed Runtime.floatText_reference hvalid
    fun _ => congrArg _ hdocument).mpr hunmoved

/-- The times decide which of the two inputs comes first. -/
theorem stableDigest_fetched_swapped :
    Retimed (fetchedWorkflow "2026-01-01" "2026-01-02") (fetchedWorkflow "2026-01-02" "2026-01-01") ∧
      (fetchedWorkflow "2026-01-01" "2026-01-02").validate .reference = .ok () ∧
      (fetchedWorkflow "2026-01-02" "2026-01-01").validate .reference = .ok () ∧
      (fetchedWorkflow "2026-01-02" "2026-01-01").stableDigest .reference ≠
        (fetchedWorkflow "2026-01-01" "2026-01-02").stableDigest .reference := by
  refine ⟨fetchedWorkflow_retimed _ _ _ _, by decide, by decide, ?_⟩
  decide +kernel

end GeoWorkflow
end GeneGIS
