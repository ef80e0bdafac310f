/-
The scheduler knows a step by its stable id and the validation by its node id.  A step whose stable
id is blank is planned under the blank name, and the steps after it are not.
-/
import GeneGIS.Core.Planning
import GeneGIS.Workflow.Alike
import GeneGIS.Workflow.Wiring

namespace GeneGIS.IncrementalScheduler

open GeoWorkflow Toposort
open List hiding all_eq_true contains_iff_mem isEmpty_iff mem_map
open Option hiding all_eq_true mem_map
open Std.ExtTreeSet hiding contains_iff_mem isEmpty_iff

variable {rt : Runtime} {w : GeoWorkflow} {inputName id : String} {change : IncrementalChange}

def Consumes (node : Node) (inputName : String) : Prop :=
  ∃ input ∈ node.inputs, input.node = none ∧ input.port = inputName

/-- The nodes that read the input, and those that depend on one of them, directly
or not. -/
def Affected (rt : Runtime) (w : GeoWorkflow) (inputName : String) (id : WorkflowNodeId) : Prop :=
  ∃ node ∈ w.graph rt, Consumes node inputName ∧ Relation.ReflTransGen (w.DependsOn rt) id node.id

/-- The plan names each affected node once, after the affected nodes it depends on. -/
structure Plans (rt : Runtime) (w : GeoWorkflow) (inputName : String)
    (decisions : List IncrementalDecision) : Prop where
  members : ∀ id, id ∈ decisions.map IncrementalDecision.nodeId ↔ Affected rt w inputName id
  nodup : (decisions.map IncrementalDecision.nodeId).Nodup
  ordered : Respects (fun b a => w.DependsOn rt b a ∧ Affected rt w inputName a)
    (decisions.map IncrementalDecision.nodeId)

/-- A change is planned, or nothing reads what has changed. -/
def PlansExactly (rt : Runtime) (w : GeoWorkflow) (change : IncrementalChange) : Prop :=
  match affectedDecisions w change with
  | .ok decisions => Plans rt w change.inputName decisions
  | .error _ => ∀ node ∈ w.graph rt, ¬ Consumes node change.inputName

variable {step : WorkflowStep}

theorem legacy_inputs (hlegacy : w.isLegacyLinear = true)
    (hstep : step ∈ w.steps) : step.inputs = [] := by
  rw [isLegacyLinear, List.all_eq_true] at hlegacy
  have hplain := hlegacy step hstep
  simp only [Bool.and_eq_true, List.isEmpty_iff] at hplain
  exact hplain.1.2

variable {node : Node}

/-- In a workflow without edges the steps read each other and no graph input. -/
theorem linear_reads {steps : List WorkflowStep} (hsteps : ∀ step ∈ steps, step.inputs = [])
    (previous : Option WorkflowNodeId)
    (hnode : node ∈ graphNodes rt true previous steps) : ¬ Consumes node inputName := by
  induction steps generalizing previous with
  | nil => cases hnode
  | cons step rest ih =>
    have hrest : ∀ s ∈ rest, s.inputs = [] := fun s hs => hsteps s (mem_cons_of_mem _ hs)
    cases previous with
    | none =>
      rw [graphNodes, mem_cons] at hnode
      · rcases hnode with rfl | hnode
        · simp [Consumes, hsteps step mem_cons_self]
        · exact ih hrest _ hnode
      · intro p _ h
        cases h
    | some p =>
      rw [graphNodes, mem_cons] at hnode
      rcases hnode with rfl | hnode
      · simp [Consumes, WorkflowDataRef.output]
      · exact ih hrest _ hnode

theorem Consumes.explicit (h : Consumes node inputName) (hnode : node ∈ w.graph rt) :
    w.isLegacyLinear = false := by
  by_contra hlegacy
  rw [Bool.not_eq_false] at hlegacy
  rw [GeoWorkflow.graph, hlegacy] at hnode
  exact linear_reads (fun _ hstep => legacy_inputs hlegacy hstep) none hnode h

theorem mem_consumers_iff : id ∈ consumers w.steps inputName ↔
    ∃ step ∈ w.steps, (∃ input ∈ step.inputs, input.node = none ∧ input.port = inputName) ∧
      step.stableId = id := by
  rw [consumers, Std.ExtTreeSet.mem_ofList, List.contains_iff_mem, List.mem_map]
  simp [and_assoc]

theorem mem_downstream_iff {source : String} : id ∈ Invalidation.downstream w.steps source ↔
    ∃ step ∈ w.steps, source ∈ step.dependsOn ∧ step.stableId = id := by
  simp [Invalidation.downstream, and_assoc]

theorem consumers_explicit (h : id ∈ consumers w.steps inputName) : w.isLegacyLinear = false := by
  obtain ⟨step, hstep, ⟨input, hinput, -⟩, -⟩ := mem_consumers_iff.mp h
  by_contra hlegacy
  rw [Bool.not_eq_false] at hlegacy
  rw [legacy_inputs hlegacy hstep] at hinput
  cases hinput

theorem mem_graph (hexplicit : w.isLegacyLinear = false) :
    node ∈ w.graph rt ↔ ∃ step ∈ w.steps, explicitNode rt step = node := by
  rw [Permuted.graph_explicit hexplicit, List.mem_map]

theorem consumers_nonempty (hnode : node ∈ w.graph rt)
    (h : Consumes node inputName) : (consumers w.steps inputName).isEmpty = false := by
  obtain ⟨step, hstep, rfl⟩ := (mem_graph (h.explicit hnode)).mp hnode
  have hmem : step.stableId ∈ consumers w.steps inputName :=
    mem_consumers_iff.mpr ⟨step, hstep, h, rfl⟩
  by_contra hempty
  rw [Bool.not_eq_false, Std.ExtTreeSet.isEmpty_iff] at hempty
  rw [hempty] at hmem
  exact absurd hmem not_mem_empty

/-! ## The search finds what is affected -/

/-- The affected steps are known under their node ids. -/
def Named (rt : Runtime) (w : GeoWorkflow) (inputName : String) : Prop :=
  ∀ step ∈ w.steps, Affected rt w inputName (step.nodeId rt) → step.stableId = step.nodeId rt

theorem dependsOn_iff (hexplicit : w.isLegacyLinear = false) (hvalid : Valid rt w)
    {b a : WorkflowNodeId} :
    w.DependsOn rt b a ↔ ∃ step ∈ w.steps, step.nodeId rt = b ∧ a ∈ step.dependsOn := by
  rw [hvalid.dependsOn, Dep, Permuted.graph_explicit hexplicit]
  simp [explicitNode]

theorem Affected.of_consumes (hnode : node ∈ w.graph rt)
    (h : Consumes node inputName) : Affected rt w inputName node.id :=
  ⟨node, hnode, h, .refl⟩

theorem Affected.of_dependsOn {b a : WorkflowNodeId} (hdep : w.DependsOn rt b a)
    (ha : Affected rt w inputName a) : Affected rt w inputName b := by
  obtain ⟨node, hnode, hconsumes, hchain⟩ := ha
  exact ⟨node, hnode, hconsumes, .head hdep hchain⟩

theorem affected_reader (hexplicit : w.isLegacyLinear = false)
    (hstep : step ∈ w.steps) (h : Consumes (explicitNode rt step) inputName) :
    Affected rt w inputName (step.nodeId rt) := by
  have hnode : explicitNode rt step ∈ w.graph rt := (mem_graph hexplicit).mpr ⟨step, hstep, rfl⟩
  rw [← explicitNode_id]
  exact Affected.of_consumes hnode h

theorem Affected.mem_ids (h : Affected rt w inputName id) : id ∈ ids (w.graph rt) := by
  obtain ⟨node, hnode, -, hchain⟩ := h
  rcases Relation.ReflTransGen.cases_head hchain with rfl | ⟨_, ⟨first, hfirst, rfl, -⟩, -⟩
  · exact mem_map_of_mem hnode
  · exact mem_map_of_mem hfirst

theorem Affected.nodeId_eq (hvalid : Valid rt w)
    (h : Affected rt w inputName step.stableId) : step.nodeId rt = step.stableId := by
  have hnamed := hvalid.named _ h.mem_ids
  rw [WorkflowStep.nodeId, hnamed]
  rfl

/-- What the search has found is affected, and it has not lost where it began. -/
structure Justified (rt : Runtime) (w : GeoWorkflow) (inputName : String) (s : Invalidation) :
    Prop where
  affected : ∀ id ∈ s.affected, Affected rt w inputName id
  queued : ∀ id ∈ s.queue, id ∈ s.affected
  direct : ∀ id ∈ consumers w.steps inputName, id ∈ s.affected

theorem nodeId_inj (hvalid : Valid rt w) {step step' : WorkflowStep} (hstep : step ∈ w.steps)
    (hstep' : step' ∈ w.steps) (h : step.nodeId rt = step'.nodeId rt) : step = step' := by
  have hnodup := hvalid.nodup
  rw [ids_graph] at hnodup
  exact inj_on_of_nodup_map hnodup hstep hstep' h

/-- How far the ordering is: what is affected is ordered or remains, and the order is
one of dependencies so far. -/
structure Ordering (rt : Runtime) (w : GeoWorkflow) (inputName : String)
    (ordered : List IncrementalDecision) (remaining : Std.ExtTreeSet String) : Prop where
  covered : ∀ id, Affected rt w inputName id ↔
    id ∈ ordered.map IncrementalDecision.nodeId ∨ id ∈ remaining
  respects : Respects (fun b a => w.DependsOn rt b a ∧ Affected rt w inputName a)
    (ordered.map IncrementalDecision.nodeId)

section

variable (hvalid : Valid rt w) (hexplicit : w.isLegacyLinear = false)
  (hnamed : Named rt w inputName)

include hnamed

theorem affected_step (h : Affected rt w inputName id) :
    ∃ step ∈ w.steps, step.nodeId rt = id ∧ step.stableId = id := by
  have hid := h.mem_ids
  rw [ids_graph] at hid
  obtain ⟨step, hstep, rfl⟩ := List.mem_map.mp hid
  exact ⟨step, hstep, rfl, hnamed step hstep h⟩

include hexplicit

theorem consumers_affected (h : id ∈ consumers w.steps inputName) : Affected rt w inputName id := by
  obtain ⟨step, hstep, hreads, rfl⟩ := mem_consumers_iff.mp h
  have haffected : Affected rt w inputName (step.nodeId rt) :=
    affected_reader hexplicit hstep hreads
  rw [hnamed step hstep haffected]
  exact haffected

include hvalid

theorem downstream_affected {source : String} (hsource : Affected rt w inputName source)
    (h : id ∈ Invalidation.downstream w.steps source) : Affected rt w inputName id := by
  obtain ⟨step, hstep, hdep, rfl⟩ := mem_downstream_iff.mp h
  have haffected : Affected rt w inputName (step.nodeId rt) :=
    .of_dependsOn ((dependsOn_iff hexplicit hvalid).mpr ⟨step, hstep, rfl, hdep⟩) hsource
  rw [hnamed step hstep haffected]
  exact haffected

theorem step_justified {s s' : Invalidation} (hs : Justified rt w inputName s)
    (h : Invalidation.step w.steps s = some s') : Justified rt w inputName s' := by
  rw [Invalidation.step] at h
  cases hqueue : s.queue with
  | nil =>
    rw [hqueue] at h
    cases h
  | cons source rest =>
    rw [hqueue] at h
    cases h
    have hreached := Invalidation.reached_foldl { s with queue := rest }
      (Invalidation.downstream w.steps source)
    have hsource : Affected rt w inputName source :=
      hs.affected source (hs.queued source (by rw [hqueue]; exact mem_cons_self))
    refine ⟨?_, ?_, ?_⟩
    · intro id hid
      rcases (hreached.affected id).mp hid with hid | hid
      · exact hs.affected id hid
      · exact downstream_affected hvalid hexplicit hnamed hsource hid
    · refine hreached.queued ?_
      intro id hid
      exact hs.queued id (by rw [hqueue]; exact mem_cons_of_mem _ hid)
    · intro id hid
      exact (hreached.affected id).mpr (.inl (hs.direct id hid))

theorem mem_affectedNodes :
    id ∈ affectedNodes w.steps (consumers w.steps inputName) ↔ Affected rt w inputName id := by
  have hstart : Justified rt w inputName
      { queue := (consumers w.steps inputName).toList, affected := consumers w.steps inputName } :=
    ⟨fun _ => consumers_affected hexplicit hnamed, fun _ hid => mem_toList.mp hid, fun _ hid => hid⟩
  have hfound : Justified rt w inputName (Loop.run (Invalidation.step w.steps) w.steps.length
      { queue := (consumers w.steps inputName).toList,
        affected := consumers w.steps inputName }) :=
    Loop.run_invariant (fun _ _ => step_justified hvalid hexplicit hnamed) _ _ hstart
  rw [affectedNodes]
  constructor
  · exact hfound.affected id
  · intro h
    rw [← affectedNodes]
    obtain ⟨node, hnode, hconsumes, hchain⟩ := h
    obtain ⟨step, hstep, rfl⟩ := (mem_graph hexplicit).mp hnode
    induction hchain using Relation.ReflTransGen.head_induction_on with
    | refl =>
      have hstable := hnamed step hstep (affected_reader hexplicit hstep hconsumes)
      rw [explicitNode_id]
      exact hfound.direct _ (mem_consumers_iff.mpr ⟨step, hstep, hconsumes, hstable⟩)
    | @head b a hdep hchain ih =>
      have haffected : Affected rt w inputName b := ⟨_, hnode, hconsumes, .head hdep hchain⟩
      obtain ⟨next, hnext, rfl, ha⟩ := (dependsOn_iff hexplicit hvalid).mp hdep
      exact affectedNodes_closed (fun _ => mem_consumers) ih
        (mem_downstream_iff.mpr ⟨next, hnext, ha, hnamed next hnext haffected⟩)

/-! ## The order -/

variable {remaining : Std.ExtTreeSet String} {ordered : List IncrementalDecision}

/-- As long as nodes remain, one of them is ready: the validated graph has no cycle. -/
theorem nextReady_exists (hordering : Ordering rt w inputName ordered remaining)
    (hleft : remaining.isEmpty = false) :
    ∃ ready, nextReady w.steps remaining ordered = some ready := by
  by_contra hnone
  rw [← isSome_iff_exists, Bool.not_eq_true, isSome_eq_false_iff,
    isNone_iff_eq_none, nextReady, find?_eq_none] at hnone
  have hwaiting : ∀ b ∈ {id | id ∈ remaining}, ∃ a ∈ {id | id ∈ remaining},
      Dep (w.graph rt) b a := by
    intro b hb
    obtain ⟨step, hstep, hnode, hstable⟩ :=
      affected_step hnamed ((hordering.covered b).mpr (.inr hb))
    have hcandidate : step ∈ w.steps.filter fun step => remaining.contains step.stableId := by
      rw [mem_filter, hstable]
      exact ⟨hstep, Std.ExtTreeSet.contains_iff_mem.mpr hb⟩
    have hblocked := hnone step hcandidate
    simp only [List.all_eq_true, Bool.or_eq_true, not_forall, not_or] at hblocked
    obtain ⟨a, ha, hremains, -⟩ := hblocked
    rw [Bool.not_eq_true', Bool.not_eq_false, Std.ExtTreeSet.contains_iff_mem] at hremains
    refine ⟨a, hremains, ?_⟩
    rw [← hvalid.dependsOn]
    exact (dependsOn_iff hexplicit hvalid).mpr ⟨step, hstep, hnode, ha⟩
  have hfinite : {id | id ∈ remaining}.Finite :=
    Set.Finite.subset remaining.toList.toFinset.finite_toSet fun id hid =>
      List.mem_toFinset.mpr (mem_toList.mpr hid)
  obtain ⟨b, hb⟩ : ∃ b, b ∈ remaining := by
    by_contra hempty
    rw [not_exists] at hempty
    have hnothing : remaining = ∅ := ext_mem fun id => by simp [hempty id]
    rw [hnothing, isEmpty_empty] at hleft
    cases hleft
  obtain ⟨a, hcycle⟩ := cycle_of_waiting hfinite hb hwaiting
  exact hvalid.acyclic a hcycle

omit hnamed in
theorem Ordering.take (hordering : Ordering rt w inputName ordered remaining)
    {ready : WorkflowStep} (hready : nextReady w.steps remaining ordered = some ready)
    {d : IncrementalDecision} (hd : d.nodeId = ready.stableId) :
    Ordering rt w inputName (ordered ++ [d]) (remaining.erase ready.stableId) := by
  have hmem := nextReady_mem hready
  refine ⟨?_, ?_⟩
  · intro id
    rw [hordering.covered, map_append, mem_append, mem_erase, map_singleton, mem_singleton, hd]
    by_cases hid : id = ready.stableId
    · simp [hid, hmem]
    · simp [hid]
  · rw [map_append, map_singleton, hd]
    intro before b after hsplit a ha
    rcases snoc_split hsplit with ⟨rfl, rfl, -⟩ | ⟨rest, -, hrest⟩
    · -- What the new node depends on is settled: it has been ordered or is not affected.
      have haffected := (hordering.covered _).mpr (.inr hmem)
      have hstep := (mem_filter.mp (mem_of_find?_eq_some hready)).1
      obtain ⟨next, hnext, hid, hdep⟩ := (dependsOn_iff hexplicit hvalid).mp ha.1
      obtain rfl := nodeId_inj hvalid hnext hstep (hid.trans (haffected.nodeId_eq hvalid).symm)
      have hsettled := find?_some hready
      rw [List.all_eq_true] at hsettled
      have ha' := hsettled a hdep
      rw [Bool.or_eq_true, Bool.not_eq_true', ← Bool.not_eq_true, Std.ExtTreeSet.contains_iff_mem,
        List.any_eq_true] at ha'
      rcases (hordering.covered a).mp ha.2 with hordered | hremains
      · exact hordered
      · rcases ha' with hgone | ⟨d', hd', heq⟩
        · exact absurd hremains hgone
        · exact List.mem_map.mpr ⟨d', hd', of_decide_eq_true heq⟩
    · exact hordering.respects before b rest hrest a ha

theorem orderDecisions_ordering (partition : PartitionKey) (reason : String) {rounds : Nat}
    (hrounds : remaining.size ≤ rounds) (hordering : Ordering rt w inputName ordered remaining) :
    ∃ result, orderDecisions w.steps partition reason rounds remaining ordered = .ok result ∧
      Ordering rt w inputName result ∅ := by
  induction rounds generalizing remaining ordered with
  | zero =>
    have hempty : remaining = ∅ := by
      rw [← Std.ExtTreeSet.isEmpty_iff, Std.ExtTreeSet.isEmpty_eq_size_beq_zero, beq_iff_eq]
      omega
    rw [hempty] at hordering
    exact ⟨ordered, rfl, hordering⟩
  | succ rounds ih =>
    rw [orderDecisions]
    by_cases hempty : remaining.isEmpty = true
    · rw [if_pos hempty]
      rw [Std.ExtTreeSet.isEmpty_iff.mp hempty] at hordering
      exact ⟨ordered, rfl, hordering⟩
    · rw [if_neg hempty]
      obtain ⟨ready, hready⟩ := nextReady_exists hvalid hexplicit hnamed hordering
        (by simpa using hempty)
      have hsize : (remaining.erase ready.stableId).size ≤ rounds := by
        have hmem := nextReady_mem hready
        rw [size_erase, if_pos (Std.ExtTreeSet.contains_iff_mem.mpr hmem)]
        omega
      rw [hready]
      exact ih hsize (hordering.take hvalid hexplicit hready rfl)

end

theorem plansExactly_named (hvalid : Valid rt w) (hnamed : Named rt w change.inputName) :
    PlansExactly rt w change := by
  unfold PlansExactly
  by_cases hdirect : (consumers w.steps change.inputName).isEmpty = true
  · rw [affectedDecisions, if_pos hdirect]
    intro node hnode hconsumes
    rw [consumers_nonempty hnode hconsumes] at hdirect
    cases hdirect
  · have hexplicit : w.isLegacyLinear = false := by
      by_contra hlegacy
      refine hdirect (Std.ExtTreeSet.isEmpty_iff.mpr (ext_mem fun id => ?_))
      refine iff_of_false ?_ not_mem_empty
      intro hid
      exact hlegacy (consumers_explicit hid)
    have hstart : Ordering rt w change.inputName []
        (affectedNodes w.steps (consumers w.steps change.inputName)) := by
      refine ⟨?_, ?_⟩
      · intro id
        rw [mem_affectedNodes hvalid hexplicit hnamed]
        simp
      · intro before b after hsplit
        simp at hsplit
    obtain ⟨result, hresult, hordering⟩ := orderDecisions_ordering hvalid hexplicit hnamed
      change.window.partition change.change.reason (Nat.le_refl _) hstart
    have hok : affectedDecisions w change = .ok result := by
      rw [affectedDecisions, if_neg hdirect]
      exact hresult
    rw [hok]
    refine ⟨?_, (affectedDecisions_ok hok).1, hordering.respects⟩
    intro id
    rw [hordering.covered]
    simp

/-- A plan is the plan of the validated graph exactly when every affected step has a
stable id of its own. -/
theorem plansExactly_iff (hvalid : w.validate rt = .ok ()) : PlansExactly rt w change ↔
      ∀ node ∈ w.graph rt, Affected rt w change.inputName node.id →
        Text.isBlank node.step.stableId = false := by
  rw [validate_ok] at hvalid
  constructor
  · intro hplans node hnode haffected
    unfold PlansExactly at hplans
    cases hdecisions : affectedDecisions w change with
    | error e =>
      rw [hdecisions] at hplans
      obtain ⟨first, hfirst, hconsumes, -⟩ := haffected
      exact absurd hconsumes (hplans first hfirst)
    | ok decisions =>
      rw [hdecisions] at hplans
      -- The node is planned, so some step has its id as a stable id: the node's own.
      have hplanned := (hplans.members node.id).mpr haffected
      obtain ⟨step, hstep, hstable⟩ :=
        List.mem_map.mp ((affectedDecisions_ok hdecisions).2.2 node.id hplanned)
      have hown : node.step ∈ w.steps := by
        rw [← @graph_steps rt w]
        exact mem_map_of_mem hnode
      rw [← hstable] at haffected
      have hid : step.nodeId rt = node.step.nodeId rt := by
        rw [haffected.nodeId_eq hvalid, hstable, node_id_eq hnode]
      rw [← nodeId_inj hvalid hstep hown hid]
      exact hvalid.named _ haffected.mem_ids
  · intro hblank
    refine plansExactly_named hvalid ?_
    intro step hstep haffected
    rw [← @graph_steps rt w] at hstep
    obtain ⟨node, hnode, rfl⟩ := List.mem_map.mp hstep
    rw [← node_id_eq hnode] at haffected
    have hstable := hblank node hnode haffected
    rw [WorkflowStep.nodeId, hstable]
    rfl

/-! Two steps, the first of which reads the input and has no stable id, and the same
steps with the id written down. -/

namespace Sample

def loadId : String := WorkflowStep.generatedStableId .reference "Load" .null

def load (stableId : String) : WorkflowStep :=
  { plainStep stableId [] with
    operation := "Load", inputs := [.input "roads"], outputs := [.output loadId "result"] }

def roads : WorkflowInputContract :=
  { name := "roads", crs := none, coordinateUnit := none, valueUnit := none,
    sourceSnapshot := none, geoContract := none }

def twoSteps (stableId : String) : GeoWorkflow :=
  { plainWorkflow [load stableId, plainStep "measure" [loadId]] with inputContracts := [roads] }

def unnamed : GeoWorkflow := twoSteps ""

def named : GeoWorkflow := twoSteps loadId

def appended : IncrementalChange :=
  { inputName := "roads"
    window :=
      { partition := "2024", cursorStart := 0, cursorEnd := 1
        watermarkStart := "1970-01-01T00:00:00Z", watermarkEnd := "1970-01-01T00:05:00Z" }
    snapshotDigest := "sha256:00000000000000000000000000000000" ++
      "00000000000000000000000000000000"
    change := .append }

end Sample

theorem plansExactly_named_steps : PlansExactly .reference Sample.named Sample.appended := by
  have hvalid : Sample.named.validate .reference = .ok () := by decide +kernel
  refine (plansExactly_iff hvalid).mpr ?_
  intro node hnode _
  have hall : ∀ node ∈ Sample.named.graph .reference,
      Text.isBlank node.step.stableId = false := by decide +kernel
  exact hall node hnode

/-- The step without a stable id is planned under no name, and the step after it is
left out. -/
theorem unnamed_step_planned : Sample.unnamed.validate .reference = .ok () ∧
    validateChange .reference Sample.unnamed Sample.appended = .ok () ∧
    affectedDecisions Sample.unnamed Sample.appended =
      .ok [{ nodeId := "", partition := "2024", reason := "input_append" }] ∧
    Affected .reference Sample.unnamed "roads" "measure" ∧
    ¬ PlansExactly .reference Sample.unnamed Sample.appended := by
  have hdecisions : affectedDecisions Sample.unnamed Sample.appended =
      .ok [{ nodeId := "", partition := "2024", reason := "input_append" }] := by decide +kernel
  have hexplicit : Sample.unnamed.isLegacyLinear = false := by rfl
  have hreader : Affected .reference Sample.unnamed "roads" Sample.loadId := by
    have hid : (Sample.load "").nodeId .reference = Sample.loadId := by rfl
    rw [← hid]
    exact affected_reader hexplicit mem_cons_self ⟨.input "roads", mem_cons_self, rfl, rfl⟩
  have haffected : Affected .reference Sample.unnamed "roads" "measure" := by
    have hmeasure : explicitNode .reference (plainStep "measure" [Sample.loadId]) ∈
        Sample.unnamed.graph .reference :=
      (mem_graph hexplicit).mpr ⟨_, mem_cons_of_mem _ mem_cons_self, rfl⟩
    have hid : (plainStep "measure" [Sample.loadId]).nodeId .reference = "measure" := by
      decide
    exact .of_dependsOn ⟨_, hmeasure, hid, .inl mem_cons_self⟩ hreader
  refine ⟨by decide +kernel, by decide +kernel, hdecisions, haffected, ?_⟩
  unfold PlansExactly
  rw [hdecisions]
  intro hplans
  have hplanned := (hplans.members "measure").mpr haffected
  simp at hplanned

end GeneGIS.IncrementalScheduler
