/-
Before each turn the nodes taken so far have all produced a layer (`Done`).  A turn keeps that or
ends the run, never with a node or a layer that is not there.
-/
import GeneGIS.Toolkit.Executor
import GeneGIS.Toolkit.PlanGraph
import GeneGIS.Toolkit.WkbRoundTrip

namespace GeneGIS.Toolkit

open GeoWorkflow Toposort Fallible Text
open List hiding contains_insert getElem?_insert map_id' map_map
open Option hiding map_id' map_map
open Std.ExtTreeMap hiding contains_insert getElem?_insert map_map
open PlanRun (start visit)

variable {texts : Texts} {layers available : Layers} {plan : ToolkitPlan} {output : String}
  {rt : Runtime} {outlines : Outlines} {id : Uuid} {fresh : String → Uuid}
  {inputs : List (WorkflowInputContract × Value)}

/-! ## From the plan to the graph -/

/-- Every reference system the plan names is known. -/
def KnownCrs (layers : Layers) (plan : ToolkitPlan) : Prop :=
  ∀ name ∈ referenced plan, ∀ layer, layers[name]? = some layer → ∃ crs, coreCrs layer = .ok crs

theorem definition_unit {crs : Crs} {definition : CrsDefinition}
    (h : crs.definition = some definition) : definition.unit ≠ .unknown := by
  have hgeographic : ∀ code, (Crs.geographicDefinition code).unit ≠ .unknown := by
    intro code hunit
    cases hunit
  have hprojected : ∀ code, (Crs.projected code).unit ≠ .unknown := by
    intro code hunit
    cases hunit
  rw [Crs.definition] at h
  by_cases hepsg : crs.authority ≠ "EPSG"
  · rw [if_pos hepsg] at h
    cases h
  · rw [if_neg hepsg] at h
    split at h
    · exact Option.some.inj h ▸ hgeographic _
    · split at h
      · exact Option.some.inj h ▸ hprojected _
      · cases h

theorem coreCrs_ok {layer : Layer} {crs : Crs} (h : coreCrs layer = .ok crs) :
    ∃ definition, crs.definition = some definition ∧ crs.requireKnown = .ok definition := by
  unfold coreCrs at h
  generalize Crs.parse layer.crs = parsed at h
  cases parsed with
  | none => cases h
  | some known =>
    cases hknown : known.requireKnown with
    | error e =>
      simp only [hknown] at h
      cases h
    | ok definition =>
      simp only [hknown, Except.ok.injEq] at h
      subst h
      refine ⟨definition, ?_, hknown⟩
      rw [Crs.requireKnown] at hknown
      split at hknown
      · rename_i found hfound
        rw [hfound, Except.ok.inj hknown]
      · cases hknown

theorem validateInputContract_layer {name : String} {layer : Layer} {crs : Crs}
    (hcrs : coreCrs layer = .ok crs) :
    validateInputContract (inputContract rt outlines name layer crs) = .ok () ↔
      isBlank name = false := by
  obtain ⟨definition, hdefinition, hknown⟩ := coreCrs_ok hcrs
  have hunit := definition_unit hdefinition
  have huri : isBlank ("layer://" ++ layer.digest rt.floatText outlines) = false := by
    refine isBlank_false_of_mem (c := 'l') ?_ (by decide)
    rw [String.toList_append]
    exact mem_append_left _ (by decide)
  have hcoordinate : crs.coordinateUnit = definition.unit := by
    rw [Crs.coordinateUnit, hdefinition]
  rw [validateInputContract]
  simp only [inputContract, hknown, bind_iff, GeoWorkflow.require_ok, hcoordinate]
  constructor
  · intro h
    obtain ⟨_, hblank, -⟩ := h
    simpa using hblank
  · intro h
    refine ⟨(), by simpa using h, (), by simp, (), by simpa using hunit, (), rfl, (), ?_, rfl⟩
    simpa [layerSnapshot, SourceMetadata.new] using huri

theorem compileInput_ok {name : String} {e : WorkflowInputContract × Value}
    (h : compileInput rt outlines layers name = .ok e) :
    ∃ layer crs, coreCrs layer = .ok crs ∧ e.1 = inputContract rt outlines name layer crs := by
  rw [compileInput] at h
  cases hlayer : layers[name]? with
  | none =>
    rw [hlayer] at h
    cases h
  | some layer =>
    rw [hlayer] at h
    obtain ⟨crs, hcrs, he⟩ := bind_iff.mp h
    exact ⟨layer, crs, hcrs, congrArg Prod.fst (Except.ok.inj he).symm⟩

theorem exists_compileInput (hp : Accepted layers plan output) (hcrs : KnownCrs layers plan)
    {name : String} (hname : name ∈ referenced plan) :
    ∃ e, compileInput rt outlines layers name = .ok e := by
  obtain ⟨step, hstep, href⟩ := mem_referenced.mp hname
  have hloaded := hp.loaded step hstep name href
  rw [contains_eq_isSome_getElem?, isSome_iff_exists] at hloaded
  obtain ⟨layer, hlayer⟩ := hloaded
  obtain ⟨crs, hknown⟩ := hcrs name hname layer hlayer
  refine ⟨(inputContract rt outlines name layer crs, inputDocument rt outlines name layer), ?_⟩
  rw [compileInput, hlayer]
  exact then_ok hknown rfl

theorem compileInputs_ok
    (h : (referenced plan).mapM (compileInput rt outlines layers) = .ok inputs) :
    inputs.map (fun e => e.1.name) = referenced plan ∧
      ((∀ e ∈ inputs, validateInputContract e.1 = .ok ()) ↔
        ∀ name ∈ referenced plan, isBlank name = false) := by
  have hall := Each.mapM_ok.mp h
  have hnames : inputs.map (fun e => e.1.name) = referenced plan := by
    have hmap := Each.forall₂_map (f := fun name => name) (g := fun e => e.1.name) hall ?_
    · rwa [List.map_id'] at hmap
    · intro name e he
      obtain ⟨layer, crs, -, heq⟩ := compileInput_ok he
      rw [heq]
      rfl
  have hcontract : ∀ e ∈ inputs, validateInputContract e.1 = .ok () ↔
      isBlank e.1.name = false := by
    intro e he
    obtain ⟨name, -, hok⟩ := Each.forall₂_right hall he
    obtain ⟨layer, crs, hcrs, heq⟩ := compileInput_ok hok
    rw [heq]
    exact validateInputContract_layer hcrs
  refine ⟨hnames, ?_⟩
  rw [← hnames]
  constructor
  · intro hvalid name hname
    obtain ⟨e, he, rfl⟩ := mem_map.mp hname
    exact (hcontract e he).mp (hvalid e he)
  · intro hblank e he
    exact (hcontract e he).mpr (hblank _ (mem_map_of_mem he))

theorem planToWorkflow_ok {w : GeoWorkflow}
    (h : planToWorkflow rt outlines texts id fresh layers plan = .ok w) :
    ∃ output inputs, validatePlan texts layers plan = .ok output ∧
      (referenced plan).mapM (compileInput rt outlines layers) = .ok inputs ∧
      w = compile id fresh plan output inputs ∧ w.validate rt = .ok () := by
  rw [planToWorkflow] at h
  simp only [bind_iff, mapError_iff] at h
  obtain ⟨output, hplan, inputs, hinputs, _, hvalid, hw⟩ := h
  cases hw
  exact ⟨output, inputs, hplan, hinputs, rfl, hvalid⟩

theorem planToWorkflow_iff (hplan : validatePlan texts layers plan = .ok output)
    (hcrs : KnownCrs layers plan) :
    (∃ w, planToWorkflow rt outlines texts id fresh layers plan = .ok w) ↔
      ∀ name ∈ referenced plan, isBlank name = false := by
  have hp := validatePlan_ok hplan
  constructor
  · intro h
    obtain ⟨w, hw⟩ := h
    obtain ⟨output', inputs, -, hinputs, rfl, hvalid⟩ := planToWorkflow_ok hw
    refine (compileInputs_ok hinputs).2.mp ?_
    intro e he
    exact (validate_ok.mp hvalid).contracts e.1 (mem_map_of_mem he)
  · intro hblank
    obtain ⟨inputs, hinputs⟩ : ∃ inputs, (referenced plan).mapM (compileInput rt outlines layers) =
        .ok inputs := Each.exists_mapM fun _ hname => exists_compileInput hp hcrs hname
    obtain ⟨hnames, hcontracts⟩ := compileInputs_ok hinputs
    have hvalid : (compile id fresh plan output inputs).validate rt = .ok () :=
      validate_ok.mpr (compile_valid hp hnames (hcontracts.mpr hblank) hblank)
    refine ⟨compile id fresh plan output inputs, ?_⟩
    rw [planToWorkflow]
    refine then_ok hplan ?_
    refine then_ok hinputs ?_
    exact then_ok (mapError_iff.mpr hvalid) rfl

theorem PlanStep.refs_distinct (step : PlanStep) : (step.refs.map Prod.fst).Nodup := by
  have hkeys : step.refs.map Prod.fst = step.inputs.toList.map Prod.fst := by
    rw [PlanStep.refs, List.map_map]
    rfl
  rw [hkeys, List.Nodup, pairwise_map]
  refine (distinct_keys_toList (t := step.inputs)).imp ?_
  intro a b hab heq
  exact hab (by simp [heq])

theorem mem_object {members : List (String × Value)} (hdistinct : (members.map Prod.fst).Nodup)
    {key : String} {j : Json} {written : List (String × Json)}
    (hwritten : (Value.object members).json = .obj written) (hmem : (key, j) ∈ written) :
    ∃ value, (key, value) ∈ members ∧ value.json = j := by
  have hlookup : (Value.object members).json.get? key = some j := by
    rw [hwritten]
    have hordered := (Value.object members).ordered
    rw [hwritten] at hordered
    refine Json.lookup_eq_of_pairwise (hordered.1.imp ?_) hmem
    intro a b hab heq
    have hsame : compare a.1 b.1 = .eq := by simp [heq]
    rw [hsame] at hab
    cases hab
  rw [Value.get?_object hdistinct, map_eq_some_iff] at hlookup
  obtain ⟨value, hvalue, hj⟩ := hlookup
  obtain ⟨before, after, rfl, -⟩ := lookup_eq_some_iff.mp hvalue
  exact ⟨value, by simp, hj⟩

theorem parameters_inputs (step : PlanStep) : (parameters step).json.get? "inputs" =
      some (Value.object (step.refs.map fun e => (e.1, e.2.role))).json := by
  rw [parameters, Value.get?_object (by simp)]
  rfl

theorem mem_sources {step : PlanStep} {e : String × Json}
    (he : e ∈ sources (compileStep fresh step)) :
    ∃ role ref, (role, ref) ∈ step.refs ∧ e = (role, ref.role.json) := by
  have hdistinct : ((step.refs.map fun e => (e.1, e.2.role)).map Prod.fst).Nodup := by
    rw [List.map_map]
    exact step.refs_distinct
  have hwritten : (Value.object (step.refs.map fun e => (e.1, e.2.role))).json =
      .obj (sources (compileStep fresh step)) := by
    have hinputs : (compileStep fresh step).parameters.json.get? "inputs" = some _ :=
      parameters_inputs step
    rw [sources, hinputs]
    rfl
  obtain ⟨key, j⟩ := e
  obtain ⟨value, hvalue, hjson⟩ := mem_object hdistinct hwritten he
  obtain ⟨⟨role, ref⟩, href, heq⟩ := mem_map.mp hvalue
  obtain ⟨hrole, hvalue⟩ := Prod.mk.inj heq
  refine ⟨role, ref, href, ?_⟩
  rw [← hrole, ← hjson, ← hvalue]

theorem textAt_layer (name : String) : textAt "layer" (Ref.layer name).role.json = some name := by
  rw [textAt, Ref.role, Value.get?_object (by simp)]
  rfl

theorem textAt_step (name : String) : textAt "layer" (Ref.step name).role.json = none ∧
      textAt "step" (Ref.step name).role.json = some name := by
  rw [textAt, textAt, Ref.role, Value.get?_object (by simp), Value.get?_object (by simp)]
  exact ⟨rfl, rfl⟩

/-! ## Turns -/

/-- A node, a layer or an output that should be there is not. -/
def PlanFailure.Lost : PlanFailure → Prop
  | .nodeMissing _ => True
  | .notProduced _ => True
  | .producedNothing => True
  | _ => False

section

variable {World : Type} {operations : Operations World} {digest : WorkflowDigest}
  {node : WorkflowNodeId} {s : PlanRun World}

/-- The nodes taken so far have all produced a layer. -/
structure Done (done : List WorkflowNodeId) (s : PlanRun World) : Prop where
  visited : s.visited = done
  produced : ∀ a ∈ done, s.produced.contains a = true

/-- How a run may end that has taken the nodes `done`. -/
structure Stopped (done : List WorkflowNodeId) (e : PlanFailure) (s : PlanRun World) : Prop where
  visited : s.visited = done
  notLost : ¬ e.Lost

theorem ends_runOperation {op : String} {sourceLayers : List (String × Layer)} {params : Json} :
    Ends (runOperation rt outlines operations digest node op sourceLayers params) s
      (fun _ s' => s'.visited = s.visited ∧
        ∀ a, a = node ∨ s.produced.contains a = true → s'.produced.contains a = true)
      (Stopped s.visited) := by
  rw [runOperation]
  refine Ends.bind (fun _ s' => s'.visited = s.visited ∧ s'.produced = s.produced) ?_ ?_
  · refine Ends.zoom (fun _ _ => ⟨rfl, rfl⟩) ?_
    intro e t herror
    rw [mapError] at herror
    split at herror
    · cases herror
    · obtain ⟨rfl, -⟩ := EStateM.Result.error.inj herror
      exact ⟨rfl, fun h => h⟩
  · intro result s' hs
    dsimp only
    split
    · exact Ends.throw ⟨hs.1, fun h => h⟩
    · refine Ends.modify.mono ?_ (fun _ _ h => h)
      intro _ s'' hs''
      rw [hs'']
      refine ⟨hs.1, ?_⟩
      intro a ha
      show (s'.produced.insert node _).contains a = true
      rw [Std.ExtTreeMap.contains_insert, hs.2, Bool.or_eq_true]
      rcases ha with rfl | ha
      · exact .inl (by simp)
      · exact .inr ha

theorem resolve_error {step : PlanStep} {produced : Layers} {e : String × Json}
    {failure : PlanFailure} (hproduced : ∀ a ∈ step.stepRefs, produced.contains a = true)
    (he : e ∈ sources (compileStep fresh step))
    (herror : resolve available produced e = .error failure) : ¬ failure.Lost := by
  obtain ⟨role, ref, href, rfl⟩ := mem_sources he
  rw [resolve] at herror
  dsimp only at herror
  cases ref with
  | layer name =>
    rw [textAt_layer] at herror
    dsimp only at herror
    split at herror
    · cases herror
    · cases herror
      exact fun h => h
  | step name =>
    have hname := hproduced name (PlanStep.mem_stepRefs.mpr ⟨role, href⟩)
    rw [contains_eq_isSome_getElem?, isSome_iff_exists] at hname
    obtain ⟨layer, hlayer⟩ := hname
    rw [(textAt_step name).1, (textAt_step name).2] at herror
    dsimp only at herror
    rw [hlayer] at herror
    cases herror

theorem find_compileStep (hp : Accepted layers plan output) {step : PlanStep}
    (hstep : step ∈ plan.steps) :
    (compile id fresh plan output inputs).steps.find? (fun other => other.nodeId rt = step.id) =
      some (compileStep fresh step) := by
  have hnodup := hp.nodup
  have hnode : ∀ other ∈ plan.steps, (compileStep fresh other).nodeId rt = other.id :=
    fun other hother => nodeId_compileStep hp hother
  show (plan.steps.map (compileStep fresh)).find? _ = _
  rw [ToolkitPlan.ids] at hnodup
  clear hp
  generalize plan.steps = steps at hstep hnodup hnode
  induction steps with
  | nil => cases hstep
  | cons first rest ih =>
    rw [map_cons, nodup_cons] at hnodup
    rcases mem_cons.mp hstep with rfl | hrest
    · rw [map_cons, find?_cons_of_pos]
      simpa using hnode step mem_cons_self
    · rw [map_cons, find?_cons_of_neg]
      · exact ih hrest hnodup.2 fun other hother => hnode other (mem_cons_of_mem _ hother)
      · rw [hnode first mem_cons_self, decide_eq_true_eq]
        intro heq
        exact hnodup.1 (heq ▸ mem_map_of_mem hrest)

theorem ends_runNode (hp : Accepted layers plan output) {done : List WorkflowNodeId}
    (hs : Done done s) (hnode : node ∈ plan.ids) (hreads : ∀ a, plan.Reads node a → a ∈ done) :
    Ends (runNode rt outlines operations available (compile id fresh plan output inputs) digest
      node) s (fun _ => Done (done ++ [node])) (Stopped (done ++ [node])) := by
  obtain ⟨step, hstep, rfl⟩ := mem_map.mp hnode
  rw [runNode]
  refine Ends.bind _ Ends.modify ?_
  intro _ s' hs'
  have hvisited : s'.visited = done ++ [step.id] := by
    rw [hs', visit, hs.visited]
  have hproduced : s'.produced = s.produced := by
    rw [hs']
    rfl
  rw [find_compileStep hp hstep]
  dsimp only
  have hop : withoutPrefix "toolkit." (compileStep fresh step).operation = some step.op :=
    withoutPrefix_iff.mpr rfl
  rw [hop]
  dsimp only
  refine Ends.bind _ Ends.get ?_
  intro current s'' hs''
  rw [hs''.1, hs''.2]
  refine Ends.bind (fun _ after => after = s') (Ends.lift (fun _ _ => rfl) ?_) ?_
  · intro e herror
    obtain ⟨source, hsource, hresolve⟩ := Each.mapM_error herror
    have hthere : ∀ a ∈ step.stepRefs, s'.produced.contains a = true := by
      intro a ha
      rw [hproduced]
      exact hs.produced a (hreads a ⟨step, hstep, rfl, ha⟩)
    exact ⟨hvisited, resolve_error hthere hsource hresolve⟩
  · intro sourceLayers after hafter
    rw [hafter]
    refine ends_runOperation.mono ?_ ?_
    · intro _ final hfinal
      refine ⟨hfinal.1.trans hvisited, ?_⟩
      intro a ha
      refine hfinal.2 a ?_
      rcases mem_append.mp ha with ha | ha
      · rw [hproduced]
        exact .inr (hs.produced a ha)
      · exact .inl (mem_singleton.mp ha)
    · intro e final hfinal
      exact ⟨hfinal.visited.trans hvisited, hfinal.notLost⟩

/-! ## Runs -/

variable {order : List WorkflowNodeId}

theorem ends_runNodes (hp : Accepted layers plan output)
    (hrespects : Respects plan.Reads order) (horder : ∀ a ∈ order, a ∈ plan.ids)
    (rest : List WorkflowNodeId) {done : List WorkflowNodeId} (hsplit : order = done ++ rest)
    (hs : Done done s) :
    Ends (runNodes rt outlines operations available (compile id fresh plan output inputs) digest
      rest) s (fun _ => Done order)
      (fun e s' => ∃ taken left, order = taken ++ left ∧ Stopped taken e s') := by
  induction rest generalizing done s with
  | nil =>
    rw [append_nil] at hsplit
    rw [hsplit]
    exact Ends.pure hs
  | cons node rest ih =>
    have hnext : order = (done ++ [node]) ++ rest := by
      rw [hsplit, append_assoc, singleton_append]
    have hnode : node ∈ plan.ids := by
      refine horder node ?_
      rw [hsplit]
      simp
    rw [runNodes]
    refine Ends.bind (fun _ => Done (done ++ [node])) ?_ ?_
    · refine (ends_runNode hp hs hnode fun a ha => hrespects done node rest hsplit a ha).mono
        (fun _ _ h => h) ?_
      intro e s' h
      exact ⟨done ++ [node], rest, hnext, h⟩
    · intro _ s' hs'
      exact ih hnext hs'

/-- Every node has had at most one turn, after the nodes that it reads. -/
structure InOrder (plan : ToolkitPlan) (visited : List WorkflowNodeId) : Prop where
  known : ∀ node ∈ visited, node ∈ plan.ids
  once : visited.Nodup
  respects : Respects plan.Reads visited

theorem inOrder_of_append (hp : Accepted layers plan output)
    {order taken left : List WorkflowNodeId} (hperm : order.Perm plan.ids)
    (hrespects : Respects plan.Reads order) (hsplit : order = taken ++ left) :
    InOrder plan taken := by
  have hnodup := hperm.nodup_iff.mpr hp.nodup
  rw [hsplit] at hnodup
  refine ⟨?_, (nodup_append.mp hnodup).1, ?_⟩
  · intro node hnode
    refine hperm.mem_iff.mp ?_
    rw [hsplit]
    exact mem_append_left _ hnode
  · intro before b after h a ha
    refine hrespects before b (after ++ left) ?_ a ha
    rw [hsplit, h, append_assoc, cons_append]

theorem checkInput_error {contract : WorkflowInputContract} {e : PlanFailure}
    (h : checkInput rt outlines available contract = .error e) : ¬ e.Lost := by
  rw [checkInput] at h
  split at h
  · cases h
    exact fun hlost => hlost
  · split at h
    · cases h
      exact fun hlost => hlost
    · split at h
      · cases h
      · cases h
        exact fun hlost => hlost

theorem compile_order (hp : Accepted layers plan output)
    (h : (compile id fresh plan output inputs).topologicalOrder rt = .ok order) :
    order.Perm plan.ids ∧ Respects plan.Reads order := by
  obtain ⟨-, hperm, hgreedy⟩ := topologicalOrder_ok.mp h
  rw [compile_ids hp] at hperm
  have hrespects := hgreedy.respects
  rw [compile_dep hp] at hrespects
  exact ⟨hperm, hrespects⟩

theorem done_start (world : World) : Done [] (start world) := by
  refine ⟨rfl, ?_⟩
  intro a ha
  cases ha

theorem outputOf_ok (hs : Done order s) (hmem : output ∈ order) (e : PlanFailure) :
    outputOf (compile id fresh plan output inputs) s.produced ≠ .error e := by
  intro herror
  have hproduced := hs.produced output hmem
  rw [contains_eq_isSome_getElem?, isSome_iff_exists] at hproduced
  obtain ⟨layer, hlayer⟩ := hproduced
  have hstep : (compile id fresh plan output inputs).outputRefs.head?.bind WorkflowDataRef.node =
      some output := rfl
  rw [outputOf, hstep] at herror
  dsimp only at herror
  rw [hlayer] at herror
  cases herror

theorem ends_execute (hp : Accepted layers plan output) (summary : Layer → Value)
    (context : WorkflowExecutionContext) (world : World) :
    Ends (execute rt outlines operations available summary (compile id fresh plan output inputs)
        context) (start world)
      (fun _ s => InOrder plan s.visited ∧ s.visited.Perm plan.ids)
      (fun e s => InOrder plan s.visited ∧ ¬ e.Lost) := by
  have hnone : InOrder plan (start world).visited := by
    refine ⟨by simp [start], nodup_nil, ?_⟩
    intro before b after h
    simp [start] at h
  rw [execute]
  refine Ends.bind (fun _ s => s = start world) (Ends.lift (fun _ _ => rfl) ?_) ?_
  · intro e herror
    obtain ⟨contract, -, hcheck⟩ := Each.forM_error herror
    exact ⟨hnone, checkInput_error hcheck⟩
  intro _ s hs
  rw [hs]
  refine Ends.bind (fun order s => s = start world ∧ order.Perm plan.ids ∧
    Respects plan.Reads order) (Ends.lift ?_ ?_) ?_
  · intro order horder
    exact ⟨rfl, compile_order hp (mapError_iff.mp horder)⟩
  · intro e herror
    refine ⟨hnone, ?_⟩
    cases horder : (compile id fresh plan output inputs).topologicalOrder rt with
    | ok order =>
      rw [horder] at herror
      cases herror
    | error problem =>
      rw [horder] at herror
      cases herror
      exact fun hlost => hlost
  intro order s hs
  obtain ⟨rfl, hperm, hrespects⟩ := hs
  have hfirst : ∀ taken left, order = taken ++ left → InOrder plan taken :=
    fun taken left hsplit => inOrder_of_append hp hperm hrespects hsplit
  refine Ends.bind (fun _ => Done order) ?_ ?_
  · refine (ends_runNodes hp hrespects (fun a ha => hperm.mem_iff.mp ha) order rfl
      (done_start world)).mono (fun _ _ h => h) ?_
    intro e s h
    obtain ⟨taken, left, hsplit, hstopped⟩ := h
    rw [hstopped.visited]
    exact ⟨hfirst taken left hsplit, hstopped.notLost⟩
  · intro _ s hs
    have hvisited : InOrder plan s.visited ∧ s.visited.Perm plan.ids := by
      rw [hs.visited]
      exact ⟨hfirst order [] (append_nil order).symm, hperm⟩
    refine Ends.bind _ Ends.get ?_
    intro current s' hs'
    rw [hs'.1, hs'.2]
    refine Ends.bind (fun _ after => after = s) (Ends.lift (fun _ _ => rfl) ?_) ?_
    · intro e herror
      exact absurd herror (outputOf_ok hs (hperm.mem_iff.mpr hp.exported) e)
    · intro result after hafter
      rw [hafter]
      exact Ends.pure hvisited

end

/-- An accepted plan compiles exactly when it names no layer by a blank name. Its graph is valid and
its edges are the references. In every run no step has two turns, every step comes after those that
it reads, and nothing that it reads is missing. -/
theorem plan_carried_out (rt : Runtime) (outlines : Outlines) (texts : Texts) (id : Uuid)
    (fresh : String → Uuid) (layers : Layers) (plan : ToolkitPlan) (output : String)
    (hplan : validatePlan texts layers plan = .ok output) (hcrs : KnownCrs layers plan) :
    ((∃ w, planToWorkflow rt outlines texts id fresh layers plan = .ok w) ↔
      ∀ name ∈ referenced plan, isBlank name = false) ∧
    ∀ w, planToWorkflow rt outlines texts id fresh layers plan = .ok w →
      w.validate rt = .ok () ∧ (w.steps.map fun step => step.nodeId rt) = plan.ids ∧
      (∀ b a, Dep (w.graph rt) b a ↔ plan.Reads b a) ∧
      ∀ (World : Type) (operations : Operations World) (available : Layers)
        (summary : Layer → Value) (context : WorkflowExecutionContext) (world : World),
        Ends (execute rt outlines operations available summary w context) (start world)
          (fun _ s => InOrder plan s.visited ∧ s.visited.Perm plan.ids)
          (fun e s => InOrder plan s.visited ∧ ¬ e.Lost) := by
  refine ⟨planToWorkflow_iff hplan hcrs, ?_⟩
  intro w hw
  obtain ⟨output', inputs, hplan', -, rfl, hvalid⟩ := planToWorkflow_ok hw
  have hp := validatePlan_ok hplan'
  refine ⟨hvalid, ?_, ?_, ?_⟩
  · rw [← ids_graph]
    exact compile_ids hp
  · intro b a
    rw [compile_dep hp]
  · intro World operations available summary context world
    exact ends_execute hp summary context world

namespace Sample

def plain : Texts := ⟨fun s => s, fun _ => ""⟩

def wards : Layer := { name := "wards", crs := "EPSG:4326", crsStatus := .declared }

def loaded (name : String) : Layers := (∅ : Layers).insert name wards

variable (reference : String)

def buffered : PlanStep :=
  { id := "near", op := "buffer", inputs := .ofList [("layer", reference)], params := .null }

def clipped : PlanStep where
  id := "inside"
  op := "clip"
  inputs := .ofList [("layer", reference), ("mask", "step:near")]
  params := .null

def survey : ToolkitPlan where
  goal := "wards near stations"
  steps := [buffered reference, clipped reference]
  output := none
  assumptions := []

theorem known_loaded {name : String} {plan : ToolkitPlan} : KnownCrs (loaded name) plan := by
  intro other _ layer hlayer
  rw [loaded, Std.ExtTreeMap.getElem?_insert] at hlayer
  split at hlayer
  · cases hlayer
    exact ⟨Crs.epsg 4326, by decide⟩
  · rw [getElem?_empty] at hlayer
    cases hlayer

end Sample

theorem survey_carried_out :
    ∃ w, planToWorkflow .reference Wkb.Sample.corners Sample.plain (Uuid.ofNat 0)
      (fun _ => Uuid.ofNat 1) (Sample.loaded "lyr_1") (Sample.survey "lyr_1") = .ok w :=
  (plan_carried_out .reference Wkb.Sample.corners Sample.plain (Uuid.ofNat 0)
    (fun _ => Uuid.ofNat 1) (Sample.loaded "lyr_1") (Sample.survey "lyr_1") "inside"
    (by rfl) Sample.known_loaded).1.mpr (by decide)

/-- A layer under a blank name is found by one validation and refused by the other. -/
theorem blank_layer_refused :
    validatePlan Sample.plain (Sample.loaded " ") (Sample.survey "layer: ") = .ok "inside" ∧
      KnownCrs (Sample.loaded " ") (Sample.survey "layer: ") ∧
      ∀ w, planToWorkflow .reference Wkb.Sample.corners Sample.plain (Uuid.ofNat 0)
        (fun _ => Uuid.ofNat 1) (Sample.loaded " ") (Sample.survey "layer: ") ≠ .ok w := by
  have hplan : validatePlan Sample.plain (Sample.loaded " ") (Sample.survey "layer: ") =
      .ok "inside" := by rfl
  refine ⟨hplan, Sample.known_loaded, ?_⟩
  intro w hw
  have hblank := (planToWorkflow_iff hplan Sample.known_loaded).mp ⟨w, hw⟩
  exact absurd (hblank " " (by decide)) (by decide)

end GeneGIS.Toolkit
