/-
`Accepted` says what the validation has found, and `compile_valid` that it is what the graph is
asked for, up to the names of the inputs.
-/
import GeneGIS.Data.Each
import GeneGIS.Toolkit.Plan
import GeneGIS.Workflow.Valid

namespace GeneGIS.Toolkit

open GeoWorkflow Toposort Fallible Text
open List hiding contains_iff_mem
open Bool hiding not_not or_assoc

variable {texts : Texts} {layers : Layers} {plan : ToolkitPlan} {output : String}
  {rt : Runtime} {outlines : Outlines}

/-! ## What validation has found -/

def ToolkitPlan.ids (plan : ToolkitPlan) : List String := plan.steps.map PlanStep.id

/-- Step `b` reads what step `a` produces. -/
def ToolkitPlan.Reads (plan : ToolkitPlan) (b a : String) : Prop :=
  ∃ step ∈ plan.steps, step.id = b ∧ a ∈ step.stepRefs

structure Accepted (layers : Layers) (plan : ToolkitPlan) (output : String) : Prop where
  nonempty : plan.steps ≠ []
  named : ∀ step ∈ plan.steps, validId step.id = true
  nodup : plan.ids.Nodup
  loaded : ∀ step ∈ plan.steps, ∀ id ∈ step.layerRefs, layers.contains id = true
  respects : Respects plan.Reads plan.ids
  exported : output ∈ plan.ids
  contributes : ∀ step ∈ plan.steps, Relation.ReflTransGen plan.Reads output step.id

@[simp] theorem require_ok {holds : Bool} {error : ToolkitError} {u : Unit} :
    require holds error = .ok u ↔ holds = true :=
  except_guard_ok

variable {step : PlanStep}

theorem PlanStep.mem_layerRefs {id : String} :
    id ∈ step.layerRefs ↔ ∃ role, (role, Ref.layer id) ∈ step.refs := by
  rw [PlanStep.layerRefs, mem_filterMap]
  constructor
  · intro h
    obtain ⟨⟨role, ref⟩, he, hid⟩ := h
    cases ref with
    | layer other =>
      obtain rfl : other = id := Option.some.inj hid
      exact ⟨role, he⟩
    | step other => cases hid
  · intro h
    obtain ⟨role, he⟩ := h
    exact ⟨_, he, rfl⟩

theorem PlanStep.mem_stepRefs {id : String} :
    id ∈ step.stepRefs ↔ ∃ role, (role, Ref.step id) ∈ step.refs := by
  rw [PlanStep.stepRefs, mem_filterMap]
  constructor
  · intro h
    obtain ⟨⟨role, ref⟩, he, hid⟩ := h
    cases ref with
    | layer other => cases hid
    | step other =>
      obtain rfl : other = id := Option.some.inj hid
      exact ⟨role, he⟩
  · intro h
    obtain ⟨role, he⟩ := h
    exact ⟨_, he, rfl⟩

/-- What is found of one step after the steps `before`. -/
structure StepOk (layers : Layers) (before : List String) (step : PlanStep) : Prop where
  named : validId step.id = true
  fresh : step.id ∉ before
  loaded : ∀ id ∈ step.layerRefs, layers.contains id = true
  earlier : ∀ id ∈ step.stepRefs, id ∈ before

theorem checkStep_ok {before : List String} {u : Unit}
    (h : checkStep texts layers before step = .ok u) : StepOk layers before step := by
  rw [checkStep] at h
  simp only [bind_iff, require_ok, and_eq_true, decide_eq_true_eq] at h
  obtain ⟨_, ⟨hnamed, -⟩, _, hfresh, h⟩ := h
  cases hspec : catalog.find? fun spec => spec.name = step.op with
  | none =>
    rw [hspec] at h
    cases h
  | some spec =>
    rw [hspec] at h
    simp only [bind_iff, Each.forM_ok] at h
    obtain ⟨_, -, _, hrefs, -⟩ := h
    refine ⟨hnamed, hfresh, ?_, ?_⟩
    · intro id hid
      obtain ⟨role, he⟩ := PlanStep.mem_layerRefs.mp hid
      exact require_ok.mp (hrefs _ he)
    · intro id hid
      obtain ⟨role, he⟩ := PlanStep.mem_stepRefs.mp hid
      have hseen := require_ok.mp (hrefs _ he)
      rw [and_eq_true, decide_eq_true_eq, decide_eq_true_eq] at hseen
      exact (mem_cons.mp hseen.1).resolve_left hseen.2

theorem checkSteps_ok {before : List String} {steps pre post : List PlanStep}
    {u : Unit} (h : checkSteps texts layers before steps = .ok u)
    (hsplit : steps = pre ++ step :: post) :
    StepOk layers ((pre.map PlanStep.id).reverse ++ before) step := by
  induction pre generalizing before steps with
  | nil =>
    rw [hsplit, nil_append, checkSteps, bind_iff] at h
    obtain ⟨_, hstep, -⟩ := h
    exact checkStep_ok hstep
  | cons first pre ih =>
    rw [hsplit, cons_append, checkSteps, bind_iff] at h
    obtain ⟨_, -, hrest⟩ := h
    have hstep := ih hrest rfl
    simpa using hstep

theorem nodup_of_fresh {α : Type} {l : List α}
    (h : ∀ pre a post, l = pre ++ a :: post → a ∉ pre) : l.Nodup := by
  induction l using List.reverseRecOn with
  | nil => exact nodup_nil
  | append_singleton rest a ih =>
    rw [nodup_append_comm, singleton_append, nodup_cons]
    refine ⟨h rest a [] rfl, ih ?_⟩
    intro pre b post hsplit
    refine h pre b (post ++ [a]) ?_
    rw [hsplit, append_assoc, cons_append]

theorem needed_sound (steps : List PlanStep) (hsteps : ∀ step ∈ steps, step ∈ plan.steps)
    {needed : List String} (hneeded : ∀ a ∈ needed, Relation.ReflTransGen plan.Reads output a) :
    ∀ a ∈ steps.foldl need needed, Relation.ReflTransGen plan.Reads output a := by
  induction steps generalizing needed with
  | nil => exact hneeded
  | cons step rest ih =>
    refine ih (fun s hs => hsteps s (mem_cons_of_mem _ hs)) ?_
    intro a ha
    rw [need] at ha
    by_cases hmem : step.id ∈ needed
    · rw [if_pos hmem, List.mem_append] at ha
      rcases ha with ha | ha
      · exact (hneeded _ hmem).tail ⟨step, hsteps step mem_cons_self, rfl, ha⟩
      · exact hneeded a ha
    · rw [if_neg hmem] at ha
      exact hneeded a ha

theorem ids_split {before after : List String} {b : String} (h : plan.ids = before ++ b :: after) :
    ∃ pre step post, plan.steps = pre ++ step :: post ∧ pre.map PlanStep.id = before ∧
      step.id = b := by
  obtain ⟨pre, rest, hplan, hpre, hrest⟩ := map_eq_append_iff.mp h
  obtain ⟨step, post, rfl, hid, -⟩ := map_eq_cons_iff.mp hrest
  exact ⟨pre, step, post, hplan, hpre, hid⟩

theorem validatePlan_ok (h : validatePlan texts layers plan = .ok output) :
    Accepted layers plan output := by
  rw [validatePlan] at h
  simp only [bind_iff, require_ok, not_eq_true', decide_eq_true_eq] at h
  obtain ⟨_, hnonempty, _, -, _, hsteps, _, hmem, h⟩ := h
  have hat : ∀ pre step post, plan.steps = pre ++ step :: post →
      StepOk layers (pre.map PlanStep.id).reverse step := by
    intro pre step post hplan
    have hstep := checkSteps_ok hsteps hplan
    rwa [append_nil] at hstep
  have hmember : ∀ step ∈ plan.steps, ∃ before, StepOk layers before step := by
    intro step hstep
    obtain ⟨pre, post, hplan⟩ := append_of_mem hstep
    exact ⟨_, hat pre step post hplan⟩
  have hnodup : plan.ids.Nodup := by
    refine nodup_of_fresh ?_
    intro before b after hids
    obtain ⟨pre, step, post, hplan, rfl, rfl⟩ := ids_split hids
    have hfresh := (hat pre step post hplan).fresh
    simpa using hfresh
  have hrespects : Respects plan.Reads plan.ids := by
    intro before b after hids a hreads
    obtain ⟨pre, step, post, hplan, rfl, rfl⟩ := ids_split hids
    obtain ⟨other, hother, hid, ha⟩ := hreads
    have hstep : step ∈ plan.steps := by
      rw [hplan]
      simp
    obtain rfl := inj_on_of_nodup_map hnodup hother hstep hid
    exact List.mem_reverse.mp ((hat pre other post hplan).earlier a ha)
  cases hunused : plan.steps.find? fun step => step.id ∉ plan.steps.reverse.foldl need
      [plan.output.getD ((plan.steps.getLast?.map PlanStep.id).getD "")] with
  | some unused =>
    rw [hunused] at h
    cases h
  | none =>
    rw [hunused] at h
    obtain rfl := (Except.ok.inj h).symm
    rw [find?_eq_none] at hunused
    refine {
      nonempty := by simpa using hnonempty
      named := fun step hstep => (hmember step hstep).elim fun _ hok => hok.named
      nodup := hnodup
      loaded := fun step hstep => (hmember step hstep).elim fun _ hok => hok.loaded
      respects := hrespects
      exported := hmem
      contributes := ?_ }
    intro step hstep
    have hneeded := hunused step hstep
    rw [decide_eq_true_eq, not_not] at hneeded
    refine needed_sound plan.steps.reverse (fun s hs => List.mem_reverse.mp hs) ?_ step.id hneeded
    intro a ha
    rw [List.mem_singleton.mp ha]

theorem isWhitespace_idChar {c : Char} (h : isIdChar c = true) : isWhitespace c = false := by
  rw [isIdChar] at h
  delta Char.isAlphanum Char.isAlpha Char.isUpper Char.isLower at h
  simp only [or_eq_true, beq_iff_eq, Char.isDigit, and_eq_true, decide_eq_true_eq,
    UInt32.le_iff_toNat_le, ge_iff_le] at h
  have hn : c.toNat = c.val.toNat := rfl
  simp only [isWhitespace, or_eq_false_iff, and_eq_false_iff,
    decide_eq_false_iff_not, beq_eq_false_iff_ne]
  change ((((65 ≤ c.toNat ∧ c.toNat ≤ 90) ∨ (97 ≤ c.toNat ∧ c.toNat ≤ 122)) ∨
    (48 ≤ c.toNat ∧ c.toNat ≤ 57)) ∨ c = '_') ∨ c = '-' at h
  rcases h with (((h | h) | h) | h) | h
  · omega
  · omega
  · omega
  · subst h
    decide
  · subst h
    decide

theorem isBlank_of_validId {id : String} (h : validId id = true) : isBlank id = false := by
  rw [validId, and_eq_true, and_eq_true] at h
  obtain ⟨⟨hnonempty, -⟩, hchars⟩ := h
  have hne : id.toList ≠ [] := by
    intro hnil
    have hempty : id = "" := String.toList_inj.mp hnil
    rw [hempty] at hnonempty
    exact absurd hnonempty (by decide)
  obtain ⟨c, rest, hc⟩ := exists_cons_of_ne_nil hne
  have hmem : c ∈ id.toList := by
    rw [hc]
    exact mem_cons_self
  exact isBlank_false_of_mem hmem (isWhitespace_idChar (all_eq_true.mp hchars c hmem))

/-! ## The graph of a plan -/

section

variable {id : Uuid} {fresh : String → Uuid} {inputs : List (WorkflowInputContract × Value)}

theorem mem_dependencies {a : String} : a ∈ dependencies step ↔ a ∈ step.stepRefs := by
  have hfold : ∀ (l found : List String),
      a ∈ l.foldl (fun found id => if id ∈ found then found else found ++ [id]) found ↔
        a ∈ found ∨ a ∈ l := by
    intro l
    induction l with
    | nil => simp
    | cons first rest ih =>
      intro found
      rw [foldl_cons, ih, mem_cons]
      by_cases hfound : first ∈ found
      · rw [if_pos hfound]
        by_cases ha : a = first
        · simp [ha, hfound]
        · simp [ha]
      · rw [if_neg hfound, List.mem_append, List.mem_singleton, or_assoc]
  rw [dependencies, hfold]
  simp

theorem mem_referenced {name : String} :
    name ∈ referenced plan ↔ ∃ step ∈ plan.steps, name ∈ step.layerRefs := by
  rw [referenced, Std.ExtTreeSet.mem_toList, Std.ExtTreeSet.mem_ofList, List.contains_iff_mem,
    List.mem_flatMap]

theorem nodup_referenced (plan : ToolkitPlan) : (referenced plan).Nodup := Keyed.nodup_toList _

def planNode (rt : Runtime) (fresh : String → Uuid) (step : PlanStep) : Node :=
  explicitNode rt (compileStep fresh step)

variable (hp : Accepted layers plan output)

include hp

theorem not_legacy : (compile id fresh plan output inputs).isLegacyLinear = false := by
  obtain ⟨first, rest, hsteps⟩ := exists_cons_of_ne_nil hp.nonempty
  have hmem : first ∈ plan.steps := by
    rw [hsteps]
    exact mem_cons_self
  rw [isLegacyLinear, all_eq_false]
  refine ⟨compileStep fresh first, mem_map_of_mem hmem, ?_⟩
  simp [compileStep]

theorem compile_graph :
    (compile id fresh plan output inputs).graph rt = plan.steps.map (planNode rt fresh) := by
  rw [graph, not_legacy hp, graphNodes_explicit]
  show (plan.steps.map (compileStep fresh)).map _ = _
  rw [map_map]
  rfl

theorem nodeId_compileStep (hstep : step ∈ plan.steps) :
    (compileStep fresh step).nodeId rt = step.id := by
  rw [WorkflowStep.nodeId]
  show (if isBlank step.id = true then _ else _) = _
  rw [if_neg (by simp [isBlank_of_validId (hp.named step hstep)])]
  rfl

theorem planNode_id (hstep : step ∈ plan.steps) : (planNode rt fresh step).id = step.id := by
  rw [planNode, explicitNode_id, nodeId_compileStep hp hstep]

theorem compile_ids :
    GeoWorkflow.ids ((compile id fresh plan output inputs).graph rt) = plan.ids := by
  rw [compile_graph hp, GeoWorkflow.ids, map_map]
  exact map_congr_left fun step hstep => planNode_id hp hstep

theorem compile_dep : Dep ((compile id fresh plan output inputs).graph rt) = plan.Reads := by
  funext b a
  rw [compile_graph hp]
  refine propext ⟨?_, ?_⟩
  · intro h
    obtain ⟨node, hnode, hid, ha⟩ := h
    obtain ⟨step, hstep, rfl⟩ := mem_map.mp hnode
    rw [planNode_id hp hstep] at hid
    exact ⟨step, hstep, hid, mem_dependencies.mp ha⟩
  · intro h
    obtain ⟨step, hstep, hid, ha⟩ := h
    refine ⟨planNode rt fresh step, mem_map_of_mem hstep, ?_, mem_dependencies.mpr ha⟩
    rw [planNode_id hp hstep, hid]

theorem exports_layer {name : String} (hname : name ∈ plan.ids) :
    exports (compile id fresh plan output inputs)
      ((compile id fresh plan output inputs).nodeTable rt) name "layer" = true := by
  obtain ⟨step, hstep, rfl⟩ := mem_map.mp hname
  refine (exports_iff_graph (by rw [compile_ids hp]; exact hp.nodup)).mpr ?_
  rw [compile_graph hp]
  exact ⟨planNode rt fresh step, mem_map_of_mem hstep, planNode_id hp hstep,
    .output step.id "layer", mem_singleton_self _, rfl, rfl⟩

theorem mem_compileTable {name : String} :
    ((compile id fresh plan output inputs).nodeTable rt).contains name = true ↔
      name ∈ plan.ids := by
  rw [nodeTable, contains_numberNodes (by rw [compile_ids hp]; exact hp.nodup), compile_ids hp]

omit hp in
theorem Accepted.reads_mem (hp : Accepted layers plan output) {a b : String}
    (h : plan.Reads b a) : a ∈ plan.ids ∧ a ≠ b := by
  obtain ⟨step, hstep, rfl, ha⟩ := h
  have hb : step.id ∈ plan.ids := mem_map_of_mem hstep
  obtain ⟨before, after, hsplit⟩ := append_of_mem hb
  have hbefore := hp.respects before step.id after hsplit a ⟨step, hstep, rfl, ha⟩
  refine ⟨?_, ?_⟩
  · rw [hsplit]
    exact mem_append_left _ hbefore
  · intro heq
    have hnodup := hp.nodup
    rw [hsplit] at hnodup
    exact (nodup_append.mp hnodup).2.2 a hbefore step.id mem_cons_self heq

theorem input_ok (hnames : inputs.map (fun e => e.1.name) = referenced plan)
    (hblank : ∀ name ∈ referenced plan, isBlank name = false)
    (hstep : step ∈ plan.steps) {role : String} {ref : Ref} (href : (role, ref) ∈ step.refs) :
    InputOk (compile id fresh plan output inputs) false
      ((compile id fresh plan output inputs).nodeTable rt) (planNode rt fresh step)
      ref.dataRef := by
  cases ref with
  | layer name =>
    have hname : name ∈ referenced plan :=
      mem_referenced.mpr ⟨step, hstep, PlanStep.mem_layerRefs.mpr ⟨role, href⟩⟩
    refine ⟨hblank name hname, ?_⟩
    rw [← hnames] at hname
    obtain ⟨e, he, heq⟩ := mem_map.mp hname
    exact ⟨e.1, mem_map_of_mem he, heq⟩
  | step name =>
    have hname : name ∈ step.stepRefs := PlanStep.mem_stepRefs.mpr ⟨role, href⟩
    obtain ⟨hmem, hne⟩ := hp.reads_mem ⟨step, hstep, rfl, hname⟩
    refine ⟨by show isBlank "layer" = false; decide, ?_⟩
    refine ⟨?_, (mem_compileTable hp).mpr hmem, mem_dependencies.mpr hname,
      .inr (exports_layer hp hmem)⟩
    rw [planNode_id hp hstep]
    exact hne

theorem compile_linkable (hnames : inputs.map (fun e => e.1.name) = referenced plan)
    (hcontracts : ∀ e ∈ inputs, validateInputContract e.1 = .ok ())
    (hblank : ∀ name ∈ referenced plan, isBlank name = false) :
    Linkable rt (compile id fresh plan output inputs) where
  nonempty := by
    show plan.steps.map _ ≠ []
    simpa using hp.nonempty
  named := by
    rw [compile_ids hp]
    intro name hname
    obtain ⟨step, hstep, rfl⟩ := mem_map.mp hname
    exact isBlank_of_validId (hp.named step hstep)
  nodup := by
    rw [compile_ids hp]
    exact hp.nodup
  contractNames := by
    show ((inputs.map Prod.fst).map WorkflowInputContract.name).Nodup
    rw [map_map]
    exact hnames ▸ nodup_referenced plan
  contracts := by
    intro c hc
    obtain ⟨e, he, rfl⟩ := mem_map.mp hc
    exact hcontracts e he
  linked := by
    intro node hnode
    rw [compile_graph hp] at hnode
    obtain ⟨step, hstep, rfl⟩ := mem_map.mp hnode
    refine ⟨?_, ?_⟩
    · intro a ha
      obtain ⟨hmem, hne⟩ := hp.reads_mem ⟨step, hstep, rfl, mem_dependencies.mp ha⟩
      refine ⟨?_, (mem_compileTable hp).mpr hmem⟩
      rw [planNode_id hp hstep]
      exact hne
    · intro input hinput
      obtain ⟨⟨role, ref⟩, href, rfl⟩ := mem_map.mp hinput
      rw [not_legacy hp, validateInput_ok]
      exact input_ok hp hnames hblank hstep href

theorem compile_outputsOk : OutputsOk rt (compile id fresh plan output inputs) where
  outputs := by
    intro _ node hnode
    rw [compile_graph hp] at hnode
    obtain ⟨step, hstep, rfl⟩ := mem_map.mp hnode
    refine validateOutputs_ok.mpr ⟨cons_ne_nil _ _, ?_⟩
    intro port hport
    obtain rfl := List.mem_singleton.mp hport
    refine ⟨?_, by show isBlank "layer" = false; decide⟩
    rw [planNode_id hp hstep]
    rfl
  refs := by
    intro ref href
    obtain rfl := List.mem_singleton.mp href
    exact validateOutputRef_ok.mpr ⟨output, rfl, (mem_compileTable hp).mpr hp.exported,
      .inr (exports_layer hp hp.exported)⟩
  ports := by
    intro node hnode
    rw [compile_graph hp] at hnode
    obtain ⟨step, -, rfl⟩ := mem_map.mp hnode
    exact nodup_nil
  portContracts := by
    intro node hnode
    rw [compile_graph hp] at hnode
    obtain ⟨step, -, rfl⟩ := mem_map.mp hnode
    intro c hc
    cases hc

theorem compile_connected : Connected ((compile id fresh plan output inputs).graph rt) := by
  have hreach : ∀ a ∈ plan.ids, Relation.ReflTransGen
      (Beside ((compile id fresh plan output inputs).graph rt)) output a := by
    intro a ha
    obtain ⟨step, hstep, rfl⟩ := mem_map.mp ha
    refine Relation.ReflTransGen.mono ?_ _ _ (hp.contributes step hstep)
    intro b c hreads
    refine .inl ?_
    rw [compile_dep hp]
    exact hreads
  have hback : ∀ a b, Relation.ReflTransGen
      (Beside ((compile id fresh plan output inputs).graph rt)) a b → Relation.ReflTransGen
      (Beside ((compile id fresh plan output inputs).graph rt)) b a := by
    intro a b hab
    induction hab with
    | refl => exact .refl
    | tail _ hstep ih => exact .head hstep.symm ih
  intro a ha b hb
  rw [compile_ids hp] at ha hb
  exact (hback _ _ (hreach a ha)).trans (hreach b hb)

theorem compile_valid (hnames : inputs.map (fun e => e.1.name) = referenced plan)
    (hcontracts : ∀ e ∈ inputs, validateInputContract e.1 = .ok ())
    (hblank : ∀ name ∈ referenced plan, isBlank name = false) :
    Valid rt (compile id fresh plan output inputs) where
  toLinkable := compile_linkable hp hnames hcontracts hblank
  toOutputsOk := compile_outputsOk hp
  acyclic := by
    intro a
    rw [compile_dep hp]
    refine IsOrder.acyclic ⟨List.Perm.refl plan.ids, hp.respects⟩ hp.nodup ?_
    intro b c hreads
    obtain ⟨step, hstep, rfl, -⟩ := hreads
    exact mem_map_of_mem hstep
  connected := compile_connected hp

end

end GeneGIS.Toolkit
