/-
The digest document.

It sorts the lists of a workflow by the canonical text of their entries, and its steps by that of
their identifiers.  Retrieval times are not members.
-/
import GeneGIS.Data.Shown
import GeneGIS.Data.Sorted
import GeneGIS.Workflow.Valid

namespace GeneGIS.GeoWorkflow

open List hiding isEmpty_iff

open Value (object ofList ofList_eq ofOption strip strip_ofList strip_str)

variable {rt : Runtime}

/-- Values in the order of their canonical text. -/
def TextOrder (rt : Runtime) (a b : Value) : Prop := ¬ rt.canonicalJson b < rt.canonicalJson a

instance (rt : Runtime) : DecidableRel (TextOrder rt) :=
  fun a b => inferInstanceAs (Decidable (¬ rt.canonicalJson b < rt.canonicalJson a))

instance (rt : Runtime) : Std.Total (TextOrder rt) where
  total a b := by
    simp only [TextOrder, not_lt]
    exact le_total _ _

instance (rt : Runtime) : IsTrans Value (TextOrder rt) where
  trans a b c := by
    simp only [TextOrder, not_lt]
    exact le_trans

theorem TextOrder.antisymm (hf : Json.FloatText rt.floatText) {a b : Value}
    (hab : TextOrder rt a b) (hba : TextOrder rt b a) : a = b := by
  simp only [TextOrder, not_lt] at hab hba
  exact Value.canonicalJson_inj hf (le_antisymm hab hba)

theorem sortByCanonicalJson_eq (rt : Runtime) (vs : List Value) :
    rt.sortByCanonicalJson vs = vs.insertionSort (TextOrder rt) := by
  rw [Runtime.sortByCanonicalJson]
  exact Sorted.insertionSort_congr _ _ fun a _ b _ => not_lt.symm

theorem sortByCanonicalJson_perm (hf : Json.FloatText rt.floatText) {vs vs' : List Value}
    (h : vs.Perm vs') : rt.sortByCanonicalJson vs = rt.sortByCanonicalJson vs' := by
  rw [sortByCanonicalJson_eq, sortByCanonicalJson_eq]
  exact Sorted.insertionSort_eq_of_perm _ (fun _ _ _ _ hab hba => hab.antisymm hf hba) h

def IdOrder (rt : Runtime) (a b : WorkflowNodeId) : Prop := TextOrder rt (.str a) (.str b)

instance (rt : Runtime) : DecidableRel (IdOrder rt) :=
  fun a b => inferInstanceAs (Decidable (TextOrder rt (.str a) (.str b)))

theorem IdOrder.antisymm (hf : Json.FloatText rt.floatText) {a b : WorkflowNodeId}
    (hab : IdOrder rt a b) (hba : IdOrder rt b a) : a = b :=
  Value.str_inj.mp (TextOrder.antisymm hf hab hba)

theorem sortNodes_eq (rt : Runtime) (graph : List Node) :
    sortNodes rt graph = graph.insertionSort fun a b => IdOrder rt a.id b.id := by
  rw [sortNodes]
  exact Sorted.insertionSort_congr _ _ fun a _ b _ => not_lt.symm

theorem map_sortNodes {β : Type} (hf : Json.FloatText rt.floatText) {graph graph' : List Node}
    (view view' : Node → β)
    (hperm : (graph.map fun node => (node.id, view node)).Perm
      (graph'.map fun node => (node.id, view' node)))
    (hnodup : (ids graph).Nodup) :
    (sortNodes rt graph).map view = (sortNodes rt graph').map view' := by
  let r : WorkflowNodeId × β → WorkflowNodeId × β → Prop := fun p q => IdOrder rt p.1 q.1
  have : DecidableRel r := fun p q => inferInstanceAs (Decidable (IdOrder rt p.1 q.1))
  have : Std.Total r := ⟨fun p q => total_of (TextOrder rt) _ _⟩
  have : IsTrans _ r := ⟨fun p q t => trans_of (TextOrder rt)⟩
  have hsort : ∀ (g : List Node) (v : Node → β), (sortNodes rt g).map v =
      ((g.map fun node => (node.id, v node)).insertionSort r).map Prod.snd := by
    intro g v
    rw [sortNodes_eq, ← map_insertionSort (r := fun a b : Node => IdOrder rt a.id b.id)
      (s := r) (fun node => (node.id, v node)) g (fun _ _ _ _ => Iff.rfl), map_map]
    rfl
  rw [hsort, hsort, Sorted.insertionSort_eq_of_perm r ?_ hperm]
  intro p hp q hq hpq hqp
  obtain ⟨a, ha, rfl⟩ := mem_map.mp hp
  obtain ⟨b, hb, rfl⟩ := mem_map.mp hq
  rw [inj_on_of_nodup_map hnodup ha hb (IdOrder.antisymm hf hpq hqp)]

abbrev retrievalFields : List String := ["retrieved_at"]

def sortedList {α : Type} (rt : Runtime) (f : α → Value) (l : List α) : Value :=
  .ofList (fun v => v) (rt.sortByCanonicalJson (l.map f))

theorem perm_sortByCanonicalJson (vs : List Value) : (rt.sortByCanonicalJson vs).Perm vs := by
  rw [sortByCanonicalJson_eq]
  exact perm_insertionSort _ _

theorem strip_sortedList_eq {α β : Type} {f : α → Value} {g : β → Value} {names : List String}
    {l : List α} {m : List β} :
    (sortedList rt f l).strip names = (sortedList rt g m).strip names ↔
      (rt.sortByCanonicalJson (l.map f)).map (strip names) =
        (rt.sortByCanonicalJson (m.map g)).map (strip names) := by
  rw [sortedList, sortedList, strip_ofList, strip_ofList, ofList_eq]

theorem strip_sortedList_perm {α : Type} {f : α → Value} {names : List String}
    (hf : Json.FloatText rt.floatText)
    (hinj : Function.Injective fun a => (f a).strip names) {l m : List α} :
    (sortedList rt f l).strip names = (sortedList rt f m).strip names ↔ l.Perm m := by
  rw [strip_sortedList_eq]
  constructor
  · intro h
    have hread : ∀ l : List α, ((rt.sortByCanonicalJson (l.map f)).map (strip names)).Perm
        (l.map fun a => (f a).strip names) := by
      intro l
      refine ((perm_sortByCanonicalJson _).map _).trans (List.Perm.of_eq ?_)
      rw [map_map]
      rfl
    refine (map_perm_map_iff hinj).mp ?_
    exact (hread l).symm.trans ((List.Perm.of_eq h).trans (hread m))
  · intro h
    rw [sortByCanonicalJson_perm hf (h.map f)]

theorem dataRef_inj (names : List String) (hnode : "node" ∉ names) (hport : "port" ∉ names) :
    Function.Injective fun r : WorkflowDataRef => r.toJson.strip names := by
  intro a b h
  have hpair := (Value.strip_pair_eq (by decide) hnode hport).mp h
  obtain ⟨hnode, hport⟩ := hpair
  have hnode' := (Value.shows_str.option Value.str_ne_null a.node b.node).mp hnode
  rw [strip_str, strip_str, Value.str_inj] at hport
  cases a
  cases b
  simp only [Option.map_id'] at hnode'
  simp_all

/-! ## Members -/

/-- What a step exports; a legacy step exports its result. -/
def Node.exported (legacy : Bool) (node : Node) : List WorkflowDataRef :=
  if legacy then [.output node.id "result"] else node.step.outputs

theorem stepDocument_eq_iff {legacy legacy' : Bool} {n m : Node} :
    (stepDocument rt legacy n).strip retrievalFields =
        (stepDocument rt legacy' m).strip retrievalFields ↔
      n.id = m.id ∧ n.step.operation = m.step.operation ∧
      n.step.parameters.strip retrievalFields = m.step.parameters.strip retrievalFields ∧
      (n.step.expectedSchema.getD .null).strip retrievalFields =
        (m.step.expectedSchema.getD .null).strip retrievalFields ∧
      (n.step.validation.getD .null).strip retrievalFields =
        (m.step.validation.getD .null).strip retrievalFields ∧
      (ofOption .str n.step.provenance).strip retrievalFields =
        (ofOption .str m.step.provenance).strip retrievalFields ∧
      (sortedList rt .str n.deps).strip retrievalFields =
        (sortedList rt .str m.deps).strip retrievalFields ∧
      (sortedList rt WorkflowDataRef.toJson n.inputs).strip retrievalFields =
        (sortedList rt WorkflowDataRef.toJson m.inputs).strip retrievalFields ∧
      (sortedList rt WorkflowDataRef.toJson (n.exported legacy)).strip retrievalFields =
        (sortedList rt WorkflowDataRef.toJson (m.exported legacy')).strip retrievalFields ∧
      (sortedList rt WorkflowPortContract.toJson n.step.outputContracts).strip retrievalFields =
        (sortedList rt WorkflowPortContract.toJson m.step.outputContracts).strip
          retrievalFields := by
  have hmembers : ∀ (legacy : Bool) (n : Node), stepDocument rt legacy n = .object (Value.members
      [("stable_id", fun e : Bool × Node => some (.str e.2.id)),
        ("operation", fun e => some (.str e.2.step.operation)),
        ("parameters", fun e => some e.2.step.parameters),
        ("expected_schema", fun e => some (e.2.step.expectedSchema.getD .null)),
        ("validation", fun e => some (e.2.step.validation.getD .null)),
        ("provenance", fun e => some (.ofOption .str e.2.step.provenance)),
        ("depends_on", fun e => some (sortedList rt .str e.2.deps)),
        ("inputs", fun e => some (sortedList rt WorkflowDataRef.toJson e.2.inputs)),
        ("outputs", fun e => some (sortedList rt WorkflowDataRef.toJson (e.2.exported e.1))),
        ("output_contracts",
          fun e => some (sortedList rt WorkflowPortContract.toJson e.2.step.outputContracts))]
      (legacy, n)) :=
    fun _ _ => congrArg object rfl
  rw [hmembers, hmembers, Value.strip_members_eq _ (by simp)]
  simp

/-- The documents of the steps, in the order of their identifiers. -/
def stepDocuments (rt : Runtime) (w : GeoWorkflow) : List Value :=
  (sortNodes rt (w.graph rt)).map fun node =>
    (stepDocument rt w.isLegacyLinear node).strip retrievalFields

theorem digestDocument_eq_iff {w w' : GeoWorkflow} : w.digestDocument rt = w'.digestDocument rt ↔
      (Value.str w.goal).strip retrievalFields = (Value.str w'.goal).strip retrievalFields ∧
      (ofList .str w.assumptions).strip retrievalFields =
        (ofList .str w'.assumptions).strip retrievalFields ∧
      (ofList (fun v => v) w.inputs).strip retrievalFields =
        (ofList (fun v => v) w'.inputs).strip retrievalFields ∧
      (sortedList rt WorkflowInputContract.toJson w.inputContracts).strip retrievalFields =
        (sortedList rt WorkflowInputContract.toJson w'.inputContracts).strip retrievalFields ∧
      (ofList (fun v => v) w.outputs).strip retrievalFields =
        (ofList (fun v => v) w'.outputs).strip retrievalFields ∧
      (sortedList rt WorkflowDataRef.toJson
          (digestOutputRefs w.isLegacyLinear w (w.graph rt))).strip retrievalFields =
        (sortedList rt WorkflowDataRef.toJson
          (digestOutputRefs w'.isLegacyLinear w' (w'.graph rt))).strip retrievalFields ∧
      stepDocuments rt w = stepDocuments rt w' ∧
      (sortedList rt citationDocument w.citations).strip retrievalFields =
        (sortedList rt citationDocument w'.citations).strip retrievalFields := by
  have hmembers : ∀ w : GeoWorkflow, w.digestDocument rt = (object (Value.members
      [("goal", fun w : GeoWorkflow => some (.str w.goal)),
        ("assumptions", fun w => some (.ofList .str w.assumptions)),
        ("inputs", fun w => some (.ofList (fun v => v) w.inputs)),
        ("input_contracts",
          fun w => some (sortedList rt WorkflowInputContract.toJson w.inputContracts)),
        ("outputs", fun w => some (.ofList (fun v => v) w.outputs)),
        ("output_refs", fun w => some (sortedList rt WorkflowDataRef.toJson
          (digestOutputRefs w.isLegacyLinear w (w.graph rt)))),
        ("steps", fun w => some (.ofList (stepDocument rt w.isLegacyLinear)
          (sortNodes rt (w.graph rt)))),
        ("citations", fun w => some (sortedList rt citationDocument w.citations))] w)).strip
          retrievalFields :=
    fun _ => congrArg (fun members => (object members).strip retrievalFields) rfl
  have hsteps : (ofList (stepDocument rt w.isLegacyLinear)
        (sortNodes rt (w.graph rt))).strip retrievalFields =
      (ofList (stepDocument rt w'.isLegacyLinear)
        (sortNodes rt (w'.graph rt))).strip retrievalFields ↔
      stepDocuments rt w = stepDocuments rt w' := by
    have hread : ∀ w : GeoWorkflow, (ofList (stepDocument rt w.isLegacyLinear)
        (sortNodes rt (w.graph rt))).strip retrievalFields =
          ofList (fun v => v) (stepDocuments rt w) := by
      intro w
      rw [strip_ofList]
      refine Value.ext (congrArg Json.arr ?_)
      rw [stepDocuments, map_map]
      rfl
    rw [hread, hread, ofList_eq, map_id', map_id']
  rw [hmembers, hmembers, Value.strip_members_eq _ (by simp), ← hsteps]
  simp

theorem stepDocuments_node {w w' : GeoWorkflow} (h : stepDocuments rt w = stepDocuments rt w')
    {n : Node} (hn : n ∈ w.graph rt) :
    ∃ m ∈ w'.graph rt, (stepDocument rt w.isLegacyLinear n).strip retrievalFields =
      (stepDocument rt w'.isLegacyLinear m).strip retrievalFields := by
  have hmem : (stepDocument rt w.isLegacyLinear n).strip retrievalFields ∈
      stepDocuments rt w := by
    refine mem_map.mpr ⟨n, ?_, rfl⟩
    rw [sortNodes_eq, mem_insertionSort]
    exact hn
  rw [h] at hmem
  obtain ⟨m, hm, heq⟩ := mem_map.mp hmem
  rw [sortNodes_eq, mem_insertionSort] at hm
  exact ⟨m, hm, heq.symm⟩

end GeneGIS.GeoWorkflow

/-! ## Workflows without edges

The steps of a workflow written before the graph schema form a chain: each depends on the one
before. -/

namespace GeneGIS.GeoWorkflow

open Toposort
open List hiding isEmpty_iff

variable {rt : Runtime} {w w' : GeoWorkflow}

theorem dep_chain (previous : WorkflowNodeId) (steps : List WorkflowStep) {a b : WorkflowNodeId} :
    Dep (graphNodes rt true (some previous) steps) b a ↔
      ∃ before after, previous :: steps.map (WorkflowStep.nodeId rt) = before ++ a :: b :: after := by
  induction steps generalizing previous with
  | nil =>
    refine iff_of_false ?_ ?_
    · intro h
      obtain ⟨node, hnode, -⟩ := h
      cases hnode
    · intro h
      obtain ⟨before, after, h⟩ := h
      have hlength := congrArg List.length h
      simp at hlength
      omega
  | cons step rest ih =>
    have hdep : Dep (graphNodes rt true (some previous) (step :: rest)) b a ↔
        (step.nodeId rt = b ∧ a = previous) ∨
          Dep (graphNodes rt true (some (step.nodeId rt)) rest) b a := by
      simp only [Dep, graphNodes, exists_mem_cons_iff, mem_singleton]
    rw [hdep, ih]
    constructor
    · intro h
      rcases h with ⟨rfl, rfl⟩ | ⟨before, after, h⟩
      · exact ⟨[], rest.map (WorkflowStep.nodeId rt), rfl⟩
      · exact ⟨previous :: before, after, by rw [List.map_cons, h]; rfl⟩
    · intro h
      obtain ⟨before, after, h⟩ := h
      cases before with
      | nil =>
        obtain ⟨hprevious, hrest⟩ := cons.inj h
        exact .inl ⟨(cons.inj hrest).1, hprevious.symm⟩
      | cons first before => exact .inr ⟨before, after, (cons.inj h).2⟩

theorem dep_legacy (hlegacy : w.isLegacyLinear = true) {a b : WorkflowNodeId} :
    Dep (w.graph rt) b a ↔ ∃ before after, ids (w.graph rt) = before ++ a :: b :: after := by
  rw [ids_graph, graph, hlegacy]
  cases hsteps : w.steps with
  | nil => simp [Dep, graphNodes]
  | cons step rest =>
    have hempty : step.dependsOn = [] := by
      rw [isLegacyLinear, hsteps, List.all_cons] at hlegacy
      simp only [Bool.and_eq_true, List.isEmpty_iff] at hlegacy
      exact hlegacy.1.1.1.2
    rw [List.map_cons, ← dep_chain]
    simp [Dep, graphNodes, hempty]

theorem greedy_legacy (hlegacy : w.isLegacyLinear = true) (hnodup : (ids (w.graph rt)).Nodup) :
    Greedy (ids (w.graph rt)) (Dep (w.graph rt)) (ids (w.graph rt)) := by
  intro before b after hsplit
  have hparts := hsplit ▸ hnodup
  rw [nodup_append] at hparts
  obtain ⟨-, hafter, hapart⟩ := hparts
  have hb : b ∉ before := fun hb => hapart b hb b mem_cons_self rfl
  refine ⟨⟨hsplit ▸ mem_append_right _ mem_cons_self, hb, ?_⟩, ?_⟩
  · intro a hdep
    obtain ⟨first, last, hchain⟩ := (dep_legacy hlegacy).mp hdep
    have hsame : before ++ b :: after = (first ++ [a]) ++ b :: last := by
      rw [← hsplit, hchain, append_assoc]
      rfl
    rw [((append_cons_inj_of_notMem hb (nodup_cons.mp hafter).1).mp hsame).1]
    exact mem_append_right _ mem_cons_self
  · -- A later node waits for the one before it, which is not placed.
    intro c hc
    have hmem := hc.node
    rw [hsplit, mem_append] at hmem
    rcases mem_cons.mp (hmem.resolve_left hc.fresh) with rfl | hmem
    · exact le_refl c
    · obtain ⟨front, back, hfront⟩ := append_of_mem hmem
      obtain ⟨first, p, hlast⟩ : ∃ first p, b :: front = first ++ [p] :=
        ⟨_, _, (dropLast_append_getLast (cons_ne_nil b front)).symm⟩
      have hdep : Dep (w.graph rt) c p := by
        refine (dep_legacy hlegacy).mpr ⟨before ++ first, back, ?_⟩
        have hlist : b :: after = (first ++ [p]) ++ c :: back := by
          rw [hfront, ← cons_append, hlast]
        rw [hsplit, hlist, append_assoc, append_assoc]
        rfl
      have hp : p ∈ b :: after := by
        rw [hfront, ← cons_append, hlast]
        simp
      exact absurd rfl (hapart p (hc.deps p hdep) p hp)

end GeneGIS.GeoWorkflow
