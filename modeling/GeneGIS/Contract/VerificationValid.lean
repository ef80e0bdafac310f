/-
The nodes are well formed, the references known and distinct, and no check comes back to itself.
Order and digest do not depend on how nodes are listed.
-/
import GeneGIS.Contract.Verification

namespace GeneGIS.VerificationGraph

open Fallible Toposort List Text

variable {g g' : VerificationGraph}

/-! ## Validation -/

/-- What the check of one node asks, beside its identifier. -/
structure NodeFields (n : VerificationNode) : Prop where
  claim : isBlank n.claim = false
  verifier : isBlank n.verifier.verifierId = false
  engine : isBlank n.verifier.engine = false
  implementation : isBlank n.verifier.implementation = false
  contracts : n.subjectContracts.Nodup ∧ ∀ v ∈ n.subjectContracts, isBlank v = false
  inputs : n.evidenceInputs.Nodup ∧ ∀ v ∈ n.evidenceInputs, isBlank v = false
  dependencies : ∀ v ∈ n.dependsOn, isBlank v = false
  metric : ∀ t, n.tolerance = some t → isBlank t.metric = false

theorem uniqueReferences_ok {check field : String} {seen values : List String} {u : Unit} :
    uniqueReferences check field seen values = .ok u ↔
      (values.Nodup ∧ ∀ v ∈ values, isBlank v = false) ∧ ∀ v ∈ values, v ∉ seen := by
  induction values generalizing seen with
  | nil => simp [uniqueReferences]
  | cons v rest ih =>
    rw [uniqueReferences, nodup_cons, forall_mem_cons, forall_mem_cons]
    simp only [bind_iff, requireFilled_ok, require_ok, exists_const, ih, decide_eq_true_eq,
      mem_cons, not_or]
    constructor
    · intro h
      obtain ⟨hfilled, hnew, ⟨hnodup, hrest⟩, hseen⟩ := h
      exact ⟨⟨⟨fun hv => (hseen v hv).1 rfl, hnodup⟩, hfilled, hrest⟩, hnew,
        fun w hw => (hseen w hw).2⟩
    · intro h
      obtain ⟨⟨⟨hv, hnodup⟩, hfilled, hrest⟩, hnew, hseen⟩ := h
      refine ⟨hfilled, hnew, ⟨hnodup, hrest⟩, fun w hw => ⟨?_, hseen w hw⟩⟩
      intro heq
      exact hv (heq ▸ hw)

def checkTolerance : Option QualityTolerance → Check
  | none => .ok ()
  | some tolerance => requireFilled "nodes.tolerance.metric" tolerance.metric

theorem checkTolerance_ok {tolerance : Option QualityTolerance} {u : Unit} :
    checkTolerance tolerance = .ok u ↔ ∀ t, tolerance = some t → isBlank t.metric = false := by
  cases tolerance with
  | none => exact iff_of_true rfl fun t h => by cases h
  | some tolerance => simp only [checkTolerance, requireFilled_ok, Option.some.injEq, forall_eq']

theorem validateNode_ok {n : VerificationNode} {u : Unit} :
    validateNode n = .ok u ↔ NodeFields n ∧ n.dependsOn.Nodup := by
  have htolerance := @checkTolerance_ok n.tolerance u
  simp only [validateNode, bind_iff, requireFilled_ok, exists_const, uniqueReferences_ok,
    not_mem_nil, not_false_eq_true, implies_true, and_true]
  constructor
  · intro h
    obtain ⟨hclaim, hverifier, hengine, himpl, hcontracts, hinputs, hdeps, hmetric⟩ := h
    exact ⟨⟨hclaim, hverifier, hengine, himpl, hcontracts, hinputs, hdeps.2, htolerance.mp hmetric⟩,
      hdeps.1⟩
  · intro h
    obtain ⟨hf, hnodup⟩ := h
    exact ⟨hf.claim, hf.verifier, hf.engine, hf.implementation, hf.contracts, hf.inputs,
      ⟨hnodup, hf.dependencies⟩, htolerance.mpr hf.metric⟩

theorem validateNodes_ok {seen : List String} {nodes : List VerificationNode} {u : Unit} :
    validateNodes seen nodes = .ok u ↔
      (nodes.map VerificationNode.checkId).Nodup ∧ (∀ n ∈ nodes, n.checkId ∉ seen) ∧
      ∀ n ∈ nodes, isBlank n.checkId = false ∧ NodeFields n ∧ n.dependsOn.Nodup := by
  induction nodes generalizing seen with
  | nil => simp [validateNodes]
  | cons node rest ih =>
    rw [validateNodes, map_cons, nodup_cons, forall_mem_cons, forall_mem_cons]
    simp only [bind_iff, requireFilled_ok, require_ok, exists_const, validateNode_ok, ih,
      decide_eq_true_eq, mem_cons, not_or]
    constructor
    · intro h
      obtain ⟨hnamed, hnew, hnode, hnodup, hseen, hrest⟩ := h
      refine ⟨⟨fun hmem => ?_, hnodup⟩, ⟨hnew, fun n hn => (hseen n hn).2⟩, ⟨hnamed, hnode⟩, hrest⟩
      obtain ⟨n, hn, heq⟩ := mem_map.mp hmem
      exact (hseen n hn).1 heq
    · intro h
      obtain ⟨⟨hmem, hnodup⟩, ⟨hnew, hseen⟩, ⟨hnamed, hnode⟩, hrest⟩ := h
      refine ⟨hnamed, hnew, hnode, hnodup, fun n hn => ⟨fun heq => ?_, hseen n hn⟩, hrest⟩
      exact hmem (mem_map.mpr ⟨n, hn, heq⟩)

/-- What validation accepts. -/
structure Valid (g : VerificationGraph) : Prop where
  schemaVersion : g.schemaVersion = currentSchemaVersion
  graphId : isBlank g.graphId = false
  nodes : g.nodes ≠ []
  fields : ∀ n ∈ g.nodes, NodeFields n
  named : ∀ n ∈ g.nodes, isBlank n.checkId = false
  distinct : g.checks.Nodup
  references : ∀ n ∈ g.nodes, n.dependsOn.Nodup ∧ ∀ d ∈ n.dependsOn, d ∈ g.checks
  irreflexive : ∀ n ∈ g.nodes, n.checkId ∉ n.dependsOn
  acyclic : ∀ a, ¬ Relation.TransGen (Refers g) a a

theorem exists_order (h : Distinct g) : (∃ order, g.topologicalOrder = .ok order) ↔
      (∀ n ∈ g.nodes, ∀ d ∈ n.dependsOn, d ≠ n.checkId ∧ d ∈ g.checks) ∧
      ∀ a, ¬ Relation.TransGen (Refers g) a a := by
  constructor
  · intro horder
    obtain ⟨order, horder⟩ := horder
    obtain ⟨hdeps, hacyclic, -⟩ := (topologicalOrder_ok h).mp horder
    exact ⟨hdeps, hacyclic⟩
  · intro hvalid
    have hwired := wired h hvalid.1
    have hperm := (GeoWorkflow.kahnOrder_acyclic hwired).mpr (by rw [dep_eq]; exact hvalid.2)
    have hgreedy := GeoWorkflow.kahnOrder_greedy hwired
    rw [ids_steps] at hperm
    rw [dep_eq, ids_steps] at hgreedy
    exact ⟨_, (topologicalOrder_ok h).mpr ⟨hvalid.1, hvalid.2, hperm, hgreedy⟩⟩

theorem Valid.exists_order (h : Valid g) :
    Distinct g ∧ ∃ order, g.topologicalOrder = .ok order := by
  have hdistinct : Distinct g := ⟨h.distinct, fun n hn => (h.references n hn).1⟩
  exact ⟨hdistinct, (VerificationGraph.exists_order hdistinct).mpr
    ⟨fun n hn d hd => ⟨fun heq => h.irreflexive n hn (heq ▸ hd), (h.references n hn).2 d hd⟩,
      h.acyclic⟩⟩

theorem validate_ok : g.validate = .ok () ↔ Valid g := by
  simp only [validate, bind_iff, require_ok, requireFilled_ok, exists_const, validateNodes_ok,
    decide_eq_true_eq, Bool.not_eq_true', isEmpty_eq_false_iff]
  constructor
  · intro h
    obtain ⟨hschema, hid, hnodes, ⟨hnodup, -, hfields⟩, order, horder, -⟩ := h
    have hdistinct : Distinct g := ⟨hnodup, fun n hn => (hfields n hn).2.2⟩
    obtain ⟨hdeps, hacyclic⟩ := (exists_order hdistinct).mp ⟨order, horder⟩
    exact ⟨hschema, hid, hnodes, fun n hn => (hfields n hn).2.1, fun n hn => (hfields n hn).1,
      hnodup, fun n hn => ⟨(hfields n hn).2.2, fun d hd => (hdeps n hn d hd).2⟩,
      fun n hn hself => (hdeps n hn _ hself).1 rfl, hacyclic⟩
  · intro h
    obtain ⟨-, order, horder⟩ := h.exists_order
    exact ⟨h.schemaVersion, h.graphId, h.nodes, ⟨h.distinct, fun _ _ => not_mem_nil,
      fun n hn => ⟨h.named n hn, h.fields n hn, (h.references n hn).1⟩⟩, order, horder, rfl⟩

theorem order_least (h : Valid g) :
    ∃ order, g.topologicalOrder = .ok order ∧ IsOrder g.checks (Refers g) order ∧
      ∀ m, IsOrder g.checks (Refers g) m → order = m ∨ Lex (· < ·) order m := by
  obtain ⟨hdistinct, order, horder⟩ := h.exists_order
  obtain ⟨-, -, hperm, hgreedy⟩ := (topologicalOrder_ok hdistinct).mp horder
  exact ⟨order, horder, ⟨hperm, hgreedy.respects⟩, fun m hm => hgreedy.least hperm hm⟩

/-! ## Writing order -/

/-- The same node with its references in another order. -/
structure NodeReordered (n n' : VerificationNode) : Prop where
  checkId : n'.checkId = n.checkId
  claim : n'.claim = n.claim
  verifier : n'.verifier = n.verifier
  tolerance : n'.tolerance = n.tolerance
  contracts : n'.subjectContracts.Perm n.subjectContracts
  inputs : n'.evidenceInputs.Perm n.evidenceInputs
  dependencies : n'.dependsOn.Perm n.dependsOn

/-- The same graph with its nodes and their references in another order. -/
structure Reordered (g g' : VerificationGraph) : Prop where
  schemaVersion : g'.schemaVersion = g.schemaVersion
  graphId : g'.graphId = g.graphId
  nodes : ∃ nodes, nodes.Perm g.nodes ∧ Forall₂ NodeReordered nodes g'.nodes

variable {n n' : VerificationNode}

theorem NodeReordered.symm (h : NodeReordered n n') : NodeReordered n' n :=
  ⟨h.checkId.symm, h.claim.symm, h.verifier.symm, h.tolerance.symm, h.contracts.symm,
    h.inputs.symm, h.dependencies.symm⟩

theorem NodeReordered.fields (h : NodeReordered n n') (hn : NodeFields n) : NodeFields n' := by
  refine ⟨?_, ?_, ?_, ?_, ⟨?_, fun v hv => hn.contracts.2 v (h.contracts.mem_iff.mp hv)⟩,
    ⟨?_, fun v hv => hn.inputs.2 v (h.inputs.mem_iff.mp hv)⟩,
    fun v hv => hn.dependencies v (h.dependencies.mem_iff.mp hv), ?_⟩
  · rw [h.claim]
    exact hn.claim
  · rw [h.verifier]
    exact hn.verifier
  · rw [h.verifier]
    exact hn.engine
  · rw [h.verifier]
    exact hn.implementation
  · exact h.contracts.nodup_iff.mpr hn.contracts.1
  · exact h.inputs.nodup_iff.mpr hn.inputs.1
  · rw [h.tolerance]
    exact hn.metric

theorem sort_eq_of_perm {l m : List String} (h : l.Perm m) :
    l.insertionSort (· ≤ ·) = m.insertionSort (· ≤ ·) :=
  Sorted.insertionSort_eq_of_perm (· ≤ ·) (fun _ _ _ _ => le_antisymm) h

theorem NodeReordered.normalized_eq (h : NodeReordered n n') : normalized n' = normalized n := by
  obtain ⟨hid, hclaim, hverifier, htolerance, hcontracts, hinputs, hdeps⟩ := h
  cases n
  cases n'
  simp only at hid hclaim hverifier htolerance hcontracts hinputs hdeps
  simp only [normalized, hid, hclaim, hverifier, htolerance, sort_eq_of_perm hcontracts,
    sort_eq_of_perm hinputs, sort_eq_of_perm hdeps]

theorem mem_counterpart {l m : List VerificationNode} (h : Forall₂ NodeReordered l m) :
    ∀ n' ∈ m, ∃ n ∈ l, NodeReordered n n' := by
  induction h with
  | nil =>
    intro n' hn'
    cases hn'
  | cons hnode _ ih =>
    rw [forall_mem_cons]
    refine ⟨⟨_, mem_cons_self, hnode⟩, fun n' hn' => ?_⟩
    obtain ⟨n, hn, hreordered⟩ := ih n' hn'
    exact ⟨n, mem_cons_of_mem _ hn, hreordered⟩

theorem map_normalized {l m : List VerificationNode} (h : Forall₂ NodeReordered l m) :
    m.map normalized = l.map normalized := by
  induction h with
  | nil => rfl
  | cons hnode _ ih => rw [map_cons, map_cons, hnode.normalized_eq, ih]

namespace Reordered

theorem counterpart (h : Reordered g g') : ∀ n' ∈ g'.nodes, ∃ n ∈ g.nodes, NodeReordered n n' := by
  obtain ⟨nodes, hperm, hall⟩ := h.nodes
  intro n' hn'
  obtain ⟨n, hn, hreordered⟩ := mem_counterpart hall n' hn'
  exact ⟨n, hperm.mem_iff.mp hn, hreordered⟩

theorem normalized_perm (h : Reordered g g') :
    (g'.nodes.map normalized).Perm (g.nodes.map normalized) := by
  obtain ⟨nodes, hperm, hall⟩ := h.nodes
  rw [map_normalized hall]
  exact hperm.map normalized

theorem symm (h : Reordered g g') : Reordered g' g := by
  obtain ⟨nodes, hperm, hall⟩ := h.nodes
  obtain ⟨nodes', hall', hperm'⟩ := perm_comp_forall₂ hperm.symm hall
  exact ⟨h.schemaVersion.symm, h.graphId.symm, nodes', hperm', hall'.flip.imp fun _ _ => .symm⟩

theorem checks_perm (h : Reordered g g') : g'.checks.Perm g.checks := by
  have hchecks : ∀ g : VerificationGraph,
      g.checks = (g.nodes.map normalized).map VerificationNode.checkId := by
    intro g
    rw [map_map]
    rfl
  rw [hchecks, hchecks]
  exact h.normalized_perm.map VerificationNode.checkId

theorem refers (h : Reordered g g') {b a : String} (href : Refers g' b a) : Refers g b a := by
  obtain ⟨n', hn', hid, ha⟩ := href
  obtain ⟨n, hn, hnode⟩ := h.counterpart n' hn'
  exact ⟨n, hn, by rw [← hnode.checkId]; exact hid, hnode.dependencies.mem_iff.mp ha⟩

theorem valid (h : Reordered g g') (hg : Valid g) : Valid g' := by
  have hrefers : Refers g' = Refers g := by
    funext b a
    exact propext ⟨h.refers, h.symm.refers⟩
  refine ⟨by rw [h.schemaVersion]; exact hg.schemaVersion, by rw [h.graphId]; exact hg.graphId,
    fun hnil => ?_, fun n' hn' => ?_, fun n' hn' => ?_, h.checks_perm.nodup_iff.mpr hg.distinct,
    fun n' hn' => ?_, fun n' hn' => ?_, by rw [hrefers]; exact hg.acyclic⟩
  · have hlength := h.checks_perm.length_eq
    rw [checks, checks, length_map, length_map, hnil, length_nil] at hlength
    exact hg.nodes (length_eq_zero_iff.mp hlength.symm)
  · obtain ⟨n, hn, hnode⟩ := h.counterpart n' hn'
    exact hnode.fields (hg.fields n hn)
  · obtain ⟨n, hn, hnode⟩ := h.counterpart n' hn'
    rw [hnode.checkId]
    exact hg.named n hn
  · obtain ⟨n, hn, hnode⟩ := h.counterpart n' hn'
    obtain ⟨hnodup, hknown⟩ := hg.references n hn
    refine ⟨hnode.dependencies.nodup_iff.mpr hnodup, fun d hd => ?_⟩
    exact h.checks_perm.mem_iff.mpr (hknown d (hnode.dependencies.mem_iff.mp hd))
  · obtain ⟨n, hn, hnode⟩ := h.counterpart n' hn'
    rw [hnode.checkId, hnode.dependencies.mem_iff]
    exact hg.irreflexive n hn

theorem sorted_eq (h : Reordered g g') (hg : Valid g) :
    (g'.nodes.insertionSort fun a b => a.checkId ≤ b.checkId).map normalized =
      (g.nodes.insertionSort fun a b => a.checkId ≤ b.checkId).map normalized := by
  have hmap : ∀ nodes : List VerificationNode,
      (nodes.insertionSort fun a b => a.checkId ≤ b.checkId).map normalized =
        (nodes.map normalized).insertionSort fun a b => a.checkId ≤ b.checkId :=
    fun nodes => map_insertionSort _ _ normalized nodes fun a _ b _ => Iff.rfl
  have hdistinct : ((g'.nodes.map normalized).map VerificationNode.checkId).Nodup := by
    rw [map_map]
    exact h.checks_perm.nodup_iff.mpr hg.distinct
  have htotal : Std.Total fun a b : VerificationNode => a.checkId ≤ b.checkId :=
    ⟨fun a b => le_total a.checkId b.checkId⟩
  have htrans : IsTrans VerificationNode fun a b => a.checkId ≤ b.checkId := ⟨fun _ _ _ => le_trans⟩
  rw [hmap, hmap]
  refine Sorted.insertionSort_eq_of_perm _ (fun a ha b hb hab hba => ?_) h.normalized_perm
  exact inj_on_of_nodup_map hdistinct ha hb (le_antisymm hab hba)

theorem document_eq (h : Reordered g g') (hg : Valid g) : g'.document = g.document := by
  have hitems : ∀ nodes : List VerificationNode,
      Value.ofList (fun n => (normalized n).toJson) nodes =
        Value.ofList VerificationNode.toJson (nodes.map normalized) := by
    intro nodes
    have hjson : (Value.ofList (fun n => (normalized n).toJson) nodes).json =
        (Value.ofList VerificationNode.toJson (nodes.map normalized)).json := by
      show Json.arr _ = Json.arr _
      rw [map_map]
      rfl
    exact Value.ext hjson
  simp only [document, hitems, h.sorted_eq hg, h.schemaVersion, h.graphId]

theorem stableDigest {rt : Runtime} (h : Reordered g g') {digest : String}
    (hg : g.stableDigest rt = .ok digest) : g'.stableDigest rt = .ok digest := by
  obtain ⟨_, hvalid, hdigest⟩ := bind_iff.mp hg
  have hg := validate_ok.mp hvalid
  refine then_ok (validate_ok.mpr (h.valid hg)) ?_
  rw [h.document_eq hg]
  exact hdigest

end Reordered

/-- Validation accepts the valid graphs, their order is the least one, and the digest does not
depend on how they are listed. -/
theorem validate_order_digest (rt : Runtime) :
    (∀ g : VerificationGraph, g.validate = .ok () ↔ Valid g) ∧
    (∀ g : VerificationGraph, g.validate = .ok () →
      ∃ order, g.topologicalOrder = .ok order ∧ IsOrder g.checks (Refers g) order ∧
        ∀ m, IsOrder g.checks (Refers g) m → order = m ∨ Lex (· < ·) order m) ∧
    (∀ g g' : VerificationGraph, Reordered g g' → ∀ digest,
      g'.stableDigest rt = .ok digest ↔ g.stableDigest rt = .ok digest) := by
  refine ⟨fun g => validate_ok, fun g hg => order_least (validate_ok.mp hg), ?_⟩
  intro g g' h digest
  exact ⟨h.symm.stableDigest, h.stableDigest⟩

end GeneGIS.VerificationGraph
