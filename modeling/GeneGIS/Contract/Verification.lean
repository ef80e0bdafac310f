/-
A graph lists the checks of a release, who makes them and which of them come first.  They are
ordered as the steps of a workflow are.
-/
import GeneGIS.Contract.Policy
import GeneGIS.Data.Sorted
import GeneGIS.Workflow.Order

namespace GeneGIS

structure VerifierIdentity where
  verifierId : String
  engine : String
  implementation : String
  independence : IndependenceClass
  deriving DecidableEq

structure VerificationNode where
  checkId : String
  claim : String
  subjectContracts : List String
  evidenceInputs : List String
  verifier : VerifierIdentity
  tolerance : Option QualityTolerance
  dependsOn : List String
  deriving DecidableEq

structure VerificationGraph where
  schemaVersion : String
  graphId : String
  nodes : List VerificationNode
  deriving DecidableEq

inductive VerificationGraphError where
  | unsupportedSchema (version : String)
  | emptyField (field : String)
  | duplicateCheck (check : String)
  | unknownDependency (check dependency : String)
  | selfDependency (check : String)
  | cycle (checks : List String)
  | duplicateReference (check field value : String)
  | policyMismatch (reason : String)
  deriving DecidableEq

def VerifierIdentity.toJson (v : VerifierIdentity) : Value :=
  .object [("verifier_id", .str v.verifierId), ("engine", .str v.engine),
    ("implementation", .str v.implementation), ("independence", .str v.independence.asStr)]

def VerificationNode.toJson (n : VerificationNode) : Value :=
  .object ( [("check_id", .str n.checkId), ("claim", .str n.claim),
     ("subject_contracts", .ofList .str n.subjectContracts),
     ("evidence_inputs", .ofList .str n.evidenceInputs), ("verifier", n.verifier.toJson)] ++
    Value.optional "tolerance" QualityTolerance.toJson n.tolerance ++
    [("depends_on", .ofList .str n.dependsOn)])

namespace VerificationGraph

open GeoWorkflow (Edges Kahn)

def currentSchemaVersion : String := "0.1.0"

def new (graphId : String) : VerificationGraph :=
  { schemaVersion := currentSchemaVersion, graphId := graphId, nodes := [] }

abbrev Check := Except VerificationGraphError Unit

def require (holds : Bool) (error : VerificationGraphError) : Check :=
  if holds then .ok () else .error error

def requireFilled (field value : String) : Check := require (!Text.isBlank value) (.emptyField field)

variable (g : VerificationGraph)

def ids : Std.ExtTreeSet String := .ofList (g.nodes.map VerificationNode.checkId)

/-- Add the edges of one node.  An edge that is there already is not counted again. -/
def linkDependencies (ids : Std.ExtTreeSet String) (check : String) :
    List String → Edges → Except VerificationGraphError Edges
  | [], edges => .ok edges
  | dependency :: rest, edges => do
    require (dependency ≠ check) (.selfDependency check)
    require (ids.contains dependency) (.unknownDependency check dependency)
    linkDependencies ids check rest
      (if (edges.adjacency.getD dependency ∅).contains check then edges
       else edges.link dependency check)

def linkNodes (ids : Std.ExtTreeSet String) :
    List VerificationNode → Edges → Except VerificationGraphError Edges
  | [], edges => .ok edges
  | node :: rest, edges => do
    let edges ← linkDependencies ids node.checkId node.dependsOn edges
    linkNodes ids rest edges

def topologicalOrder : Except VerificationGraphError (List String) := do
  let edges ← linkNodes g.ids g.nodes
    { adjacency := ∅, indegree := .ofList (g.ids.toList.map fun id => (id, 0)) }
  let kahn := Loop.run (Kahn.step edges) g.ids.size (Kahn.start edges)
  require (kahn.order.length = g.ids.size)
    (.cycle ((kahn.indegree.toList.filter fun e => 0 < e.2).map Prod.fst))
  return kahn.order

def uniqueReferences (check field : String) : List String → List String → Check
  | _, [] => .ok ()
  | seen, value :: rest => do
    requireFilled "nodes.reference" value
    require (value ∉ seen) (.duplicateReference check field value)
    uniqueReferences check field (value :: seen) rest

/-- The fields of one node, after its identifier. -/
def validateNode (n : VerificationNode) : Check := do
  requireFilled "nodes.claim" n.claim
  requireFilled "nodes.verifier.verifier_id" n.verifier.verifierId
  requireFilled "nodes.verifier.engine" n.verifier.engine
  requireFilled "nodes.verifier.implementation" n.verifier.implementation
  uniqueReferences n.checkId "subject_contracts" [] n.subjectContracts
  uniqueReferences n.checkId "evidence_inputs" [] n.evidenceInputs
  uniqueReferences n.checkId "depends_on" [] n.dependsOn
  match n.tolerance with
  | none => .ok ()
  | some tolerance => requireFilled "nodes.tolerance.metric" tolerance.metric

def validateNodes : List String → List VerificationNode → Check
  | _, [] => .ok ()
  | seen, node :: rest => do
    requireFilled "nodes.check_id" node.checkId
    require (node.checkId ∉ seen) (.duplicateCheck node.checkId)
    validateNode node
    validateNodes (node.checkId :: seen) rest

def validate : Check := do
  require (g.schemaVersion = currentSchemaVersion) (.unsupportedSchema g.schemaVersion)
  requireFilled "graph_id" g.graphId
  require (!g.nodes.isEmpty) (.emptyField "nodes")
  validateNodes [] g.nodes
  let _ ← g.topologicalOrder
  return ()

/-- The node of a required check has an accepted class and a tolerance that is as
strict. -/
def validateRequirement (r : CheckRequirement) : Check :=
  match g.nodes.find? fun node => node.checkId = r.checkId with
  | none => .error (.policyMismatch ("required check " ++ r.checkId ++ " is missing from graph"))
  | some node => do
    require (r.acceptedIndependence.contains node.verifier.independence)
      (.policyMismatch ("check " ++ r.checkId ++ " independence is not accepted"))
    match r.maxErrorPpm with
    | none => .ok ()
    | some maximum =>
      match node.tolerance with
      | none => .error (.policyMismatch ("check " ++ r.checkId ++ " has no graph tolerance"))
      | some tolerance =>
        require (tolerance.maxErrorPpm ≤ maximum)
          (.policyMismatch ("check " ++ r.checkId ++ " graph tolerance is weaker than policy"))

def validateRequirements (g : VerificationGraph) : List CheckRequirement → Check
  | [] => .ok ()
  | r :: rest => do
    validateRequirement g r
    validateRequirements g rest

def validateAgainstPolicy (p : VerificationPolicy) : Check := do
  g.validate
  require (p.schemaVersion = VerificationPolicy.currentSchemaVersion)
    (.policyMismatch "unsupported policy schema")
  validateRequirements g p.requiredChecks

def normalized (n : VerificationNode) : VerificationNode :=
  { n with
    subjectContracts := n.subjectContracts.insertionSort (· ≤ ·)
    evidenceInputs := n.evidenceInputs.insertionSort (· ≤ ·)
    dependsOn := n.dependsOn.insertionSort (· ≤ ·) }

def document : Value :=
  let nodes := g.nodes.insertionSort fun a b => a.checkId ≤ b.checkId
  .object [("schema_version", .str g.schemaVersion), ("graph_id", .str g.graphId),
    ("nodes", .ofList (fun n => (normalized n).toJson) nodes)]

def stableDigest (rt : Runtime) (g : VerificationGraph) : Except VerificationGraphError String := do
  g.validate
  return rt.digestJson g.document

end VerificationGraph
end GeneGIS

/-! ## The order of a verification graph

A check is a step of a workflow that exchanges no data. -/

namespace GeneGIS.VerificationGraph

open List hiding contains_iff_mem map_map
open Std.ExtTreeMap hiding contains_iff_mem map_map mem_ofList
open Std.ExtTreeSet hiding contains_iff_mem mem_ofList

open GeoWorkflow (Edges Kahn Node linkAll linkGraph noEdges kahnOrder)
open Fallible Toposort

variable {g : VerificationGraph} {edges edges' : Edges} {known : Std.ExtTreeSet String}

def checks (g : VerificationGraph) : List String := g.nodes.map VerificationNode.checkId

/-- Check `b` refers to check `a`. -/
def Refers (g : VerificationGraph) (b a : String) : Prop :=
  ∃ node ∈ g.nodes, node.checkId = b ∧ a ∈ node.dependsOn

def asNode (n : VerificationNode) : Node where
  id := n.checkId
  deps := n.dependsOn
  inputs := []
  step :=
    { id := .ofNat 0, stableId := n.checkId, operation := "verify", parameters := .null
      expectedSchema := none, validation := none, provenance := none, dependsOn := n.dependsOn
      inputs := [], outputs := [], outputContracts := [] }

def steps (g : VerificationGraph) : List Node := g.nodes.map asNode

theorem ids_steps (g : VerificationGraph) : GeoWorkflow.ids g.steps = g.checks := by
  rw [GeoWorkflow.ids, steps, checks, List.map_map]
  rfl

theorem dep_steps {b a : String} : GeoWorkflow.Dep g.steps b a ↔ Refers g b a := by
  simp only [GeoWorkflow.Dep, steps, mem_map, Refers, exists_exists_and_eq_and]
  exact Iff.rfl

theorem dep_eq (g : VerificationGraph) : GeoWorkflow.Dep g.steps = Refers g := by
  funext b a
  exact propext dep_steps

/-! ## Edges -/

@[simp] theorem require_ok {holds : Bool} {error : VerificationGraphError} {u : Unit} :
    require holds error = .ok u ↔ holds = true :=
  except_guard_ok

@[simp] theorem requireFilled_ok {field value : String} {u : Unit} :
    requireFilled field value = .ok u ↔ Text.isBlank value = false := by
  rw [requireFilled, require_ok, Bool.not_eq_true']

theorem contains_children {check dependency : String} :
    (edges.adjacency.getD dependency ∅).contains check = true ↔
      check ∈ edges.children dependency := by
  rw [Edges.children, getD_eq_getD_getElem?]
  cases edges.adjacency[dependency]? with
  | none => simp
  | some children => simp

theorem linkDependencies_ok {check : String} {deps : List String} (hnodup : deps.Nodup)
    (hfresh : ∀ d ∈ deps, check ∉ edges.children d) :
    linkDependencies known check deps edges = .ok edges' ↔
      (∀ d ∈ deps, d ≠ check ∧ d ∈ known) ∧ edges' = linkAll check deps edges := by
  induction deps generalizing edges with
  | nil =>
    rw [linkDependencies]
    constructor
    · intro h
      exact ⟨fun _ hd => absurd hd not_mem_nil, (Except.ok.inj h).symm⟩
    · intro h
      rw [h.2]
      rfl
  | cons dependency rest ih =>
    rw [nodup_cons] at hnodup
    rw [forall_mem_cons] at hfresh
    have hnew : ¬ (edges.adjacency.getD dependency ∅).contains check = true := by
      rw [contains_children]
      exact hfresh.1
    have hrest : ∀ d ∈ rest, check ∉ (edges.link dependency check).children d := by
      intro d hd hmem
      rcases GeoWorkflow.mem_children_link.mp hmem with hmem | ⟨-, heq⟩
      · exact hfresh.2 d hd hmem
      · exact hnodup.1 (heq ▸ hd)
    rw [linkDependencies, if_neg hnew]
    simp only [bind_iff, require_ok, exists_const, forall_mem_cons, decide_eq_true_eq,
      ih hnodup.2 hrest, and_assoc, Std.ExtTreeSet.contains_iff_mem]
    rfl

theorem distinct_of_nodup {seen deps : List String} (hnodup : deps.Nodup)
    (hseen : ∀ d ∈ deps, d ∉ seen) : GeoWorkflow.distinct seen deps = deps := by
  induction deps generalizing seen with
  | nil => rfl
  | cons d rest ih =>
    rw [nodup_cons] at hnodup
    rw [forall_mem_cons] at hseen
    rw [GeoWorkflow.distinct, if_neg hseen.1, ih hnodup.2]
    intro x hx hmem
    rcases mem_cons.mp hmem with rfl | hmem
    · exact hnodup.1 hx
    · exact hseen.2 x hx hmem

theorem linkNodes_ok {nodes : List VerificationNode}
    (hids : (nodes.map VerificationNode.checkId).Nodup)
    (hdeps : ∀ n ∈ nodes, n.dependsOn.Nodup)
    (hfresh : ∀ n ∈ nodes, ∀ d, n.checkId ∉ edges.children d) :
    linkNodes known nodes edges = .ok edges' ↔
      (∀ n ∈ nodes, ∀ d ∈ n.dependsOn, d ≠ n.checkId ∧ d ∈ known) ∧
        edges' = linkGraph (nodes.map asNode) edges := by
  induction nodes generalizing edges with
  | nil =>
    rw [linkNodes]
    constructor
    · intro h
      exact ⟨fun _ hn => absurd hn not_mem_nil, (Except.ok.inj h).symm⟩
    · intro h
      rw [h.2]
      rfl
  | cons node rest ih =>
    rw [map_cons, nodup_cons] at hids
    rw [forall_mem_cons] at hdeps hfresh
    have hrest : ∀ n ∈ rest, ∀ d,
        n.checkId ∉ (linkAll node.checkId node.dependsOn edges).children d := by
      intro n hn d hmem
      rcases GeoWorkflow.mem_children_linkAll.mp hmem with hmem | ⟨heq, -⟩
      · exact hfresh.2 n hn d hmem
      · exact hids.1 (mem_map.mpr ⟨n, hn, heq⟩)
    have hsources : (asNode node).sources = node.dependsOn :=
      distinct_of_nodup hdeps.1 fun _ _ => not_mem_nil
    have hgraph : linkGraph ((node :: rest).map asNode) edges =
        linkGraph (rest.map asNode) (linkAll node.checkId node.dependsOn edges) := by
      rw [← hsources]
      rfl
    rw [linkNodes, hgraph, forall_mem_cons, bind_iff]
    simp only [linkDependencies_ok hdeps.1 fun d _ => hfresh.1 d]
    constructor
    · intro h
      obtain ⟨_, ⟨hnode, rfl⟩, h⟩ := h
      obtain ⟨hall, hresult⟩ := (ih hids.2 hdeps.2 hrest).mp h
      exact ⟨⟨hnode, hall⟩, hresult⟩
    · intro h
      exact ⟨_, ⟨h.1.1, rfl⟩, (ih hids.2 hdeps.2 hrest).mpr ⟨h.1.2, h.2⟩⟩

/-- Identifiers and references are distinct, as validation checks before it orders. -/
structure Distinct (g : VerificationGraph) : Prop where
  checks : g.checks.Nodup
  references : ∀ n ∈ g.nodes, n.dependsOn.Nodup

theorem mem_ids {id : String} : id ∈ g.ids ↔ id ∈ g.checks := by
  rw [ids, Std.ExtTreeSet.mem_ofList, List.contains_iff_mem, checks]

theorem size_ids (h : g.checks.Nodup) : g.ids.size = g.checks.length := Keyed.size_ofList.mpr h

theorem start_eq (h : g.checks.Nodup) :
    ({ adjacency := ∅, indegree := .ofList (g.ids.toList.map fun id => (id, 0)) } : Edges) =
      noEdges g.steps := by
  have hindegree : (.ofList (g.ids.toList.map fun id => (id, 0)) : Std.ExtTreeMap String Nat) =
      (noEdges g.steps).indegree := by
    refine ext_getElem? fun id => ?_
    rw [GeoWorkflow.indegree_noEdges (by rw [ids_steps]; exact h), ids_steps]
    by_cases hid : id ∈ g.checks
    · rw [if_pos hid]
      refine getElem?_ofList_of_mem (k := id) (by simp) ?_
        (mem_map.mpr ⟨id, mem_toList.mpr (mem_ids.mpr hid), rfl⟩)
      rw [pairwise_map]
      exact (Keyed.nodup_toList g.ids).imp fun hab => by simpa using hab
    · rw [if_neg hid]
      refine getElem?_ofList_of_contains_eq_false ?_
      rw [List.map_map, Bool.eq_false_iff, ne_eq, List.contains_iff_mem]
      show ¬ id ∈ g.ids.toList.map fun x => x
      rw [map_id', mem_toList, mem_ids]
      exact hid
  rw [hindegree]
  rfl

theorem linkNodes_start (h : Distinct g) : linkNodes g.ids g.nodes
        { adjacency := ∅, indegree := .ofList (g.ids.toList.map fun id => (id, 0)) } =
      .ok edges ↔
    (∀ n ∈ g.nodes, ∀ d ∈ n.dependsOn, d ≠ n.checkId ∧ d ∈ g.checks) ∧
      edges = linkGraph g.steps (noEdges g.steps) := by
  rw [start_eq h.checks, linkNodes_ok h.checks h.references fun n _ d => ?_]
  · simp only [mem_ids]
    rfl
  · simp [noEdges, Edges.children]

theorem wired (h : Distinct g)
    (hdeps : ∀ n ∈ g.nodes, ∀ d ∈ n.dependsOn, d ≠ n.checkId ∧ d ∈ g.checks) :
    GeoWorkflow.Wired g.steps (linkGraph g.steps (noEdges g.steps)) := by
  refine GeoWorkflow.wired_linkGraph (by rw [ids_steps]; exact h.checks) fun b a hdep => ?_
  obtain ⟨n, hn, -, ha⟩ := dep_steps.mp hdep
  rw [ids_steps]
  exact (hdeps n hn a ha).2

theorem topologicalOrder_ok (h : Distinct g) {order : List String} :
    g.topologicalOrder = .ok order ↔
      (∀ n ∈ g.nodes, ∀ d ∈ n.dependsOn, d ≠ n.checkId ∧ d ∈ g.checks) ∧
      (∀ a, ¬ Relation.TransGen (Refers g) a a) ∧ order.Perm g.checks ∧
      Greedy g.checks (Refers g) order := by
  rw [topologicalOrder, bind_iff]
  simp only [linkNodes_start h, size_ids h.checks]
  constructor
  · intro hrun
    obtain ⟨_, ⟨hdeps, rfl⟩, hrun⟩ := hrun
    have hwired := wired h hdeps
    obtain ⟨_, hcomplete, hresult⟩ := bind_iff.mp hrun
    rw [require_ok, decide_eq_true_eq, ← ids_steps] at hcomplete
    have hperm := (GeoWorkflow.kahnOrder_perm hwired).mp hcomplete
    have hacyclic := (GeoWorkflow.kahnOrder_acyclic hwired).mp hperm
    have hgreedy := GeoWorkflow.kahnOrder_greedy hwired
    rw [dep_eq] at hacyclic hgreedy
    rw [ids_steps] at hperm hgreedy
    rw [← ids_steps] at hresult
    rw [← Except.ok.inj hresult]
    exact ⟨hdeps, hacyclic, hperm, hgreedy⟩
  · intro hvalid
    obtain ⟨hdeps, hacyclic, hperm, hgreedy⟩ := hvalid
    have hwired := wired h hdeps
    rw [← dep_eq] at hacyclic
    have hperm' := (GeoWorkflow.kahnOrder_acyclic hwired).mpr hacyclic
    have hgreedy' := GeoWorkflow.kahnOrder_greedy hwired
    rw [dep_eq, ids_steps] at hgreedy'
    rw [ids_steps] at hperm'
    have horder := hgreedy'.unique hperm' hgreedy hperm
    refine ⟨_, ⟨hdeps, rfl⟩, bind_iff.mpr ⟨(), ?_, ?_⟩⟩
    · rw [require_ok, decide_eq_true_eq, ← ids_steps]
      show (kahnOrder g.steps _).length = _
      rw [ids_steps]
      exact hperm'.length_eq
    · rw [← ids_steps]
      show Except.ok (kahnOrder g.steps _) = _
      rw [horder]

end GeneGIS.VerificationGraph
