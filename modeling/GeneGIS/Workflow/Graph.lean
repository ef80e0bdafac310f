/-
Nodes of a workflow graph.
-/
import GeneGIS.Contract
import GeneGIS.Data.Loop
import GeneGIS.Runtime

namespace GeneGIS

abbrev WorkflowNodeId := String

/-- A value of another node, or a graph input when there is no node. -/
structure WorkflowDataRef where
  node : Option WorkflowNodeId
  port : String
  deriving DecidableEq

namespace WorkflowDataRef

def input (port : String) : WorkflowDataRef := { node := none, port := port }

def output (node : WorkflowNodeId) (port : String) : WorkflowDataRef :=
  { node := some node, port := port }

def toJson (r : WorkflowDataRef) : Value :=
  .object [("node", .ofOption .str r.node), ("port", .str r.port)]

end WorkflowDataRef

structure WorkflowPortContract where
  port : String
  contract : GeoContract

def WorkflowPortContract.toJson (c : WorkflowPortContract) : Value :=
  .object [("port", .str c.port), ("contract", c.contract.toJson)]

structure WorkflowStep where
  id : Uuid
  stableId : String
  operation : String
  parameters : Value
  expectedSchema : Option Value
  validation : Option Value
  provenance : Option String
  dependsOn : List WorkflowNodeId
  inputs : List WorkflowDataRef
  outputs : List WorkflowDataRef
  outputContracts : List WorkflowPortContract

namespace WorkflowStep

def asciiSlugChar (c : Char) : Char :=
  if ('0' ≤ c && c ≤ '9') || ('a' ≤ c && c ≤ 'z') then c
  else if 'A' ≤ c && c ≤ 'Z' then Char.ofNat (c.toNat + 32)
  else '-'

/-- The operation in lower case, with a hyphen for every other character and
no hyphen at either end. -/
def slug (operation : String) : List Char :=
  let chars := operation.toList.map asciiSlugChar
  ((chars.dropWhile (· == '-')).reverse.dropWhile (· == '-')).reverse

def generatedStableId (rt : Runtime) (operation : String) (parameters : Value) : String :=
  let digest := rt.sha256 (operation.toList ++ Char.ofNat 0 :: rt.canonicalJson parameters)
  let name := slug operation
  String.ofList ((if name.isEmpty then "node".toList else name) ++ '-' :: digest.toList.take 16)

def nodeId (rt : Runtime) (s : WorkflowStep) : WorkflowNodeId :=
  if Text.isBlank s.stableId then generatedStableId rt s.operation s.parameters else s.stableId

def toJson (s : WorkflowStep) : Value :=
  .object (
    [("id", .str s.id.toText), ("stable_id", .str s.stableId), ("operation", .str s.operation),
      ("parameters", s.parameters), ("expected_schema", s.expectedSchema.getD .null),
      ("validation", s.validation.getD .null), ("provenance", .ofOption .str s.provenance),
      ("depends_on", .ofList .str s.dependsOn), ("inputs", .ofList WorkflowDataRef.toJson s.inputs),
      ("outputs", .ofList WorkflowDataRef.toJson s.outputs)] ++
    Value.unlessEmpty "output_contracts" WorkflowPortContract.toJson s.outputContracts)

end WorkflowStep
end GeneGIS

/-! ## The workflow graph: validation, execution order and digest

`topologicalOrder` makes the checks of the source in its order.  The digest leaves out what is
retrieved at run time and sorts the lists whose order carries no meaning. -/

namespace GeneGIS

structure WorkflowInputContract where
  name : String
  crs : Option Crs
  coordinateUnit : Option CoordinateUnit
  valueUnit : Option String
  sourceSnapshot : Option SourceSnapshot
  geoContract : Option GeoContract

def WorkflowInputContract.toJson (c : WorkflowInputContract) : Value :=
  .object ( [("name", .str c.name), ("crs", .ofOption Crs.toJson c.crs),
      ("coordinate_unit", .ofOption CoordinateUnit.toJson c.coordinateUnit),
      ("value_unit", .ofOption .str c.valueUnit),
      ("source_snapshot", .ofOption SourceMetadata.toJson c.sourceSnapshot)] ++
    Value.optional "geo_contract" GeoContract.toJson c.geoContract)

structure Citation where
  title : String
  url : Option String
  license : Option String
  retrievedAt : Option String

def Citation.toJson (c : Citation) : Value :=
  .object [("title", .str c.title), ("url", .ofOption .str c.url),
    ("license", .ofOption .str c.license), ("retrieved_at", .ofOption .str c.retrievedAt)]

inductive ReviewStatus where
  | draft
  | pendingReview
  | approved
  | rejected
  | executed

def ReviewStatus.asStr : ReviewStatus → String
  | .draft => "draft"
  | .pendingReview => "pending_review"
  | .approved => "approved"
  | .rejected => "rejected"
  | .executed => "executed"

structure GeoWorkflow where
  id : Uuid
  goal : String
  assumptions : List String
  inputs : List Value
  inputContracts : List WorkflowInputContract
  steps : List WorkflowStep
  outputs : List Value
  outputRefs : List WorkflowDataRef
  citations : List Citation
  reviewStatus : ReviewStatus

/-- Why a semantic contract was refused. -/
inductive ContractProblem where
  | text (reason : String)
  | coordinateUnit (expected : CoordinateUnit) (crs : String)
  | crs (error : CrsError)
  | contract (error : ContractValidationError)
  deriving DecidableEq

inductive WorkflowValidationError where
  | emptyGraph
  | duplicateNodeId (id : String)
  | selfDependency (node : String)
  | unresolvedDependency (node dependency : String)
  | unresolvedInputReference (node dependency : String)
  | inputWithoutDependency (node dependency : String)
  | unknownInputPort (node dependency port : String)
  | emptyOutputPort (node : String)
  | missingOutputReferences (node : String)
  | unknownInputContract (node input : String)
  | duplicateInputContract (name : String)
  | invalidInputContract (input : String) (reason : ContractProblem)
  | invalidOutputContract (node port : String) (reason : ContractProblem)
  | unresolvedOutputReference (node : String)
  | unknownOutputPort (node port : String)
  | cycle (nodes : List String)
  | disconnectedNodes (nodes : List String)
  | unreachableNodes (nodes : List String)
  deriving DecidableEq

namespace GeoWorkflow

def toJson (w : GeoWorkflow) : Value := .object [("id", .str w.id.toText), ("goal", .str w.goal),
    ("assumptions", .ofList .str w.assumptions), ("inputs", .ofList (fun v => v) w.inputs),
    ("input_contracts", .ofList WorkflowInputContract.toJson w.inputContracts),
    ("steps", .ofList WorkflowStep.toJson w.steps), ("outputs", .ofList (fun v => v) w.outputs),
    ("output_refs", .ofList WorkflowDataRef.toJson w.outputRefs),
    ("citations", .ofList Citation.toJson w.citations),
    ("review_status", .str w.reviewStatus.asStr)]

abbrev Check := Except WorkflowValidationError Unit

def require (holds : Bool) (error : WorkflowValidationError) : Check :=
  if holds then .ok () else .error error

def checkAll {α : Type} (check : α → Check) : List α → Check
  | [] => .ok ()
  | a :: rest => do
    check a
    checkAll check rest

/-- Workflows written before the graph schema name no node and no edge; their
steps run in list order. -/
def isLegacyLinear (w : GeoWorkflow) : Bool := w.steps.all fun step =>
    Text.isBlank step.stableId && step.dependsOn.isEmpty && step.inputs.isEmpty &&
      step.outputs.isEmpty

def sameSourceContractIdentity (left right : SourceSnapshot) : Bool :=
  left.datasetId = right.datasetId && left.uri = right.uri && left.license = right.license &&
    left.expectedChecksum = right.expectedChecksum &&
    left.observedChecksum = right.observedChecksum &&
    left.sourceVersion = right.sourceVersion && left.checksumStatus = right.checksumStatus

/-- Two optional declarations agree unless both are there and differ. -/
def agree {α β : Type} (left : Option α) (right : Option β) (same : α → β → Bool) : Bool :=
  match left, right with
  | some a, some b => same a b
  | _, _ => true

def validateInputContract (c : WorkflowInputContract) : Check := do
  let refuse := WorkflowValidationError.invalidInputContract c.name
  require (!Text.isBlank c.name) (refuse (.text "name is empty"))
  match c.crs with
  | none => pure ()
  | some crs =>
    match crs.requireKnown with
    | .error error => throw (refuse (.crs error))
    | .ok definition =>
      require (c.coordinateUnit = some definition.unit)
        (refuse (.coordinateUnit definition.unit crs.identifier))
  require (c.coordinateUnit ≠ some .unknown) (refuse (.text "coordinate unit is unknown"))
  require (!c.valueUnit.any Text.isBlank) (refuse (.text "value unit is empty"))
  require (!c.sourceSnapshot.any fun source => Text.isBlank source.uri)
    (refuse (.text "source URI is empty"))
  match c.geoContract with
  | none => pure ()
  | some geo =>
    match geo.validate with
    | .error error => throw (refuse (.contract error))
    | .ok () =>
      require (agree c.crs geo.spatial fun legacy spatial => spatial.crs = some legacy)
        (refuse (.text "legacy CRS disagrees with GeoContract spatial CRS"))
      require (agree c.coordinateUnit geo.spatial fun legacy spatial =>
          spatial.coordinateUnit = legacy)
        (refuse (.text "legacy coordinate unit disagrees with GeoContract spatial unit"))
      require (agree c.valueUnit geo.measure fun legacy measure => measure.unit = legacy)
        (refuse (.text "legacy value unit disagrees with GeoContract measure unit"))
      require (agree c.sourceSnapshot geo.source fun legacy source =>
          sameSourceContractIdentity legacy source.snapshot)
        (refuse (.text "legacy source snapshot disagrees with GeoContract source"))

def validateInputContracts : List String → List WorkflowInputContract → Check
  | _, [] => .ok ()
  | names, c :: rest => do
    require (c.name ∉ names) (.duplicateInputContract c.name)
    validateInputContract c
    validateInputContracts (c.name :: names) rest

/-- Positions of the nodes, refusing a repeated identifier. -/
def collectNodes : Nat → List WorkflowNodeId → Std.ExtTreeMap String Nat →
    Except WorkflowValidationError (Std.ExtTreeMap String Nat)
  | _, [], nodes => .ok nodes
  | index, id :: rest, nodes => do
    require (!Text.isBlank id)
      (.unresolvedDependency ("index-" ++ toString index) "empty stable ID")
    require (!nodes.contains id) (.duplicateNodeId id)
    collectNodes (index + 1) rest (nodes.insert id index)

/-- A step as the graph sees it: a legacy step depends on the one before. -/
structure Node where
  id : WorkflowNodeId
  deps : List WorkflowNodeId
  inputs : List WorkflowDataRef
  step : WorkflowStep

def graphNodes (rt : Runtime) (legacy : Bool) : Option WorkflowNodeId → List WorkflowStep →
    List Node
  | _, [] => []
  | previous, step :: rest =>
    let id := step.nodeId rt
    let node : Node :=
      match legacy, previous with
      | true, some p => { id := id, deps := [p], inputs := [.output p "result"], step := step }
      | _, _ => { id := id, deps := step.dependsOn, inputs := step.inputs, step := step }
    node :: graphNodes rt legacy (some id) rest

structure Edges where
  adjacency : Std.ExtTreeMap String (Std.ExtTreeSet String)
  indegree : Std.ExtTreeMap String Nat

def Edges.children (e : Edges) (node : WorkflowNodeId) : List WorkflowNodeId :=
  match e.adjacency[node]? with
  | some children => children.toList
  | none => []

def Edges.link (e : Edges) (dependency node : WorkflowNodeId) : Edges where
  adjacency := e.adjacency.insert dependency ((e.adjacency.getD dependency ∅).insert node)
  indegree := e.indegree.insert node (e.indegree.getD node 0 + 1)

/-- Add the edges of one node; a repeated dependency counts once. -/
def linkDependencies (nodes : Std.ExtTreeMap String Nat) (node : WorkflowNodeId) :
    List WorkflowNodeId → List WorkflowNodeId → Edges → Except WorkflowValidationError Edges
  | _, [], edges => .ok edges
  | seen, dependency :: rest, edges => do
    require (dependency ≠ node) (.selfDependency node)
    require (nodes.contains dependency) (.unresolvedDependency node dependency)
    if dependency ∈ seen then linkDependencies nodes node seen rest edges
    else linkDependencies nodes node (dependency :: seen) rest (edges.link dependency node)

/-- The step at a node exports `port` under the node's own name. -/
def exports (w : GeoWorkflow) (nodes : Std.ExtTreeMap String Nat) (node port : String) : Bool :=
  match nodes[node]? with
  | none => false
  | some index =>
    match w.steps[index]? with
    | none => false
    | some step => step.outputs.any fun output => output.node = some node && output.port = port

def validateInput (w : GeoWorkflow) (legacy : Bool) (nodes : Std.ExtTreeMap String Nat)
    (node : Node) (input : WorkflowDataRef) : Check := do
  require (!Text.isBlank input.port) (.unknownInputContract node.id "")
  match input.node with
  | some dependency =>
    require (dependency ≠ node.id) (.selfDependency node.id)
    require (nodes.contains dependency) (.unresolvedInputReference node.id dependency)
    require (dependency ∈ node.deps) (.inputWithoutDependency node.id dependency)
    require (legacy || exports w nodes dependency input.port)
      (.unknownInputPort node.id dependency input.port)
  | none =>
    require (w.inputContracts.any fun contract => contract.name = input.port)
      (.unknownInputContract node.id input.port)

def linkNodes (w : GeoWorkflow) (legacy : Bool) (nodes : Std.ExtTreeMap String Nat) :
    List Node → Edges → Except WorkflowValidationError Edges
  | [], edges => .ok edges
  | node :: rest, edges => do
    let edges ← linkDependencies nodes node.id [] node.deps edges
    checkAll (validateInput w legacy nodes node) node.inputs
    linkNodes w legacy nodes rest edges

/-! ## Order -/

structure Kahn where
  ready : Std.ExtTreeSet String
  indegree : Std.ExtTreeMap String Nat
  order : List WorkflowNodeId

def Kahn.release (k : Kahn) (child : WorkflowNodeId) : Kahn :=
  let degree := k.indegree.getD child 0 - 1
  { k with
    indegree := k.indegree.insert child degree
    ready := if degree = 0 then k.ready.insert child else k.ready }

/-- Take the least ready node and release its children. -/
def Kahn.step (edges : Edges) (k : Kahn) : Option Kahn :=
  match k.ready.toList with
  | [] => none
  | node :: _ =>
    some ((edges.children node).foldl Kahn.release
      { k with ready := k.ready.erase node, order := k.order ++ [node] })

def Kahn.start (edges : Edges) : Kahn where
  ready := .ofList ((edges.indegree.toList.filter fun e => e.2 == 0).map Prod.fst)
  indegree := edges.indegree
  order := []

structure Search where
  pending : List WorkflowNodeId
  visited : Std.ExtTreeSet String

/-- One step of a search whose next nodes join the pending list by `join`. -/
def Search.step (neighbours : WorkflowNodeId → List WorkflowNodeId)
    (join : List WorkflowNodeId → List WorkflowNodeId → List WorkflowNodeId) (s : Search) :
    Option Search :=
  match s.pending with
  | [] => none
  | node :: rest =>
    if s.visited.contains node then some { s with pending := rest }
    else some { pending := join rest (neighbours node), visited := s.visited.insert node }

/-- Weak components, each started from the least node not yet visited. -/
structure Components where
  unvisited : Std.ExtTreeSet String
  found : List (List WorkflowNodeId)

/-- The pending nodes are a stack: the last node pushed is taken first. -/
def pushAll (rest next : List WorkflowNodeId) : List WorkflowNodeId := next.reverse ++ rest

def Components.step (neighbours : WorkflowNodeId → List WorkflowNodeId) (bound : Nat)
    (c : Components) : Option Components :=
  match c.unvisited.toList with
  | [] => none
  | start :: _ =>
    let search := Loop.run (Search.step neighbours pushAll) bound
      { pending := [start], visited := ∅ }
    let component := search.visited.toList
    some
      { unvisited := component.foldl (fun u node => u.erase node) (c.unvisited.erase start)
        found := c.found ++ [component] }

def validateOutputs (node : Node) : Check := do
  require (!node.step.outputs.isEmpty) (.missingOutputReferences node.id)
  require (node.step.outputs.all fun output =>
    output.node = some node.id && !Text.isBlank output.port) (.emptyOutputPort node.id)

def validateOutputRef (w : GeoWorkflow) (legacy : Bool) (nodes : Std.ExtTreeMap String Nat)
    (output : WorkflowDataRef) : Check := do
  match output.node with
  | none => throw (.unresolvedOutputReference "graph-input")
  | some node =>
    require (nodes.contains node) (.unresolvedOutputReference node)
    require (legacy || exports w nodes node output.port) (.unknownOutputPort node output.port)

def validateOutputContracts (legacy : Bool) (node : Node) :
    List String → List WorkflowPortContract → Check
  | _, [] => .ok ()
  | ports, c :: rest => do
    let refuse := WorkflowValidationError.invalidOutputContract node.id c.port
    require (!Text.isBlank c.port) (refuse (.text "port is empty"))
    require (c.port ∉ ports) (refuse (.text "duplicate output contract"))
    require (legacy || node.step.outputs.any fun output =>
        output.node = some node.id && output.port = c.port)
      (refuse (.text "contract does not name an exported output port"))
    match c.contract.validate with
    | .error error => throw (refuse (.contract error))
    | .ok () => validateOutputContracts legacy node (c.port :: ports) rest

variable (rt : Runtime)

def topologicalOrder (w : GeoWorkflow) : Except WorkflowValidationError (List WorkflowNodeId) := do
  require (!w.steps.isEmpty) .emptyGraph
  let legacy := w.isLegacyLinear
  let graph := graphNodes rt legacy none w.steps
  let ids := graph.map Node.id
  let nodes ← collectNodes 0 ids ∅
  validateInputContracts [] w.inputContracts
  let edges ← linkNodes w legacy nodes graph
    { adjacency := ∅, indegree := .ofList (ids.map fun id => (id, 0)) }
  let kahn := Loop.run (Kahn.step edges) ids.length (Kahn.start edges)
  require (kahn.order.length = ids.length)
    (.cycle ((kahn.indegree.toList.filter fun e => 0 < e.2).map Prod.fst))
  let edgeCount := (graph.map fun node => node.deps.length).sum
  let roots := (graph.filter fun node => node.deps.isEmpty).map Node.id
  let reachable := (Loop.run (Search.step edges.children (· ++ ·)) (ids.length + edgeCount)
    { pending := roots, visited := ∅ }).visited
  require (reachable.size = ids.length)
    (.unreachableNodes (ids.filter fun id => !reachable.contains id))
  let neighbours := fun id =>
    (match graph.find? fun node => node.id = id with
      | some node => node.deps
      | none => []) ++ edges.children id
  let components := (Loop.run (Components.step neighbours (1 + 2 * edgeCount)) ids.length
    { unvisited := .ofList ids, found := [] }).found
  require (components.length ≤ 1) (.disconnectedNodes components.tail.flatten)
  if !legacy then
    checkAll validateOutputs graph
  checkAll (validateOutputRef w legacy nodes) w.outputRefs
  checkAll (fun node => validateOutputContracts legacy node [] node.step.outputContracts) graph
  return kahn.order

def validate (w : GeoWorkflow) : Check := do
  let _ ← w.topologicalOrder rt
  return ()

def stepDocument (legacy : Bool) (node : Node) : Value :=
  let outputs := if legacy then [WorkflowDataRef.output node.id "result"] else node.step.outputs
  let sorted := fun vs => Value.ofList (fun v => v) (rt.sortByCanonicalJson vs)
  .object [("stable_id", .str node.id), ("operation", .str node.step.operation),
    ("parameters", node.step.parameters),
    ("expected_schema", node.step.expectedSchema.getD .null),
    ("validation", node.step.validation.getD .null),
    ("provenance", .ofOption .str node.step.provenance),
    ("depends_on", sorted (node.deps.map .str)),
    ("inputs", sorted (node.inputs.map WorkflowDataRef.toJson)),
    ("outputs", sorted (outputs.map WorkflowDataRef.toJson)),
    ("output_contracts", sorted (node.step.outputContracts.map WorkflowPortContract.toJson))]

def citationDocument (c : Citation) : Value :=
  .object [("title", .str c.title), ("url", .ofOption .str c.url),
    ("license", .ofOption .str c.license)]

/-- Graph outputs of the digest; a legacy graph exports its last step. -/
def digestOutputRefs (legacy : Bool) (w : GeoWorkflow) (graph : List Node) : List WorkflowDataRef :=
  if w.outputRefs.isEmpty && legacy then
    match graph.getLast? with
    | some node => [.output node.id "result"]
    | none => []
  else w.outputRefs

/-- Order step documents by the canonical text of their identifier. -/
def sortNodes (graph : List Node) : List Node :=
  graph.insertionSort fun a b => rt.canonicalJson (.str a.id) ≤ rt.canonicalJson (.str b.id)

def digestDocument (w : GeoWorkflow) : Value :=
  let legacy := w.isLegacyLinear
  let graph := graphNodes rt legacy none w.steps
  let sorted := fun vs => Value.ofList (fun v => v) (rt.sortByCanonicalJson vs)
  (Value.object [("goal", .str w.goal), ("assumptions", .ofList .str w.assumptions),
    ("inputs", .ofList (fun v => v) w.inputs),
    ("input_contracts", sorted (w.inputContracts.map WorkflowInputContract.toJson)),
    ("outputs", .ofList (fun v => v) w.outputs),
    ("output_refs", sorted ((digestOutputRefs legacy w graph).map WorkflowDataRef.toJson)),
    ("steps", .ofList (stepDocument rt legacy) (sortNodes rt graph)),
    ("citations", sorted (w.citations.map citationDocument))]).strip ["retrieved_at"]

def stableDigestUnchecked (w : GeoWorkflow) : String := rt.digestJson (w.digestDocument rt)

def stableDigest (w : GeoWorkflow) : Except WorkflowValidationError String := do
  w.validate rt
  return w.stableDigestUnchecked rt

end GeoWorkflow
end GeneGIS
