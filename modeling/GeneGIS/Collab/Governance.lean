/-
A state holds the policy, the members, the projects, the requested approvals and the audit events.
Every operation looks first and changes the state last.
-/
import GeneGIS.Data.Fallible
import GeneGIS.Runtime
import Std.Data.ExtTreeSet.Lemmas

namespace GeneGIS

open Std

inductive GovernanceCapability where
  | view
  | execute
  | publish
  | manageProjects
  | manageMembership
  | approve
  | exportAudit
  | manageRetention

def GovernanceCapability.asStr : GovernanceCapability → String
  | .view => "view"
  | .execute => "execute"
  | .publish => "publish"
  | .manageProjects => "manage_projects"
  | .manageMembership => "manage_membership"
  | .approve => "approve"
  | .exportAudit => "export_audit"
  | .manageRetention => "manage_retention"

def GovernanceCapability.rank : GovernanceCapability → Nat
  | .view => 0
  | .execute => 1
  | .publish => 2
  | .manageProjects => 3
  | .manageMembership => 4
  | .approve => 5
  | .exportAudit => 6
  | .manageRetention => 7

instance : Ord GovernanceCapability := ⟨compareOn GovernanceCapability.rank⟩

instance : TransOrd GovernanceCapability :=
  inferInstanceAs (TransCmp (compareOn GovernanceCapability.rank))

inductive GovernedAction where
  | viewProject
  | executeWorkflow
  | publishResult
  | changeProjectPolicy
  | changeMembership
  | exportAudit
  | applyRetention

def GovernedAction.asStr : GovernedAction → String
  | .viewProject => "view_project"
  | .executeWorkflow => "execute_workflow"
  | .publishResult => "publish_result"
  | .changeProjectPolicy => "change_project_policy"
  | .changeMembership => "change_membership"
  | .exportAudit => "export_audit"
  | .applyRetention => "apply_retention"

def GovernedAction.rank : GovernedAction → Nat
  | .viewProject => 0
  | .executeWorkflow => 1
  | .publishResult => 2
  | .changeProjectPolicy => 3
  | .changeMembership => 4
  | .exportAudit => 5
  | .applyRetention => 6

instance : Ord GovernedAction := ⟨compareOn GovernedAction.rank⟩

instance : TransOrd GovernedAction := inferInstanceAs (TransCmp (compareOn GovernedAction.rank))

def GovernedAction.capability : GovernedAction → GovernanceCapability
  | .viewProject => .view
  | .executeWorkflow => .execute
  | .publishResult => .publish
  | .changeProjectPolicy => .manageProjects
  | .changeMembership => .manageMembership
  | .exportAudit => .exportAudit
  | .applyRetention => .manageRetention

structure OrganizationRole where
  id : String
  capabilities : ExtTreeSet GovernanceCapability

structure OrganizationMember where
  subjectId : String
  roleId : String
  active : Bool

structure OrganizationProject where
  projectId : String
  organizationId : String
  classification : String

structure RetentionPolicy where
  minimumDays : Nat
  maximumDays : Nat
  protectedClasses : ExtTreeSet String

structure OrganizationPolicy where
  schemaVersion : String
  organizationId : String
  policyVersion : String
  roles : ExtTreeMap String OrganizationRole
  approvalThresholds : ExtTreeMap GovernedAction Nat
  retention : RetentionPolicy

structure PendingApproval where
  id : String
  projectId : String
  action : GovernedAction
  resourceDigest : String
  requestedBy : String
  requestedAt : String
  requiredApprovals : Nat
  approvers : ExtTreeSet String
  completedAt : Option String
  approvalDigest : String

structure AuditEvent where
  sequence : Nat
  occurredAt : String
  actorId : String
  projectId : Option String
  eventType : String
  subjectDigest : String
  previousEventDigest : Option String
  eventDigest : String

inductive GovernanceDecision where
  | authorized (auditEventDigest : String)
  | approvalRequired (approval : PendingApproval)
  | approved (approval : PendingApproval)

structure AuditExport where
  schemaVersion : String
  organizationId : String
  policyDigest : String
  exportedAt : String
  events : List AuditEvent
  exportDigest : String

structure GovernanceState where
  policy : OrganizationPolicy
  policyDigest : String
  members : ExtTreeMap String OrganizationMember
  projects : ExtTreeMap String OrganizationProject
  approvals : ExtTreeMap String PendingApproval
  auditEvents : List AuditEvent

/-- Serialization cannot fail here and has no error. -/
inductive GovernanceError where
  | invalid (reason : String)
  | denied (reason : String)
  | digest
  deriving DecidableEq

/-! ## Documents -/

namespace Json

def ofOption {α : Type} (f : α → Json) : Option α → Json
  | none => .null
  | some a => f a

def ofNat (n : Nat) : Json := .num (.int n)

end Json

def OrganizationRole.toJson (r : OrganizationRole) : Json := .obj [("id", .str r.id),
    ("capabilities", .arr (r.capabilities.toList.map fun c => .str c.asStr))]

def RetentionPolicy.toJson (r : RetentionPolicy) : Json :=
  .obj [("minimum_days", .ofNat r.minimumDays), ("maximum_days", .ofNat r.maximumDays),
    ("protected_classes", .arr (r.protectedClasses.toList.map .str))]

def OrganizationPolicy.toJson (p : OrganizationPolicy) : Json :=
  .obj [("schema_version", .str p.schemaVersion), ("organization_id", .str p.organizationId),
    ("policy_version", .str p.policyVersion),
    ("roles", .obj (p.roles.toList.map fun e => (e.1, e.2.toJson))),
    ("approval_thresholds", .obj (p.approvalThresholds.toList.map fun e => (e.1.asStr, .ofNat e.2))),
    ("retention", p.retention.toJson)]

def PendingApproval.toJson (a : PendingApproval) : Json :=
  .obj [("id", .str a.id), ("project_id", .str a.projectId), ("action", .str a.action.asStr),
    ("resource_digest", .str a.resourceDigest), ("requested_by", .str a.requestedBy),
    ("requested_at", .str a.requestedAt), ("required_approvals", .ofNat a.requiredApprovals),
    ("approvers", .arr (a.approvers.toList.map .str)),
    ("completed_at", .ofOption .str a.completedAt), ("approval_digest", .str a.approvalDigest)]

def AuditEvent.toJson (e : AuditEvent) : Json :=
  .obj [("sequence", .ofNat e.sequence), ("occurred_at", .str e.occurredAt),
    ("actor_id", .str e.actorId), ("project_id", .ofOption .str e.projectId),
    ("event_type", .str e.eventType), ("subject_digest", .str e.subjectDigest),
    ("previous_event_digest", .ofOption .str e.previousEventDigest),
    ("event_digest", .str e.eventDigest)]

def AuditExport.toJson (e : AuditExport) : Json :=
  .obj [("schema_version", .str e.schemaVersion), ("organization_id", .str e.organizationId),
    ("policy_digest", .str e.policyDigest), ("exported_at", .str e.exportedAt),
    ("events", .arr (e.events.map AuditEvent.toJson)), ("export_digest", .str e.exportDigest)]

namespace Governance

open Fallible

variable (rt : Runtime)

def approvalDigest (a : PendingApproval) : String :=
  rt.digestCompact { a with approvalDigest := "" }.toJson

def auditEventDigest (e : AuditEvent) : String :=
  rt.digestCompact { e with eventDigest := "" }.toJson

def parseTime (value : String) : Except GovernanceError DateTime :=
  match rt.parseRfc3339 value with
  | some t => .ok t
  | none => .error (.invalid "timestamp must be RFC 3339")

def requireDigest (value : String) : Except GovernanceError Unit :=
  if Text.isSha256 value then .ok () else .error (.invalid "digest must be SHA-256")

variable (s : GovernanceState)

def requireProject (projectId : String) : Except GovernanceError Unit :=
  match s.projects[projectId]? with
  | some p =>
    if p.organizationId = s.policy.organizationId then .ok ()
    else .error (.denied "project is outside the organization boundary")
  | none => .error (.denied "project is outside the organization boundary")

def requireCapability (subjectId : String)
    (capability : GovernanceCapability) : Except GovernanceError Unit :=
  match s.members[subjectId]? with
  | none => .error (.denied "subject is not an active member")
  | some member =>
    if !member.active then .error (.denied "subject is not an active member")
    else
      match s.policy.roles[member.roleId]? with
      | none => .error (.denied "member role is absent from policy")
      | some role =>
        if role.capabilities.contains capability then .ok ()
        else .error (.denied "role does not grant the required capability")

def validatePolicy (p : OrganizationPolicy) : Except GovernanceError Unit :=
  if p.schemaVersion != "0.1.0" || Text.isBlank p.organizationId || Text.isBlank p.policyVersion ||
      p.roles.isEmpty || decide (p.retention.maximumDays < p.retention.minimumDays) ||
      p.retention.maximumDays == 0 ||
      p.roles.toList.any fun e => e.1 != e.2.id || Text.isBlank e.1 then
    .error (.invalid "organization policy is invalid")
  else .ok ()

/-- The loop of `verify_audit_chain` from one index on. -/
def verifyFrom (index : Nat) (previous : Option String) :
    List AuditEvent → Except GovernanceError Unit
  | [] => .ok ()
  | e :: rest =>
    if e.sequence ≠ index + 1 ∨ e.previousEventDigest ≠ previous ∨
        auditEventDigest rt e ≠ e.eventDigest then .error .digest
    else verifyFrom (index + 1) (some e.eventDigest) rest

def verifyAuditChain (events : List AuditEvent) : Except GovernanceError Unit :=
  verifyFrom rt 0 none events

/-! ## Operations -/

abbrev Governed := Fallible GovernanceError GovernanceState

def new (policy : OrganizationPolicy) : Except GovernanceError GovernanceState := do
  validatePolicy policy
  return { policy := policy, policyDigest := rt.digestCompact policy.toJson, members := ∅
           projects := ∅, approvals := ∅, auditEvents := [] }

def addMember (member : OrganizationMember) : Governed Unit := do
  let s ← get
  check (!Text.isBlank member.subjectId && s.policy.roles.contains member.roleId)
    (.invalid "member identity or role is invalid")
  set { s with members := s.members.insert member.subjectId member }

def addProject (project : OrganizationProject) : Governed Unit := do
  let s ← get
  check (!Text.isBlank project.projectId &&
      decide (project.organizationId = s.policy.organizationId) &&
      !Text.isBlank project.classification)
    (.invalid "project ownership is invalid")
  set { s with projects := s.projects.insert project.projectId project }

/-- The event that is appended next. -/
def nextEvent (events : List AuditEvent) (actor : String) (project : Option String)
    (eventType subjectDigest occurredAt : String) : AuditEvent :=
  let event : AuditEvent :=
    { sequence := events.length + 1, occurredAt := occurredAt, actorId := actor
      projectId := project, eventType := eventType, subjectDigest := subjectDigest
      previousEventDigest := events.getLast?.map AuditEvent.eventDigest, eventDigest := "" }
  { event with eventDigest := auditEventDigest rt event }

def appendEvent (actor : String) (project : Option String)
    (eventType subjectDigest occurredAt : String) : Governed AuditEvent := do
  let s ← get
  let event := nextEvent rt s.auditEvents actor project eventType subjectDigest occurredAt
  set { s with auditEvents := s.auditEvents ++ [event] }
  return event

/-- The identifier of a request: the digest of its arguments. -/
def approvalId (projectId : String) (action : GovernedAction)
    (resourceDigest actorId occurredAt : String) : String :=
  rt.digestCompact (.arr [.str projectId, .str action.asStr, .str resourceDigest, .str actorId,
    .str occurredAt])

def requestApproval (threshold : Nat) (projectId : String) (action : GovernedAction)
    (resourceDigest actorId occurredAt : String) : PendingApproval :=
  let approval : PendingApproval :=
    { id := approvalId rt projectId action resourceDigest actorId occurredAt
      projectId := projectId, action := action, resourceDigest := resourceDigest
      requestedBy := actorId, requestedAt := occurredAt, requiredApprovals := threshold
      approvers := ∅, completedAt := none, approvalDigest := "" }
  { approval with approvalDigest := approvalDigest rt approval }

def threshold (action : GovernedAction) : Nat := (s.policy.approvalThresholds[action]?).getD 0

def authorize (actorId projectId : String) (action : GovernedAction)
    (resourceDigest occurredAt : String) : Governed GovernanceDecision := do
  let _ ← lift (parseTime rt occurredAt)
  lift (requireDigest resourceDigest)
  let s ← get
  lift (requireProject s projectId)
  lift (requireCapability s actorId action.capability)
  if threshold s action = 0 then
    let event ← appendEvent rt actorId (some projectId) "authorized" resourceDigest occurredAt
    return .authorized event.eventDigest
  else
    let approval := requestApproval rt (threshold s action) projectId action resourceDigest actorId
      occurredAt
    set { s with approvals := s.approvals.insert approval.id approval }
    let _ ← appendEvent rt actorId (some projectId) "approval_requested" approval.approvalDigest
      occurredAt
    return .approvalRequired approval

/-- An approval with one more approver, completed at its threshold. -/
def countApprover (approval : PendingApproval) (approverId occurredAt : String) : PendingApproval :=
  let approvers := approval.approvers.insert approverId
  let counted : PendingApproval :=
    { approval with
      approvers := approvers
      completedAt :=
        if approval.requiredApprovals ≤ approvers.size then some occurredAt
        else approval.completedAt }
  { counted with approvalDigest := approvalDigest rt counted }

def approvalEvent (approval : PendingApproval) : String :=
  if approval.completedAt.isSome then "approval_completed" else "approval_recorded"

def approve (id approverId occurredAt : String) : Governed GovernanceDecision := do
  let _ ← lift (parseTime rt occurredAt)
  let s ← get
  lift (requireCapability s approverId .approve)
  match s.approvals[id]? with
  | none => throw (.invalid "unknown approval")
  | some approval =>
    -- The approver is inserted inside the condition, where only a new one passes.
    check (!(approval.completedAt.isSome || decide (approval.requestedBy = approverId) ||
        approval.approvers.contains approverId))
      (.denied "approval must be pending, distinct, and independent")
    let result := countApprover rt approval approverId occurredAt
    set { s with approvals := s.approvals.insert id result }
    let _ ← appendEvent rt approverId (some result.projectId) (approvalEvent result)
      result.approvalDigest occurredAt
    if result.completedAt.isSome then return .approved result else return .approvalRequired result

def exportAudit (actorId exportedAt : String) : Governed AuditExport := do
  let _ ← lift (parseTime rt exportedAt)
  let s ← get
  lift (requireCapability s actorId .exportAudit)
  let _ ← appendEvent rt actorId none "audit_exported" s.policyDigest exportedAt
  let s ← get
  lift (verifyAuditChain rt s.auditEvents)
  let audit : AuditExport :=
    { schemaVersion := "0.1.0", organizationId := s.policy.organizationId
      policyDigest := s.policyDigest, exportedAt := exportedAt, events := s.auditEvents
      exportDigest := "" }
  return { audit with exportDigest := rt.digestCompact audit.toJson }

inductive Op where
  | addMember (member : OrganizationMember)
  | addProject (project : OrganizationProject)
  | authorize (actorId projectId : String) (action : GovernedAction)
      (resourceDigest occurredAt : String)
  | approve (id approverId occurredAt : String)
  | exportAudit (actorId exportedAt : String)

def perform : Op → Governed Unit
  | .addMember member => addMember member
  | .addProject project => addProject project
  | .authorize actorId projectId action resourceDigest occurredAt => do
    let _ ← authorize rt actorId projectId action resourceDigest occurredAt
  | .approve id approverId occurredAt => do
    let _ ← approve rt id approverId occurredAt
  | .exportAudit actorId exportedAt => do
    let _ ← exportAudit rt actorId exportedAt

def Calls (op : Op) (s' : GovernanceState) : Prop := after (perform rt op) s = s'

end Governance
end GeneGIS
