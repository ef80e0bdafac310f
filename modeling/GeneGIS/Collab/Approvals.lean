/-
A request that is made twice replaces the first one and loses its approver, so an approval stays
what it was exactly when no such request is repeated.
-/
import GeneGIS.Data.Keyed
import GeneGIS.Collab.AuditChain

namespace GeneGIS.Governance

open Fallible List Option Std.ExtTreeSet Keyed
open Std.ExtTreeMap hiding mem_insert not_mem_empty
open Sample (digest new_policy staff)

variable {rt : Runtime} {s s' : GovernanceState} {op : Op}

/-- An active member whose role has a capability. -/
def ActiveWith (s : GovernanceState) (subjectId : String) (capability : GovernanceCapability) :
    Prop :=
  ∃ member role, s.members[subjectId]? = some member ∧ member.active = true ∧
    s.policy.roles[member.roleId]? = some role ∧ role.capabilities.contains capability = true

theorem requireCapability_ok {subjectId : String} {capability : GovernanceCapability}
    (h : requireCapability s subjectId capability = .ok ()) :
    ActiveWith s subjectId capability := by
  unfold requireCapability at h
  cases hmember : s.members[subjectId]? with
  | none =>
    rw [hmember] at h
    cases h
  | some member =>
    rw [hmember] at h
    cases hactive : member.active with
    | false =>
      simp only [hactive] at h
      cases h
    | true =>
      simp only [hactive] at h
      cases hrole : s.policy.roles[member.roleId]? with
      | none =>
        rw [hrole] at h
        cases h
      | some role =>
        rw [hrole] at h
        by_cases hgrants : role.capabilities.contains capability = true
        · exact ⟨member, role, hmember, hactive, hrole, hgrants⟩
        · simp only [hgrants] at h
          cases h

/-- Every approval is still there with its approvers, and completed if it was. -/
def Keeps (s s' : GovernanceState) : Prop :=
  ∀ (id : String) (a : PendingApproval), s.approvals[id]? = some a →
    ∃ a' : PendingApproval, s'.approvals[id]? = some a' ∧ (∀ u ∈ a.approvers, u ∈ a'.approvers) ∧
      (a.completedAt.isSome = true → a'.completedAt.isSome = true)

theorem Keeps.of_same (h : s'.approvals = s.approvals) : Keeps s s' := by
  intro id a ha
  rw [h]
  exact ⟨a, ha, fun _ hu => hu, fun hc => hc⟩

theorem Keeps.trans {a b c : GovernanceState} (hab : Keeps a b) (hbc : Keeps b c) : Keeps a c := by
  intro id x hx
  obtain ⟨y, hy, happrovers, hcompleted⟩ := hab id x hx
  obtain ⟨z, hz, happrovers', hcompleted'⟩ := hbc id y hy
  exact ⟨z, hz, fun u hu => happrovers' u (happrovers u hu), fun h => hcompleted' (hcompleted h)⟩

/-- A request that is accepted, has to be approved, and is stored where there is an
approval with an approver. -/
def Overwrites (rt : Runtime) (s : GovernanceState) : Op → Prop
  | .authorize actorId projectId action resourceDigest occurredAt =>
    Authorizes rt s actorId projectId action resourceDigest occurredAt ∧
    threshold s action ≠ 0 ∧
    ∃ a, s.approvals[approvalId rt projectId action resourceDigest actorId occurredAt]? = some a ∧
      ∃ u, u ∈ a.approvers
  | _ => False

theorem authorize_accepts {actorId projectId resourceDigest occurredAt : String}
    {action : GovernedAction}
    (h : Authorizes rt s actorId projectId action resourceDigest occurredAt) :
    ∃ v s', perform rt (.authorize actorId projectId action resourceDigest occurredAt) s =
      .ok v s' := by
  obtain ⟨⟨t, ht⟩, hdigest, hproject, hcapability⟩ := h
  have hrun : authorize rt actorId projectId action resourceDigest occurredAt s =
      (if threshold s action = 0 then do
        let event ← appendEvent rt actorId (some projectId) "authorized" resourceDigest occurredAt
        return .authorized event.eventDigest
      else do
        let approval := requestApproval rt (threshold s action) projectId action resourceDigest
          actorId occurredAt
        set { s with approvals := s.approvals.insert approval.id approval }
        let _ ← appendEvent rt actorId (some projectId) "approval_requested"
          approval.approvalDigest occurredAt
        return .approvalRequired approval : Governed GovernanceDecision) s := by
    unfold authorize
    rw [ht, hdigest]
    show (do
      lift (requireProject s projectId)
      lift (requireCapability s actorId action.capability)
      _ : Governed GovernanceDecision) s = _
    rw [hproject, hcapability]
    rfl
  by_cases hfree : threshold s action = 0
  · rw [if_pos hfree] at hrun
    exact ⟨_, _, bind_ok.mpr ⟨_, _, hrun, rfl⟩⟩
  · rw [if_neg hfree] at hrun
    exact ⟨_, _, bind_ok.mpr ⟨_, _, hrun, rfl⟩⟩

theorem not_overwrites_of_error {e : GovernanceError} (h : perform rt op s = .error e s') :
    ¬ Overwrites rt s op := by
  cases op with
  | authorize actorId projectId action resourceDigest occurredAt =>
    intro hover
    obtain ⟨v, q, hok⟩ := authorize_accepts hover.1
    rw [hok] at h
    cases h
  | addMember member => exact fun hover => hover
  | addProject project => exact fun hover => hover
  | approve id approverId occurredAt => exact fun hover => hover
  | exportAudit actorId exportedAt => exact fun hover => hover

/-! ## One call -/

/-- What is known of every state: the events are a chain, and somebody approved what is
completed. -/
structure Orderly (rt : Runtime) (s : GovernanceState) : Prop where
  chained : Chained rt 0 none s.auditEvents
  approved : ∀ (id : String) (a : PendingApproval), s.approvals[id]? = some a →
    a.completedAt.isSome = true → ∃ u, u ∈ a.approvers

/-- What a call does to the approvals. -/
inductive Approvals (rt : Runtime) (s s' : GovernanceState) : Op → Prop
  | same (op : Op) (kept : s'.approvals = s.approvals) (harmless : ¬ Overwrites rt s op) :
      Approvals rt s s' op
  | requested (actorId projectId : String) (action : GovernedAction)
      (resourceDigest occurredAt : String) (a : PendingApproval)
      (granted : Authorizes rt s actorId projectId action resourceDigest occurredAt)
      (gated : threshold s action ≠ 0)
      (request : a = requestApproval rt (threshold s action) projectId action resourceDigest actorId
        occurredAt)
      (stored : s'.approvals = s.approvals.insert a.id a) :
      Approvals rt s s' (.authorize actorId projectId action resourceDigest occurredAt)
  | approved (id approverId occurredAt : String) (a b : PendingApproval)
      (granted : requireCapability s approverId .approve = .ok ())
      (found : s.approvals[id]? = some a) (pending : a.completedAt = none)
      (independent : a.requestedBy ≠ approverId)
      (counted : b = countApprover rt a approverId occurredAt)
      (stored : s'.approvals = s.approvals.insert id b) :
      Approvals rt s s' (.approve id approverId occurredAt)

theorem Calls.approvals (hchain : Chained rt 0 none s.auditEvents) (h : Calls rt s op s') :
    Approvals rt s s' op := by
  cases hrun : perform rt op s with
  | error e s₁ =>
    rw [Calls, after_error hrun, perform_error hchain hrun] at h
    rw [← h]
    exact .same op rfl (not_overwrites_of_error hrun)
  | ok v s₁ =>
    rw [Calls, after_ok hrun] at h
    rw [← h]
    cases perform_ok hrun with
    | addMember member named role => exact .same _ rfl fun hover => hover
    | addProject project owner => exact .same _ rfl fun hover => hover
    | authorized actorId projectId action resourceDigest occurredAt granted free =>
      exact .same _ rfl fun hover => hover.2.1 free
    | requested actorId projectId action resourceDigest occurredAt a granted gated request =>
      exact .requested _ _ _ _ _ a granted gated request rfl
    | approved id approverId occurredAt a b granted found pending independent distinct counted =>
      exact .approved _ _ _ a b granted found pending independent counted rfl
    | exported actorId exportedAt granted => exact .same _ rfl fun hover => hover

theorem getElem?_stored {m m' : Std.ExtTreeMap String PendingApproval} {id id' : String}
    {a b : PendingApproval} (hstored : m' = m.insert id b) (h : m'[id']? = some a) :
    (id' = id ∧ a = b) ∨ m[id']? = some a := by
  rw [hstored] at h
  rcases insert_cases h with hnew | hold
  · exact .inl hnew
  · exact .inr hold.2

variable {a : PendingApproval}

theorem mem_countApprover {u approverId occurredAt : String} :
    u ∈ (countApprover rt a approverId occurredAt).approvers ↔ approverId = u ∨ u ∈ a.approvers := by
  show u ∈ a.approvers.insert approverId ↔ _
  rw [mem_insert, Std.LawfulEqOrd.compare_eq_iff_eq]

theorem countApprover_completed {approverId occurredAt : String} (hpending : a.completedAt = none)
    (h : (countApprover rt a approverId occurredAt).completedAt.isSome = true) :
    a.requiredApprovals ≤ (countApprover rt a approverId occurredAt).approvers.size := by
  by_cases hreached : a.requiredApprovals ≤ (a.approvers.insert approverId).size
  · exact hreached
  · have hopen : (countApprover rt a approverId occurredAt).completedAt = a.completedAt :=
      if_neg hreached
    rw [hopen, hpending] at h
    cases h

theorem Orderly.step (hs : Orderly rt s) (h : Calls rt s op s') : Orderly rt s' := by
  refine ⟨(Calls.chained hs.chained h).1, fun id a ha hcompleted => ?_⟩
  cases Calls.approvals hs.chained h with
  | same _ kept harmless =>
    rw [kept] at ha
    exact hs.approved id a ha hcompleted
  | requested actorId projectId action resourceDigest occurredAt b granted gated request stored =>
    rcases getElem?_stored stored ha with ⟨-, rfl⟩ | ha
    · rw [request] at hcompleted
      cases hcompleted
    · exact hs.approved id a ha hcompleted
  | approved id' approverId occurredAt c b granted found pending independent counted stored =>
    rcases getElem?_stored stored ha with ⟨-, rfl⟩ | ha
    · rw [counted]
      exact ⟨approverId, mem_countApprover.mpr (.inl rfl)⟩
    · exact hs.approved id a ha hcompleted

theorem keeps_iff (hs : Orderly rt s) (h : Calls rt s op s') :
    Keeps s s' ↔ ¬ Overwrites rt s op := by
  cases Calls.approvals hs.chained h with
  | same _ kept harmless => exact iff_of_true (Keeps.of_same kept) harmless
  | requested actorId projectId action resourceDigest occurredAt b granted gated request stored =>
    have hnew : s'.approvals[b.id]? = some b := by
      rw [stored, getElem?_insert_self]
    have hid : approvalId rt projectId action resourceDigest actorId occurredAt = b.id := by
      rw [request]
      rfl
    have hempty : ∀ u, u ∉ b.approvers := by
      intro u
      rw [request]
      exact not_mem_empty
    constructor
    · intro hkeeps hover
      obtain ⟨-, -, a, ha, u, hu⟩ := hover
      rw [hid] at ha
      obtain ⟨a', ha', happrovers, -⟩ := hkeeps b.id a ha
      rw [hnew] at ha'
      rw [← some.inj ha'] at happrovers
      exact hempty u (happrovers u hu)
    · intro hover id a ha
      by_cases hsame : id = b.id
      · -- The approval that was there has no approver, so it is not completed either.
        have hnone : ¬ ∃ u, u ∈ a.approvers := by
          intro hu
          exact hover ⟨granted, gated, a, by rw [hid, ← hsame]; exact ha, hu⟩
        rw [hsame]
        refine ⟨b, hnew, fun u hu => absurd ⟨u, hu⟩ hnone, fun hc => ?_⟩
        exact absurd (hs.approved id a ha hc) hnone
      · refine ⟨a, ?_, fun _ hu => hu, fun hc => hc⟩
        rw [stored, getElem?_insert_ne hsame]
        exact ha
  | approved id' approverId occurredAt c b granted found pending independent counted stored =>
    refine iff_of_true ?_ fun hover => hover
    intro id a ha
    by_cases hsame : id = id'
    · rw [hsame] at ha ⊢
      rw [found] at ha
      refine ⟨b, by rw [stored, getElem?_insert_self], ?_, ?_⟩
      · intro u hu
        rw [counted, mem_countApprover, some.inj ha]
        exact .inr hu
      · intro hc
        rw [← some.inj ha, pending] at hc
        cases hc
    · refine ⟨a, ?_, fun _ hu => hu, fun hc => hc⟩
      rw [stored, getElem?_insert_ne hsame]
      exact ha

/-- Enough approvers who are not the requester, and each of them approved while it was an
active member that could. -/
structure Earned (trace : List (GovernanceState × Op)) (id : String) (a : PendingApproval) :
    Prop where
  enough : a.requiredApprovals ≤ a.approvers.size
  independent : a.requestedBy ∉ a.approvers
  entitled : ∀ u ∈ a.approvers, ∃ q t, (q, Op.approve id u t) ∈ trace ∧ ActiveWith q u .approve

/-- Every completed approval was earned by the calls before. -/
def Sound (trace : List (GovernanceState × Op)) (s : GovernanceState) : Prop :=
  ∀ (id : String) (a : PendingApproval), s.approvals[id]? = some a →
    a.completedAt.isSome = true → Earned trace id a

/-- What is known of an approval, completed or not. -/
structure Counted (trace : List (GovernanceState × Op)) (id : String) (a : PendingApproval) :
    Prop where
  enough : a.completedAt.isSome = true → a.requiredApprovals ≤ a.approvers.size
  independent : a.requestedBy ∉ a.approvers
  entitled : ∀ u ∈ a.approvers, ∃ q t, (q, Op.approve id u t) ∈ trace ∧ ActiveWith q u .approve

variable {trace : List (GovernanceState × Op)}

theorem Counted.later {id : String}
    (h : Counted trace id a) (x : GovernanceState × Op) : Counted (trace ++ [x]) id a := by
  refine ⟨h.enough, h.independent, fun u hu => ?_⟩
  obtain ⟨q, t, hmem, hactive⟩ := h.entitled u hu
  exact ⟨q, t, mem_append_left _ hmem, hactive⟩

theorem counted_request (n : Nat) (projectId : String)
    (action : GovernedAction) (resourceDigest actorId occurredAt id : String) :
    Counted trace id (requestApproval rt n projectId action resourceDigest actorId occurredAt) := by
  have hempty : ∀ u : String, u ∉ (∅ : Std.ExtTreeSet String) := fun _ => not_mem_empty
  refine ⟨?_, hempty _, fun u hu => absurd hu (hempty u)⟩
  nofun

theorem Counted.approve {id approverId occurredAt : String}
    (h : Counted trace id a) (hpending : a.completedAt = none)
    (hindependent : a.requestedBy ≠ approverId)
    (hgranted : requireCapability s approverId .approve = .ok ()) :
    Counted (trace ++ [(s, .approve id approverId occurredAt)]) id
      (countApprover rt a approverId occurredAt) := by
  refine ⟨countApprover_completed hpending, ?_, ?_⟩
  · intro hmem
    rcases mem_countApprover.mp hmem with hsame | hmem
    · exact hindependent hsame.symm
    · exact h.independent hmem
  · intro u hu
    rcases mem_countApprover.mp hu with rfl | hu
    · exact ⟨s, occurredAt, by simp, requireCapability_ok hgranted⟩
    · exact (h.later _).entitled u hu

theorem counted_step
    (hs : ∀ (id : String) (a : PendingApproval), s.approvals[id]? = some a → Counted trace id a)
    (hcall : Approvals rt s s' op) (id : String) (a : PendingApproval)
    (ha : s'.approvals[id]? = some a) : Counted (trace ++ [(s, op)]) id a := by
  cases hcall with
  | same _ kept harmless =>
    rw [kept] at ha
    exact (hs id a ha).later _
  | requested actorId projectId action resourceDigest occurredAt b granted gated request stored =>
    rcases getElem?_stored stored ha with ⟨-, rfl⟩ | ha
    · rw [request]
      exact counted_request _ _ _ _ _ _ _
    · exact (hs id a ha).later _
  | approved id' approverId occurredAt c b granted found pending independent counted stored =>
    rcases getElem?_stored stored ha with ⟨rfl, rfl⟩ | ha
    · rw [counted]
      exact (hs id c found).approve pending independent granted
    · exact (hs id a ha).later _

/-! ## Runs -/

variable {policy : OrganizationPolicy}

theorem new_approvals (h : new rt policy = .ok s) (id : String) : s.approvals[id]? = none := by
  obtain ⟨_, -, h⟩ := bind_iff.mp h
  cases h
  exact getElem?_empty

theorem new_orderly (h : new rt policy = .ok s) : Orderly rt s := by
  refine ⟨new_chained h, fun id a ha _ => ?_⟩
  rw [new_approvals h] at ha
  cases ha

theorem run_sound {first last : GovernanceState} (hnew : new rt policy = .ok first)
    (path : Path (Calls rt) first trace last) :
    ∀ n q, (Path.visited trace last)[n]? = some q → Sound (trace.take n) q := by
  have hcounted := path.history
    (P := fun trace q => Orderly rt q ∧
      ∀ (id : String) (a : PendingApproval), q.approvals[id]? = some a → Counted trace id a)
    ⟨new_orderly hnew, fun id a ha => by rw [new_approvals hnew] at ha; cases ha⟩
    fun trace q op q' hq hcall =>
      ⟨hq.1.step hcall, counted_step hq.2 (Calls.approvals hq.1.chained hcall)⟩
  intro n q hq id a ha hcompleted
  have h := (hcounted n q hq).2 id a ha
  exact ⟨h.enough hcompleted, h.independent, h.entitled⟩

/-- Over a run from a new state no approver is lost, nothing completed becomes pending and what is
completed was earned, exactly when no request overwrites an approved one. -/
theorem run_approvals_iff {policy : OrganizationPolicy} {first last : GovernanceState}
    {trace : List (GovernanceState × Op)} (hnew : new rt policy = .ok first)
    (path : Path (Calls rt) first trace last) :
    ((Path.visited trace last).Pairwise Keeps ∧
      ∀ n q, (Path.visited trace last)[n]? = some q → Sound (trace.take n) q) ↔
    ∀ x ∈ trace, ¬ Overwrites rt x.1 x.2 := by
  rw [and_iff_left (run_sound hnew path)]
  exact path.pairwise_visited_iff (new_orderly hnew) (fun _ _ _ hs h => hs.step h)
    (fun _ => Keeps.of_same rfl) (fun _ _ _ => Keeps.trans) (fun _ _ _ hs h => keeps_iff hs h)

theorem run_approvals_iff_sample :
    (Path.visited (Sample.trace (staff ++ [Sample.request, Sample.approval]))
      (Sample.last (staff ++ [Sample.request, Sample.approval]))).Pairwise Keeps := by
  have hrun := run_approvals_iff new_policy
    (Sample.path (staff ++ [Sample.request, Sample.approval]))
  refine (hrun.mpr ?_).1
  have hfree : (Sample.last staff).approvals[approvalId Runtime.reference "project-1"
      .publishResult digest "alice" "1970-01-01T00:00:00Z"]?.isNone = true := by
    rfl
  simp only [Sample.trace, staff, cons_append, nil_append, Path.taken, forall_mem_cons]
  refine ⟨fun h => h, fun h => h, fun h => h, ?_, fun h => h, by simp⟩
  intro hover
  obtain ⟨-, -, a, ha, -⟩ := hover
  exact some_ne_none a (ha.symm.trans (isNone_iff_eq_none.mp hfree))

/-- Alice requests, Bob approves, and the same request again makes the completed approval
pending. -/
theorem repeated_request_loses_approval :
    ¬ ∀ (first last : GovernanceState) (trace : List (GovernanceState × Op)),
      new Runtime.reference Sample.policy = .ok first →
      Path (Calls Runtime.reference) first trace last →
      (Path.visited trace last).Pairwise Keeps := by
  intro hclaim
  have hpairs := hclaim _ _ _ new_policy
    (Sample.path ((staff ++ [Sample.request, Sample.approval]) ++ [Sample.request]))
  rw [Sample.trace, Path.taken_concat, Path.visited_snoc, pairwise_append] at hpairs
  have hkeeps := hpairs.2.2 _ Path.last_mem_visited _ (mem_singleton_self _)
  have hbefore : ((Sample.last (staff ++ [Sample.request, Sample.approval])).approvals[
      approvalId Runtime.reference "project-1" .publishResult digest "alice"
        "1970-01-01T00:00:00Z"]?.any fun a => a.completedAt.isSome) = true := by
    decide +kernel
  have hafter : ((Sample.last (staff ++ [Sample.request, Sample.approval] ++
      [Sample.request])).approvals[approvalId Runtime.reference "project-1" .publishResult
        digest "alice" "1970-01-01T00:00:00Z"]?.all fun a => !a.completedAt.isSome) = true := by
    decide +kernel
  obtain ⟨a, ha, hcompleted⟩ := (any_eq_true _ _).mp hbefore
  obtain ⟨a', ha', -, hstill⟩ := hkeeps _ a ha
  have hpending := (all_eq_true _ _).mp hafter a' ha'
  rw [hstill hcompleted] at hpending
  cases hpending

end GeneGIS.Governance
