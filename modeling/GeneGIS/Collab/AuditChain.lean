/-
`Performed` lists what an accepted call can do.  A rejected call does nothing, apart from an export
that finds a broken chain, and no run from a new state has one.
-/
import GeneGIS.Collab.Governance
import GeneGIS.Data.HashChain
import GeneGIS.Data.Path

namespace GeneGIS.Governance

open Fallible HashChain List EStateM
open Bool hiding not_not not_or true_and

variable {rt : Runtime} {s s' : GovernanceState} {op : Op}

/-! ## What a call does -/

/-- The state with one more event. -/
def logged (rt : Runtime) (s : GovernanceState) (actor : String) (project : Option String)
    (eventType subjectDigest occurredAt : String) : GovernanceState :=
  { s with auditEvents :=
      s.auditEvents ++ [nextEvent rt s.auditEvents actor project eventType subjectDigest occurredAt] }

/-- The state with an approval put under an identifier. -/
def withApproval (s : GovernanceState) (id : String) (a : PendingApproval) : GovernanceState :=
  { s with approvals := s.approvals.insert id a }

/-- The checks an authorization passes. -/
structure Authorizes (rt : Runtime) (s : GovernanceState) (actorId projectId : String)
    (action : GovernedAction) (resourceDigest occurredAt : String) : Prop where
  time : ∃ t, parseTime rt occurredAt = .ok t
  digest : requireDigest resourceDigest = .ok ()
  project : requireProject s projectId = .ok ()
  capability : requireCapability s actorId action.capability = .ok ()

/-- What an accepted call does. -/
inductive Performed (rt : Runtime) (s : GovernanceState) : Op → GovernanceState → Prop
  | addMember (member : OrganizationMember)
      (named : Text.isBlank member.subjectId = false)
      (role : s.policy.roles.contains member.roleId = true) :
      Performed rt s (.addMember member)
        { s with members := s.members.insert member.subjectId member }
  | addProject (project : OrganizationProject)
      (owner : project.organizationId = s.policy.organizationId) :
      Performed rt s (.addProject project)
        { s with projects := s.projects.insert project.projectId project }
  | authorized (actorId projectId : String) (action : GovernedAction)
      (resourceDigest occurredAt : String)
      (granted : Authorizes rt s actorId projectId action resourceDigest occurredAt)
      (free : threshold s action = 0) :
      Performed rt s (.authorize actorId projectId action resourceDigest occurredAt)
        (logged rt s actorId (some projectId) "authorized" resourceDigest occurredAt)
  | requested (actorId projectId : String) (action : GovernedAction)
      (resourceDigest occurredAt : String) (a : PendingApproval)
      (granted : Authorizes rt s actorId projectId action resourceDigest occurredAt)
      (gated : threshold s action ≠ 0)
      (request : a = requestApproval rt (threshold s action) projectId action resourceDigest actorId
        occurredAt) :
      Performed rt s (.authorize actorId projectId action resourceDigest occurredAt)
        (logged rt (withApproval s a.id a) actorId (some projectId) "approval_requested"
          a.approvalDigest occurredAt)
  | approved (id approverId occurredAt : String) (a b : PendingApproval)
      (granted : requireCapability s approverId .approve = .ok ())
      (found : s.approvals[id]? = some a) (pending : a.completedAt = none)
      (independent : a.requestedBy ≠ approverId) (distinct : approverId ∉ a.approvers)
      (counted : b = countApprover rt a approverId occurredAt) :
      Performed rt s (.approve id approverId occurredAt)
        (logged rt (withApproval s id b) approverId (some b.projectId) (approvalEvent b)
          b.approvalDigest occurredAt)
  | exported (actorId exportedAt : String)
      (granted : requireCapability s actorId .exportAudit = .ok ()) :
      Performed rt s (.exportAudit actorId exportedAt)
        (logged rt s actorId none "audit_exported" s.policyDigest exportedAt)

theorem addMember_ok {member : OrganizationMember} {v : Unit}
    (h : addMember member s = .ok v s') : Performed rt s (.addMember member) s' := by
  simp only [addMember, bind_ok, get_ok, check_ok, and_eq_true, not_eq_true'] at h
  obtain ⟨_, _, ⟨rfl, rfl⟩, _, _, ⟨⟨hnamed, hrole⟩, rfl⟩, hset⟩ := h
  obtain rfl := set_ok.mp hset
  exact .addMember member hnamed hrole

theorem addProject_ok {project : OrganizationProject} {v : Unit}
    (h : addProject project s = .ok v s') : Performed rt s (.addProject project) s' := by
  simp only [addProject, bind_ok, get_ok, check_ok, and_eq_true, decide_eq_true_eq] at h
  obtain ⟨_, _, ⟨rfl, rfl⟩, _, _, ⟨⟨⟨-, howner⟩, -⟩, rfl⟩, hset⟩ := h
  obtain rfl := set_ok.mp hset
  exact .addProject project howner

theorem authorize_ok {actorId projectId resourceDigest occurredAt : String}
    {action : GovernedAction} {v : GovernanceDecision}
    (h : authorize rt actorId projectId action resourceDigest occurredAt s = .ok v s') :
    Performed rt s (.authorize actorId projectId action resourceDigest occurredAt) s' := by
  rw [authorize, lift_bind_ok] at h
  obtain ⟨t, hparsed, h⟩ := h
  obtain ⟨_, hdigest, h⟩ := lift_bind_ok.mp h
  replace h := get_bind_ok.mp h
  obtain ⟨_, hproject, h⟩ := lift_bind_ok.mp h
  obtain ⟨_, hcapability, h⟩ := lift_bind_ok.mp h
  have hgranted : Authorizes rt s actorId projectId action resourceDigest occurredAt :=
    ⟨⟨t, hparsed⟩, hdigest, hproject, hcapability⟩
  by_cases hfree : threshold s action = 0
  · rw [if_pos hfree] at h
    obtain ⟨_, _, happend, h⟩ := bind_ok.mp h
    obtain ⟨-, rfl⟩ := Result.ok.inj happend
    obtain ⟨-, rfl⟩ := pure_ok.mp h
    exact .authorized actorId projectId action resourceDigest occurredAt hgranted hfree
  · rw [if_neg hfree] at h
    obtain ⟨_, _, hset, h⟩ := bind_ok.mp h
    obtain ⟨-, rfl⟩ := Result.ok.inj hset
    obtain ⟨_, _, happend, h⟩ := bind_ok.mp h
    obtain ⟨-, rfl⟩ := Result.ok.inj happend
    obtain ⟨-, rfl⟩ := pure_ok.mp h
    exact .requested actorId projectId action resourceDigest occurredAt _ hgranted hfree rfl

theorem approve_ok {id approverId occurredAt : String} {v : GovernanceDecision}
    (h : approve rt id approverId occurredAt s = .ok v s') :
    Performed rt s (.approve id approverId occurredAt) s' := by
  rw [approve, lift_bind_ok] at h
  obtain ⟨_, -, h⟩ := h
  replace h := get_bind_ok.mp h
  obtain ⟨_, hgranted, h⟩ := lift_bind_ok.mp h
  cases hfound : s.approvals[id]? with
  | none =>
    rw [hfound] at h
    cases h
  | some a =>
    rw [hfound] at h
    obtain ⟨_, _, hcheck, h⟩ := bind_ok.mp h
    simp only [check_ok, not_eq_true', or_eq_false_iff, decide_eq_false_iff_not] at hcheck
    obtain ⟨⟨⟨hpending, hindependent⟩, hdistinct⟩, rfl⟩ := hcheck
    obtain ⟨_, _, hset, h⟩ := bind_ok.mp h
    obtain ⟨-, rfl⟩ := Result.ok.inj hset
    obtain ⟨_, _, happend, h⟩ := bind_ok.mp h
    obtain ⟨-, rfl⟩ := Result.ok.inj happend
    have hnone : a.completedAt = none := by
      cases hc : a.completedAt with
      | none => rfl
      | some t =>
        rw [hc] at hpending
        cases hpending
    have hnew : approverId ∉ a.approvers := by
      intro hmem
      rw [Std.ExtTreeSet.contains_iff_mem.mpr hmem] at hdistinct
      cases hdistinct
    have hperformed : Performed rt s (.approve id approverId occurredAt) _ :=
      .approved id approverId occurredAt a _ hgranted hfound hnone hindependent hnew rfl
    split at h
    · obtain ⟨-, rfl⟩ := pure_ok.mp h
      exact hperformed
    · obtain ⟨-, rfl⟩ := pure_ok.mp h
      exact hperformed

theorem exportAudit_ok {actorId exportedAt : String} {v : AuditExport}
    (h : exportAudit rt actorId exportedAt s = .ok v s') :
    Performed rt s (.exportAudit actorId exportedAt) s' := by
  rw [exportAudit, lift_bind_ok] at h
  obtain ⟨_, -, h⟩ := h
  replace h := get_bind_ok.mp h
  obtain ⟨_, hgranted, h⟩ := lift_bind_ok.mp h
  obtain ⟨_, _, happend, h⟩ := bind_ok.mp h
  obtain ⟨-, rfl⟩ := Result.ok.inj happend
  replace h := get_bind_ok.mp h
  obtain ⟨_, -, h⟩ := lift_bind_ok.mp h
  obtain ⟨-, rfl⟩ := pure_ok.mp h
  exact .exported actorId exportedAt hgranted

theorem perform_ok {v : Unit} (h : perform rt op s = .ok v s') : Performed rt s op s' := by
  cases op with
  | addMember member => exact addMember_ok h
  | addProject project => exact addProject_ok h
  | authorize actorId projectId action resourceDigest occurredAt =>
    obtain ⟨_, _, hrun, h⟩ := bind_ok.mp h
    obtain ⟨-, rfl⟩ := pure_ok.mp h
    exact authorize_ok hrun
  | approve id approverId occurredAt =>
    obtain ⟨_, _, hrun, h⟩ := bind_ok.mp h
    obtain ⟨-, rfl⟩ := pure_ok.mp h
    exact approve_ok hrun
  | exportAudit actorId exportedAt =>
    obtain ⟨_, _, hrun, h⟩ := bind_ok.mp h
    obtain ⟨-, rfl⟩ := pure_ok.mp h
    exact exportAudit_ok hrun

theorem total_appendEvent (actor : String) (project : Option String)
    (eventType subjectDigest occurredAt : String) :
    Total (appendEvent rt actor project eventType subjectDigest occurredAt) := by
  refine total_get.bind fun s => ?_
  exact (total_set _).bind fun _ => total_pure _

theorem atomic_addMember (member : OrganizationMember) : Atomic (addMember member) :=
  observes_get.bind fun _ => (observes_check _ _).bind fun _ => (total_set _).atomic

theorem atomic_addProject (project : OrganizationProject) : Atomic (addProject project) :=
  observes_get.bind fun _ => (observes_check _ _).bind fun _ => (total_set _).atomic

theorem atomic_authorize (actorId projectId : String) (action : GovernedAction)
    (resourceDigest occurredAt : String) :
    Atomic (authorize rt actorId projectId action resourceDigest occurredAt) := by
  refine (observes_lift _).bind fun _ => (observes_lift _).bind fun _ => ?_
  refine observes_get.bind fun s => (observes_lift _).bind fun _ => (observes_lift _).bind fun _ => ?_
  by_cases hfree : threshold s action = 0
  · rw [if_pos hfree]
    exact ((total_appendEvent _ _ _ _ _).bind fun _ => total_pure _).atomic
  · rw [if_neg hfree]
    refine Total.atomic ((total_set _).bind fun _ => ?_)
    exact (total_appendEvent _ _ _ _ _).bind fun _ => total_pure _

theorem atomic_approve (id approverId occurredAt : String) :
    Atomic (approve rt id approverId occurredAt) := by
  refine (observes_lift _).bind fun _ => observes_get.bind fun s => ?_
  refine (observes_lift _).bind fun _ => ?_
  cases s.approvals[id]? with
  | none => exact atomic_throw _
  | some a =>
    refine (observes_check _ _).bind fun _ => Total.atomic ((total_set _).bind fun _ => ?_)
    refine (total_appendEvent _ _ _ _ _).bind fun _ => ?_
    split
    · exact total_pure _
    · exact total_pure _

theorem exportAudit_error {actorId exportedAt : String} {e : GovernanceError}
    (hchain : ∀ event, event = nextEvent rt s.auditEvents actorId none "audit_exported"
      s.policyDigest exportedAt → verifyAuditChain rt (s.auditEvents ++ [event]) = .ok ())
    (h : exportAudit rt actorId exportedAt s = .error e s') : s' = s := by
  rcases bind_error h with h | ⟨_, s₁, htime, h⟩
  · exact (observes_lift _).1 s e s' h
  obtain ⟨-, rfl⟩ := lift_ok.mp htime
  rcases bind_error h with h | ⟨_, s₂, hget, h⟩
  · cases h
  obtain ⟨rfl, rfl⟩ := get_ok.mp hget
  rcases bind_error h with h | ⟨_, s₃, hcapability, h⟩
  · exact (observes_lift _).1 s e s' h
  obtain ⟨-, rfl⟩ := lift_ok.mp hcapability
  rcases bind_error h with h | ⟨_, s₄, happend, h⟩
  · exact absurd h (total_appendEvent _ _ _ _ _ _ _ _)
  obtain ⟨-, rfl⟩ := Result.ok.inj happend
  rcases bind_error h with h | ⟨_, s₅, hget, h⟩
  · cases h
  obtain ⟨rfl, rfl⟩ := get_ok.mp hget
  rcases bind_error h with h | ⟨_, s₆, hverify, h⟩
  · rw [hchain _ rfl] at h
    cases h
  · cases h

/-! ## The chain -/

/-- What `verify_audit_chain` accepts. -/
structure Chained (rt : Runtime) (index : Nat) (before : Option String)
    (events : List AuditEvent) : Prop where
  sequence : ∀ i e, events[i]? = some e → e.sequence = index + i + 1
  linked : Linked AuditEvent.previousEventDigest AuditEvent.eventDigest before events
  sealed : ∀ e ∈ events, auditEventDigest rt e = e.eventDigest

variable {events : List AuditEvent}

theorem verifyFrom_ok {index : Nat} {before : Option String} :
    verifyFrom rt index before events = .ok () ↔ Chained rt index before events := by
  induction events generalizing index before with
  | nil => exact iff_of_true rfl ⟨by simp, trivial, by simp⟩
  | cons e rest ih =>
    rw [verifyFrom]
    by_cases hbad : e.sequence ≠ index + 1 ∨ e.previousEventDigest ≠ before ∨
        auditEventDigest rt e ≠ e.eventDigest
    · rw [if_pos hbad]
      refine iff_of_false nofun fun h => ?_
      rcases hbad with hbad | hbad | hbad
      · exact hbad (h.sequence 0 e rfl)
      · exact hbad h.linked.1
      · exact hbad (h.sealed e mem_cons_self)
    · rw [if_neg hbad, ih]
      simp only [not_or, not_not] at hbad
      obtain ⟨hsequence, hbefore, hsealed⟩ := hbad
      constructor
      · intro h
        refine ⟨?_, ⟨hbefore, h.linked⟩, ?_⟩
        · intro i e' he'
          cases i with
          | zero =>
            rw [← Option.some.inj he']
            exact hsequence
          | succ i =>
            have hrest := h.sequence i e' he'
            omega
        · rw [forall_mem_cons]
          exact ⟨hsealed, h.sealed⟩
      · intro h
        refine ⟨?_, h.linked.2, fun e' he' => h.sealed e' (mem_cons_of_mem e he')⟩
        intro i e' he'
        have hnext := h.sequence (i + 1) e' he'
        omega

theorem verifyAuditChain_ok :
    verifyAuditChain rt events = .ok () ↔ Chained rt 0 none events := verifyFrom_ok

theorem Chained.numbered (h : Chained rt 0 none events) :
    events.map AuditEvent.sequence = range' 1 events.length := by
  refine ext_getElem (by rw [length_map, length_range']) fun i hi hi' => ?_
  rw [getElem_map, getElem_range']
  have hsequence := h.sequence i _ (getElem?_eq_getElem (length_map _ ▸ hi))
  omega

theorem Chained.snoc (h : Chained rt 0 none events) (actor : String)
    (project : Option String) (eventType subjectDigest occurredAt : String) :
    Chained rt 0 none
      (events ++ [nextEvent rt events actor project eventType subjectDigest occurredAt]) := by
  refine ⟨?_, linked_snoc.mpr ⟨h.linked, ?_⟩, ?_⟩
  · intro i e he
    rcases Nat.lt_trichotomy i events.length with hi | hi | hi
    · rw [getElem?_append_left hi] at he
      exact h.sequence i e he
    · rw [hi, getElem?_concat_length] at he
      rw [← Option.some.inj he, hi]
      show events.length + 1 = 0 + events.length + 1
      omega
    · rw [getElem?_eq_none (by rw [length_append, length_singleton]; omega)] at he
      cases he
  · rw [Option.or_none]
    rfl
  · rw [forall_mem_append, forall_mem_singleton]
    exact ⟨h.sealed, rfl⟩

/-- An accepted call appends one event, or none where it only adds a member or a
project. -/
inductive Appends (rt : Runtime) (s s' : GovernanceState) : Op → Prop
  | member (member : OrganizationMember) (same : s'.auditEvents = s.auditEvents) :
      Appends rt s s' (.addMember member)
  | project (project : OrganizationProject) (same : s'.auditEvents = s.auditEvents) :
      Appends rt s s' (.addProject project)
  | event (op : Op) (actor : String) (project : Option String)
      (eventType subjectDigest occurredAt : String)
      (appended : s'.auditEvents = s.auditEvents ++
        [nextEvent rt s.auditEvents actor project eventType subjectDigest occurredAt]) :
      Appends rt s s' op

theorem Performed.appends (h : Performed rt s op s') : Appends rt s s' op := by
  cases h with
  | addMember member named role => exact .member member rfl
  | addProject project owner => exact .project project rfl
  | authorized actorId projectId action resourceDigest occurredAt granted free =>
    exact .event _ actorId (some projectId) "authorized" resourceDigest occurredAt rfl
  | requested actorId projectId action resourceDigest occurredAt a granted gated request =>
    exact .event _ actorId (some projectId) "approval_requested" a.approvalDigest occurredAt rfl
  | approved id approverId occurredAt a b granted found pending independent distinct counted =>
    exact .event _ approverId (some b.projectId) (approvalEvent b) b.approvalDigest occurredAt rfl
  | exported actorId exportedAt granted =>
    exact .event _ actorId none "audit_exported" s.policyDigest exportedAt rfl

theorem perform_error {e : GovernanceError} (hchain : Chained rt 0 none s.auditEvents)
    (h : perform rt op s = .error e s') : s' = s := by
  cases op with
  | addMember member => exact atomic_addMember member s e s' h
  | addProject project => exact atomic_addProject project s e s' h
  | authorize actorId projectId action resourceDigest occurredAt =>
    exact ((atomic_authorize _ _ _ _ _).bind fun _ => total_pure ()) s e s' h
  | approve id approverId occurredAt =>
    exact ((atomic_approve _ _ _).bind fun _ => total_pure ()) s e s' h
  | exportAudit actorId exportedAt =>
    rcases bind_error h with h | ⟨_, _, -, h⟩
    · refine exportAudit_error (fun event hevent => ?_) h
      rw [verifyAuditChain_ok, hevent]
      exact hchain.snoc actorId none "audit_exported" s.policyDigest exportedAt
    · cases h

theorem Calls.chained (hchain : Chained rt 0 none s.auditEvents) (h : Calls rt s op s') :
    Chained rt 0 none s'.auditEvents ∧ s.auditEvents <+: s'.auditEvents := by
  cases hrun : perform rt op s with
  | error e s₁ =>
    have hsame := perform_error hchain hrun
    rw [Calls, after_error hrun, hsame] at h
    rw [← h]
    exact ⟨hchain, prefix_rfl⟩
  | ok v s₁ =>
    rw [Calls, after_ok hrun] at h
    rw [← h]
    cases (perform_ok hrun).appends with
    | member member same =>
      rw [same]
      exact ⟨hchain, prefix_rfl⟩
    | project project same =>
      rw [same]
      exact ⟨hchain, prefix_rfl⟩
    | event _ actor project eventType subjectDigest occurredAt appended =>
      rw [appended]
      exact ⟨hchain.snoc actor project eventType subjectDigest occurredAt, prefix_append _ _⟩

theorem new_chained {policy : OrganizationPolicy} (h : new rt policy = .ok s) :
    Chained rt 0 none s.auditEvents := by
  obtain ⟨_, -, h⟩ := bind_iff.mp h
  cases h
  exact ⟨by simp, trivial, by simp⟩

def AuditEvent.text (rt : Runtime) (e : AuditEvent) : List Char :=
  Json.compactChars rt.floatText { e with eventDigest := "" }.toJson

theorem text_reference (rt : Runtime) (e : AuditEvent) :
    AuditEvent.text rt e = AuditEvent.text Runtime.reference e := by
  cases hproject : e.projectId <;> cases hprevious : e.previousEventDigest <;>
    simp [AuditEvent.text, AuditEvent.toJson, Json.compactChars, Json.compactMembers,
      Json.numberChars, Json.ofNat, Json.ofOption, hproject, hprevious]

theorem ofOption_str_inj {a b : Option String} (h : Json.ofOption .str a = Json.ofOption .str b) :
    a = b := by
  cases a <;> cases b <;> simp [Json.ofOption] at h
  · rfl
  · rw [h]

theorem event_of_text {e e' : AuditEvent} (htext : AuditEvent.text rt e = AuditEvent.text rt e')
    (hdigest : e.eventDigest = e'.eventDigest) : e = e' := by
  rw [text_reference, text_reference rt] at htext
  have hjson := Json.compact_inj Runtime.floatText_reference htext
  simp only [AuditEvent.toJson, Json.obj.injEq, cons.injEq, Prod.mk.injEq, true_and,
    Json.str.injEq, Json.ofNat, Json.num.injEq, Number.int.injEq, Int.natCast_inj] at hjson
  obtain ⟨hsequence, htime, hactor, hproject, htype, hsubject, hprevious, -⟩ := hjson
  cases e
  cases e'
  simp only [AuditEvent.mk.injEq] at *
  exact ⟨hsequence, htime, hactor, ofOption_str_inj hproject, htype, hsubject,
    ofOption_str_inj hprevious, hdigest⟩

theorem chain_of_tip {l m : List AuditEvent}
    (hcollision : ∀ e ∈ l, ∀ e' ∈ m, rt.sha256 (AuditEvent.text rt e) =
      rt.sha256 (AuditEvent.text rt e') → AuditEvent.text rt e = AuditEvent.text rt e')
    (hl : verifyAuditChain rt l = .ok ()) (hm : verifyAuditChain rt m = .ok ())
    (htip : tip AuditEvent.eventDigest l = tip AuditEvent.eventDigest m) : l = m := by
  rw [verifyAuditChain_ok] at hl hm
  refine linked_unique ?_ hl.linked hm.linked htip
  intro e he e' he' hdigest
  have hsealed : auditEventDigest rt e = auditEventDigest rt e' := by
    rw [hl.sealed e he, hm.sealed e' he', hdigest]
  have htext := hcollision e he e' he' ((String.append_right_inj _).mp hsealed)
  exact event_of_text htext hdigest

/-- The calls that leave an event. -/
def Op.audited : Op → Bool
  | .addMember _ => false
  | .addProject _ => false
  | .authorize .. => true
  | .approve .. => true
  | .exportAudit .. => true

/-- Every run only appends to a chain that verifies, a rejected call changes nothing, an audited one
appends one event, and the last digest of a chain determines it. -/
theorem run_audit_chain {policy : OrganizationPolicy} {first last : GovernanceState}
    {trace : List (GovernanceState × Op)} (hnew : new rt policy = .ok first)
    (path : Path (Calls rt) first trace last) :
    (Path.visited trace last).Pairwise (fun q q' => q.auditEvents <+: q'.auditEvents) ∧
    (∀ q ∈ Path.visited trace last, verifyAuditChain rt q.auditEvents = .ok () ∧
      q.auditEvents.map AuditEvent.sequence = range' 1 q.auditEvents.length) ∧
    (∀ q ∈ Path.visited trace last, ∀ op e q', perform rt op q = .error e q' → q' = q) ∧
    (∀ q ∈ Path.visited trace last, ∀ op v q', op.audited = true → perform rt op q = .ok v q' →
      ∃ event, q'.auditEvents = q.auditEvents ++ [event]) ∧
    (∀ l m : List AuditEvent,
      (∀ e ∈ l, ∀ e' ∈ m, rt.sha256 (AuditEvent.text rt e) = rt.sha256 (AuditEvent.text rt e') →
        AuditEvent.text rt e = AuditEvent.text rt e') →
      verifyAuditChain rt l = .ok () → verifyAuditChain rt m = .ok () →
      tip AuditEvent.eventDigest l = tip AuditEvent.eventDigest m → l = m) := by
  have hfirst := new_chained hnew
  have hchained := path.invariant (P := fun q => Chained rt 0 none q.auditEvents) hfirst
    fun q op q' hq hcall => (Calls.chained hq hcall).1
  refine ⟨?_, ?_, ?_, ?_, fun l m hcollision hl hm htip => chain_of_tip hcollision hl hm htip⟩
  · refine (path.pairwise_visited_iff (R := fun q q' => q.auditEvents <+: q'.auditEvents)
      (C := fun _ _ => True) hfirst (fun q op q' hq hcall => (Calls.chained hq hcall).1)
      (fun _ => prefix_rfl) (fun _ _ _ => IsPrefix.trans) ?_).mpr fun _ _ => trivial
    intro q op q' hq hcall
    exact iff_of_true (Calls.chained hq hcall).2 trivial
  · intro q hq
    exact ⟨verifyAuditChain_ok.mpr (hchained q hq), (hchained q hq).numbered⟩
  · intro q hq op e q' h
    exact perform_error (hchained q hq) h
  · intro q _ op v q' haudited h
    cases (perform_ok h).appends with
    | member member same => cases haudited
    | project project same => cases haudited
    | event _ actor project eventType subjectDigest occurredAt appended => exact ⟨_, appended⟩

namespace Sample

def analyst : OrganizationRole :=
  { id := "analyst", capabilities := .ofList [GovernanceCapability.view, .execute, .publish] }

def reviewer : OrganizationRole :=
  { id := "reviewer", capabilities := .ofList [GovernanceCapability.approve, .exportAudit] }

def policy : OrganizationPolicy :=
  { schemaVersion := "0.1.0", organizationId := "org-1", policyVersion := "1"
    roles := .ofList [("analyst", analyst), ("reviewer", reviewer)]
    approvalThresholds := .ofList [(GovernedAction.publishResult, 1)]
    retention := { minimumDays := 30, maximumDays := 365, protectedClasses := .ofList ["provenance"] } }

def digest : String := "sha256:" ++ String.ofList (replicate 64 'a')

def first : GovernanceState :=
  { policy := policy, policyDigest := Runtime.reference.digestCompact policy.toJson, members := ∅
    projects := ∅, approvals := ∅, auditEvents := [] }

def staff : List Op :=
  [.addMember { subjectId := "alice", roleId := "analyst", active := true },
   .addMember { subjectId := "bob", roleId := "reviewer", active := true },
   .addProject { projectId := "project-1", organizationId := "org-1", classification := "internal" }]

def request : Op := .authorize "alice" "project-1" .publishResult digest "1970-01-01T00:00:00Z"

def approval : Op :=
  .approve (approvalId Runtime.reference "project-1" .publishResult digest "alice"
    "1970-01-01T00:00:00Z") "bob" "1970-01-01T00:05:00Z"

variable (ops : List Op)

/-- The states a list of calls passes through. -/
def trace : List (GovernanceState × Op) :=
  Path.taken (fun s op => after (perform Runtime.reference op) s) first ops

def last : GovernanceState := ops.foldl (fun s op => after (perform Runtime.reference op) s) first

theorem new_policy : new Runtime.reference policy = .ok first := by
  have hvalid : validatePolicy policy = .ok () := by
    decide
  rw [new, hvalid]
  rfl

theorem path : Path (Calls Runtime.reference) first (trace ops) (last ops) :=
  Path.of_taken _ first ops

end Sample

theorem run_audit_chain_sample :
    (Sample.last (Sample.staff ++ [Sample.request, Sample.approval])).auditEvents.length = 2 ∧
    verifyAuditChain Runtime.reference
      (Sample.last (Sample.staff ++ [Sample.request, Sample.approval])).auditEvents = .ok () := by
  have hrun := run_audit_chain Sample.new_policy
    (Sample.path (Sample.staff ++ [Sample.request, Sample.approval]))
  refine ⟨?_, (hrun.2.1 _ Path.last_mem_visited).1⟩
  decide +kernel

end GeneGIS.Governance
