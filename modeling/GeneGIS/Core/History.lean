/-
`Represents s t` reads snapshots, cursor and project as a timeline, so what is known of timelines
carries over to every run.
-/
import GeneGIS.Data.Timeline
import GeneGIS.Core.Dispatch

namespace GeneGIS.Session

open Fallible CommandBus List Option
open Timeline (back_some exists_back exists_forth forth_some states_commit)

/-! ## Runs -/

/-- A call of the public interface. -/
inductive Op where
  | apply (now : DateTime) (envelope : CommandEnvelope)
  | applyWithExecutor (now : DateTime) (envelope : CommandEnvelope) (executor : WorkflowExecutor)
  | registerWorkflow (workflow : GeoWorkflow)
  | undo
  | redo

def after {α : Type} : EStateM.Result CommandError Session α → Session
  | .ok _ s => s
  | .error _ s => s

def perform (rt : Runtime) (s : Session) : Op → Session
  | .apply now envelope => after (Session.apply rt now envelope s)
  | .applyWithExecutor now envelope executor =>
    after (Session.applyWithExecutor rt now envelope executor s)
  | .registerWorkflow workflow => after (Session.registerWorkflow rt workflow s)
  | .undo => after (Session.undo s)
  | .redo => after (Session.redo s)

def run (rt : Runtime) (ops : List Op) (s : Session) : Session := ops.foldl (perform rt) s

def start (p : Project) : Session := { bus := CommandBus.new p, project := p }

namespace Op

def command? : Op → Option Command
  | .apply _ envelope => some envelope.command
  | .applyWithExecutor _ envelope _ => some envelope.command
  | _ => none

/-- An undo, called directly or issued as a command. -/
def IsUndo (op : Op) : Prop := op = .undo ∨ op.command? = some .undo

def IsRedo (op : Op) : Prop := op = .redo ∨ op.command? = some .redo

end Op

/-- What a call does: nothing, or an accepted command, or one of the unlogged
calls. -/
inductive Performed (rt : Runtime) (s : Session) : Op → Session → Prop
  | refused (op : Op) : Performed rt s op s
  | command (op : Op) (now : DateTime) (envelope : CommandEnvelope)
      (executor : Option WorkflowExecutor) (s' : Session)
      (is : op.command? = some envelope.command)
      (accepted : Accepted rt now envelope executor s s') : Performed rt s op s'
  | register (workflow : GeoWorkflow) (valid : workflow.validate rt = .ok ()) :
      Performed rt s (.registerWorkflow workflow)
        { s with bus := { s.bus with workflows := s.bus.workflows.insert workflow.id workflow } }
  | undo (state : Project) (cursor : s.bus.cursor ≠ 0)
      (snapshot : s.bus.beforeStates[s.bus.cursor - 1]? = some state) :
      Performed rt s .undo (s.moveTo (s.bus.cursor - 1) state)
  | redo (state : Project) (cursor : s.bus.cursor < s.bus.history.length)
      (snapshot : s.bus.afterStates[s.bus.cursor]? = some state) :
      Performed rt s .redo (s.moveTo (s.bus.cursor + 1) state)

theorem perform_dispatch (rt : Runtime) (now : DateTime) (envelope : CommandEnvelope)
    (executor : Option WorkflowExecutor) (s : Session) :
    Accepted rt now envelope executor s (after (dispatch rt now envelope executor s)) ∨
      after (dispatch rt now envelope executor s) = s := by
  cases h : dispatch rt now envelope executor s with
  | ok r s' => exact .inl (dispatch_ok.mp ⟨r, h⟩)
  | error e s' => exact .inr (dispatch_atomic rt now envelope executor s e s' h)

theorem performed (rt : Runtime) (s : Session) (op : Op) : Performed rt s op (perform rt s op) := by
  have hrefused : ∀ s', s' = s → Performed rt s op s' := by
    rintro s' rfl
    exact .refused op
  cases op with
  | apply now envelope =>
    rcases perform_dispatch rt now envelope none s with h | h
    · exact .command _ now envelope none _ rfl h
    · exact hrefused _ h
  | applyWithExecutor now envelope executor =>
    rcases perform_dispatch rt now envelope (some executor) s with h | h
    · exact .command _ now envelope (some executor) _ rfl h
    · exact hrefused _ h
  | registerWorkflow workflow =>
    have hatomic : Atomic (Session.registerWorkflow rt workflow) :=
      (registerWorkflow_atomic rt workflow).zoom fun _ => rfl
    rw [perform]
    cases h : Session.registerWorkflow rt workflow s with
    | ok digest s' =>
      obtain ⟨bus', hbus, rfl⟩ := zoom_ok.mp h
      obtain ⟨hvalid, rfl⟩ := registerWorkflow_ok.mp ⟨digest, hbus⟩
      exact .register workflow hvalid
    | error e s' => exact hrefused _ (hatomic s e s' h)
  | undo =>
    rw [perform]
    cases h : Session.undo s with
    | ok u s' =>
      obtain ⟨hcursor, state, hstate, rfl⟩ := undo_ok.mp h
      exact .undo state hcursor hstate
    | error e s' => exact hrefused _ (undo_atomic s e s' h)
  | redo =>
    rw [perform]
    cases h : Session.redo s with
    | ok u s' =>
      obtain ⟨hcursor, state, hstate, rfl⟩ := redo_ok.mp h
      exact .redo state hcursor hstate
    | error e s' => exact hrefused _ (redo_atomic s e s' h)

/-! ## The timeline of a session -/

structure Represents (s : Session) (t : Timeline Project) : Prop where
  project : s.project = t.present
  cursor : s.bus.cursor = t.position
  before : s.bus.beforeStates = t.states.dropLast
  after : s.bus.afterStates = t.states.tail
  history : s.bus.history.length + 1 = t.states.length
  initial : s.bus.initialState = t.states.head?
  current : s.bus.currentState = some t.present

variable {rt : Runtime} {s s' : Session} {t t' : Timeline Project}

theorem represents_start (p : Project) : Represents (start p) (.start p) :=
  ⟨rfl, rfl, rfl, rfl, rfl, rfl, rfl⟩

theorem Represents.logEvent (h : Represents s t) (envelope : CommandEnvelope) :
    Represents (s.logEvent envelope) t :=
  ⟨h.project, h.cursor, h.before, h.after, h.history, h.initial, h.current⟩

theorem Represents.moveTo (h : Represents s t) (hstates : t'.states = t.states) :
    Represents (s.moveTo t'.position t'.present) t' where
  project := rfl
  cursor := rfl
  before := by rw [hstates]; exact h.before
  after := by rw [hstates]; exact h.after
  history := by rw [hstates]; exact h.history
  initial := by rw [hstates]; exact h.initial
  current := rfl

theorem Represents.beforeStates_get (h : Represents s t) (hback : t.back = some t') :
    s.bus.beforeStates[s.bus.cursor - 1]? = some t'.present := by
  obtain ⟨hstates, hposition⟩ := back_some hback
  have hlt := t'.position_lt
  have hlt' := t.position_lt
  rw [h.before, h.cursor, ← hposition, Nat.add_sub_cancel, getElem?_dropLast,
    if_pos (by omega), ← hstates, t'.getElem?_position]

theorem Represents.afterStates_get (h : Represents s t) (hforth : t.forth = some t') :
    s.bus.afterStates[s.bus.cursor]? = some t'.present := by
  obtain ⟨hstates, hposition⟩ := forth_some hforth
  rw [h.after, h.cursor, getElem?_tail, ← hposition, ← hstates, t'.getElem?_position]

theorem Represents.cursor_le (h : Represents s t) : s.bus.cursor ≤ s.bus.history.length := by
  have hlt := t.position_lt
  have hlength := h.history
  rw [h.cursor]
  omega

theorem Represents.commit (h : Represents s t) (envelope : CommandEnvelope)
    (run : Option (WorkflowDigest × WorkflowExecution)) (p : Project) :
    Represents (s.commit envelope run p) (t.commit p) := by
  have hlt := t.position_lt
  have hpresent := t.getElem?_position
  have hinitial : s.bus.initialState.isNone = false := by
    rw [h.initial, head?_eq_getElem?]
    simp
    omega
  refine ⟨rfl, ?_, ?_, ?_, ?_, ?_, rfl⟩
  · show (s.bus.history.take s.bus.cursor).length + 1 = _
    have hcursor := h.cursor_le
    rw [length_take, Nat.min_eq_left hcursor, h.cursor]
    rfl
  · show s.bus.beforeStates.take s.bus.cursor ++ [s.project] = _
    rw [states_commit, dropLast_concat, h.before, h.cursor, h.project,
      take_add_one, hpresent, dropLast_eq_take, take_take,
      Nat.min_eq_left (by omega)]
    rfl
  · show s.bus.afterStates.take s.bus.cursor ++ [p] = _
    rw [states_commit, h.after, h.cursor]
    cases hs : t.states with
    | nil => simp [hs] at hlt
    | cons a rest => rfl
  · show (s.bus.history.take s.bus.cursor ++ [envelope]).length + 1 = _
    have hcursor := h.cursor_le
    have hposition := h.cursor
    rw [states_commit, length_append, length_append, length_take,
      length_take, Nat.min_eq_left hcursor, Nat.min_eq_left (by omega), hposition]
    rfl
  · show (if s.bus.initialState.isNone then some s.project else s.bus.initialState) = _
    rw [hinitial, states_commit, h.initial]
    cases hs : t.states with
    | nil => simp [hs] at hlt
    | cons a rest => rfl

theorem Represents.undo (h : Represents s t) {state : Project} (hcursor : s.bus.cursor ≠ 0)
    (hstate : s.bus.beforeStates[s.bus.cursor - 1]? = some state) :
    ∃ t', t.back = some t' ∧ Represents (s.moveTo (s.bus.cursor - 1) state) t' := by
  have hposition : 0 < t.position := by
    have hcursor' := h.cursor
    omega
  obtain ⟨t', hback⟩ := exists_back hposition
  obtain ⟨hstates, hposition'⟩ := back_some hback
  rw [h.beforeStates_get hback] at hstate
  cases hstate
  have hmove := h.moveTo hstates
  rw [show t'.position = s.bus.cursor - 1 by rw [h.cursor]; omega] at hmove
  exact ⟨t', hback, hmove⟩

theorem Represents.redo (h : Represents s t) {state : Project}
    (hcursor : s.bus.cursor < s.bus.history.length)
    (hstate : s.bus.afterStates[s.bus.cursor]? = some state) :
    ∃ t', t.forth = some t' ∧ Represents (s.moveTo (s.bus.cursor + 1) state) t' := by
  have hlength : t.position + 1 < t.states.length := by
    have hcursor' := h.cursor
    have hhistory := h.history
    omega
  obtain ⟨t', hforth⟩ := exists_forth hlength
  obtain ⟨hstates, hposition'⟩ := forth_some hforth
  rw [h.afterStates_get hforth] at hstate
  cases hstate
  have hmove := h.moveTo hstates
  rw [hposition', ← h.cursor] at hmove
  exact ⟨t', hforth, hmove⟩

theorem Accepted.represents {now : DateTime} {envelope : CommandEnvelope}
    {executor : Option WorkflowExecutor} (haccepted : Accepted rt now envelope executor s s')
    (h : Represents s t) :
    (envelope.command = .undo ∧ ∃ t', t.back = some t' ∧ Represents s' t') ∨
      (envelope.command = .redo ∧ ∃ t', t.forth = some t' ∧ Represents s' t') ∨
      (envelope.command ≠ .undo ∧ envelope.command ≠ .redo ∧
        Represents s' (t.commit s'.project)) := by
  cases haccepted with
  | undo state hcommand hcursor hstate =>
    obtain ⟨t', hback, hmove⟩ := h.undo hcursor hstate
    exact .inl ⟨hcommand, t', hback, hmove.logEvent envelope⟩
  | redo state hcommand hcursor hstate =>
    obtain ⟨t', hforth, hmove⟩ := h.redo hcursor hstate
    exact .inr (.inl ⟨hcommand, t', hforth, hmove.logEvent envelope⟩)
  | mutation run after hundo hredo hauthorized hmutates =>
    exact .inr (.inr ⟨hundo, hredo, h.commit envelope run after⟩)

theorem perform_represents (rt : Runtime) (h : Represents s t) (op : Op) :
    ∃ t', Represents (perform rt s op) t' ∧ (op.IsUndo ∨ op.IsRedo → t'.states = t.states) := by
  have hperformed := performed rt s op
  generalize perform rt s op = s' at hperformed
  cases hperformed with
  | refused => exact ⟨t, h, fun _ => rfl⟩
  | command _ now envelope executor _ his haccepted =>
    rcases haccepted.represents h with ⟨-, t', hback, h'⟩ | ⟨-, t', hforth, h'⟩ | ⟨hundo, hredo, h'⟩
    · exact ⟨t', h', fun _ => (back_some hback).1⟩
    · exact ⟨t', h', fun _ => (forth_some hforth).1⟩
    · refine ⟨_, h', ?_⟩
      -- A committed mutation is neither an undo nor a redo.
      rintro ((rfl | hop) | (rfl | hop))
      · cases his
      · rw [his] at hop
        exact absurd (some.inj hop) hundo
      · cases his
      · rw [his] at hop
        exact absurd (some.inj hop) hredo
  | register workflow =>
    exact ⟨t, ⟨h.project, h.cursor, h.before, h.after, h.history, h.initial, h.current⟩,
      fun _ => rfl⟩
  | undo state hcursor hstate =>
    obtain ⟨t', hback, hmove⟩ := h.undo hcursor hstate
    exact ⟨t', hmove, fun _ => (back_some hback).1⟩
  | redo state hcursor hstate =>
    obtain ⟨t', hforth, hmove⟩ := h.redo hcursor hstate
    exact ⟨t', hmove, fun _ => (forth_some hforth).1⟩

theorem run_represents (rt : Runtime) (h : Represents s t) (ops : List Op) :
    ∃ t', Represents (run rt ops s) t' ∧
      ((∀ op ∈ ops, op.IsUndo ∨ op.IsRedo) → t'.states = t.states) := by
  induction ops generalizing s t with
  | nil => exact ⟨t, h, fun _ => rfl⟩
  | cons op rest ih =>
    obtain ⟨t₁, h₁, hstates₁⟩ := perform_represents rt h op
    obtain ⟨t', h', hstates'⟩ := ih h₁
    refine ⟨t', h', fun hops => ?_⟩
    rw [hstates' fun o ho => hops o (by simp [ho]), hstates₁ (hops op (by simp))]

/-! ## Undo and redo are accepted where there is something to move to -/

theorem perform_of_dispatch {op : Op} {command : Command} (hop : op.command? = some command)
    (hok : ∀ now envelope executor, envelope.command = command →
      ∃ r s', dispatch rt now envelope executor s = .ok r s' ∧ s'.bus.cursor = t'.position) :
    (perform rt s op).bus.cursor = t'.position := by
  cases op with
  | apply now envelope =>
    obtain ⟨r, s', hdispatch, hcursor⟩ := hok now envelope none (some.inj hop)
    rw [perform, Session.apply, hdispatch]
    exact hcursor
  | applyWithExecutor now envelope executor =>
    obtain ⟨r, s', hdispatch, hcursor⟩ := hok now envelope (some executor) (some.inj hop)
    rw [perform, Session.applyWithExecutor, hdispatch]
    exact hcursor
  | registerWorkflow workflow => cases hop
  | undo => cases hop
  | redo => cases hop

theorem perform_undo (h : Represents s t) {op : Op} (hop : op.IsUndo) (hback : t.back = some t') :
    (perform rt s op).bus.cursor = t'.position := by
  obtain ⟨-, hposition⟩ := back_some hback
  have hcursor : s.bus.cursor ≠ 0 := by
    have hcursor' := h.cursor
    omega
  have hmoved : s.bus.cursor - 1 = t'.position := by
    rw [h.cursor]
    omega
  rcases hop with rfl | hop
  · have hundo := (undo_ok (u := ())).mpr ⟨hcursor, _, h.beforeStates_get hback, rfl⟩
    rw [perform, hundo]
    exact hmoved
  · refine perform_of_dispatch hop fun now envelope executor hcommand => ?_
    have haccepted : Accepted rt now envelope executor s _ :=
      .undo _ hcommand hcursor (h.beforeStates_get hback)
    obtain ⟨r, hdispatch⟩ := dispatch_ok.mpr haccepted
    exact ⟨r, _, hdispatch, hmoved⟩

theorem perform_redo (h : Represents s t) {op : Op} (hop : op.IsRedo)
    (hforth : t.forth = some t') : (perform rt s op).bus.cursor = t'.position := by
  obtain ⟨hstates, hposition⟩ := forth_some hforth
  have hcursor : s.bus.cursor < s.bus.history.length := by
    have hcursor' := h.cursor
    have hhistory := h.history
    have hlt := t'.position_lt
    rw [hstates] at hlt
    omega
  have hmoved : s.bus.cursor + 1 = t'.position := by
    rw [h.cursor, hposition]
  rcases hop with rfl | hop
  · have hredo := (redo_ok (u := ())).mpr ⟨hcursor, _, h.afterStates_get hforth, rfl⟩
    rw [perform, hredo]
    exact hmoved
  · refine perform_of_dispatch hop fun now envelope executor hcommand => ?_
    have haccepted : Accepted rt now envelope executor s _ :=
      .redo _ hcommand hcursor (h.afterStates_get hforth)
    obtain ⟨r, hdispatch⟩ := dispatch_ok.mpr haccepted
    exact ⟨r, _, hdispatch, hmoved⟩

theorem run_undos (h : Represents s t) (undos : List Op) (hundos : ∀ op ∈ undos, op.IsUndo)
    (hlength : undos.length ≤ s.bus.cursor) :
    (run rt undos s).bus.cursor + undos.length = s.bus.cursor := by
  induction undos generalizing s t with
  | nil => rfl
  | cons op rest ih =>
    rw [length_cons] at hlength ⊢
    obtain ⟨t', hback⟩ := exists_back (t := t) (by rw [← h.cursor]; omega)
    have hcursor : (perform rt s op).bus.cursor = t'.position :=
      perform_undo h (hundos op (by simp)) hback
    obtain ⟨-, hposition⟩ := back_some hback
    rw [← h.cursor] at hposition
    obtain ⟨t₁, h₁, -⟩ := perform_represents rt h op
    have hrest := ih h₁ (fun o ho => hundos o (by simp [ho])) (by omega)
    show (run rt rest (perform rt s op)).bus.cursor + _ = _
    omega

theorem run_redos (h : Represents s t) (redos : List Op) (hredos : ∀ op ∈ redos, op.IsRedo)
    (hlength : s.bus.cursor + redos.length ≤ s.bus.history.length) :
    (run rt redos s).bus.cursor = s.bus.cursor + redos.length := by
  induction redos generalizing s t with
  | nil => rfl
  | cons op rest ih =>
    rw [length_cons] at hlength ⊢
    have hhistory := h.history
    obtain ⟨t', hforth⟩ := exists_forth (t := t) (by rw [← h.cursor]; omega)
    have hcursor : (perform rt s op).bus.cursor = t'.position :=
      perform_redo h (hredos op (by simp)) hforth
    obtain ⟨-, hposition⟩ := forth_some hforth
    rw [← h.cursor] at hposition
    obtain ⟨t₁, h₁, hstates⟩ := perform_represents rt h op
    have hhistory₁ := h₁.history
    rw [hstates (.inr (hredos op (by simp)))] at hhistory₁
    have hrest := ih h₁ (fun o ho => hredos o (by simp [ho])) (by omega)
    show (run rt rest (perform rt s op)).bus.cursor = _
    omega

/-! ## Coherence -/

/-- The state the cursor points at: the initial state, or the state after the
last command that is not undone. -/
def snapshot (initial : Project) (bus : CommandBus) (cursor : Nat) : Option Project :=
  if cursor = 0 then some initial else bus.afterStates[cursor - 1]?

structure Coherent (initial : Project) (s : Session) : Prop where
  beforeLength : s.bus.beforeStates.length = s.bus.history.length
  afterLength : s.bus.afterStates.length = s.bus.history.length
  cursor : s.bus.cursor ≤ s.bus.history.length
  chained : ∀ i, i + 1 < s.bus.history.length →
    s.bus.beforeStates[i + 1]? = s.bus.afterStates[i]?
  first : ∀ state, s.bus.beforeStates[0]? = some state → state = initial
  project : snapshot initial s.bus s.bus.cursor = some s.project

theorem Represents.snapshot_eq (h : Represents s t) {initial : Project}
    (hinitial : t.states.head? = some initial) (cursor : Nat) :
    snapshot initial s.bus cursor = t.states[cursor]? := by
  rw [snapshot]
  split
  next hzero => rw [hzero, ← hinitial, head?_eq_getElem?]
  next hpos =>
    rw [h.after, getElem?_tail]
    congr 1
    omega

theorem Represents.coherent (h : Represents s t) {initial : Project}
    (hinitial : t.states.head? = some initial) : Coherent initial s where
  beforeLength := by
    have hhistory := h.history
    rw [h.before, length_dropLast]
    omega
  afterLength := by
    have hhistory := h.history
    rw [h.after, length_tail]
    omega
  cursor := h.cursor_le
  chained i hi := by
    have hhistory := h.history
    rw [h.before, h.after, getElem?_dropLast, if_pos (by omega), getElem?_tail]
  first state hstate := by
    rw [h.before, getElem?_dropLast] at hstate
    split at hstate
    · rw [← head?_eq_getElem?, hinitial] at hstate
      exact (some.inj hstate).symm
    · cases hstate
  project := by rw [h.snapshot_eq hinitial, h.cursor, t.getElem?_position, h.project]

theorem head?_commit {a : Project} (h : t.states.head? = some a) (p : Project) :
    (t.commit p).states.head? = some a := by
  rw [states_commit]
  cases hs : t.states with
  | nil => simp [hs] at h
  | cons b rest =>
    rw [hs] at h
    exact h

theorem perform_head (h : Represents s t) {a : Project} (ha : t.states.head? = some a) (op : Op)
    (h' : Represents (perform rt s op) t') : t'.states.head? = some a := by
  have hinitial : (perform rt s op).bus.initialState = s.bus.initialState := by
    have hperformed := performed rt s op
    generalize perform rt s op = s₁ at hperformed
    cases hperformed with
    | command _ now envelope executor _ _ haccepted =>
      cases haccepted with
      | mutation run p _ _ _ _ =>
        show (if s.bus.initialState.isNone then some s.project else s.bus.initialState) = _
        rw [h.initial, ha]
        rfl
      | _ => rfl
    | _ => rfl
  rw [← h'.initial, hinitial, h.initial, ha]

theorem run_start (rt : Runtime) (p : Project) (ops : List Op) :
    ∃ t, Represents (run rt ops (start p)) t ∧ t.states.head? = some p := by
  have hrun : ∀ (ops : List Op) {s : Session} {t : Timeline Project}, Represents s t →
      t.states.head? = some p → ∃ t', Represents (run rt ops s) t' ∧ t'.states.head? = some p := by
    intro ops
    induction ops with
    | nil => exact fun h hp => ⟨_, h, hp⟩
    | cons op rest ih =>
      intro s t h hp
      obtain ⟨t₁, h₁, -⟩ := perform_represents rt h op
      exact ih h₁ (perform_head h hp op h₁)
  exact hrun ops (represents_start p) rfl

theorem Represents.undos_redos (h : Represents s t) {undos redos : List Op}
    (hundos : ∀ op ∈ undos, op.IsUndo) (hredos : ∀ op ∈ redos, op.IsRedo)
    (hlength : undos.length = redos.length) (hcursor : undos.length ≤ s.bus.cursor) :
    (run rt (undos ++ redos) s).project = s.project ∧
      (run rt (undos ++ redos) s).bus.cursor = s.bus.cursor := by
  have hmoves : ∀ op ∈ undos ++ redos, Op.IsUndo op ∨ Op.IsRedo op := by
    intro op hop
    rcases mem_append.mp hop with hop | hop
    · exact .inl (hundos op hop)
    · exact .inr (hredos op hop)
  obtain ⟨t₁, h₁, hstates₁⟩ := run_represents rt h undos
  obtain ⟨t', h', hstates⟩ := run_represents rt h (undos ++ redos)
  have hdown : (run rt undos s).bus.cursor + undos.length = s.bus.cursor :=
    run_undos h undos hundos hcursor
  have hroom : (run rt undos s).bus.cursor + redos.length ≤ (run rt undos s).bus.history.length := by
    have hhistory := h.history
    have hhistory₁ := h₁.history
    rw [hstates₁ fun op hop => .inl (hundos op hop)] at hhistory₁
    have hle := h.cursor_le
    omega
  have hup : (run rt redos (run rt undos s)).bus.cursor =
      (run rt undos s).bus.cursor + redos.length :=
    run_redos h₁ redos hredos hroom
  have hback : (run rt (undos ++ redos) s).bus.cursor = s.bus.cursor := by
    rw [run, foldl_append]
    show (run rt redos (run rt undos s)).bus.cursor = _
    omega
  have ht : t' = t := by
    refine Timeline.ext_states (hstates hmoves) ?_
    rw [← h'.cursor, ← h.cursor]
    exact hback
  refine ⟨?_, hback⟩
  rw [h'.project, ht, ← h.project]

/-- Where undos and redos lead after a commit: to a kept state or to the new
one. -/
theorem Represents.moves_after_commit (h : Represents s t) {initial p : Project}
    (hinitial : t.states.head? = some initial) (h' : Represents s' (t.commit p))
    {moves : List Op} (hmoves : ∀ op ∈ moves, op.IsUndo ∨ op.IsRedo) :
    (run rt moves s').bus.afterStates = s.bus.afterStates.take s.bus.cursor ++ [p] ∧
      ((run rt moves s').bus.cursor ≤ s.bus.cursor ∧
          snapshot initial s.bus (run rt moves s').bus.cursor = some (run rt moves s').project ∨
        (run rt moves s').bus.cursor = s.bus.cursor + 1 ∧ (run rt moves s').project = p) := by
  obtain ⟨t'', h'', hstates⟩ := run_represents rt h' moves
  have hstates'' : t''.states = t.states.take (t.position + 1) ++ [p] := by
    rw [hstates hmoves, states_commit]
  generalize run rt moves s' = s'' at h''
  have hlt := t.position_lt
  have hcursor := h.cursor
  have htake : (t.states.take (t.position + 1)).length = t.position + 1 := by
    rw [length_take]
    omega
  have hpresent := t''.getElem?_position
  have hlast := t''.position_lt
  rw [← h''.cursor, hstates'', length_append, length_singleton, htake] at hlast
  rw [hstates'', ← h''.cursor, ← h''.project] at hpresent
  constructor
  · rw [h''.after, hstates'', h.after, hcursor]
    cases hs : t.states with
    | nil => simp [hs] at hlt
    | cons a rest => rfl
  · by_cases hle : s''.bus.cursor ≤ s.bus.cursor
    · refine .inl ⟨hle, ?_⟩
      rw [h.snapshot_eq hinitial]
      rw [getElem?_append_left (by omega), getElem?_take_of_lt (by omega)] at hpresent
      exact hpresent
    · have hnew : s''.bus.cursor = t.position + 1 := by omega
      refine .inr ⟨by omega, ?_⟩
      rw [hnew, getElem?_append_right (by omega), htake, Nat.sub_self] at hpresent
      exact (some.inj hpresent).symm

/-- Over every run the history is coherent, `k` undos and `k` redos come back, and after a new
command undos and redos lead to the states before it or to the new one. -/
theorem run_coherent (rt : Runtime) (p : Project) (ops : List Op) : let s := run rt ops (start p)
    Coherent p s ∧ (∀ undos redos, (∀ op ∈ undos, Op.IsUndo op) → (∀ op ∈ redos, Op.IsRedo op) →
        undos.length = redos.length → undos.length ≤ s.bus.cursor →
        (run rt (undos ++ redos) s).project = s.project ∧
          (run rt (undos ++ redos) s).bus.cursor = s.bus.cursor) ∧
      (∀ now envelope executor r s', dispatch rt now envelope executor s = .ok r s' →
        envelope.command ≠ .undo → envelope.command ≠ .redo →
        ∀ moves, (∀ op ∈ moves, Op.IsUndo op ∨ Op.IsRedo op) →
          let s'' := run rt moves s'
          s''.bus.afterStates = s.bus.afterStates.take s.bus.cursor ++ [s'.project] ∧
            (s''.bus.cursor ≤ s.bus.cursor ∧ snapshot p s.bus s''.bus.cursor = some s''.project ∨
             s''.bus.cursor = s.bus.cursor + 1 ∧ s''.project = s'.project)) := by
  intro s
  obtain ⟨t, h, hp⟩ := run_start rt p ops
  refine ⟨h.coherent hp, ?_, ?_⟩
  · intro undos redos hundos hredos hlength hcursor
    exact h.undos_redos hundos hredos hlength hcursor
  · intro now envelope executor r s' hdispatch hundo hredo moves hmoves
    rcases (dispatch_ok.mp ⟨r, hdispatch⟩).represents h with ⟨hc, -⟩ | ⟨hc, -⟩ | ⟨-, -, h'⟩
    · exact absurd hc hundo
    · exact absurd hc hredo
    · exact h.moves_after_commit hp h' hmoves

/-- Two layers are added and the second addition is undone. -/
def sampleRun : Session :=
  run .reference [.apply ⟨0⟩ (sampleEnvelope 1 (.addLayer "roads" (Uuid.ofNat 0))),
    .apply ⟨0⟩ (sampleEnvelope 2 (.addLayer "rivers" (Uuid.ofNat 0))), .undo]
    (start sampleProject)

theorem sampleRun_cursor : sampleRun.bus.cursor = 1 := by
  rfl

theorem run_coherent_sampleRun : Coherent sampleProject sampleRun ∧
      (run .reference ([.undo] ++ [.redo]) sampleRun).project = sampleRun.project ∧
      ∃ r s', dispatch .reference ⟨0⟩ (sampleEnvelope 3 (.addLayer "parks" (Uuid.ofNat 0))) none
          sampleRun = .ok r s' ∧
        (run .reference [.redo] s').bus.afterStates =
          sampleRun.bus.afterStates.take sampleRun.bus.cursor ++ [s'.project] := by
  have hcoherent := run_coherent .reference sampleProject
    [.apply ⟨0⟩ (sampleEnvelope 1 (.addLayer "roads" (Uuid.ofNat 0))),
      .apply ⟨0⟩ (sampleEnvelope 2 (.addLayer "rivers" (Uuid.ofNat 0))), .undo]
  have hfresh : ∀ layer ∈ sampleRun.project.workspace.layers, layer.id ≠ Uuid.ofNat 3 := by
    decide
  have haccepted : Accepted .reference ⟨0⟩ (sampleEnvelope 3 (.addLayer "parks" (Uuid.ofNat 0)))
      none sampleRun _ :=
    .mutation none _ (by decide) (by decide) rfl ⟨hfresh, rfl⟩
  obtain ⟨r, hdispatch⟩ := dispatch_ok.mpr haccepted
  refine ⟨hcoherent.1, ?_, r, _, hdispatch, ?_⟩
  · exact (hcoherent.2.1 [.undo] [.redo] (by simp [Op.IsUndo]) (by simp [Op.IsRedo]) rfl
      (Nat.le_of_eq sampleRun_cursor.symm)).1
  · exact (hcoherent.2.2 _ _ _ r _ hdispatch (by decide) (by decide) [.redo]
      (by simp [Op.IsUndo, Op.IsRedo])).1

end GeneGIS.Session
