/-
Each later view is sealed with the one before it.  The alerts that a draft adds are compared with
its result only where there is one, so the history of the first view has to be looked at.
-/
import GeneGIS.Analysis.OperationalDashboard
import GeneGIS.Data.Fallible
import GeneGIS.Data.HashChain

namespace GeneGIS.OperationalDashboard

open Fallible Nat
open List hiding any_eq_false getElem?_eq_some_iff
open Option hiding any_eq_false
open Bool hiding eq_iff_iff not_not

variable {rt : Runtime} {d : OperationalDashboardDraft} {v w : OperationalDashboardView}
  {views : List OperationalDashboardView}

@[simp] theorem require_ok {holds : Bool} {reason : String} {u : Unit} :
    require holds reason = .ok u ↔ holds = true :=
  except_guard_ok

@[simp] theorem parseTime_ok {value reason : String} {t : DateTime} :
    parseTime rt value reason = .ok t ↔ rt.parseRfc3339 value = some t := by
  unfold parseTime
  cases rt.parseRfc3339 value with
  | none => exact iff_of_false nofun nofun
  | some s =>
    show Except.ok s = .ok t ↔ _
    rw [Except.ok.injEq, Option.some.injEq]

/-! ## One update -/

/-- The components that are shown together are valid. -/
def Components (rt : Runtime) (v : OperationalDashboardView) : Prop :=
  validateComponents rt v.resultDigest v.mapLayers v.widgets v.status v.alertHistory = .ok ()

/-- Nothing that a view commits is taken back by the other. -/
structure Follows (rt : Runtime) (v w : OperationalDashboardView) : Prop where
  cursor : v.status.cursor ≤ w.status.cursor
  watermark : rt.NotAfter v.status.watermark w.status.watermark
  history : v.alertHistory <+: w.alertHistory

instance : IsTrans OperationalDashboardView (Follows rt) where
  trans _ _ _ hab hbc :=
    ⟨le_trans hab.cursor hbc.cursor, trans_of rt.NotAfter hab.watermark hbc.watermark,
      hab.history.trans hbc.history⟩

/-- The alerts of a list were triggered by the result of a view. -/
def TriggeredBy (v : OperationalDashboardView) (alerts : List OperationalAlertHistoryEntry) :
    Prop :=
  ∀ alert ∈ alerts, alert.triggeringResultDigest = v.resultDigest

/-- What sealing compares with the previous view. -/
structure Update (rt : Runtime) (v w : OperationalDashboardView) : Prop where
  version : w.version = (v.version + 1) % 2 ^ 64
  link : w.previousViewDigest = some v.viewDigest
  follows : Follows rt v w
  added : TriggeredBy w (w.alertHistory.drop v.alertHistory.length)

theorem verify_ok {u : Unit} : verifyOperationalDashboard rt v = .ok u ↔
    v.schemaVersion = schemaVersion ∧ v.version ≠ 0 ∧
      (v.version = 1 ↔ v.previousViewDigest = none) ∧ Components rt v ∧
      v.viewDigest = viewDigest rt v := by
  have hversion : (decide (v.version = 1) != v.previousViewDigest.isNone) = false ↔
      (v.version = 1 ↔ v.previousViewDigest = none) := by
    rw [bne_eq_false_iff_eq, Bool.eq_iff_iff, decide_eq_true_eq, Option.isNone_iff_eq_none]
  simp only [verifyOperationalDashboard, bind_iff, require_ok, not_eq_true',
    or_eq_false_iff, bne_eq_false_iff_eq, decide_eq_false_iff_not, beq_iff_eq, Components]
  constructor
  · intro h
    obtain ⟨_, ⟨⟨hschema, hzero⟩, hone⟩, _, hcomponents, hdigest⟩ := h
    rw [bne_eq_false_iff_eq.symm] at hone
    exact ⟨hschema, hzero, hversion.mp hone, hcomponents, hdigest⟩
  · intro h
    obtain ⟨hschema, hzero, hone, hcomponents, hdigest⟩ := h
    exact ⟨(), ⟨⟨hschema, hzero⟩, bne_eq_false_iff_eq.mp (hversion.mpr hone)⟩, (), hcomponents,
      hdigest⟩

theorem seal_ok (h : sealOperationalDashboard rt d = .ok v) :
    validateDraft rt d = .ok () ∧ v = sealedView rt d ∧ v.version ≠ 0 := by
  obtain ⟨_, hdraft, h⟩ := bind_iff.mp h
  obtain ⟨_, hverified, h⟩ := bind_iff.mp h
  cases h
  exact ⟨hdraft, rfl, (verify_ok.mp hverified).2.1⟩

theorem viewDigest_sealedView :
    (sealedView rt d).viewDigest = viewDigest rt (sealedView rt d) := rfl

theorem seal_of_first (hd : d.previous = none) (h : Components rt (sealedView rt d)) :
    sealOperationalDashboard rt d = .ok (sealedView rt d) := by
  have hdraft : validateDraft rt d = .ok () := by
    refine then_ok h ?_
    rw [hd]
  have hversion : (sealedView rt d).version = 1 := by
    show nextVersion d = 1
    rw [nextVersion, hd]
  have hlink : (sealedView rt d).previousViewDigest = none := by
    show d.previous.map OperationalDashboardView.viewDigest = none
    rw [hd, Option.map_none]
  have hverified : verifyOperationalDashboard rt (sealedView rt d) = .ok () := by
    rw [verify_ok, hversion, hlink]
    exact ⟨rfl, by decide, iff_of_true rfl rfl, h, viewDigest_sealedView⟩
  refine then_ok hdraft ?_
  exact then_ok hverified rfl

theorem seal_first (hd : d.previous = none) (h : sealOperationalDashboard rt d = .ok v) :
    v.version = 1 ∧ v.previousViewDigest = none := by
  obtain ⟨-, rfl, -⟩ := seal_ok h
  refine ⟨?_, ?_⟩
  · show nextVersion d = 1
    rw [nextVersion, hd]
  · show d.previous.map OperationalDashboardView.viewDigest = none
    rw [hd, Option.map_none]

theorem seal_next (hd : d.previous = some v) (h : sealOperationalDashboard rt d = .ok w) :
    Update rt v w := by
  obtain ⟨hdraft, rfl, -⟩ := seal_ok h
  obtain ⟨_, -, hdraft⟩ := bind_iff.mp hdraft
  rw [hd] at hdraft
  obtain ⟨_, -, hdraft⟩ := bind_iff.mp hdraft
  obtain ⟨s, hs, hdraft⟩ := bind_iff.mp hdraft
  obtain ⟨t, ht, hdraft⟩ := bind_iff.mp hdraft
  have hkept := require_ok.mp hdraft
  rw [not_eq_true', or_eq_false_iff, or_eq_false_iff, or_eq_false_iff,
    decide_eq_false_iff_not, decide_eq_false_iff_not, Bool.not_eq_false', List.any_eq_false]
    at hkept
  obtain ⟨⟨⟨hcursor, hwatermark⟩, hhistory⟩, hadded⟩ := hkept
  refine ⟨?_, ?_, ⟨?_, ?_, ?_⟩, ?_⟩
  · show nextVersion d = _
    rw [nextVersion, hd]
  · show d.previous.map OperationalDashboardView.viewDigest = _
    rw [hd, map_some]
  · show v.status.cursor ≤ d.status.cursor
    omega
  · exact ⟨s, t, parseTime_ok.mp hs, parseTime_ok.mp ht, by omega⟩
  · exact isPrefixOf_iff_prefix.mp hhistory
  · intro alert halert
    have hsame := hadded alert halert
    rw [bne_iff_ne, not_not] at hsame
    exact hsame

/-! ## Chains -/

/-- Views sealed one after the other, the first from a draft without a predecessor. -/
inductive Chain (rt : Runtime) (start : OperationalDashboardDraft) :
    List OperationalDashboardView → Prop
  | first (v : OperationalDashboardView) (hd : start.previous = none)
      (h : sealOperationalDashboard rt start = .ok v) : Chain rt start [v]
  | next (before : List OperationalDashboardView) (d : OperationalDashboardDraft)
      (v w : OperationalDashboardView) (hbefore : Chain rt start (before ++ [v]))
      (hd : d.previous = some v) (h : sealOperationalDashboard rt d = .ok w) :
      Chain rt start (before ++ [v] ++ [w])

/-- Every alert of a draft was triggered by its own result. -/
def OwnAlerts (d : OperationalDashboardDraft) : Prop :=
  ∀ alert ∈ d.alertHistory, alert.triggeringResultDigest = d.resultDigest

/-- The entry at `j` is in the history of view `i`, and of none before it. -/
def FirstAppears (views : List OperationalDashboardView) (i j : Nat)
    (v : OperationalDashboardView) (alert : OperationalAlertHistoryEntry) : Prop :=
  views[i]? = some v ∧ v.alertHistory[j]? = some alert ∧
    ∀ k < i, ∀ u, views[k]? = some u → u.alertHistory.length ≤ j

/-- What a reader takes from a chain. -/
structure Monotone (rt : Runtime) (views : List OperationalDashboardView) : Prop where
  version : ∀ i v, views[i]? = some v → v.version = i + 1
  linked : HashChain.Linked OperationalDashboardView.previousViewDigest
    OperationalDashboardView.viewDigest none views
  follows : views.Pairwise (Follows rt)
  triggered : ∀ i j v alert, FirstAppears views i j v alert →
    alert.triggeringResultDigest = v.resultDigest

/-- The part of it that sealing secures. -/
structure Advancing (rt : Runtime) (views : List OperationalDashboardView) : Prop where
  countable : views.length < 2 ^ 64
  version : ∀ i v, views[i]? = some v → v.version = i + 1
  linked : HashChain.Linked OperationalDashboardView.previousViewDigest
    OperationalDashboardView.viewDigest none views
  follows : views.Pairwise (Follows rt)
  added : ∀ i j v alert, 0 < i → FirstAppears views i j v alert →
    alert.triggeringResultDigest = v.resultDigest

theorem snoc_cases {l : List OperationalDashboardView} {i : Nat}
    (h : (l ++ [w])[i]? = some v) : l[i]? = some v ∧ i < l.length ∨ i = l.length ∧ v = w := by
  by_cases hi : i < l.length
  · rw [getElem?_append_left hi] at h
    exact .inl ⟨h, hi⟩
  · rw [getElem?_append_right (by omega)] at h
    have hlast : i - l.length = 0 := by
      have hbound := (List.getElem?_eq_some_iff.mp h).1
      rw [length_singleton] at hbound
      omega
    rw [hlast, getElem?_cons_zero, Option.some.injEq] at h
    exact .inr ⟨by omega, h.symm⟩

theorem FirstAppears.of_snoc {l : List OperationalDashboardView} {i j : Nat}
    {alert : OperationalAlertHistoryEntry} (h : FirstAppears (l ++ [w]) i j v alert)
    (hi : i < l.length) : FirstAppears l i j v alert := by
  obtain ⟨hview, halert, hbefore⟩ := h
  rw [getElem?_append_left hi] at hview
  refine ⟨hview, halert, ?_⟩
  intro k hk u hu
  apply hbefore k hk u
  rw [getElem?_append_left (by omega)]
  exact hu

/-- The induction over a chain: its last view is compared with the one before. -/
theorem chain_advancing (h : Chain rt d views) : Advancing rt views := by
  induction h with
  | first v hd hseal =>
    obtain ⟨hversion, hlink⟩ := seal_first hd hseal
    refine ⟨?_, ?_, ⟨hlink, trivial⟩, pairwise_singleton _ _, ?_⟩
    · show 1 < 2 ^ 64
      omega
    · intro i u hu
      rcases snoc_cases (l := []) hu with ⟨-, hi⟩ | ⟨rfl, rfl⟩
      · exact absurd hi (not_lt_zero i)
      · exact hversion
    · intro i j u alert hi hfirst
      rcases snoc_cases (l := []) hfirst.1 with ⟨-, hi'⟩ | ⟨rfl, -⟩
      · exact absurd hi' (not_lt_zero i)
      · exact absurd hi (lt_irrefl 0)
  | next before d v w hbefore hd hseal ih =>
    have hupdate := seal_next hd hseal
    have hlast : (before ++ [v])[before.length]? = some v := getElem?_concat_length
    have hlength : (before ++ [v]).length = before.length + 1 := by
      rw [length_append, length_singleton]
    -- The next version does not wrap: it would be zero.
    have hcountable : before.length + 1 + 1 < 2 ^ 64 := by
      have hprevious := ih.countable
      have hnonzero := (seal_ok hseal).2.2
      rw [hupdate.version, ih.version _ v hlast] at hnonzero
      rw [hlength] at hprevious
      omega
    refine ⟨?_, ?_, ?_, ?_, ?_⟩
    · rw [length_append, hlength]
      exact hcountable
    · intro i u hu
      rcases snoc_cases hu with ⟨hold, -⟩ | ⟨rfl, rfl⟩
      · exact ih.version i u hold
      · rw [hupdate.version, ih.version _ v hlast, hlength, mod_eq_of_lt hcountable]
    · rw [HashChain.linked_snoc]
      refine ⟨ih.linked, ?_⟩
      rw [HashChain.tip_snoc, some_or]
      exact hupdate.link
    · rw [pairwise_append]
      refine ⟨ih.follows, pairwise_singleton _ _, ?_⟩
      intro u hu x hx
      rw [mem_singleton.mp hx]
      rcases mem_append.mp hu with hu | hu
      · have hsplit := pairwise_append.mp ih.follows
        have huv : Follows rt u v := hsplit.2.2 u hu v (mem_singleton_self v)
        exact trans_of (Follows rt) huv hupdate.follows
      · rw [mem_singleton.mp hu]
        exact hupdate.follows
    · intro i j u alert hi hfirst
      rcases snoc_cases hfirst.1 with ⟨hold, hbound⟩ | ⟨rfl, rfl⟩
      · exact ih.added i j u alert hi (hfirst.of_snoc hbound)
      · have hbound : v.alertHistory.length ≤ j := by
          apply hfirst.2.2 before.length (by omega) v
          rw [getElem?_append_left (by omega)]
          exact hlast
        apply hupdate.added
        rw [mem_iff_getElem?]
        refine ⟨j - v.alertHistory.length, ?_⟩
        rw [getElem?_drop]
        have hj : v.alertHistory.length + (j - v.alertHistory.length) = j := by omega
        rw [hj]
        exact hfirst.2.1

theorem chain_head (h : Chain rt d views) : views.head? = some (sealedView rt d) := by
  induction h with
  | first v hd hseal =>
    obtain ⟨-, rfl, -⟩ := seal_ok hseal
    rfl
  | next before d v w hbefore hd hseal ih =>
    rw [head?_append, ih, some_or]

/-- A chain is monotone exactly when the alerts it starts with are of its first result. -/
theorem chain_monotone_iff (rt : Runtime) : ∀ start views, Chain rt start views →
    (Monotone rt views ↔ OwnAlerts start) := by
  intro start views hchain
  have hadvancing := chain_advancing hchain
  have hhead : views[0]? = some (sealedView rt start) := by
    rw [← head?_eq_getElem?]
    exact chain_head hchain
  constructor
  · intro h alert halert
    obtain ⟨j, hj⟩ := mem_iff_getElem?.mp halert
    refine h.triggered 0 j (sealedView rt start) alert ⟨hhead, hj, ?_⟩
    intro k hk
    exact absurd hk (not_lt_zero k)
  · intro h
    refine ⟨hadvancing.version, hadvancing.linked, hadvancing.follows, ?_⟩
    intro i j v alert hfirst
    by_cases hi : 0 < i
    · exact hadvancing.added i j v alert hi hfirst
    · have hzero : i = 0 := by omega
      rw [hzero] at hfirst
      have hview := hfirst.1
      rw [hhead, Option.some.injEq] at hview
      have halert := mem_of_getElem? hfirst.2.1
      rw [← hview] at halert ⊢
      exact h alert halert

namespace Sample

def digest (c : Char) : String := "sha256:" ++ String.ofList (List.replicate 64 c)

theorem isSha256_digest {c : Char} (h : Text.isHexDigit c = true) :
    Text.isSha256 (digest c) = true := by
  refine Text.isSha256_ofList length_replicate (all_eq_true.mpr ?_)
  intro d hd
  rw [eq_of_mem_replicate hd]
  exact h

def source : SourceSnapshot :=
  { SourceMetadata.new "fixture://live-sensor" with checksumStatus := .verified }

/-- The history has an alert that another result triggered. -/
def draft : OperationalDashboardDraft where
  resultDigest := digest 'a'
  mapLayers := [{ id := "sensor-map", resultDigest := digest 'a', styleDigest := digest 'b'
                  visible := true, opacity := F64.ofNat 1 }]
  widgets := [.kpi "sensor-count" "Sensors" (F64.ofNat 1) "count"]
  status :=
    { cursor := 1, watermark := "1970-01-01T00:00:00Z", fresh := true
      incrementalStateDigest := digest 'c', feedSource := source }
  alertHistory := [{ alertDigest := digest 'd', triggeringResultDigest := digest 'e'
                     triggeredAt := "1970-01-01T00:00:00Z", state := "open" }]
  previous := none

def quiet : OperationalDashboardDraft := { draft with alertHistory := [] }

theorem draft_valid : validateComponents .reference draft.resultDigest draft.mapLayers draft.widgets
    draft.status draft.alertHistory = .ok () := by
  simp (disch := decide) only [draft, validateComponents, validateLayers, validateAlerts,
    requireDigest, isSha256_digest]
  decide +kernel

theorem quiet_valid : validateComponents .reference quiet.resultDigest quiet.mapLayers quiet.widgets
    quiet.status quiet.alertHistory = .ok () := by
  simp (disch := decide) only [quiet, draft, validateComponents, validateLayers, validateAlerts,
    requireDigest, isSha256_digest]
  decide +kernel

end Sample

theorem seal_draft (h : validateComponents .reference d.resultDigest d.mapLayers d.widgets d.status
    d.alertHistory = .ok ()) (hd : d.previous = none) :
    sealOperationalDashboard .reference d = .ok (sealedView .reference d) :=
  seal_of_first hd h

theorem quiet_monotone : Chain .reference Sample.quiet [sealedView .reference Sample.quiet] ∧
    Monotone .reference [sealedView .reference Sample.quiet] := by
  have hseal := seal_draft (d := Sample.quiet) Sample.quiet_valid rfl
  have hchain := Chain.first (sealedView .reference Sample.quiet) rfl hseal
  refine ⟨hchain, (chain_monotone_iff .reference _ _ hchain).mpr ?_⟩
  intro alert halert
  cases halert

theorem foreign_alert_sealed : Chain .reference Sample.draft [sealedView .reference Sample.draft] ∧
    ¬ Monotone .reference [sealedView .reference Sample.draft] := by
  have hseal := seal_draft (d := Sample.draft) Sample.draft_valid rfl
  refine ⟨.first _ rfl hseal, ?_⟩
  intro hmonotone
  have htriggered := hmonotone.triggered 0 0 _ _ ⟨rfl, rfl, fun k hk => absurd hk (by omega)⟩
  revert htriggered
  decide

end GeneGIS.OperationalDashboard
