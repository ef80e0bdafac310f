/-
A page is requested with the cursor that the page before it left, and its sequences lie between the
two cursors, so the pages of a run join without overlap.
-/
import GeneGIS.Adapter.LiveFeed
import GeneGIS.Data.Fallible

namespace GeneGIS.LiveFeed

open Fallible List Nat

variable {rt : Runtime} {parsePage : String → Except String ProviderPage}
  {adapter : LiveFeedAdapter}

theorem responseUnless_ok {holds : Bool} {reason : String} {u : Unit} :
    responseUnless holds reason = .ok u ↔ holds = true :=
  except_guard_ok

theorem timestamp_ok {value label : String} {t : DateTime} :
    timestamp rt value label = .ok t ↔ rt.parseRfc3339 value = some t := by
  unfold timestamp
  cases rt.parseRfc3339 value with
  | none => exact iff_of_false nofun nofun
  | some s =>
    show Except.ok s = .ok t ↔ _
    rw [Except.ok.injEq, Option.some.injEq]

/-- The last number of a list that starts after `c`. -/
def lastOf (c : Nat) (l : List Nat) : Nat := l.getLast?.getD c

theorem lastOf_nil (c : Nat) : lastOf c [] = c := rfl

theorem lastOf_cons (c a : Nat) (l : List Nat) : lastOf c (a :: l) = lastOf a l := by
  rw [lastOf, getLast?_cons, Option.getD_some, lastOf]

theorem lastOf_append (c : Nat) (l m : List Nat) : lastOf c (l ++ m) = lastOf (lastOf c l) m := by
  induction l generalizing c with
  | nil => rfl
  | cons a rest ih => rw [cons_append, lastOf_cons, lastOf_cons, ih]

/-! ## One page -/

def sequences (response : LiveFeedResponse) : List Nat :=
  response.snapshots.map fun s => s.observation.sequence

variable {policy : FeedFreshnessPolicy}

theorem checkObservation_ok {evaluatedAt watermark t : DateTime}
    {nextCursor previous : Nat} {o : FeedObservation}
    (h : checkObservation rt policy evaluatedAt watermark nextCursor previous o = .ok t) :
    previous < o.sequence ∧ o.sequence ≤ nextCursor := by
  obtain ⟨_, -, h⟩ := bind_iff.mp h
  obtain ⟨_, hvalid, -⟩ := bind_iff.mp h
  have hholds := responseUnless_ok.mp hvalid
  simp only [Bool.not_eq_true', Bool.or_eq_false_iff, decide_eq_false_iff_not] at hholds
  obtain ⟨⟨⟨⟨⟨_, hprevious⟩, hnext⟩, _⟩, _⟩, _⟩ := hholds
  omega

/-- The loop.  What it has seen before is the sequence the next one must exceed. -/
theorem sealObservations_ok {evaluatedAt watermark : DateTime}
    {nextCursor : Nat} {progress done : Progress} {observations : List FeedObservation}
    {snapshots : List FeedObservationSnapshot}
    (h : sealObservations rt policy evaluatedAt watermark nextCursor progress observations =
      .ok (done, snapshots)) :
    snapshots = observations.map (snapshotOf rt) ∧
      (progress.previousSequence :: observations.map FeedObservation.sequence).Pairwise (· < ·) ∧
      (∀ o ∈ observations, o.sequence ≤ nextCursor) ∧
      done.previousSequence =
        lastOf progress.previousSequence (observations.map FeedObservation.sequence) ∧
      (observations = [] → done = progress) := by
  induction observations generalizing progress snapshots with
  | nil =>
    have hdone := Except.ok.inj h
    rw [Prod.mk.injEq] at hdone
    obtain ⟨rfl, rfl⟩ := hdone
    exact ⟨rfl, pairwise_singleton _ _, by simp, rfl, fun _ => rfl⟩
  | cons o rest ih =>
    obtain ⟨t, hcheck, h⟩ := bind_iff.mp h
    obtain ⟨⟨done', snapshots'⟩, hrest, h⟩ := bind_iff.mp h
    have hdone := Except.ok.inj h
    rw [Prod.mk.injEq] at hdone
    obtain ⟨rfl, rfl⟩ := hdone
    obtain ⟨hprevious, hnext⟩ := checkObservation_ok hcheck
    obtain ⟨hsnapshots, hincreasing, hbounded, hlast, -⟩ := ih hrest
    refine ⟨?_, ?_, ?_, ?_, ?_⟩
    · rw [hsnapshots, map_cons]
    · rw [map_cons, pairwise_cons]
      refine ⟨?_, hincreasing⟩
      intro s hs
      rcases mem_cons.mp hs with rfl | hs
      · exact hprevious
      · have hlater := (pairwise_cons.mp hincreasing).1 s hs
        exact lt_trans hprevious hlater
    · rw [forall_mem_cons]
      exact ⟨hnext, hbounded⟩
    · rw [hlast, map_cons, lastOf_cons]
    · nofun

/-- What an accepted page keeps. -/
structure PageOk (rt : Runtime) (request : LiveFeedRequest) (policy : FeedFreshnessPolicy)
    (response : LiveFeedResponse) : Prop where
  increasing : (request.afterCursor :: sequences response).Pairwise (· < ·)
  bounded : ∀ s ∈ sequences response, s ≤ response.receipt.nextCursor
  cursor : request.afterCursor ≤ response.receipt.nextCursor
  watermark : rt.NotAfter request.watermark response.receipt.nextWatermark
  final : response.snapshots ≠ [] →
    lastOf request.afterCursor (sequences response) = response.receipt.nextCursor
  stale : policy.rejectStale = true → response.snapshots ≠ []

theorem sealPage_ok {fetched : HttpFetchResult} {request : LiveFeedRequest}
    {response : LiveFeedResponse}
    (h : sealPage rt parsePage adapter fetched request policy = .ok response) :
    PageOk rt request policy response := by
  obtain ⟨s, hs, h⟩ := bind_iff.mp h
  obtain ⟨evaluatedAt, -, h⟩ := bind_iff.mp h
  obtain ⟨_, -, h⟩ := bind_iff.mp h
  dsimp only at h
  split at h
  · cases h
  obtain ⟨_, -, h⟩ := bind_iff.mp h
  obtain ⟨page, -, h⟩ := bind_iff.mp h
  obtain ⟨t, ht, h⟩ := bind_iff.mp h
  obtain ⟨_, hpage, h⟩ := bind_iff.mp h
  obtain ⟨⟨done, snapshots⟩, hloop, h⟩ := bind_iff.mp h
  obtain ⟨_, hfinal, h⟩ := bind_iff.mp h
  obtain ⟨_, hstale, h⟩ := bind_iff.mp h
  cases h
  have hkept := responseUnless_ok.mp hpage
  simp only [Bool.not_eq_true', Bool.or_eq_false_iff, decide_eq_false_iff_not] at hkept
  obtain ⟨⟨⟨hcursor, hwatermark⟩, -⟩, -⟩ := hkept
  obtain ⟨hsnapshots, hincreasing, hbounded, hlast, hempty⟩ := sealObservations_ok hloop
  have hsequences : snapshots.map (fun s => s.observation.sequence) =
      page.observations.map FeedObservation.sequence := by
    rw [hsnapshots, map_map]
    rfl
  refine ⟨?_, ?_, ?_, ?_, ?_, ?_⟩
  · show (request.afterCursor :: snapshots.map fun s => s.observation.sequence).Pairwise (· < ·)
    rw [hsequences]
    exact hincreasing
  · show ∀ s ∈ snapshots.map (fun s => s.observation.sequence), s ≤ page.nextCursor
    rw [hsequences]
    intro s hs
    obtain ⟨o, ho, rfl⟩ := mem_map.mp hs
    exact hbounded o ho
  · show request.afterCursor ≤ page.nextCursor
    omega
  · exact ⟨s, t, timestamp_ok.mp hs, timestamp_ok.mp ht, by omega⟩
  · intro hne
    show lastOf request.afterCursor (snapshots.map fun s => s.observation.sequence) =
      page.nextCursor
    have hholds := responseUnless_ok.mp hfinal
    have hsome : snapshots.isEmpty = false := isEmpty_eq_false_iff.mpr hne
    rw [hsome, Bool.not_false, Bool.true_and, Bool.not_eq_true', bne_eq_false_iff_eq] at hholds
    rw [hsequences, ← hholds, hlast]
  · intro hreject hnone
    change snapshots = [] at hnone
    have hobservations : page.observations = [] := by
      rw [hsnapshots] at hnone
      exact map_eq_nil_iff.mp hnone
    have hholds := responseUnless_ok.mp hstale
    rw [hempty hobservations, hreject] at hholds
    cases hholds

/-! ## Times of the observations -/

theorem secondsSince_anti {s t : DateTime} (h : s.nanos ≤ t.nanos) (u : DateTime) :
    secondsSince t u ≤ secondsSince s u := by
  have hnanos : u.nanos - t.nanos ≤ u.nanos - s.nanos := by omega
  exact Int.toNat_le_toNat (Int.tdiv_le_tdiv (by decide) hnanos)

theorem isFresh_newest {evaluatedAt : DateTime} {latest : Option DateTime} {t : DateTime} :
    isFresh policy evaluatedAt (some (newest latest t)) = true ↔
      isFresh policy evaluatedAt latest = true ∨
        secondsSince t evaluatedAt ≤ policy.maxAgeSeconds := by
  show decide (secondsSince (newest latest t) evaluatedAt ≤ policy.maxAgeSeconds) = true ↔ _
  rw [decide_eq_true_iff]
  cases latest with
  | none => simp [isFresh, newest]
  | some s =>
    simp only [isFresh, newest, decide_eq_true_eq]
    split
    · have hage := secondsSince_anti (le_of_lt ‹s.nanos < t.nanos›) evaluatedAt
      omega
    · have hage := secondsSince_anti (not_lt.mp ‹¬s.nanos < t.nanos›) evaluatedAt
      omega

/-- The loop counts the late instants and is fresh as soon as one of them is. -/
theorem sealObservations_times {evaluatedAt watermark : DateTime} {nextCursor : Nat}
    {progress done : Progress} {observations : List FeedObservation}
    {snapshots : List FeedObservationSnapshot}
    (h : sealObservations rt policy evaluatedAt watermark nextCursor progress observations =
      .ok (done, snapshots)) :
    ∃ instants : List DateTime,
      (observations.map fun o => rt.parseRfc3339 o.observedAt) = instants.map some ∧
      (∀ t ∈ instants, t.nanos ≤ evaluatedAt.nanos ∧
        secondsSince t watermark ≤ policy.allowedLatenessSeconds) ∧
      done.lateObservations = progress.lateObservations +
        instants.countP (fun t => 0 < secondsSince t watermark) ∧
      (isFresh policy evaluatedAt done.latest = true ↔
        isFresh policy evaluatedAt progress.latest = true ∨
          ∃ t ∈ instants, secondsSince t evaluatedAt ≤ policy.maxAgeSeconds) := by
  induction observations generalizing progress snapshots with
  | nil =>
    cases h
    exact ⟨[], rfl, by simp⟩
  | cons o rest ih =>
    obtain ⟨t, hcheck, h⟩ := bind_iff.mp h
    obtain ⟨⟨done', snapshots'⟩, hrest, h⟩ := bind_iff.mp h
    cases h
    obtain ⟨instants, hinstants, hchecked, hlate, hfresh⟩ := ih hrest
    obtain ⟨s, hs, hcheck⟩ := bind_iff.mp hcheck
    obtain ⟨_, hvalid, hcheck⟩ := bind_iff.mp hcheck
    obtain ⟨_, hallowed, hcheck⟩ := bind_iff.mp hcheck
    cases hcheck
    have hholds := responseUnless_ok.mp hvalid
    simp only [Bool.not_eq_true', Bool.or_eq_false_iff, decide_eq_false_iff_not] at hholds
    obtain ⟨⟨⟨-, hpast⟩, -⟩, -⟩ := hholds
    refine ⟨t :: instants, ?_, ?_, ?_, ?_⟩
    · rw [map_cons, map_cons, hinstants, timestamp_ok.mp hs]
    · rw [forall_mem_cons]
      exact ⟨⟨not_lt.mp hpast, of_decide_eq_true (responseUnless_ok.mp hallowed)⟩, hchecked⟩
    · rw [hlate, countP_cons, Nat.add_assoc, Nat.add_comm (countP _ _)]
      simp only [decide_eq_true_eq, gt_iff_lt]
    · rw [hfresh, isFresh_newest, exists_mem_cons_iff, or_assoc]

/-- A page with the call that fetched it. -/
structure Exchange where
  fetched : HttpFetchResult
  request : LiveFeedRequest
  policy : FeedFreshnessPolicy
  response : LiveFeedResponse

/-- Pages accepted one after the other, from a cursor and a watermark to the last ones. -/
inductive Run (rt : Runtime) (parsePage : String → Except String ProviderPage)
    (adapter : LiveFeedAdapter) : Nat → String → List Exchange → Nat → String → Prop
  | nil (c : Nat) (w : String) : Run rt parsePage adapter c w [] c w
  | cons (e : Exchange) (rest : List Exchange) (c : Nat) (w : String)
      (h : sealPage rt parsePage adapter e.fetched e.request e.policy = .ok e.response)
      (hrest : Run rt parsePage adapter e.response.receipt.nextCursor
        e.response.receipt.nextWatermark rest c w) :
      Run rt parsePage adapter e.request.afterCursor e.request.watermark (e :: rest) c w

def delivered (run : List Exchange) : List Nat := run.flatMap fun e => sequences e.response

def cursorAfter (start : Nat) (run : List Exchange) : Nat :=
  lastOf start (run.map fun e => e.response.receipt.nextCursor)

/-- A page without observations leaves the cursor where it was. -/
def Settled (run : List Exchange) : Prop := ∀ e ∈ run, e.response.snapshots = [] →
    e.response.receipt.nextCursor = e.request.afterCursor

/-- What a consumer of the run receives. -/
structure Delivered (rt : Runtime) (start : Nat) (watermark : String) (run : List Exchange)
    (final : Nat) : Prop where
  increasing : (start :: delivered run).Pairwise (· < ·)
  bounded : ∀ s ∈ delivered run, s ≤ final
  watermarks : (watermark :: run.map fun e => e.response.receipt.nextWatermark).Pairwise
    rt.NotAfter
  cursor : start ≤ final
  final : final = cursorAfter start run
  ends : ∀ e ∈ run, e.response.snapshots ≠ [] →
    lastOf e.request.afterCursor (sequences e.response) = e.response.receipt.nextCursor
  fresh : ∀ e ∈ run, e.policy.rejectStale = true → e.response.snapshots ≠ []
  settled : (∀ before after, run = before ++ after →
    cursorAfter start before = lastOf start (delivered before)) ↔ Settled run

theorem delivered_cons (e : Exchange) (rest : List Exchange) :
    delivered (e :: rest) = sequences e.response ++ delivered rest := flatMap_cons

theorem cursorAfter_cons (start : Nat) (e : Exchange) (rest : List Exchange) :
    cursorAfter start (e :: rest) = cursorAfter e.response.receipt.nextCursor rest := by
  rw [cursorAfter, map_cons, lastOf_cons, cursorAfter]

/-- The first page of a run is settled when the cursor it leaves is its last sequence. -/
theorem settled_cons {e : Exchange} {rest : List Exchange}
    (h : PageOk rt e.request e.policy e.response) : Settled (e :: rest) ↔
      e.response.receipt.nextCursor = lastOf e.request.afterCursor (sequences e.response) ∧
        Settled rest := by
  unfold Settled
  rw [forall_mem_cons]
  refine and_congr_left' ?_
  by_cases hempty : e.response.snapshots = []
  · have hnone : sequences e.response = [] := by
      rw [sequences, hempty, map_nil]
    rw [hnone, lastOf_nil]
    exact ⟨fun hsettled => hsettled hempty, fun hsame _ => hsame⟩
  · refine iff_of_true (fun h => absurd h hempty) (h.final hempty).symm

theorem run_delivered (rt : Runtime) (parsePage : String → Except String ProviderPage)
    (adapter : LiveFeedAdapter) : ∀ (start final : Nat) (watermark last : String)
      (run : List Exchange), Run rt parsePage adapter start watermark run final last →
      Delivered rt start watermark run final := by
  intro start final watermark last run h
  induction h with
  | nil c w =>
    refine ⟨pairwise_singleton _ _, by simp [delivered], pairwise_singleton _ _,
      le_refl c, rfl, by simp, by simp, ?_⟩
    refine iff_of_true ?_ (by simp [Settled])
    intro before after hsplit
    rw [(append_eq_nil_iff.mp hsplit.symm).1]
    rfl
  | cons e rest c w hseal hrest ih =>
    have hpage := sealPage_ok hseal
    refine ⟨?_, ?_, ?_, ?_, ?_, ?_, ?_, ?_⟩
    · -- A later page starts at the cursor that bounds this one.
      rw [delivered_cons, ← cons_append, pairwise_append]
      refine ⟨hpage.increasing, (pairwise_cons.mp ih.increasing).2, ?_⟩
      intro s hs t ht
      have habove := (pairwise_cons.mp ih.increasing).1 t ht
      rcases mem_cons.mp hs with rfl | hs
      · exact lt_of_le_of_lt hpage.cursor habove
      · exact lt_of_le_of_lt (hpage.bounded s hs) habove
    · rw [delivered_cons]
      intro s hs
      rcases mem_append.mp hs with hs | hs
      · exact le_trans (hpage.bounded s hs) ih.cursor
      · exact ih.bounded s hs
    · rw [map_cons, pairwise_cons]
      refine ⟨?_, ih.watermarks⟩
      intro v hv
      rcases mem_cons.mp hv with rfl | hv
      · exact hpage.watermark
      · have hlater := (pairwise_cons.mp ih.watermarks).1 v hv
        exact trans_of rt.NotAfter hpage.watermark hlater
    · exact le_trans hpage.cursor ih.cursor
    · rw [ih.final, cursorAfter_cons]
    · rw [forall_mem_cons]
      exact ⟨hpage.final, ih.ends⟩
    · rw [forall_mem_cons]
      exact ⟨hpage.stale, ih.fresh⟩
    · rw [settled_cons hpage, ← ih.settled]
      constructor
      · intro h
        have hfirst : e.response.receipt.nextCursor =
            lastOf e.request.afterCursor (sequences e.response) := by
          have hone := h [e] rest rfl
          rw [cursorAfter_cons, delivered_cons, lastOf_append] at hone
          exact hone
        refine ⟨hfirst, ?_⟩
        intro before after hsplit
        have hnext := h (e :: before) after (by rw [hsplit, cons_append])
        rw [cursorAfter_cons, delivered_cons, lastOf_append, ← hfirst] at hnext
        exact hnext
      · intro h before after hsplit
        obtain ⟨hfirst, hlater⟩ := h
        cases before with
        | nil => rfl
        | cons e' before =>
          rw [cons_append, List.cons.injEq] at hsplit
          obtain ⟨rfl, hsplit⟩ := hsplit
          rw [cursorAfter_cons, delivered_cons, lastOf_append, ← hfirst]
          exact hlater before after hsplit

/-! ## Runs from the cursor 40 -/

namespace Sample

def observation (sequence : Nat) : FeedObservation where
  id := "observation"
  sequence := sequence
  observedAt := "1970-01-01T00:05:00Z"
  crs := .epsg 4326
  geometry := .object [("type", .str "Point"), ("coordinates", .ofList .ofNat [136, 35])]
  values := .object [("value", .ofNat 24)]
  sourceRevision := "fixture-v1"

def page (nextCursor : Nat) (sequences : List Nat) : ProviderPage where
  nextCursor := nextCursor
  watermark := "1970-01-01T00:05:00Z"
  observations := sequences.map observation

/-- The bodies are named after the pages that they hold. -/
def readPage : String → Except String ProviderPage
  | "41, 43" => .ok (page 43 [41, 43])
  | "44" => .ok (page 44 [44])
  | "none" => .ok (page 100 [])
  | body => .error body

def request (afterCursor : Nat) (watermark : String) : LiveFeedRequest where
  domain := .weather
  endpoint := "http://127.0.0.1"
  providerId := "fixture.live"
  providerVersion := "1"
  afterCursor := afterCursor
  watermark := watermark
  limit := 10
  evaluatedAt := "1970-01-01T00:05:00Z"

variable (body : String)

def fetched : HttpFetchResult :=
  { body := body, contentType := some "application/json; charset=utf-8" }

def lenient : FeedFreshnessPolicy := { FeedFreshnessPolicy.standard with rejectStale := false }

def epoch : String := "1970-01-01T00:00:00Z"

def later : String := "1970-01-01T00:05:00Z"

def accepts (request : LiveFeedRequest) (policy : FeedFreshnessPolicy)
    (delivered : List Nat) (nextCursor : Nat) : Bool :=
  match sealPage .reference readPage new (fetched body) request policy with
  | .ok response => sequences response == delivered &&
      response.receipt.nextCursor == nextCursor && response.receipt.nextWatermark == later
  | .error _ => false

theorem admitted_request (cursor : Nat) (watermark : String) :
    (Admission.admitInvocation new.manifest (invocation new (request cursor watermark).domain)
      new.capabilityPolicy).admitted = true := by
  show (Admission.admitInvocation new.manifest (invocation new .weather)
    new.capabilityPolicy).admitted = true
  decide +kernel

theorem accepts_both : accepts "41, 43" (request 40 epoch) .standard [41, 43] 43 = true := by
  rw [accepts, sealPage]
  simp only [admitted_request]
  decide +kernel

theorem accepts_last : accepts "44" (request 43 later) .standard [44] 44 = true := by
  rw [accepts, sealPage]
  simp only [admitted_request]
  decide +kernel

theorem accepts_none : accepts "none" (request 40 epoch) lenient [] 100 = true := by
  rw [accepts, sealPage]
  simp only [admitted_request]
  decide +kernel

theorem accepts_ok (request : LiveFeedRequest) (policy : FeedFreshnessPolicy)
    (delivered : List Nat) (nextCursor : Nat)
    (h : accepts body request policy delivered nextCursor = true) :
    ∃ response, sealPage .reference readPage new (fetched body) request policy = .ok response ∧
      sequences response = delivered ∧ response.receipt.nextCursor = nextCursor ∧
      response.receipt.nextWatermark = later := by
  unfold accepts at h
  cases hseal : sealPage .reference readPage new (fetched body) request policy with
  | error e =>
    rw [hseal] at h
    cases h
  | ok response =>
    rw [hseal] at h
    simp only [Bool.and_eq_true, beq_iff_eq] at h
    exact ⟨response, rfl, h.1.1, h.1.2, h.2⟩

end Sample

open Sample in
theorem two_pages_delivered : ∃ run, Run .reference readPage new 40 epoch run 44 later ∧
    (run.map fun e => sequences e.response) = [[41, 43], [44]] ∧
    Delivered .reference 40 epoch run 44 := by
  obtain ⟨first, hfirst, hsequences, hcursor, hwatermark⟩ :=
    accepts_ok "41, 43" (request 40 epoch) .standard [41, 43] 43 accepts_both
  obtain ⟨second, hsecond, hsequences', hcursor', hwatermark'⟩ :=
    accepts_ok "44" (request 43 later) .standard [44] 44 accepts_last
  have hrun : Run .reference readPage new 40 epoch
      [⟨fetched "41, 43", request 40 epoch, .standard, first⟩,
        ⟨fetched "44", request 43 later, .standard, second⟩] 44 later := by
    refine .cons ⟨fetched "41, 43", request 40 epoch, .standard, first⟩ _ 44 later hfirst ?_
    show Run _ _ _ first.receipt.nextCursor first.receipt.nextWatermark _ 44 later
    rw [hcursor, hwatermark]
    refine .cons ⟨fetched "44", request 43 later, .standard, second⟩ _ 44 later hsecond ?_
    show Run _ _ _ second.receipt.nextCursor second.receipt.nextWatermark _ 44 later
    rw [hcursor', hwatermark']
    exact .nil 44 later
  refine ⟨_, hrun, ?_, run_delivered .reference readPage new 40 44 epoch later _ hrun⟩
  show [sequences first, sequences second] = _
  rw [hsequences, hsequences']

open Sample in
/-- A page without observations moves the cursor from 40 to 100. -/
theorem empty_page_skips : ∃ e, Run .reference readPage new 40 epoch [e] 100 later ∧
    100 ≠ lastOf 40 (delivered [e]) := by
  obtain ⟨page, hpage, hsequences, hcursor, hwatermark⟩ :=
    accepts_ok "none" (request 40 epoch) lenient [] 100 accepts_none
  refine ⟨⟨fetched "none", request 40 epoch, lenient, page⟩, ?_, ?_⟩
  · refine .cons ⟨fetched "none", request 40 epoch, lenient, page⟩ _ 100 later hpage ?_
    show Run _ _ _ page.receipt.nextCursor page.receipt.nextWatermark _ 100 later
    rw [hcursor, hwatermark]
    exact .nil 100 later
  · rw [delivered_cons]
    show 100 ≠ lastOf 40 (sequences page ++ [])
    rw [hsequences]
    decide

end GeneGIS.LiveFeed
