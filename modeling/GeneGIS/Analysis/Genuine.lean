/-
`Sealed` is what the verifier checks of a record, and `Genuine` what an evaluation makes of its
inputs.  A produced record is both, and the verifier checks the first only.
-/
import GeneGIS.Data.Fallible
import GeneGIS.Analysis.VerifiedAlert

namespace GeneGIS

namespace VerifiedAlertRule

def field : VerifiedAlertRule → String
  | threshold field _ _ _ => field
  | zScoreAnomaly field _ _ _ _ _ => field

def unit : VerifiedAlertRule → String
  | threshold _ unit _ _ => unit
  | zScoreAnomaly _ unit _ _ _ _ => unit

/-- The rule triggers on the value of an evaluation. -/
def fires : VerifiedAlertRule → F64 → Bool
  | threshold _ _ comparison bound, value => comparison.holds value bound
  | zScoreAnomaly _ _ _ _ _ bound, value => F64.le bound value

end VerifiedAlertRule

namespace VerifiedAlert

open Fallible List

variable {rt : Runtime} {display : F64 → String} {r r' : VerifiedAlertRecord} {u : Unit}

@[simp] theorem require_ok {holds : Bool} {reason : String} :
    require holds reason = .ok u ↔ holds = true :=
  Fallible.except_guard_ok

@[simp] theorem requireDigest_ok {value label : String} :
    requireDigest value label = .ok u ↔ Text.isSha256 value = true := by
  rw [requireDigest, require_ok]

@[simp] theorem parseTime_ok {value label : String} {t : DateTime} :
    parseTime rt value label = .ok t ↔ rt.parseRfc3339 value = some t := by
  unfold parseTime
  cases rt.parseRfc3339 value with
  | none => exact iff_of_false nofun nofun
  | some s =>
    show Except.ok s = .ok t ↔ _
    rw [Except.ok.injEq, Option.some.injEq]

/-! ## The chain of acknowledgements -/

structure AcknowledgementOk (a : AlertAcknowledgement) : Prop where
  id : Text.isBlank a.id = false
  actor : Text.isBlank a.actor = false
  note : Text.isSha256 a.noteDigest = true

/-- The times of the acknowledgements do not go back, from the time before them on. -/
def Timed (rt : Runtime) (previous : DateTime) (acknowledgements : List AlertAcknowledgement) :
    Prop :=
  ∃ times, (acknowledgements.map fun a => rt.parseRfc3339 a.acknowledgedAt) = times.map some ∧
    (previous :: times).Pairwise fun s t => s.nanos ≤ t.nanos

theorem timed_nil (previous : DateTime) : Timed rt previous [] :=
  ⟨[], rfl, pairwise_singleton _ previous⟩

variable {previous : DateTime}

theorem timed_cons {a : AlertAcknowledgement} {rest : List AlertAcknowledgement} :
    Timed rt previous (a :: rest) ↔ ∃ time, rt.parseRfc3339 a.acknowledgedAt = some time ∧
      previous.nanos ≤ time.nanos ∧ Timed rt time rest := by
  constructor
  · intro h
    obtain ⟨times, hparsed, hordered⟩ := h
    cases times with
    | nil => cases hparsed
    | cons time times =>
      rw [map_cons, map_cons, cons.injEq] at hparsed
      rw [pairwise_cons] at hordered
      exact ⟨time, hparsed.1, hordered.1 time mem_cons_self, times, hparsed.2, hordered.2⟩
  · intro h
    obtain ⟨time, hparsed, hle, times, hrest, hordered⟩ := h
    refine ⟨time :: times, ?_, ?_⟩
    · rw [map_cons, map_cons, hparsed, hrest]
    · rw [pairwise_cons]
      refine ⟨?_, hordered⟩
      intro t ht
      rcases mem_cons.mp ht with ht | ht
      · rw [ht]
        exact hle
      · have hlater := (pairwise_cons.mp hordered).1 t ht
        omega

variable {l m : List AlertAcknowledgement}

theorem timed_of_append (h : Timed rt previous (l ++ m)) : Timed rt previous l := by
  induction l generalizing previous with
  | nil => exact timed_nil previous
  | cons a rest ih =>
    obtain ⟨time, hparsed, hle, hrest⟩ := timed_cons.mp h
    exact timed_cons.mpr ⟨time, hparsed, hle, ih hrest⟩

/-- What the verifier asks of the acknowledgements of a record. -/
structure Chain (rt : Runtime) (previous : DateTime)
    (acknowledgements : List AlertAcknowledgement) : Prop where
  each : ∀ a ∈ acknowledgements, AcknowledgementOk a
  ids : (acknowledgements.map AlertAcknowledgement.id).Nodup
  times : Timed rt previous acknowledgements

theorem chain_nil (previous : DateTime) : Chain rt previous [] where
  each := by
    intro a ha
    cases ha
  ids := nodup_nil
  times := timed_nil previous

theorem Chain.of_append
    (h : Chain rt previous (l ++ m)) : Chain rt previous l where
  each := by
    intro a ha
    exact h.each a (mem_append_left m ha)
  ids := by
    have hids := h.ids
    rw [map_append] at hids
    exact (nodup_append.mp hids).1
  times := timed_of_append h.times

/-- The loop of the verifier.  Its set holds the identifiers before the list. -/
theorem verifyAcknowledgements_ok {ids : List String}
    {acknowledgements : List AlertAcknowledgement} :
    verifyAcknowledgements rt ids previous acknowledgements = .ok u ↔
      Chain rt previous acknowledgements ∧ ∀ a ∈ acknowledgements, a.id ∉ ids := by
  induction acknowledgements generalizing ids previous with
  | nil =>
    refine iff_of_true rfl ⟨chain_nil previous, ?_⟩
    intro a ha
    cases ha
  | cons a rest ih =>
    simp only [verifyAcknowledgements, bind_iff, parseTime_ok, require_ok, requireDigest_ok,
      Bool.not_eq_true', Bool.or_eq_false_iff, decide_eq_false_iff_not, Int.not_lt, ih]
    constructor
    · intro h
      obtain ⟨time, hparsed, _, ⟨⟨⟨hid, hactor⟩, hfresh⟩, hle⟩, _, hnote, hchain, hrest⟩ := h
      refine ⟨⟨?_, ?_, timed_cons.mpr ⟨time, hparsed, hle, hchain.times⟩⟩, ?_⟩
      · rw [forall_mem_cons]
        exact ⟨⟨hid, hactor, hnote⟩, hchain.each⟩
      · rw [map_cons, nodup_cons]
        refine ⟨?_, hchain.ids⟩
        intro hmem
        obtain ⟨b, hb, hsame⟩ := mem_map.mp hmem
        apply hrest b hb
        rw [hsame]
        exact mem_cons_self
      · rw [forall_mem_cons]
        exact ⟨hfresh, fun b hb hmem => hrest b hb (mem_cons_of_mem _ hmem)⟩
    · intro h
      obtain ⟨hchain, hfresh⟩ := h
      obtain ⟨time, hparsed, hle, htimes⟩ := timed_cons.mp hchain.times
      have hids := hchain.ids
      rw [map_cons, nodup_cons] at hids
      have hhead := hchain.each a mem_cons_self
      refine ⟨time, hparsed, (), ⟨⟨⟨hhead.id, hhead.actor⟩, hfresh a mem_cons_self⟩, hle⟩, (),
        hhead.note, ⟨?_, hids.2, htimes⟩, ?_⟩
      · intro b hb
        exact hchain.each b (mem_cons_of_mem a hb)
      · intro b hb hmem
        rcases mem_cons.mp hmem with hsame | hmem
        · apply hids.1
          rw [← hsame]
          exact mem_map_of_mem hb
        · exact hfresh b (mem_cons_of_mem a hb) hmem

structure Sealed (rt : Runtime) (r : VerifiedAlertRecord) : Prop where
  schema : r.schemaVersion = schemaVersion
  checked : r.checks ≠ []
  passed : ∀ check ∈ r.checks, check.passed = true
  verifier : r.verifier = verifier
  policy : r.policyDigest = rt.digestCompact r.policy.toJson
  window : validateWindow rt r.triggeringWindow = .ok ()
  alert : r.alertId = triggerDigest rt r
  record : r.recordDigest = recordDigest rt r
  chain : ∃ time, rt.parseRfc3339 r.triggeredAt = some time ∧ Chain rt time r.acknowledgements

theorem verifyAlertRecord_ok : verifyAlertRecord rt r = .ok u ↔ Sealed rt r := by
  simp only [verifyAlertRecord, bind_iff, require_ok, parseTime_ok,
    verifyAcknowledgements_ok, Bool.not_eq_true', Bool.or_eq_false_iff, bne_eq_false_iff_eq,
    isEmpty_eq_false_iff, any_eq_false, Bool.not_eq_false]
  constructor
  · intro h
    obtain ⟨_, ⟨⟨⟨⟨hschema, hchecked⟩, hpassed⟩, hverifier⟩, hpolicy⟩, _, hwindow, _,
      ⟨halert, hrecord⟩, time, htime, hchain, -⟩ := h
    exact ⟨hschema, hchecked, hpassed, hverifier, hpolicy, hwindow, halert, hrecord, time, htime,
      hchain⟩
  · intro h
    obtain ⟨time, htime, hchain⟩ := h.chain
    exact ⟨(), ⟨⟨⟨⟨h.schema, h.checked⟩, h.passed⟩, h.verifier⟩, h.policy⟩, (), h.window, (),
      ⟨h.alert, h.record⟩, time, htime, hchain, by simp⟩

/-! ## What an evaluation makes -/

def recordedInput (r : VerifiedAlertRecord) : EvaluationInput :=
  { policy := r.policy, metric := r.metric, window := r.triggeringWindow
    evaluatedAt := r.triggeredAt }

structure Genuine (rt : Runtime) (display : F64 → String) (r : VerifiedAlertRecord) : Prop where
  input : validateInput rt (recordedInput r) = .ok ()
  triggers : (evaluateRule display r.policy.rule r.metric.value).1 = true
  value : r.evaluationValue = (evaluateRule display r.policy.rule r.metric.value).2.1
  checks : r.checks =
    evaluationChecks r.triggeringWindow (evaluateRule display r.policy.rule r.metric.value).2.2

/-- The record that an evaluation of some inputs seals. -/
def evaluated (rt : Runtime) (display : F64 → String) (input : EvaluationInput) :
    VerifiedAlertRecord :=
  triggeredRecord rt input (evaluateRule display input.policy.rule input.metric.value).2.1
    (evaluateRule display input.policy.rule input.metric.value).2.2

theorem evaluate_ok {input : EvaluationInput} {triggered : Bool} {alert : VerifiedAlertRecord}
    {digest : String} (h : evaluate rt display input = .ok (triggered, some alert, digest)) :
    alert = evaluated rt display input ∧ Sealed rt alert ∧ Genuine rt display alert := by
  obtain ⟨_, hinput, h⟩ := bind_iff.mp h
  dsimp only at h
  by_cases htriggers : (evaluateRule display input.policy.rule input.metric.value).1 = true
  · rw [if_pos htriggers] at h
    obtain ⟨_, hverified, h⟩ := bind_iff.mp h
    have halert : evaluated rt display input = alert := by
      have hresult := Except.ok.inj h
      rw [Prod.mk.injEq, Prod.mk.injEq, Option.some.injEq] at hresult
      exact hresult.2.1
    rw [← halert]
    exact ⟨rfl, verifyAlertRecord_ok.mp hverified, hinput, htriggers, rfl, rfl⟩
  · rw [if_neg htriggers] at h
    have hresult := Except.ok.inj h
    rw [Prod.mk.injEq, Prod.mk.injEq] at hresult
    cases hresult.2.1

/-- A record with other acknowledgements and the digest of them. -/
def withAcknowledgements (rt : Runtime) (r : VerifiedAlertRecord)
    (acknowledgements : List AlertAcknowledgement) : VerifiedAlertRecord :=
  { r with
    acknowledgements := acknowledgements
    recordDigest := recordDigest rt { r with acknowledgements := acknowledgements } }

theorem appendAcknowledgement_ok {a : AlertAcknowledgement} :
    appendAcknowledgement rt r a = .ok r' ↔ Sealed rt r ∧
      Sealed rt (withAcknowledgements rt r (r.acknowledgements ++ [a])) ∧
      withAcknowledgements rt r (r.acknowledgements ++ [a]) = r' := by
  constructor
  · intro h
    obtain ⟨_, hbefore, h⟩ := bind_iff.mp h
    obtain ⟨_, hafter, h⟩ := bind_iff.mp h
    exact ⟨verifyAlertRecord_ok.mp hbefore, verifyAlertRecord_ok.mp hafter, Except.ok.inj h⟩
  · intro h
    obtain ⟨hbefore, hafter, rfl⟩ := h
    refine bind_iff.mpr ⟨(), verifyAlertRecord_ok.mpr hbefore, ?_⟩
    exact bind_iff.mpr ⟨(), verifyAlertRecord_ok.mpr hafter, rfl⟩

theorem Genuine.with (h : Genuine rt display r) (l : List AlertAcknowledgement) :
    Genuine rt display (withAcknowledgements rt r l) :=
  ⟨h.input, h.triggers, h.value, h.checks⟩

theorem Sealed.with (h : Sealed rt r)
    (hsplit : r.acknowledgements = l ++ m) : Sealed rt (withAcknowledgements rt r l) := by
  obtain ⟨time, htime, hchain⟩ := h.chain
  rw [hsplit] at hchain
  exact ⟨h.schema, h.checked, h.passed, h.verifier, h.policy, h.window, h.alert, rfl, time, htime,
    hchain.of_append⟩

theorem Sealed.with_self (h : Sealed rt r) : withAcknowledgements rt r r.acknowledgements = r := by
  have hdigest := h.record
  cases r
  unfold withAcknowledgements
  dsimp only at hdigest ⊢
  rw [← hdigest]

/-- The record comes from an evaluation of its inputs and some acknowledgements. -/
def Produced (rt : Runtime) (display : F64 → String) (r : VerifiedAlertRecord) : Prop :=
  ∃ (triggered : Bool) (alert : VerifiedAlertRecord) (digest : String)
    (acknowledgements : List AlertAcknowledgement),
    evaluate rt display (recordedInput r) = .ok (triggered, some alert, digest) ∧
    acknowledgements.foldlM (appendAcknowledgement rt) alert = .ok r

theorem appended_genuine {acknowledgements : List AlertAcknowledgement} (hsealed : Sealed rt r)
    (hgenuine : Genuine rt display r)
    (h : acknowledgements.foldlM (appendAcknowledgement rt) r = .ok r') :
    Sealed rt r' ∧ Genuine rt display r' := by
  induction acknowledgements generalizing r with
  | nil =>
    cases h
    exact ⟨hsealed, hgenuine⟩
  | cons a rest ih =>
    rw [foldlM_cons] at h
    obtain ⟨next, happend, h⟩ := bind_iff.mp h
    obtain ⟨-, hnext, rfl⟩ := appendAcknowledgement_ok.mp happend
    exact ih hnext (hgenuine.with _) h

theorem append_all (h : Sealed rt r) (hsplit : r.acknowledgements = l ++ m) :
    m.foldlM (appendAcknowledgement rt) (withAcknowledgements rt r l) = .ok r := by
  induction m generalizing l with
  | nil =>
    rw [append_nil] at hsplit
    rw [← hsplit, h.with_self]
    rfl
  | cons a rest ih =>
    have hnext : r.acknowledgements = (l ++ [a]) ++ rest := by
      rw [hsplit, append_assoc]
      rfl
    have happend : appendAcknowledgement rt (withAcknowledgements rt r l) a =
        .ok (withAcknowledgements rt r (l ++ [a])) :=
      appendAcknowledgement_ok.mpr ⟨h.with hsplit, h.with hnext, rfl⟩
    rw [foldlM_cons, happend]
    exact ih hnext

theorem evaluated_eq (hsealed : Sealed rt r) (hgenuine : Genuine rt display r) :
    evaluated rt display (recordedInput r) = withAcknowledgements rt r [] := by
  have hschema := hsealed.schema
  have hverifier := hsealed.verifier
  have hpolicy := hsealed.policy
  have halert := hsealed.alert
  have hvalue := hgenuine.value
  have hchecks := hgenuine.checks
  unfold triggerDigest at halert
  cases r
  dsimp only at hschema hverifier hpolicy halert hvalue hchecks
  subst hschema hverifier hpolicy hvalue hchecks halert
  rfl

theorem evaluate_of_genuine (hsealed : Sealed rt r) (hgenuine : Genuine rt display r) :
    ∃ digest, evaluate rt display (recordedInput r) =
      .ok (true, some (withAcknowledgements rt r []), digest) := by
  have hverified : verifyAlertRecord rt (evaluated rt display (recordedInput r)) = .ok () := by
    rw [evaluated_eq hsealed hgenuine, verifyAlertRecord_ok]
    exact hsealed.with (m := r.acknowledgements) rfl
  have htriggers : (evaluateRule display (recordedInput r).policy.rule
      (recordedInput r).metric.value).1 = true := hgenuine.triggers
  rw [← evaluated_eq hsealed hgenuine]
  unfold evaluate
  rw [hgenuine.input]
  dsimp only [Bind.bind, Except.bind]
  rw [if_pos htriggers]
  change ∃ digest, (verifyAlertRecord rt (evaluated rt display (recordedInput r)) >>= fun _ => _) = _
  rw [hverified, htriggers]
  exact ⟨_, rfl⟩

theorem produced_iff : Produced rt display r ↔ Sealed rt r ∧ Genuine rt display r := by
  constructor
  · intro h
    obtain ⟨triggered, alert, digest, acknowledgements, hevaluate, happended⟩ := h
    obtain ⟨-, hsealed, hgenuine⟩ := evaluate_ok hevaluate
    exact appended_genuine hsealed hgenuine happended
  · intro h
    obtain ⟨hsealed, hgenuine⟩ := h
    obtain ⟨digest, hevaluate⟩ := evaluate_of_genuine hsealed hgenuine
    exact ⟨true, _, digest, r.acknowledgements, hevaluate, append_all hsealed rfl⟩

/-! ## The verifier against the producers -/

/-- What a reader takes from an accepted record. -/
structure Faithful (rt : Runtime) (r : VerifiedAlertRecord) : Prop where
  triggers : r.policy.rule.fires r.evaluationValue = true
  field : r.policy.rule.field = r.metric.field
  unit : r.policy.rule.unit = r.metric.unit
  fresh : r.policy.requireFresh = true → r.triggeringWindow.fresh = true
  ids : (r.acknowledgements.map AlertAcknowledgement.id).Nodup
  times : ∃ time, rt.parseRfc3339 r.triggeredAt = some time ∧ Timed rt time r.acknowledgements

theorem evaluateRule_fires (display : F64 → String) (rule : VerifiedAlertRule) (value : F64) :
    rule.fires (evaluateRule display rule value).2.1 = (evaluateRule display rule value).1 := by
  cases rule with
  | threshold => rfl
  | zScoreAnomaly => rfl

theorem validateRule_ok {rule : VerifiedAlertRule} {names : String × String}
    (h : validateRule rule = .ok names) : names = (rule.field, rule.unit) := by
  cases rule with
  | threshold field unit comparison bound =>
    obtain ⟨_, -, h⟩ := bind_iff.mp h
    exact (Except.ok.inj h).symm
  | zScoreAnomaly field unit baseline mean deviation bound =>
    obtain ⟨_, -, h⟩ := bind_iff.mp h
    obtain ⟨_, -, h⟩ := bind_iff.mp h
    exact (Except.ok.inj h).symm

theorem validateInput_agrees {input : EvaluationInput} (h : validateInput rt input = .ok u) :
    input.policy.rule.field = input.metric.field ∧ input.policy.rule.unit = input.metric.unit ∧
      (input.policy.requireFresh = true → input.window.fresh = true) := by
  obtain ⟨_, -, h⟩ := bind_iff.mp h
  obtain ⟨_, -, h⟩ := bind_iff.mp h
  obtain ⟨_, -, h⟩ := bind_iff.mp h
  obtain ⟨_, hfresh, h⟩ := bind_iff.mp h
  obtain ⟨names, hnames, h⟩ := bind_iff.mp h
  rw [validateRule_ok hnames] at h
  have hagree := require_ok.mp h
  rw [Bool.and_eq_true, decide_eq_true_eq, decide_eq_true_eq] at hagree
  refine ⟨hagree.1, hagree.2, ?_⟩
  intro hrequired
  have hwindow := require_ok.mp hfresh
  rw [hrequired, Bool.true_and, Bool.not_not] at hwindow
  exact hwindow

theorem faithful_of_genuine (hsealed : Sealed rt r) (hgenuine : Genuine rt display r) :
    Faithful rt r := by
  obtain ⟨hfield, hunit, hfresh⟩ := validateInput_agrees hgenuine.input
  obtain ⟨time, htime, hchain⟩ := hsealed.chain
  refine ⟨?_, hfield, hunit, hfresh, hchain.ids, time, htime, hchain.times⟩
  rw [hgenuine.value, evaluateRule_fires]
  exact hgenuine.triggers

/-- A record is accepted just when it was produced, and its rule triggered, exactly if it is genuine
or not sealed. -/
theorem verify_exact_iff (rt : Runtime) (display : F64 → String) (r : VerifiedAlertRecord) :
    ((verifyAlertRecord rt r = .ok () ↔ Produced rt display r) ∧
      (verifyAlertRecord rt r = .ok () → Faithful rt r)) ↔
    (Sealed rt r → Genuine rt display r) := by
  rw [verifyAlertRecord_ok, produced_iff]
  constructor
  · intro h hsealed
    exact (h.1.mp hsealed).2
  · intro h
    refine ⟨⟨fun hsealed => ⟨hsealed, h hsealed⟩, fun hboth => hboth.1⟩, ?_⟩
    intro hsealed
    exact faithful_of_genuine hsealed (h hsealed)

namespace Sample

def digest : String := "sha256:" ++ String.ofList (replicate 64 'c')

def window : AlertTriggeringWindow :=
  { cursorStart := 10, cursorEnd := 11, watermarkStart := "1970-01-01T00:00:00Z"
    watermarkEnd := "1970-01-01T00:05:00Z", fresh := true, snapshotDigests := [digest]
    resultDigest := digest
    source :=
      { SourceMetadata.new "fixture://hazard" with
        checksum := some digest, observedChecksum := some digest, checksumStatus := .verified } }

def input : EvaluationInput :=
  { policy :=
      { id := "flood-depth"
        rule := .threshold "depth" "metres" .greaterThan (F64.ofNat 136)
        severity := "warning", requireFresh := true }
    metric := { field := "depth", value := F64.ofNat 35, unit := "metres" }
    window := window, evaluatedAt := "1970-01-01T00:05:00Z" }

/-- The record that an evaluation would seal if the rule triggered at 35 metres. -/
def forged : VerifiedAlertRecord :=
  triggeredRecord Runtime.reference input (F64.ofNat 35) "metric compared with 136"

theorem forged_triggers (display : F64 → String) :
    (evaluateRule display forged.policy.rule forged.metric.value).1 =
      AlertComparison.greaterThan.holds (F64.ofNat 35) (F64.ofNat 136) := by
  have hrule : forged.policy.rule = .threshold "depth" "metres" .greaterThan (F64.ofNat 136) := by
    rfl
  have hvalue : forged.metric.value = F64.ofNat 35 := by
    rfl
  rw [hrule, hvalue, evaluateRule]

theorem forged_sealed : Sealed Runtime.reference forged where
  schema := rfl
  checked := by
    nofun
  passed := by
    intro check hcheck
    rw [show forged.checks = evaluationChecks window "metric compared with 136" from rfl,
      evaluationChecks, mem_cons, mem_cons, mem_singleton] at hcheck
    rcases hcheck with h | h | h
    · rw [h]
    · rw [h]
    · rw [h]
  verifier := rfl
  policy := rfl
  window := by
    show validateWindow Runtime.reference window = .ok ()
    decide
  alert := rfl
  record := rfl
  chain := ⟨⟨300000000000⟩, by decide, chain_nil _⟩

end Sample

/-- A record of a rule that does not trigger, with fresh digests. -/
theorem forged_record_accepted : verifyAlertRecord Runtime.reference Sample.forged = .ok () ∧
    ∀ display, ¬ Produced Runtime.reference display Sample.forged ∧
      ¬ ∀ r, (verifyAlertRecord Runtime.reference r = .ok () ↔
          Produced Runtime.reference display r) ∧
        (verifyAlertRecord Runtime.reference r = .ok () → Faithful Runtime.reference r) := by
  have haccepted : verifyAlertRecord Runtime.reference Sample.forged = .ok () :=
    verifyAlertRecord_ok.mpr Sample.forged_sealed
  refine ⟨haccepted, ?_⟩
  intro display
  have hforged : ¬ Produced Runtime.reference display Sample.forged := by
    intro hproduced
    have htriggers := (produced_iff.mp hproduced).2.triggers
    rw [Sample.forged_triggers] at htriggers
    exact absurd htriggers (by decide +kernel)
  refine ⟨hforged, ?_⟩
  intro h
  exact hforged ((h Sample.forged).1.mp haccepted)

end VerifiedAlert
end GeneGIS
