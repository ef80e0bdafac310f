/-
A rule that triggers is sealed into a record, and acknowledgements are appended to it.  A struct is
digested with its members as declared, a JSON value with its members sorted.
-/
import GeneGIS.Crs
import GeneGIS.Runtime

namespace GeneGIS

inductive AlertComparison where
  | greaterThan
  | greaterThanOrEqual
  | lessThan
  | lessThanOrEqual

def AlertComparison.asStr : AlertComparison → String
  | .greaterThan => "greater_than"
  | .greaterThanOrEqual => "greater_than_or_equal"
  | .lessThan => "less_than"
  | .lessThanOrEqual => "less_than_or_equal"

def AlertComparison.holds : AlertComparison → F64 → F64 → Bool
  | .greaterThan, value, threshold => F64.lt threshold value
  | .greaterThanOrEqual, value, threshold => F64.le threshold value
  | .lessThan, value, threshold => F64.lt value threshold
  | .lessThanOrEqual, value, threshold => F64.le value threshold

inductive VerifiedAlertRule where
  | threshold (field unit : String) (comparison : AlertComparison) (threshold : F64)
  | zScoreAnomaly (field unit baselineDigest : String)
      (mean standardDeviation absoluteZThreshold : F64)

structure VerifiedAlertPolicy where
  id : String
  rule : VerifiedAlertRule
  severity : String
  requireFresh : Bool

structure AlertMetric where
  field : String
  value : F64
  unit : String

structure AlertTriggeringWindow where
  cursorStart : Nat
  cursorEnd : Nat
  watermarkStart : String
  watermarkEnd : String
  fresh : Bool
  snapshotDigests : List String
  resultDigest : String
  source : SourceSnapshot

structure AlertVerificationCheck where
  name : String
  passed : Bool
  detail : String

structure AlertAcknowledgement where
  id : String
  actor : String
  acknowledgedAt : String
  noteDigest : String

structure VerifiedAlertRecord where
  schemaVersion : String
  alertId : String
  policyDigest : String
  policy : VerifiedAlertPolicy
  triggeringWindow : AlertTriggeringWindow
  metric : AlertMetric
  evaluationValue : F64
  verifier : String
  checks : List AlertVerificationCheck
  triggeredAt : String
  acknowledgements : List AlertAcknowledgement
  recordDigest : String

structure EvaluationInput where
  policy : VerifiedAlertPolicy
  metric : AlertMetric
  window : AlertTriggeringWindow
  evaluatedAt : String

inductive VerifiedAlertError where
  | invalid (reason : String)
  deriving DecidableEq

def F64.toJson (x : F64) : Json := (Value.ofF64 x).json

def Json.nat (n : Nat) : Json := .num (.int n)

def VerifiedAlertRule.toJson : VerifiedAlertRule → Json
  | .threshold field unit comparison bound =>
    .obj [("kind", .str "threshold"), ("field", .str field), ("unit", .str unit),
      ("comparison", .str comparison.asStr), ("threshold", bound.toJson)]
  | .zScoreAnomaly field unit baselineDigest mean standardDeviation absoluteZThreshold =>
    .obj [("kind", .str "z_score_anomaly"), ("field", .str field), ("unit", .str unit),
      ("baseline_digest", .str baselineDigest), ("mean", mean.toJson),
      ("standard_deviation", standardDeviation.toJson),
      ("absolute_z_threshold", absoluteZThreshold.toJson)]

def VerifiedAlertPolicy.toJson (p : VerifiedAlertPolicy) : Json :=
  .obj [("id", .str p.id), ("rule", p.rule.toJson), ("severity", .str p.severity),
    ("require_fresh", .bool p.requireFresh)]

def AlertMetric.toJson (m : AlertMetric) : Json :=
  .obj [("field", .str m.field), ("value", m.value.toJson), ("unit", .str m.unit)]

def AlertTriggeringWindow.toJson (w : AlertTriggeringWindow) : Json :=
  .obj [("cursor_start", .nat w.cursorStart), ("cursor_end", .nat w.cursorEnd),
    ("watermark_start", .str w.watermarkStart), ("watermark_end", .str w.watermarkEnd),
    ("fresh", .bool w.fresh), ("snapshot_digests", .arr (w.snapshotDigests.map .str)),
    ("result_digest", .str w.resultDigest), ("source", w.source.toJson.json)]

def AlertVerificationCheck.toJson (c : AlertVerificationCheck) : Json :=
  .obj [("name", .str c.name), ("passed", .bool c.passed), ("detail", .str c.detail)]

def AlertAcknowledgement.toJson (a : AlertAcknowledgement) : Json :=
  .obj [("id", .str a.id), ("actor", .str a.actor), ("acknowledged_at", .str a.acknowledgedAt),
    ("note_digest", .str a.noteDigest)]

def VerifiedAlertRecord.toJson (r : VerifiedAlertRecord) : Json :=
  .obj [("schema_version", .str r.schemaVersion), ("alert_id", .str r.alertId),
    ("policy_digest", .str r.policyDigest), ("policy", r.policy.toJson),
    ("triggering_window", r.triggeringWindow.toJson), ("metric", r.metric.toJson),
    ("evaluation_value", r.evaluationValue.toJson), ("verifier", .str r.verifier),
    ("checks", .arr (r.checks.map AlertVerificationCheck.toJson)),
    ("triggered_at", .str r.triggeredAt),
    ("acknowledgements", .arr (r.acknowledgements.map AlertAcknowledgement.toJson)),
    ("record_digest", .str r.recordDigest)]

namespace VerifiedAlert

variable (rt : Runtime)

abbrev Alerting (α : Type) := Except VerifiedAlertError α

def schemaVersion : String := "0.1.0"

def verifier : String := "genegis-deterministic-alert-verifier/1"

/-- The digest of a document whose members are sorted. -/
def valueDigest (document : Json) : String :=
  "sha256:" ++ rt.sha256 (document.canonicalChars rt.floatText)

variable (r : VerifiedAlertRecord)

def triggerDigest : String := valueDigest rt (.obj [("schema_version", .str r.schemaVersion),
    ("policy_digest", .str r.policyDigest), ("policy", r.policy.toJson),
    ("triggering_window", r.triggeringWindow.toJson), ("metric", r.metric.toJson),
    ("evaluation_value", r.evaluationValue.toJson), ("verifier", .str r.verifier),
    ("checks", .arr (r.checks.map AlertVerificationCheck.toJson)),
    ("triggered_at", .str r.triggeredAt)])

def recordDigest : String := valueDigest rt (.obj [("alert_id", .str r.alertId),
    ("acknowledgements", .arr (r.acknowledgements.map AlertAcknowledgement.toJson))])

/-! ## Validation -/

def require (holds : Bool) (reason : String) : Alerting Unit :=
  if holds then .ok () else .error (.invalid reason)

def requireDigest (value label : String) : Alerting Unit :=
  require (Text.isSha256 value) ("invalid " ++ label ++ " digest")

def parseTime (value label : String) : Alerting DateTime :=
  match rt.parseRfc3339 value with
  | some t => .ok t
  | none => .error (.invalid ("invalid " ++ label))

def requireSnapshots : List String → Alerting Unit
  | [] => .ok ()
  | snapshot :: rest => do
    requireDigest snapshot "snapshot"
    requireSnapshots rest

def validateWindow (w : AlertTriggeringWindow) : Alerting Unit := do
  requireDigest w.resultDigest "result"
  require (!(decide (w.cursorEnd < w.cursorStart) || w.snapshotDigests.isEmpty ||
      decide (w.source.checksumStatus ≠ .verified)))
    "triggering window cursor, snapshots, or source is invalid"
  let opened ← parseTime rt w.watermarkStart "start watermark"
  let closed ← parseTime rt w.watermarkEnd "end watermark"
  require (opened.nanos ≤ closed.nanos) "watermark regressed"
  requireSnapshots w.snapshotDigests

/-- The field and the unit of a rule whose parameters are valid. -/
def validateRule : VerifiedAlertRule → Alerting (String × String)
  | .threshold field unit _ threshold => do
    require threshold.isFinite "threshold is not finite"
    return (field, unit)
  | .zScoreAnomaly field unit baselineDigest mean standardDeviation absoluteZThreshold => do
    requireDigest baselineDigest "baseline"
    require (!(!mean.isFinite || !standardDeviation.isFinite ||
        F64.le standardDeviation .zero || !absoluteZThreshold.isFinite ||
        F64.le absoluteZThreshold .zero))
      "z-score baseline parameters are invalid"
    return (field, unit)

variable (input : EvaluationInput)

def validateInput : Alerting Unit := do
  validateWindow rt input.window
  let _ ← parseTime rt input.evaluatedAt "evaluation time"
  require (!(Text.isBlank input.policy.id || Text.isBlank input.policy.severity ||
      !input.metric.value.isFinite)) "policy identity, severity, or metric is invalid"
  require (!(input.policy.requireFresh && !input.window.fresh))
    "policy requires a fresh triggering window"
  let (field, unit) ← validateRule input.policy.rule
  require (decide (field = input.metric.field) && decide (unit = input.metric.unit))
    "policy and metric field/unit differ"

/-- The loop over the acknowledgements, with the identifiers and the time before. -/
def verifyAcknowledgements : List String → DateTime → List AlertAcknowledgement → Alerting Unit
  | _, _, [] => .ok ()
  | ids, previous, a :: rest => do
    let time ← parseTime rt a.acknowledgedAt "acknowledgement time"
    require (!(Text.isBlank a.id || Text.isBlank a.actor || decide (a.id ∈ ids) ||
      decide (time.nanos < previous.nanos))) "acknowledgement chain is invalid"
    requireDigest a.noteDigest "note"
    verifyAcknowledgements (a.id :: ids) time rest

def verifyAlertRecord : Alerting Unit := do
  require (!(r.schemaVersion != schemaVersion || r.checks.isEmpty ||
      (r.checks.any fun check => !check.passed) || r.verifier != verifier ||
      r.policyDigest != rt.digestCompact r.policy.toJson))
    "schema, policy, verifier, or checks are invalid"
  validateWindow rt r.triggeringWindow
  require (!(r.alertId != triggerDigest rt r || r.recordDigest != recordDigest rt r))
    "alert or record digest mismatch"
  let previous ← parseTime rt r.triggeredAt "trigger time"
  verifyAcknowledgements rt [] previous r.acknowledgements

/-- Whether a rule triggers, the value it compared and a text that says so.  `display` is
the text of a number. -/
def evaluateRule (display : F64 → String) (rule : VerifiedAlertRule) (value : F64) :
    Bool × F64 × String :=
  match rule with
  | .threshold _ _ comparison threshold =>
    (comparison.holds value threshold, value, "metric compared with " ++ display threshold)
  | .zScoreAnomaly _ _ _ mean standardDeviation absoluteZThreshold =>
    let score := F64.abs (F64.div (F64.sub value mean) standardDeviation)
    (F64.le absoluteZThreshold score, score,
      "absolute z-score " ++ display score ++ " compared with " ++ display absoluteZThreshold)

def evaluationChecks (window : AlertTriggeringWindow) (detail : String) :
    List AlertVerificationCheck :=
  [{ name := "deterministic_rule", passed := true
     detail := "closed numeric threshold/z-score rule; no LLM judgement" },
   { name := "triggering_window", passed := true
     detail := "cursor " ++ toString window.cursorStart ++ ".." ++ toString window.cursorEnd ++
       "; " ++ toString window.snapshotDigests.length ++ " snapshots" },
   { name := "rule_evaluation", passed := true, detail := detail }]

def sealRecord : VerifiedAlertRecord :=
  let named := { r with alertId := triggerDigest rt r }
  { named with recordDigest := recordDigest rt named }

def triggeredRecord (value : F64) (detail : String) : VerifiedAlertRecord := sealRecord rt
    { schemaVersion := schemaVersion, alertId := ""
      policyDigest := rt.digestCompact input.policy.toJson, policy := input.policy
      triggeringWindow := input.window, metric := input.metric, evaluationValue := value
      verifier := verifier, checks := evaluationChecks input.window detail
      triggeredAt := input.evaluatedAt, acknowledgements := [], recordDigest := "" }

def evaluationDigest (triggered : Bool) (alert : Option VerifiedAlertRecord) : String :=
  valueDigest rt (.obj [("policy", input.policy.toJson), ("metric", input.metric.toJson),
    ("window", input.window.toJson), ("evaluated_at", .str input.evaluatedAt),
    ("triggered", .bool triggered),
    ("alert", (alert.map VerifiedAlertRecord.toJson).getD .null)])

def evaluate (display : F64 → String) (input : EvaluationInput) :
    Alerting (Bool × Option VerifiedAlertRecord × String) := do
  validateInput rt input
  let (triggered, value, detail) := evaluateRule display input.policy.rule input.metric.value
  if triggered then
    let alert := triggeredRecord rt input value detail
    verifyAlertRecord rt alert
    return (triggered, some alert, evaluationDigest rt input triggered (some alert))
  else return (triggered, none, evaluationDigest rt input triggered none)

def appendAcknowledgement (a : AlertAcknowledgement) : Alerting VerifiedAlertRecord := do
  verifyAlertRecord rt r
  let extended := { r with acknowledgements := r.acknowledgements ++ [a] }
  let resealed := { extended with recordDigest := recordDigest rt extended }
  verifyAlertRecord rt resealed
  return resealed

end VerifiedAlert
end GeneGIS
