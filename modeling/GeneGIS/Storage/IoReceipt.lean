/-
A receipt is judged by the totals it records and by the length of each range.  Nothing compares the
totals with the requests, or a range with the object.
-/
import GeneGIS.Network.Graph
import Mathlib.Data.List.Destutter
import Mathlib.Data.List.Sort
import Mathlib.Tactic.FieldSimp

namespace GeneGIS
namespace Storage

open Quantity List

/-- Both bounds are inclusive; `last` is `end`. -/
structure IoRequestEvidence where
  start : Nat
  last : Nat
  responseBytes : Nat
  bounded : last < 2 ^ 64 ∧ responseBytes < 2 ^ 64

structure GpuFrameMetrics (F : Type) where
  firstFrameNs : Nat
  steadyStateFps : F

structure IoReceipt (F : Type) where
  objectBytes : Nat
  logicalDatasetBytes : Nat
  requests : List IoRequestEvidence
  transferredBytes : Nat
  maximumResponseBytes : Nat
  wholeObjectFallback : Bool
  peakRssBytes : Nat
  gpu : Option (GpuFrameMetrics F)

structure IoBudget (F : Type) where
  minimumObjectBytes : Nat
  minimumLogicalDatasetBytes : Nat
  maximumTransferRatio : F
  maximumResponseBytes : Nat
  maximumPeakRssBytes : Nat
  maximumFirstFrameNs : Nat
  minimumSteadyStateFps : F
  requireGpu : Bool

inductive IoBudgetFailure where
  | objectTooSmall
  | logicalDatasetTooSmall
  | wholeObjectFallback
  | transferRatioExceeded
  | responseExceeded
  | peakRssExceeded
  | firstFrameExceeded
  | gpuMetricsMissing
  | invalidGpuMetrics
  | steadyStateFpsBelowMinimum
  | malformedRequestEvidence
  deriving DecidableEq

namespace IoReceipt

section Model

variable {F : Type} [Quantity F] (receipt : IoReceipt F) (budget : IoBudget F)

/-- The totals that `new` takes from the requests. -/
def responseTotal : Nat := (receipt.requests.map IoRequestEvidence.responseBytes).sum

def responseMaximum : Nat := (receipt.requests.map IoRequestEvidence.responseBytes).foldl max 0

def transferRatio : F := div (ofNat receipt.transferredBytes) (ofNat (max receipt.objectBytes 1))

def missed (failed : Bool) (failure : IoBudgetFailure) : List IoBudgetFailure :=
  if failed then [failure] else []

def gpuFailures : Option (GpuFrameMetrics F) → List IoBudgetFailure
  | some gpu =>
    missed (budget.maximumFirstFrameNs < gpu.firstFrameNs) .firstFrameExceeded ++
      if !isFinite gpu.steadyStateFps || le gpu.steadyStateFps (ofNat 0) then [.invalidGpuMetrics]
      else missed (lt gpu.steadyStateFps budget.minimumSteadyStateFps) .steadyStateFpsBelowMinimum
  | none => missed budget.requireGpu .gpuMetricsMissing

/-- `none` when the length of the range overflows. -/
def malformed (request : IoRequestEvidence) : Option Bool :=
  if request.last < request.start then some true
  else if request.last - request.start + 1 < 2 ^ 64 then
    some (request.responseBytes != request.last - request.start + 1 ||
      decide (budget.maximumResponseBytes < request.responseBytes))
  else none

def anyMalformed : List IoRequestEvidence → Option Bool
  | [] => some false
  | request :: rest => do if ← malformed budget request then some true else anyMalformed rest

/-- The failures in their order and without repetition, unless the arithmetic overflows. -/
def validate : Option (List IoBudgetFailure) := do
  let evidence ← anyMalformed budget receipt.requests
  let failures := missed (receipt.objectBytes < budget.minimumObjectBytes) .objectTooSmall ++
    missed (receipt.logicalDatasetBytes < budget.minimumLogicalDatasetBytes)
      .logicalDatasetTooSmall ++
    missed receipt.wholeObjectFallback .wholeObjectFallback ++
    missed (lt budget.maximumTransferRatio receipt.transferRatio) .transferRatioExceeded ++
    missed (budget.maximumResponseBytes < receipt.maximumResponseBytes) .responseExceeded ++
    missed (budget.maximumPeakRssBytes < receipt.peakRssBytes) .peakRssExceeded ++
    gpuFailures budget receipt.gpu ++ missed evidence .malformedRequestEvidence
  return (failures.insertionSort (·.ctorIdx ≤ ·.ctorIdx)).destutter (· ≠ ·)

/-- What the checks of the totals and of the frames ask for. -/
structure Within : Prop where
  object : budget.minimumObjectBytes ≤ receipt.objectBytes
  logical : budget.minimumLogicalDatasetBytes ≤ receipt.logicalDatasetBytes
  ranged : receipt.wholeObjectFallback = false
  ratio : lt budget.maximumTransferRatio receipt.transferRatio = false
  response : receipt.maximumResponseBytes ≤ budget.maximumResponseBytes
  memory : receipt.peakRssBytes ≤ budget.maximumPeakRssBytes
  frames : gpuFailures budget receipt.gpu = []

def WellFormed (request : IoRequestEvidence) : Prop :=
  request.start ≤ request.last ∧ request.responseBytes = request.last - request.start + 1 ∧
    request.responseBytes ≤ budget.maximumResponseBytes

/-- The range of all `2 ^ 64` bytes. -/
def Whole (request : IoRequestEvidence) : Prop := request.start = 0 ∧ request.last = 2 ^ 64 - 1

/-- Behind well-formed requests only, one is for the whole range. -/
def Endless : List IoRequestEvidence → Prop
  | [] => False
  | request :: rest => Whole request ∨ WellFormed budget request ∧ Endless rest

variable {budget : IoBudget F} {receipt : IoReceipt F}

omit [Quantity F] in
theorem malformed_false {request : IoRequestEvidence} :
    malformed budget request = some false ↔ WellFormed budget request := by
  have hbounded := request.bounded
  rw [malformed, WellFormed]
  split_ifs with hordered hlength
  · simp; omega
  · simp; omega
  · simp; omega

omit [Quantity F] in
theorem malformed_none {request : IoRequestEvidence} :
    malformed budget request = none ↔ Whole request := by
  have hbounded := request.bounded
  rw [malformed, Whole]
  split_ifs with hordered hlength
  · simp; omega
  · simp; omega
  · simp; omega

omit [Quantity F] in
theorem anyMalformed_false {requests : List IoRequestEvidence} :
    anyMalformed budget requests = some false ↔ ∀ r ∈ requests, WellFormed budget r := by
  induction requests with
  | nil => simp [anyMalformed]
  | cons request rest ih =>
    rw [List.forall_mem_cons, ← ih, ← malformed_false, anyMalformed]
    cases malformed budget request with
    | none => simp
    | some bad => cases bad <;> simp

omit [Quantity F] in
theorem anyMalformed_none {requests : List IoRequestEvidence} :
    anyMalformed budget requests = none ↔ Endless budget requests := by
  induction requests with
  | nil => simp [anyMalformed, Endless]
  | cons request rest ih =>
    rw [Endless, ← ih, ← malformed_none, ← malformed_false, anyMalformed]
    cases malformed budget request with
    | none => simp
    | some bad => cases bad <;> simp

theorem missed_eq_nil {failed : Bool} {failure : IoBudgetFailure} :
    missed failed failure = [] ↔ failed = false := by
  cases failed <;> simp [missed]

theorem validate_none : receipt.validate budget = none ↔ Endless budget receipt.requests := by
  rw [validate, ← anyMalformed_none]
  cases anyMalformed budget receipt.requests <;> simp

theorem validate_nil : receipt.validate budget = some [] ↔
    receipt.Within budget ∧ ∀ r ∈ receipt.requests, WellFormed budget r := by
  have hsorted : ∀ l : List IoBudgetFailure,
      (l.insertionSort (·.ctorIdx ≤ ·.ctorIdx)).destutter (· ≠ ·) = [] ↔ l = [] := by
    intro l
    rw [destutter_eq_nil, ← length_eq_zero_iff, length_insertionSort, length_eq_zero_iff]
  rw [← anyMalformed_false, validate]
  cases anyMalformed budget receipt.requests with
  | none => simp
  | some evidence =>
    show some _ = some [] ↔ _
    rw [Option.some.injEq, hsorted]
    simp only [append_eq_nil_iff, missed_eq_nil, decide_eq_false_iff_not, not_lt, Option.some.injEq]
    constructor
    · intro h
      obtain ⟨⟨⟨⟨⟨⟨⟨h1, h2⟩, h3⟩, h4⟩, h5⟩, h6⟩, h7⟩, h8⟩ := h
      exact ⟨⟨h1, h2, h3, h4, h5, h6, h7⟩, h8⟩
    · intro h
      obtain ⟨⟨h1, h2, h3, h4, h5, h6, h7⟩, h8⟩ := h
      exact ⟨⟨⟨⟨⟨⟨⟨h1, h2⟩, h3⟩, h4⟩, h5⟩, h6⟩, h7⟩, h8⟩

end Model

/-- What a clean result is to mean. -/
structure Genuine (receipt : IoReceipt ℚ) (budget : IoBudget ℚ) : Prop where
  ratio : (receipt.responseTotal : ℚ) ≤ budget.maximumTransferRatio * receipt.objectBytes
  largest : ∀ r ∈ receipt.requests, r.responseBytes ≤ budget.maximumResponseBytes
  inside : ∀ r ∈ receipt.requests, r.start ≤ r.last ∧ r.last < receipt.objectBytes
  totals : receipt.transferredBytes = receipt.responseTotal ∧
    receipt.maximumResponseBytes = receipt.responseMaximum

theorem genuine_of_within {receipt : IoReceipt ℚ} {budget : IoBudget ℚ}
    (h : receipt.Within budget) (hformed : ∀ r ∈ receipt.requests, WellFormed budget r)
    (htotals : receipt.transferredBytes = receipt.responseTotal ∧
      receipt.maximumResponseBytes = receipt.responseMaximum)
    (hinside : ∀ r ∈ receipt.requests, r.last < receipt.objectBytes) :
    receipt.Genuine budget where
  ratio := by
    have hratio := h.ratio
    rw [transferRatio, htotals.1] at hratio
    have hle : ¬ budget.maximumTransferRatio <
        (receipt.responseTotal : ℚ) / ((max receipt.objectBytes 1 : Nat) : ℚ) :=
      of_decide_eq_false hratio
    rw [not_lt] at hle
    rcases Nat.eq_zero_or_pos receipt.objectBytes with hzero | hpos
    · have hempty : receipt.requests = [] := by
        refine eq_nil_iff_forall_not_mem.mpr fun r hr => ?_
        have hlast := hinside r hr
        omega
      simp [responseTotal, hempty, hzero]
    · have hcast : (0 : ℚ) < receipt.objectBytes := Nat.cast_pos.mpr hpos
      rw [Nat.max_eq_left hpos] at hle
      exact (div_le_iff₀ hcast).mp hle
  largest r hr := (hformed r hr).2.2
  inside r hr := ⟨(hformed r hr).1, hinside r hr⟩
  totals := htotals

/-- The judgement does not overflow and a clean receipt is genuine, exactly when no well-formed
requests lead to one for all `2 ^ 64` bytes and a receipt within the budget records the totals of
its requests, none of which ends outside the object. -/
theorem validate_genuine_iff (receipt : IoReceipt ℚ) (budget : IoBudget ℚ) :
    (receipt.validate budget ≠ none ∧
      (receipt.validate budget = some [] → receipt.Genuine budget)) ↔
    ¬ Endless budget receipt.requests ∧
      (receipt.Within budget → (∀ r ∈ receipt.requests, WellFormed budget r) →
        (receipt.transferredBytes = receipt.responseTotal ∧
          receipt.maximumResponseBytes = receipt.responseMaximum) ∧
        ∀ r ∈ receipt.requests, r.last < receipt.objectBytes) := by
  rw [Ne, validate_none, validate_nil]
  refine and_congr_right fun _ => ⟨fun h hwithin hformed => ?_, fun h hclean => ?_⟩
  · have hgenuine := h ⟨hwithin, hformed⟩
    exact ⟨hgenuine.totals, fun r hr => (hgenuine.inside r hr).2⟩
  · obtain ⟨htotals, hinside⟩ := h hclean.1 hclean.2
    exact genuine_of_within hclean.1 hclean.2 htotals hinside

/-- Two reads of the whole object, recorded as no transfer at all. -/
def understated : IoReceipt ℚ where
  objectBytes := 600
  logicalDatasetBytes := 600
  requests := [⟨0, 599, 600, by decide⟩, ⟨0, 599, 600, by decide⟩]
  transferredBytes := 0
  maximumResponseBytes := 600
  wholeObjectFallback := false
  peakRssBytes := 1000
  gpu := none

def ci (requireGpu : Bool) : IoBudget ℚ where
  minimumObjectBytes := 1
  minimumLogicalDatasetBytes := 1
  maximumTransferRatio := 1 / 5
  maximumResponseBytes := 8 * 1024 * 1024
  maximumPeakRssBytes := 1024 * 1024 * 1024
  maximumFirstFrameNs := 2000000000
  minimumSteadyStateFps := 30
  requireGpu := requireGpu

theorem validate_passes_understated :
    understated.validate (ci false) = some [] ∧ ¬ understated.Genuine (ci false) := by
  refine ⟨by decide +kernel, fun h => ?_⟩
  have htotals := h.totals.1
  revert htotals
  decide

end IoReceipt
end Storage
end GeneGIS
