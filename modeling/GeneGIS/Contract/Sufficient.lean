/-
The graph is compared with the policy before the checks are made and the evidence after.  `Carried`
says that the checks were made as the graph says, and `Outside` that no failure belongs to the
check gate.
-/
import GeneGIS.Contract.Gates
import GeneGIS.Contract.Verification

namespace GeneGIS

namespace VerificationPolicy

open List

variable {rt : Runtime} {p : VerificationPolicy} {e : TrustEvidence}

def checkCodes : List String :=
  ["missing_check_evidence", "check_failed", "insufficient_verifier_independence",
    "missing_check_digest", "missing_check_error", "check_tolerance_exceeded"]

theorem code_of_mem_failUnless {ok : Bool} {gate : TrustGate} {code subject detail : String}
    {f : TrustFailure} (h : f ∈ failUnless ok gate code subject detail) : f.code = code := by
  unfold failUnless at h
  by_cases hok : ok = true
  · rw [if_pos hok] at h
    cases h
  · rw [if_neg hok] at h
    rw [List.mem_singleton.mp h]
    rfl

/-! ## The codes of the other gates -/

def Outside (failures : List TrustFailure) : Prop := ∀ f ∈ failures, f.code ∉ checkCodes

theorem outside_nil : Outside [] := by
  intro f hf
  cases hf

theorem outside_append {l m : List TrustFailure} (hl : Outside l) (hm : Outside m) :
    Outside (l ++ m) := by
  intro f hf
  rcases mem_append.mp hf with h | h
  · exact hl f h
  · exact hm f h

theorem outside_flatMap {α : Type} {l : List α} {g : α → List TrustFailure}
    (h : ∀ a ∈ l, Outside (g a)) : Outside (l.flatMap g) := by
  intro f hf
  obtain ⟨a, ha, hfa⟩ := mem_flatMap.mp hf
  exact h a ha f hfa

theorem outside_failUnless {ok : Bool} {gate : TrustGate} {code subject detail : String}
    (hcode : code ∉ checkCodes) : Outside (failUnless ok gate code subject detail) := by
  intro f hf
  rw [code_of_mem_failUnless hf]
  exact hcode

theorem outside_requirementFailures (seen : List String) (checks : List CheckRequirement) :
    Outside (requirementFailures seen checks) := by
  induction checks generalizing seen with
  | nil => exact outside_nil
  | cons r rest ih =>
    exact outside_append (outside_append (outside_failUnless (by decide))
      (outside_failUnless (by decide))) (ih _)

theorem outside_validatePolicy (p : VerificationPolicy) : Outside (validatePolicy p) := by
  unfold validatePolicy
  exact outside_append (outside_append (outside_append (outside_failUnless (by decide))
    (outside_failUnless (by decide))) (outside_failUnless (by decide)))
    (outside_requirementFailures [] p.requiredChecks)

theorem outside_replayFailures (p : VerificationPolicy) (replay : ReplayEvidence) :
    Outside (replayFailures p replay) := by
  unfold replayFailures identityFailure
  exact outside_append (outside_append (outside_append (outside_failUnless (by decide))
    (outside_failUnless (by decide))) (outside_failUnless (by decide)))
    (outside_failUnless (by decide))

theorem outside_contractFailures (p : VerificationPolicy) (contracts : List ContractEvidence)
    (required : String) : Outside (contractFailures p contracts required) := by
  unfold contractFailures
  split
  · exact outside_failUnless (by decide)
  · exact outside_failUnless (by decide)

theorem assurance_code (code : String) : "source_assurance_" ++ code ∉ checkCodes := by
  have hfirst : ∀ c ∈ checkCodes, c.toList.head? ≠ some 's' := by
    decide
  intro h
  apply hfirst _ h
  rw [String.toList_append]
  rfl

theorem outside_bindingFailures (rt : Runtime) (source : SourceEvidence) :
    Outside (bindingFailures rt source) := by
  unfold bindingFailures
  split
  · exact outside_nil
  · exact outside_append (outside_failUnless (by decide)) (outside_failUnless (by decide))

theorem outside_assuranceFailures (rt : Runtime) (p : VerificationPolicy)
    (source : SourceEvidence) : Outside (assuranceFailures rt p source) := by
  unfold assuranceFailures
  cases p.sourceAssurance with
  | none => exact outside_nil
  | some policy =>
    cases source.assurance with
    | none => exact outside_failUnless (by decide)
    | some assurance =>
      dsimp only
      by_cases hid : assurance.sourceId = source.sourceId
      · rw [if_neg (not_not.mpr hid)]
        by_cases hpassed : (Assurance.assess rt policy assurance).passed = true
        · rw [if_pos hpassed]
          exact outside_nil
        · rw [if_neg hpassed]
          intro f hf
          obtain ⟨g, -, hg⟩ := mem_map.mp hf
          rw [← hg]
          exact assurance_code g.code
      · rw [if_pos hid]
        exact outside_failUnless (by decide)

theorem outside_sourceFailures (rt : Runtime) (p : VerificationPolicy) (source : SourceEvidence) :
    Outside (sourceFailures rt p source) := by
  unfold sourceFailures
  exact outside_append (outside_append (outside_append (outside_append
    (outside_failUnless (by decide)) (outside_failUnless (by decide)))
    (outside_failUnless (by decide))) (outside_bindingFailures rt source))
    (outside_assuranceFailures rt p source)

theorem outside_attestationFailures (p : VerificationPolicy)
    (attestation : Option AttestationEvidence) : Outside (attestationFailures p attestation) := by
  have hsingle : ∀ gate code subject detail, code ∉ checkCodes →
      Outside [failure gate code subject detail] := by
    intro gate code subject detail hcode f hf
    rw [List.mem_singleton.mp hf]
    exact hcode
  unfold attestationFailures
  split
  · exact hsingle _ _ _ _ (by decide)
  · split
    · exact hsingle _ _ _ _ (by decide)
    · split
      · exact hsingle _ _ _ _ (by decide)
      · split
        · exact hsingle _ _ _ _ (by decide)
        · exact outside_nil

theorem outside_verificationFailures (h : ∀ r ∈ p.requiredChecks, checkFailures e.checks r = []) :
    Outside (verificationFailures rt p e) := by
  unfold verificationFailures
  have hchecks : p.requiredChecks.flatMap (checkFailures e.checks) = [] := flatMap_eq_nil_iff.mpr h
  rw [hchecks, append_nil]
  refine outside_append (outside_append ?_ ?_) ?_
  · exact outside_flatMap fun id _ => outside_contractFailures p e.contracts id
  · exact outside_flatMap fun source _ => outside_sourceFailures rt p source
  · exact outside_failUnless (by decide)

theorem outside_assess (h : ∀ r ∈ p.requiredChecks, checkFailures e.checks r = []) :
    Outside (assess rt p e).failures := by
  unfold assess
  dsimp only
  split
  · exact outside_append (outside_validatePolicy p) (outside_replayFailures p e.replay)
  · split
    · exact outside_verificationFailures h
    · split
      · exact outside_attestationFailures p e.attestation
      · exact outside_nil

end VerificationPolicy

namespace VerificationGraph

open VerificationPolicy (checkFailures checkCodes validDigest assess)

variable {g : VerificationGraph} {p : VerificationPolicy}

/-- The node is as strict as the requirement. -/
structure Serves (r : CheckRequirement) (n : VerificationNode) : Prop where
  checkId : n.checkId = r.checkId
  independence : r.acceptedIndependence.contains n.verifier.independence = true
  tolerance : ∀ maximum, r.maxErrorPpm = some maximum →
    ∃ t, n.tolerance = some t ∧ t.maxErrorPpm ≤ maximum

theorem validateRequirement_ok {r : CheckRequirement} {u : Unit}
    (h : validateRequirement g r = .ok u) : ∃ n ∈ g.nodes, Serves r n := by
  unfold validateRequirement at h
  cases hfind : g.nodes.find? fun n => n.checkId = r.checkId with
  | none =>
    rw [hfind] at h
    cases h
  | some n =>
    rw [hfind] at h
    obtain ⟨v, hindependence, h⟩ := Fallible.bind_iff.mp h
    have hid : n.checkId = r.checkId := by
      simpa using List.find?_some hfind
    refine ⟨n, List.mem_of_find?_eq_some hfind, hid, require_ok.mp hindependence, ?_⟩
    intro maximum hmaximum
    rw [hmaximum] at h
    cases htolerance : n.tolerance with
    | none =>
      rw [htolerance] at h
      cases h
    | some t =>
      rw [htolerance] at h
      exact ⟨t, rfl, of_decide_eq_true (require_ok.mp h)⟩

theorem validateRequirements_ok {requirements : List CheckRequirement} {u : Unit}
    (h : validateRequirements g requirements = .ok u) :
    ∀ r ∈ requirements, ∃ n ∈ g.nodes, Serves r n := by
  induction requirements with
  | nil =>
    intro r hr
    cases hr
  | cons r rest ih =>
    obtain ⟨v, hr, hrest⟩ := Fallible.bind_iff.mp h
    rw [List.forall_mem_cons]
    exact ⟨validateRequirement_ok hr, ih hrest⟩

theorem validateAgainstPolicy_serves {u : Unit} (h : g.validateAgainstPolicy p = .ok u) :
    ∀ r ∈ p.requiredChecks, ∃ n ∈ g.nodes, Serves r n := by
  obtain ⟨v, -, h⟩ := Fallible.bind_iff.mp h
  obtain ⟨w, -, h⟩ := Fallible.bind_iff.mp h
  exact validateRequirements_ok h

/-! ## The checks of a graph, made -/

/-- What a check reports when it was made as its node says. -/
structure Made (n : VerificationNode) (c : VerificationEvidence) : Prop where
  passed : c.passed = true
  independence : c.independence = n.verifier.independence
  digest : c.evidenceDigest.any validDigest = true
  tolerance : ∀ t, n.tolerance = some t →
    ∃ observed, c.observedErrorPpm = some observed ∧ observed ≤ t.maxErrorPpm

/-- One entry for each node under its identifier, and the check was made. -/
def Carried (g : VerificationGraph) (checks : List VerificationEvidence) : Prop :=
  ∀ n ∈ g.nodes, ∃ c, checks.filter (fun c => c.checkId = n.checkId) = [c] ∧ Made n c

theorem Made.ok {r : CheckRequirement} {n : VerificationNode} {c : VerificationEvidence}
    (hmade : Made n c) (hserves : Serves r n) : VerificationPolicy.CheckOk r c := by
  refine ⟨hmade.passed, ?_, hmade.digest, ?_⟩
  · rw [hmade.independence]
    exact hserves.independence
  · intro maximum hmaximum
    obtain ⟨t, htolerance, hle⟩ := hserves.tolerance maximum hmaximum
    obtain ⟨observed, hobserved, hwithin⟩ := hmade.tolerance t htolerance
    exact ⟨observed, hobserved, by omega⟩

theorem Carried.checkFailures {checks : List VerificationEvidence} (hcarried : Carried g checks)
    {r : CheckRequirement} (hserved : ∃ n ∈ g.nodes, Serves r n) : checkFailures checks r = [] := by
  obtain ⟨n, hn, hserves⟩ := hserved
  obtain ⟨c, hfilter, hmade⟩ := hcarried n hn
  rw [hserves.checkId] at hfilter
  have hfind : (checks.find? fun c => c.checkId = r.checkId) = some c := by
    rw [← List.head?_filter, hfilter]
    rfl
  exact VerificationPolicy.checkFailures_nil.mpr ⟨c, hfind, hmade.ok hserves⟩

/-- The check gate passes every requirement and reports no failure. The policy need not be valid:
what its validation finds has other codes. -/
theorem carried_passes_check_gate (rt : Runtime) {e : TrustEvidence}
    (hgraph : g.validateAgainstPolicy p = .ok ()) (hcarried : Carried g e.checks) :
    (∀ r ∈ p.requiredChecks, checkFailures e.checks r = []) ∧
    ∀ f ∈ (assess rt p e).failures, f.code ∉ checkCodes := by
  have hchecks : ∀ r ∈ p.requiredChecks, checkFailures e.checks r = [] := by
    intro r hr
    exact hcarried.checkFailures (validateAgainstPolicy_serves hgraph r hr)
  exact ⟨hchecks, VerificationPolicy.outside_assess hchecks⟩

namespace Sample

def digest : String := "sha256:" ++ String.ofList (List.replicate 64 'b')

def density : VerificationNode :=
  { checkId := "density-recount", claim := "density equals people per square kilometre"
    subjectContracts := ["nagoya-density"], evidenceInputs := ["density.tif"]
    verifier :=
      { verifierId := "recount", engine := "native", implementation := "genegis-verify/1"
        independence := .differentEngine }
    tolerance := some { metric := "relative_error", maxErrorPpm := 50 }, dependsOn := [] }

def graph : VerificationGraph := { new "nagoya-checks" with nodes := [density] }

def policy : VerificationPolicy :=
  { VerificationPolicy.new "nagoya-release-v1" with
    requiredChecks :=
      [{ checkId := "density-recount"
         acceptedIndependence := .ofList [IndependenceClass.differentEngine]
         maxErrorPpm := some 100 }] }

def evidence : TrustEvidence :=
  { replay :=
      { workflowDigest := some digest, resultDigest := some digest
        backendIdentity := some "genegis:native:0.1.0", artifactDigests := [digest] }
    contracts := [], sources := []
    checks :=
      [{ checkId := "density-recount", passed := true, independence := .differentEngine
         observedErrorPpm := some 40, evidenceDigest := some digest }]
    attestation := none }

end Sample

/-- A graph of one check and the evidence of it.  The assessment stops at the sources. -/
theorem carried_passes_check_gate_sample :
    Sample.graph.validateAgainstPolicy Sample.policy = .ok () ∧
    (∀ r ∈ Sample.policy.requiredChecks, checkFailures Sample.evidence.checks r = []) ∧
    ∀ f ∈ (assess Runtime.reference Sample.policy Sample.evidence).failures,
      f.code ∉ checkCodes := by
  have hgraph : Sample.graph.validateAgainstPolicy Sample.policy = .ok () := by
    decide
  refine ⟨hgraph, carried_passes_check_gate Runtime.reference hgraph ?_⟩
  intro n hn
  rw [List.mem_singleton.mp hn]
  refine ⟨_, rfl, rfl, rfl, by decide, ?_⟩
  intro t ht
  cases ht
  exact ⟨40, rfl, by decide⟩

end VerificationGraph
end GeneGIS
