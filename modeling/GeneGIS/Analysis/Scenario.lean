/-
A branch is sealed by the digest of its document.  Two branches are compared by key, and a merge
needs an approval that names the digest of the comparison.
-/
import GeneGIS.Analysis.VerifiedAlert
import GeneGIS.Capsule.DiffPatch
import GeneGIS.Data.Shown

namespace GeneGIS

open List

structure ScenarioAssumption where
  value : Value
  unit : String

structure ScenarioSpatialOutcome where
  unit : String
  byArea : Std.ExtTreeMap String F64

structure ScenarioBranch where
  schemaVersion : String
  branchId : String
  baseProjectDigest : String
  workflowDigest : String
  resultDigest : String
  assumptions : Std.ExtTreeMap String ScenarioAssumption
  outcomes : Std.ExtTreeMap String ScenarioSpatialOutcome
  branchDigest : String

structure ScenarioSemanticChange where
  category : String
  path : String
  base : Option Value
  scenario : Option Value

structure ScenarioComparison where
  baseProjectDigest : String
  baseBranchDigest : String
  scenarioBranchDigest : String
  changes : List ScenarioSemanticChange
  diffDigest : String

structure ScenarioApproval where
  reviewer : String
  approvedAt : String
  diffDigest : String
  scenarioBranchDigest : String

structure ScenarioMergeCommit where
  baseProjectDigest : String
  scenarioBranchDigest : String
  diffDigest : String
  reviewer : String
  approvedAt : String
  mergedProjectDigest : String
  mergeDigest : String

inductive ScenarioError where
  | invalid (reason : String)
  deriving DecidableEq

/-! ## Documents -/

namespace ScenarioAssumption

/-- A value of its own, its members in key order. -/
def toValue (a : ScenarioAssumption) : Value where
  json := .obj [("unit", .str a.unit), ("value", a.value.json)]
  ordered := by
    refine ⟨?_, trivial, a.value.ordered, trivial⟩
    simp only [pairwise_cons, mem_singleton, not_mem_nil, forall_eq,
      false_implies, implies_true, Pairwise.nil, and_true]
    decide

def toJson (a : ScenarioAssumption) : Json := .obj [("value", a.value.json), ("unit", .str a.unit)]

/-- `==` of two assumptions. -/
def same (a b : ScenarioAssumption) : Bool :=
  Capsule.sameJson a.value.json b.value.json && a.unit == b.unit

end ScenarioAssumption

namespace ScenarioSpatialOutcome

variable (o : ScenarioSpatialOutcome)

def areas : Value := .ofMap Value.ofF64 o.byArea

def toValue : Value where
  json := .obj [("by_area", o.areas.json), ("unit", .str o.unit)]
  ordered := by
    refine ⟨?_, o.areas.ordered, trivial, trivial⟩
    simp only [pairwise_cons, mem_singleton, not_mem_nil, forall_eq,
      false_implies, implies_true, Pairwise.nil, and_true]
    decide

def toJson : Json := .obj [("unit", .str o.unit), ("by_area", o.areas.json)]

/-- `==` of two maps of numbers: as many areas, and in order the same areas with equal
numbers. -/
def sameAreas (a b : Std.ExtTreeMap String F64) : Bool := a.toList.length == b.toList.length &&
    (a.toList.zip b.toList).all fun (x, y) => x.1 == y.1 && F64.eq x.2 y.2

def same (a b : ScenarioSpatialOutcome) : Bool := a.unit == b.unit && sameAreas a.byArea b.byArea

end ScenarioSpatialOutcome

def ScenarioBranch.toJson (b : ScenarioBranch) : Json :=
  .obj [("schema_version", .str b.schemaVersion), ("branch_id", .str b.branchId),
    ("base_project_digest", .str b.baseProjectDigest),
    ("workflow_digest", .str b.workflowDigest), ("result_digest", .str b.resultDigest),
    ("assumptions", .obj (b.assumptions.toList.map fun e => (e.1, e.2.toJson))),
    ("outcomes", .obj (b.outcomes.toList.map fun e => (e.1, e.2.toJson))),
    ("branch_digest", .str b.branchDigest)]

def ScenarioSemanticChange.toValue (c : ScenarioSemanticChange) : Value :=
  .object [("category", .str c.category), ("path", .str c.path),
    ("base", .ofOption id c.base), ("scenario", .ofOption id c.scenario)]

namespace Scenario

variable (rt : Runtime)

abbrev Scenarios (α : Type) := Except ScenarioError α

def schemaVersion : String := "0.1.0"

def branchDigest (b : ScenarioBranch) : String :=
  rt.digestCompact { b with branchDigest := "" }.toJson

def require (holds : Bool) (reason : String) : Scenarios Unit :=
  if holds then .ok () else .error (.invalid reason)

def requireDigest (value : String) : Scenarios Unit :=
  require (Text.isSha256 value) "invalid SHA-256 identity"

def validateDraft (b : ScenarioBranch) : Scenarios Unit := do
  require (!(Text.isBlank b.branchId || b.assumptions.isEmpty || b.outcomes.isEmpty))
    "branch, assumptions, and outcomes are required"
  requireDigest b.baseProjectDigest
  requireDigest b.workflowDigest
  requireDigest b.resultDigest
  require (!((b.assumptions.toList.any fun e => Text.isBlank e.1 || Text.isBlank e.2.unit) ||
      b.outcomes.toList.any fun e =>
        Text.isBlank e.1 || Text.isBlank e.2.unit || e.2.byArea.isEmpty ||
          e.2.byArea.toList.any fun number => !number.2.isFinite))
    "assumption or outcome semantics are invalid"

def verifyBranch (b : ScenarioBranch) : Scenarios Unit := do
  validateDraft b
  require (!(b.schemaVersion != schemaVersion || b.branchDigest != branchDigest rt b))
    "branch digest mismatch"

/-- `==` of what two maps have under a key. -/
def sameEntry {T : Type} (same : T → T → Bool) : Option T → Option T → Bool
  | some a, some b => same a b
  | none, none => true
  | _, _ => false

def changePath (category key : String) : String := "/" ++ category ++ "s/" ++ key

/-- The loop over the keys of both maps. -/
def diffMaps {T : Type} (same : T → T → Bool) (toValue : T → Value) (category : String)
    (base scenario : Std.ExtTreeMap String T) : List ScenarioSemanticChange :=
  (Std.ExtTreeSet.ofList (base.keys ++ scenario.keys)).toList.filterMap fun key =>
    if sameEntry same base[key]? scenario[key]? then none
    else some { category := category, path := changePath category key
                base := base[key]?.map toValue, scenario := scenario[key]?.map toValue }

variable (base scenario : ScenarioBranch)

def changes : List ScenarioSemanticChange :=
  diffMaps ScenarioAssumption.same ScenarioAssumption.toValue "assumption" base.assumptions
      scenario.assumptions ++
    diffMaps ScenarioSpatialOutcome.same ScenarioSpatialOutcome.toValue "outcome" base.outcomes
      scenario.outcomes

def comparisonDocument (c : ScenarioComparison) : Value :=
  .object [("base_project_digest", .str c.baseProjectDigest),
    ("base_branch_digest", .str c.baseBranchDigest),
    ("scenario_branch_digest", .str c.scenarioBranchDigest),
    ("changes", .ofList ScenarioSemanticChange.toValue c.changes)]

protected def compare (base scenario : ScenarioBranch) : Scenarios ScenarioComparison := do
  verifyBranch rt base
  verifyBranch rt scenario
  require (!(base.baseProjectDigest != scenario.baseProjectDigest ||
      base.branchDigest == scenario.branchDigest))
    "branches require same base and distinct identity"
  let comparison : ScenarioComparison :=
    { baseProjectDigest := base.baseProjectDigest, baseBranchDigest := base.branchDigest
      scenarioBranchDigest := scenario.branchDigest, changes := changes base scenario
      diffDigest := "" }
  return { comparison with
           diffDigest := rt.digestCompact (comparisonDocument comparison).json }

def mergedProject (comparison : ScenarioComparison) : Value :=
  .object [("base", .str base.baseProjectDigest), ("selected_branch", .str scenario.branchDigest),
    ("result", .str scenario.resultDigest), ("diff", .str comparison.diffDigest)]

def commitDocument (c : ScenarioMergeCommit) : Value :=
  .object [("base_project_digest", .str c.baseProjectDigest),
    ("scenario_branch_digest", .str c.scenarioBranchDigest), ("diff_digest", .str c.diffDigest),
    ("reviewer", .str c.reviewer), ("approved_at", .str c.approvedAt),
    ("merged_project_digest", .str c.mergedProjectDigest)]

def merge (approval : ScenarioApproval) : Scenarios ScenarioMergeCommit := do
  let comparison ← Scenario.compare rt base scenario
  require (!(approval.diffDigest != comparison.diffDigest ||
      approval.scenarioBranchDigest != scenario.branchDigest))
    "approval no longer matches semantic diff"
  let commit : ScenarioMergeCommit :=
    { baseProjectDigest := base.baseProjectDigest, scenarioBranchDigest := scenario.branchDigest
      diffDigest := comparison.diffDigest, reviewer := approval.reviewer
      approvedAt := approval.approvedAt
      mergedProjectDigest := rt.digestCompact (mergedProject base scenario comparison).json
      mergeDigest := "" }
  return { commit with mergeDigest := rt.digestCompact (commitDocument commit).json }

end Scenario
end GeneGIS

/-! ## What the comparison of two branches says, and what an approval is bound to

The changes of a category tell two maps apart, and an approval names a digest of both branches. -/

namespace GeneGIS.Scenario

open Capsule Fallible
open List hiding any_eq_false getElem?_insert
open Option hiding any_eq_false
open Bool hiding and_true eq_iff_iff false_or not_or true_and
open Std.ExtTreeMap hiding getElem?_insert
open ScenarioSpatialOutcome (areas sameAreas toJson)
open Value (json ofF64 ofMap)

/-! ## The changes of one map -/

section Maps

variable {T : Type} {same : T → T → Bool} {toValue : T → Value} {category : String}

/-- The entries of a map as they are serialized. -/
def serialized (toValue : T → Value) (m : Std.ExtTreeMap String T) : Std.ExtTreeMap String Value :=
  m.map fun _ => toValue

/-- A change carried out on the entries of its category; other entries do not see it. -/
def applyChange (category : String) (entries : Std.ExtTreeMap String Value)
    (c : ScenarioSemanticChange) : Std.ExtTreeMap String Value :=
  match Text.withoutPrefix (changePath category "") c.path with
  | none => entries
  | some key =>
    match c.scenario with
    | some value => entries.insert key value
    | none => entries.erase key

def applyChanges (category : String) (changes : List ScenarioSemanticChange)
    (entries : Std.ExtTreeMap String Value) : Std.ExtTreeMap String Value :=
  changes.foldl (applyChange category) entries

/-- The change under a key, if the maps differ there. -/
def changeAt (same : T → T → Bool) (toValue : T → Value) (category : String)
    (base scenario : Std.ExtTreeMap String T) (key : String) : Option ScenarioSemanticChange :=
  if sameEntry same base[key]? scenario[key]? then none
  else some { category := category, path := changePath category key
              base := base[key]?.map toValue, scenario := scenario[key]?.map toValue }

def allKeys (base scenario : Std.ExtTreeMap String T) : List String :=
  (Std.ExtTreeSet.ofList (base.keys ++ scenario.keys)).toList

theorem diffMaps_eq (base scenario : Std.ExtTreeMap String T) :
    diffMaps same toValue category base scenario =
      (allKeys base scenario).filterMap (changeAt same toValue category base scenario) := rfl

variable {base scenario : Std.ExtTreeMap String T}

theorem mem_allKeys {key : String} : key ∈ allKeys base scenario ↔ key ∈ base ∨ key ∈ scenario := by
  rw [allKeys, Std.ExtTreeSet.mem_toList, Std.ExtTreeSet.mem_ofList, List.contains_eq_mem,
    decide_eq_true_eq, mem_append, Std.ExtTreeMap.mem_keys, Std.ExtTreeMap.mem_keys]

theorem allKeys_nodup (base scenario : Std.ExtTreeMap String T) :
    (allKeys base scenario).Nodup := Keyed.nodup_toList _

theorem sameEntry_absent {key : String}
    (h : key ∉ allKeys base scenario) : sameEntry same base[key]? scenario[key]? = true := by
  rw [mem_allKeys, not_or] at h
  rw [getElem?_eq_none h.1, getElem?_eq_none h.2]
  rfl

theorem diffMaps_nil : diffMaps same toValue category base scenario = [] ↔
      ∀ key : String, sameEntry same base[key]? scenario[key]? = true := by
  rw [diffMaps_eq, filterMap_eq_nil_iff]
  constructor
  · intro h key
    by_cases hkey : key ∈ allKeys base scenario
    · have hnone := h key hkey
      by_contra hne
      rw [changeAt, if_neg hne] at hnone
      cases hnone
    · exact sameEntry_absent hkey
  · intro h key _
    rw [changeAt, if_pos (h key)]

theorem changePath_split (category key : String) :
    changePath category key = changePath category "" ++ key := by
  rw [changePath, changePath, String.append_empty]

theorem changePath_inj {category key key' : String}
    (h : changePath category key = changePath category key') : key = key' := by
  rw [changePath_split category key, changePath_split category key'] at h
  exact (String.append_right_inj _).mp h

theorem path_diffMaps {c : ScenarioSemanticChange}
    (h : c ∈ diffMaps same toValue category base scenario) :
    ∃ key, c.path = changePath category key := by
  rw [diffMaps_eq, mem_filterMap] at h
  obtain ⟨key, -, hc⟩ := h
  rw [changeAt] at hc
  by_cases hsame : sameEntry same base[key]? scenario[key]? = true
  · rw [if_pos hsame] at hc
    cases hc
  · rw [if_neg hsame, Option.some.injEq] at hc
    exact ⟨key, by rw [← hc]⟩

theorem diffMaps_paths (base scenario : Std.ExtTreeMap String T) :
    ((diffMaps same toValue category base scenario).map ScenarioSemanticChange.path).Nodup := by
  rw [diffMaps_eq, map_filterMap]
  have hpath : ∀ key, (changeAt same toValue category base scenario key).map
      ScenarioSemanticChange.path = if sameEntry same base[key]? scenario[key]? then none
        else some (changePath category key) := by
    intro key
    rw [changeAt]
    by_cases hsame : sameEntry same base[key]? scenario[key]? = true
    · rw [if_pos hsame, if_pos hsame, map_none]
    · rw [if_neg hsame, if_neg hsame, map_some]
  refine (allKeys_nodup base scenario).filterMap fun key key' path h h' => ?_
  rw [mem_def, hpath] at h h'
  split_ifs at h h' with hsame hsame'
  simp only [Option.some.injEq] at h h'
  exact changePath_inj (h.trans h'.symm)

@[simp] theorem getElem?_serialized (m : Std.ExtTreeMap String T) (key : String) :
    (serialized toValue m)[key]? = m[key]?.map toValue := by
  rw [serialized, Std.ExtTreeMap.getElem?_map]

theorem getElem?_applyChange (entries : Std.ExtTreeMap String Value) (c : ScenarioSemanticChange)
    {key : String} (hpath : c.path = changePath category key) (other : String) :
    (applyChange category entries c)[other]? =
      if other = key then c.scenario else entries[other]? := by
  have hkey : Text.withoutPrefix (changePath category "") c.path = some key :=
    Text.withoutPrefix_iff.mpr (hpath.trans (changePath_split category key))
  rw [applyChange, hkey]
  by_cases hother : other = key
  · rw [if_pos hother, hother]
    cases hscenario : c.scenario with
    | none => exact getElem?_erase_self
    | some value => exact getElem?_insert_self
  · rw [if_neg hother]
    cases hscenario : c.scenario with
    | none =>
      rw [getElem?_erase, if_neg fun h => hother (Std.LawfulEqCmp.eq_of_compare h).symm]
    | some value => exact Keyed.getElem?_insert_ne hother

theorem getElem?_applyAll (base scenario : Std.ExtTreeMap String T) (key : String) :
    ∀ (keys : List String) (entries : Std.ExtTreeMap String Value), keys.Nodup →
      (applyChanges category (keys.filterMap (changeAt same toValue category base scenario))
        entries)[key]? =
        if key ∈ keys ∧ ¬ sameEntry same base[key]? scenario[key]? = true
        then scenario[key]?.map toValue else entries[key]?
  | [], entries, _ => by
    rw [if_neg (by simp)]
    rfl
  | first :: rest, entries, hnodup => by
    rw [nodup_cons] at hnodup
    by_cases hsame : sameEntry same base[first]? scenario[first]? = true
    · have hnone : changeAt same toValue category base scenario first = none := if_pos hsame
      rw [filterMap_cons_none hnone, getElem?_applyAll base scenario key rest entries hnodup.2]
      by_cases hkey : key = first
      · rw [hkey, if_neg (fun h => h.2 hsame), if_neg (fun h => h.2 hsame)]
      · simp only [mem_cons, hkey, false_or]
    · obtain ⟨c, hc⟩ : ∃ c, changeAt same toValue category base scenario first = some c :=
        ⟨_, if_neg hsame⟩
      have hpath : c.path = changePath category first := by
        rw [changeAt, if_neg hsame, Option.some.injEq] at hc
        rw [← hc]
      have hvalue : c.scenario = scenario[first]?.map toValue := by
        rw [changeAt, if_neg hsame, Option.some.injEq] at hc
        rw [← hc]
      rw [filterMap_cons_some hc, applyChanges, foldl_cons, ← applyChanges,
        getElem?_applyAll base scenario key rest _ hnodup.2, getElem?_applyChange _ c hpath]
      by_cases hkey : key = first
      · rw [hkey, if_neg (fun h => hnodup.1 h.1), if_pos rfl, if_pos ⟨mem_cons_self, hsame⟩, hvalue]
      · simp only [mem_cons, hkey, false_or, if_false]

theorem getElem?_applyChanges (base scenario : Std.ExtTreeMap String T) (key : String) :
    (applyChanges category (diffMaps same toValue category base scenario)
      (serialized toValue base))[key]? =
      if sameEntry same base[key]? scenario[key]? then base[key]?.map toValue
      else scenario[key]?.map toValue := by
  rw [diffMaps_eq, getElem?_applyAll base scenario key _ _ (allKeys_nodup base scenario),
    getElem?_serialized]
  by_cases hsame : sameEntry same base[key]? scenario[key]? = true
  · rw [if_pos hsame, if_neg (fun h => h.2 hsame)]
  · have hkey : key ∈ allKeys base scenario := by
      by_contra hkey
      exact hsame (sameEntry_absent hkey)
    rw [if_neg hsame, if_pos ⟨hkey, hsame⟩]

theorem applyChanges_other {changes : List ScenarioSemanticChange}
    (h : ∀ c ∈ changes, Text.withoutPrefix (changePath category "") c.path = none)
    (entries : Std.ExtTreeMap String Value) : applyChanges category changes entries = entries := by
  induction changes generalizing entries with
  | nil => rfl
  | cons c changes ih =>
    rw [applyChanges, foldl_cons, ← applyChanges]
    have hc : applyChange category entries c = entries := by
      rw [applyChange, h c mem_cons_self]
    rw [hc]
    exact ih (fun c hc => h c (mem_cons_of_mem _ hc)) entries

theorem applyChanges_append (l m : List ScenarioSemanticChange)
    (entries : Std.ExtTreeMap String Value) :
    applyChanges category (l ++ m) entries =
      applyChanges category m (applyChanges category l entries) := foldl_append

end Maps

/-! ## Equal entries have equal documents -/

variable {x y : F64}

theorem eq_symm (h : F64.eq x y = true) : F64.eq y x = true := by
  simp only [F64.eq, and_eq_true, Bool.not_eq_true', beq_iff_eq] at h ⊢
  exact ⟨⟨h.1.2, h.1.1⟩, h.2.symm⟩

theorem isFinite_of_eq (h : F64.eq x y = true) (hx : x.isFinite = true) : y.isFinite = true := by
  simp only [F64.eq, and_eq_true, Bool.not_eq_true', beq_iff_eq] at h
  obtain ⟨⟨-, hnan⟩, hrank⟩ := h
  by_contra hy
  obtain ⟨hlow, hhigh⟩ := F64.rank_bounds hx
  rw [hrank] at hlow hhigh
  rcases F64.infinite_cases hnan (eq_false_of_ne_true hy) with h | h
  · rw [h] at hlow
    exact lt_irrefl _ hlow
  · rw [h] at hhigh
    exact lt_irrefl _ hhigh

theorem sameJson_ofF64 (h : F64.eq x y = true) : sameJson (ofF64 x).json (ofF64 y).json = true := by
  have hfinite : x.isFinite = y.isFinite := by
    rw [Bool.eq_iff_iff]
    exact ⟨isFinite_of_eq h, isFinite_of_eq (eq_symm h)⟩
  rw [ofF64, ofF64]
  by_cases hx : x.isFinite = true
  · rw [dif_pos hx, dif_pos (hfinite ▸ hx), sameJson]
    · exact h
    all_goals simp
  · rw [dif_neg hx, dif_neg (hfinite ▸ hx)]
    exact sameJson_self _

theorem sameMembers_areas : ∀ {a b : List (String × F64)}, a.length = b.length →
    ((a.zip b).all fun (x, y) => x.1 == y.1 && F64.eq x.2 y.2) = true →
    sameMembers (a.map fun e => (e.1, (ofF64 e.2).json))
      (b.map fun e => (e.1, (ofF64 e.2).json)) = true
  | [], [], _, _ => by rw [map_nil, sameMembers]
  | x :: a, y :: b, hlength, h => by
    rw [zip_cons_cons, all_cons, and_eq_true, and_eq_true] at h
    rw [map_cons, map_cons, sameMembers, h.1.1, sameJson_ofF64 h.1.2,
      sameMembers_areas (by simpa using hlength) h.2]
    rfl

theorem sameJson_assumption {a b : ScenarioAssumption} (h : a.same b = true) :
    sameJson a.toValue.json b.toValue.json = true := by
  rw [ScenarioAssumption.same, and_eq_true] at h
  rw [ScenarioAssumption.toValue, ScenarioAssumption.toValue, sameJson, sameMembers, sameMembers,
    sameMembers, h.1, eq_of_beq h.2, sameJson_self]
  rfl

theorem sameJson_outcome {a b : ScenarioSpatialOutcome} (h : a.same b = true) :
    sameJson a.toValue.json b.toValue.json = true := by
  rw [ScenarioSpatialOutcome.same, sameAreas, and_eq_true, and_eq_true] at h
  have hareas : sameJson a.areas.json b.areas.json = true := by
    rw [areas, areas, ofMap, ofMap, sameJson]
    exact sameMembers_areas (eq_of_beq h.2.1) h.2.2
  rw [ScenarioSpatialOutcome.toValue, ScenarioSpatialOutcome.toValue, sameJson, sameMembers,
    sameMembers, sameMembers, hareas, eq_of_beq h.1, sameJson_self]
  rfl

/-- The entries of two maps, up to the equality of documents. -/
def sameEntries (a b : Std.ExtTreeMap String Value) : Prop :=
  ∀ key : String, sameSlot (a[key]?.map json) (b[key]?.map json) = true

theorem sameEntries_applyChanges {T : Type} {same : T → T → Bool} {toValue : T → Value}
    {category : String} (hsame : ∀ a b, same a b = true →
      sameJson (toValue a).json (toValue b).json = true)
    (base scenario : Std.ExtTreeMap String T) :
    sameEntries (applyChanges category (diffMaps same toValue category base scenario)
      (serialized toValue base)) (serialized toValue scenario) := by
  intro key
  rw [getElem?_applyChanges, getElem?_serialized]
  by_cases h : sameEntry same base[key]? scenario[key]? = true
  · rw [if_pos h]
    cases hbase : base[key]? with
    | none =>
      cases hscenario : scenario[key]? with
      | none => rfl
      | some b =>
        rw [hbase, hscenario] at h
        cases h
    | some a =>
      cases hscenario : scenario[key]? with
      | none =>
        rw [hbase, hscenario] at h
        cases h
      | some b =>
        rw [hbase, hscenario] at h
        exact hsame a b h
  · rw [if_neg h]
    exact sameSlot_self _

/-- Equality of what two branches assume and of what comes out. -/
structure SameContents (base scenario : ScenarioBranch) : Prop where
  assumptions : ∀ key : String, sameEntry ScenarioAssumption.same base.assumptions[key]?
    scenario.assumptions[key]? = true
  outcomes : ∀ key : String, sameEntry ScenarioSpatialOutcome.same base.outcomes[key]?
    scenario.outcomes[key]? = true

theorem changes_nil {base scenario : ScenarioBranch} :
    changes base scenario = [] ↔ SameContents base scenario := by
  rw [changes, append_eq_nil_iff, diffMaps_nil, diffMaps_nil]
  exact ⟨fun h => ⟨h.1, h.2⟩, fun h => ⟨h.assumptions, h.outcomes⟩⟩

theorem changePath_apart (key key' : String) :
    changePath "assumption" key ≠ changePath "outcome" key' := by
  intro h
  have hchars := congrArg String.toList h
  simp only [changePath, String.toList_append] at hchars
  have hsecond := congrArg (fun l => l[1]?) hchars
  exact absurd (Option.some.inj hsecond) (by decide)

theorem changes_paths (base scenario : ScenarioBranch) :
    ((changes base scenario).map ScenarioSemanticChange.path).Nodup := by
  rw [changes, map_append, nodup_append]
  refine ⟨diffMaps_paths _ _, diffMaps_paths _ _, ?_⟩
  intro path hpath path' hpath' heq
  obtain ⟨c, hc, rfl⟩ := mem_map.mp hpath
  obtain ⟨c', hc', rfl⟩ := mem_map.mp hpath'
  obtain ⟨key, hkey⟩ := path_diffMaps hc
  obtain ⟨key', hkey'⟩ := path_diffMaps hc'
  rw [hkey, hkey'] at heq
  exact changePath_apart key key' heq

theorem applyChanges_apart {T : Type} {same : T → T → Bool} {toValue : T → Value}
    {category other : String} (hne : ∀ key key', changePath category key ≠ changePath other key')
    (base scenario : Std.ExtTreeMap String T) (entries : Std.ExtTreeMap String Value) :
    applyChanges category (diffMaps same toValue other base scenario) entries = entries := by
  refine applyChanges_other (fun c hc => ?_) entries
  obtain ⟨key, hkey⟩ := path_diffMaps hc
  cases hsplit : Text.withoutPrefix (changePath category "") c.path with
  | none => rfl
  | some rest =>
    rw [Text.withoutPrefix_iff, ← changePath_split] at hsplit
    exact absurd (hsplit.symm.trans hkey) (hne rest key)

theorem applied_assumptions (base scenario : ScenarioBranch) :
    sameEntries (applyChanges "assumption" (changes base scenario)
      (serialized ScenarioAssumption.toValue base.assumptions))
      (serialized ScenarioAssumption.toValue scenario.assumptions) := by
  rw [changes, applyChanges_append, applyChanges_apart changePath_apart]
  exact sameEntries_applyChanges (fun _ _ h => sameJson_assumption h) _ _

theorem applied_outcomes (base scenario : ScenarioBranch) :
    sameEntries (applyChanges "outcome" (changes base scenario)
      (serialized ScenarioSpatialOutcome.toValue base.outcomes))
      (serialized ScenarioSpatialOutcome.toValue scenario.outcomes) := by
  have hne : ∀ key key', changePath "outcome" key ≠ changePath "assumption" key' :=
    fun key key' h => changePath_apart key' key h.symm
  rw [changes, applyChanges_append, applyChanges_apart hne]
  exact sameEntries_applyChanges (fun _ _ h => sameJson_outcome h) _ _

/-! ## What the digests are bound to -/

variable {rt : Runtime}

theorem require_ok {holds : Bool} {reason : String} :
    require holds reason = .ok () ↔ holds = true := by
  rw [require]
  cases holds with
  | true => simp
  | false => simp

/-- The comparison of two branches before it is sealed. -/
def unsealed (base scenario : ScenarioBranch) : ScenarioComparison where
  baseProjectDigest := base.baseProjectDigest
  baseBranchDigest := base.branchDigest
  scenarioBranchDigest := scenario.branchDigest
  changes := changes base scenario
  diffDigest := ""

def comparison (rt : Runtime) (base scenario : ScenarioBranch) : ScenarioComparison :=
  { unsealed base scenario with
    diffDigest := rt.digestCompact (comparisonDocument (unsealed base scenario)).json }

/-- Two branches that are compared. -/
structure Comparable (rt : Runtime) (base scenario : ScenarioBranch) : Prop where
  verifiedBase : verifyBranch rt base = .ok ()
  verifiedScenario : verifyBranch rt scenario = .ok ()
  project : base.baseProjectDigest = scenario.baseProjectDigest
  distinct : base.branchDigest ≠ scenario.branchDigest

theorem compare_ok {base scenario : ScenarioBranch} {c : ScenarioComparison} :
    Scenario.compare rt base scenario = .ok c ↔
      Comparable rt base scenario ∧ comparison rt base scenario = c := by
  simp only [Scenario.compare, bind_iff, Unique.exists_iff, PUnit.default_eq_unit, require_ok]
  constructor
  · intro h
    obtain ⟨hbase, hscenario, hapart, hc⟩ := h
    simp only [Bool.not_eq_true', Bool.or_eq_false_iff, bne_eq_false_iff_eq,
      beq_eq_false_iff_ne] at hapart
    exact ⟨⟨hbase, hscenario, hapart.1, hapart.2⟩, Except.ok.inj hc⟩
  · intro h
    obtain ⟨hc, rfl⟩ := h
    refine ⟨hc.verifiedBase, hc.verifiedScenario, ?_, rfl⟩
    simp only [Bool.not_eq_true', Bool.or_eq_false_iff, bne_eq_false_iff_eq, beq_eq_false_iff_ne]
    exact ⟨hc.project, hc.distinct⟩

theorem merge_ok {base scenario : ScenarioBranch} {approval : ScenarioApproval} :
    (∃ commit, merge rt base scenario approval = .ok commit) ↔ Comparable rt base scenario ∧
      approval.diffDigest = (comparison rt base scenario).diffDigest ∧
      approval.scenarioBranchDigest = scenario.branchDigest := by
  simp only [merge, bind_iff, Unique.exists_iff, PUnit.default_eq_unit, require_ok, compare_ok]
  constructor
  · intro h
    obtain ⟨commit, c, hc, hnamed, hcommit⟩ := h
    obtain ⟨hcomparable, rfl⟩ := hc
    simp only [Bool.not_eq_true', Bool.or_eq_false_iff, bne_eq_false_iff_eq] at hnamed
    exact ⟨hcomparable, hnamed⟩
  · intro h
    obtain ⟨hcomparable, hnamed⟩ := h
    refine ⟨_, _, ⟨hcomparable, rfl⟩, ?_, rfl⟩
    simp only [Bool.not_eq_true', Bool.or_eq_false_iff, bne_eq_false_iff_eq]
    exact hnamed

/-- The documents that two branches and their comparison are sealed by. -/
def sealedDocuments (base scenario : ScenarioBranch) : List Json :=
  [{ base with branchDigest := "" }.toJson, { scenario with branchDigest := "" }.toJson,
    (comparisonDocument (unsealed base scenario)).json]

/-- No two different texts of these documents have one digest. -/
def NoCollision (rt : Runtime) (l m : List Json) : Prop :=
  ∀ a ∈ l, ∀ b ∈ m, rt.sha256 (a.compactChars rt.floatText) =
    rt.sha256 (b.compactChars rt.floatText) →
      a.compactChars rt.floatText = b.compactChars rt.floatText

theorem NoCollision.document_eq {l m : List Json} {a b : Json}
    (hcollision : NoCollision rt l m) (hf : Json.FloatText rt.floatText) (ha : a ∈ l) (hb : b ∈ m)
    (h : rt.digestCompact a = rt.digestCompact b) : a = b := by
  have hdigest := (String.append_right_inj _).mp h
  exact Json.compact_inj hf (hcollision a ha b hb hdigest)

theorem assumption_of_document {a b : ScenarioAssumption} (h : a.toJson = b.toJson) : a = b := by
  simp only [ScenarioAssumption.toJson, Json.obj.injEq, List.cons.injEq, Prod.mk.injEq, true_and,
    Json.str.injEq, and_true] at h
  cases a
  cases b
  simp only [ScenarioAssumption.mk.injEq]
  exact ⟨Value.ext h.1, h.2⟩

theorem number_of_document (hx : x.isFinite = true)
    (h : (ofF64 x).json = (ofF64 y).json) : x = y := by
  rcases Value.ofF64_eq.mp (Value.ext h) with h | h
  · exact h
  · rw [hx] at h
    cases h.1

/-- The numbers of an outcome are written down. -/
def Finite (o : ScenarioSpatialOutcome) : Prop := ∀ e ∈ o.byArea.toList, e.2.isFinite = true

theorem outcome_of_document {a b : ScenarioSpatialOutcome} (ha : Finite a)
    (h : a.toJson = b.toJson) : a = b := by
  simp only [toJson, Json.obj.injEq, List.cons.injEq, Prod.mk.injEq,
    true_and, Json.str.injEq, and_true, areas, ofMap] at h
  obtain ⟨hunit, hareas⟩ := h
  have hentries : a.byArea.toList = b.byArea.toList := by
    refine Sorted.eq_of_map_eq (fun x hx y _ hxy => ?_) hareas
    rw [Prod.mk.injEq] at hxy
    exact Prod.ext hxy.1 (number_of_document (ha x hx) hxy.2)
  have hmap := Std.ExtTreeMap.toList_inj.mp hentries
  cases a
  cases b
  simp only [ScenarioSpatialOutcome.mk.injEq]
  exact ⟨hunit, hmap⟩

theorem verifyBranch_ok {b : ScenarioBranch} (h : verifyBranch rt b = .ok ()) :
    b.branchDigest = branchDigest rt b ∧ ∀ e ∈ b.outcomes.toList, Finite e.2 := by
  simp only [verifyBranch, validateDraft, requireDigest, bind_iff,
    Unique.exists_iff, PUnit.default_eq_unit, require_ok] at h
  obtain ⟨⟨-, -, -, -, hdraft⟩, hsealed⟩ := h
  constructor
  · simp only [Bool.not_eq_true', Bool.or_eq_false_iff, bne_eq_false_iff_eq] at hsealed
    exact hsealed.2
  · intro e he number hnumber
    simp only [Bool.not_eq_true', Bool.or_eq_false_iff, List.any_eq_false] at hdraft
    have hnumbers := (Bool.not_eq_true _).mp (hdraft.2 e he)
    simp only [Bool.or_eq_false_iff, List.any_eq_false] at hnumbers
    have hfinite := hnumbers.2 number hnumber
    simpa using hfinite

theorem branch_of_document {a b : ScenarioBranch} (ha : ∀ e ∈ a.outcomes.toList, Finite e.2)
    (hdigest : a.branchDigest = b.branchDigest)
    (h : { a with branchDigest := "" }.toJson = { b with branchDigest := "" }.toJson) : a = b := by
  simp only [ScenarioBranch.toJson, Json.obj.injEq, List.cons.injEq, Prod.mk.injEq, true_and,
    Json.str.injEq, and_true] at h
  obtain ⟨hschema, hid, hproject, hworkflow, hresult, hassumptions, houtcomes⟩ := h
  have hentries : a.assumptions.toList = b.assumptions.toList := by
    refine Sorted.eq_of_map_eq (fun x _ y _ hxy => ?_) hassumptions
    rw [Prod.mk.injEq] at hxy
    exact Prod.ext hxy.1 (assumption_of_document hxy.2)
  have hnumbers : a.outcomes.toList = b.outcomes.toList := by
    refine Sorted.eq_of_map_eq (fun x hx y _ hxy => ?_) houtcomes
    rw [Prod.mk.injEq] at hxy
    exact Prod.ext hxy.1 (outcome_of_document (ha x hx) hxy.2)
  have hfirst := Std.ExtTreeMap.toList_inj.mp hentries
  have hsecond := Std.ExtTreeMap.toList_inj.mp hnumbers
  cases a
  cases b
  simp only [ScenarioBranch.mk.injEq] at *
  exact ⟨hschema, hid, hproject, hworkflow, hresult, hfirst, hsecond, hdigest⟩

theorem comparisonDocument_branches {c d : ScenarioComparison}
    (h : comparisonDocument c = comparisonDocument d) :
    c.baseBranchDigest = d.baseBranchDigest ∧ c.scenarioBranchDigest = d.scenarioBranchDigest := by
  have hbase := congrArg (fun v : Value => v.json.get? "base_branch_digest") h
  have hscenario := congrArg (fun v : Value => v.json.get? "scenario_branch_digest") h
  simp only [comparisonDocument] at hbase hscenario
  rw [Value.get?_object (by simp), Value.get?_object (by simp)] at hbase hscenario
  exact ⟨Json.str.inj (some.inj hbase), Json.str.inj (some.inj hscenario)⟩

theorem pair_of_approval (hf : Json.FloatText rt.floatText)
    {base scenario base' scenario' : ScenarioBranch}
    (hcollision : NoCollision rt (sealedDocuments base scenario) (sealedDocuments base' scenario'))
    (hcomparable : Comparable rt base scenario) (hcomparable' : Comparable rt base' scenario')
    (hdigest : (comparison rt base scenario).diffDigest =
      (comparison rt base' scenario').diffDigest) : base' = base ∧ scenario' = scenario := by
  have hdocument := hcollision.document_eq hf (by simp [sealedDocuments]) (by simp [sealedDocuments])
    hdigest
  obtain ⟨hbase, hscenario⟩ := comparisonDocument_branches (Value.ext hdocument)
  have same : ∀ {a b : ScenarioBranch}, verifyBranch rt a = .ok () → verifyBranch rt b = .ok () →
      { a with branchDigest := "" }.toJson ∈ sealedDocuments base scenario →
      { b with branchDigest := "" }.toJson ∈ sealedDocuments base' scenario' →
      a.branchDigest = b.branchDigest → b = a := by
    intro a b ha hb hmem hmem' hsame
    obtain ⟨hsealed, hfinite⟩ := verifyBranch_ok ha
    obtain ⟨hsealed', -⟩ := verifyBranch_ok hb
    have hdocuments := hcollision.document_eq hf hmem hmem'
      (hsealed.symm.trans (hsame.trans hsealed'))
    exact (branch_of_document hfinite hsame hdocuments).symm
  exact ⟨same hcomparable.verifiedBase hcomparable'.verifiedBase (by simp [sealedDocuments])
      (by simp [sealedDocuments]) hbase,
    same hcomparable.verifiedScenario hcomparable'.verifiedScenario (by simp [sealedDocuments])
      (by simp [sealedDocuments]) hscenario⟩

/-- A comparison turns the one branch's entries into the other's, its changes at distinct paths, and
a merge needs an approval of this very comparison, which is good for no other pair. -/
theorem compare_bound (hf : Json.FloatText rt.floatText) {base scenario : ScenarioBranch}
    (hbase : verifyBranch rt base = .ok ()) (hscenario : verifyBranch rt scenario = .ok ())
    (hproject : base.baseProjectDigest = scenario.baseProjectDigest)
    (hdistinct : base.branchDigest ≠ scenario.branchDigest) :
    ∃ c, Scenario.compare rt base scenario = .ok c ∧ (c.changes = [] ↔ SameContents base scenario) ∧
      (c.changes.map ScenarioSemanticChange.path).Nodup ∧
      sameEntries (applyChanges "assumption" c.changes
          (serialized ScenarioAssumption.toValue base.assumptions))
        (serialized ScenarioAssumption.toValue scenario.assumptions) ∧
      sameEntries (applyChanges "outcome" c.changes
          (serialized ScenarioSpatialOutcome.toValue base.outcomes))
        (serialized ScenarioSpatialOutcome.toValue scenario.outcomes) ∧
      ∀ approval, ((∃ commit, merge rt base scenario approval = .ok commit) ↔
          approval.diffDigest = c.diffDigest ∧
            approval.scenarioBranchDigest = scenario.branchDigest) ∧
        ∀ base' scenario',
          NoCollision rt (sealedDocuments base scenario) (sealedDocuments base' scenario') →
          (∃ commit, merge rt base scenario approval = .ok commit) →
          (∃ commit, merge rt base' scenario' approval = .ok commit) →
          base' = base ∧ scenario' = scenario := by
  have hcomparable : Comparable rt base scenario := ⟨hbase, hscenario, hproject, hdistinct⟩
  refine ⟨comparison rt base scenario, compare_ok.mpr ⟨hcomparable, rfl⟩, changes_nil,
    changes_paths base scenario, applied_assumptions base scenario,
    applied_outcomes base scenario, fun approval => ⟨?_, ?_⟩⟩
  · rw [merge_ok]
    exact and_iff_right hcomparable
  · intro base' scenario' hcollision hfirst hsecond
    obtain ⟨-, hdigest, -⟩ := merge_ok.mp hfirst
    obtain ⟨hcomparable', hdigest', -⟩ := merge_ok.mp hsecond
    exact pair_of_approval hf hcollision hcomparable hcomparable' (hdigest.symm.trans hdigest')

namespace Sample

/-- A walking speed and the people who reach an area at it. -/
def draft (id : String) (speed reached : Nat) : ScenarioBranch :=
  { schemaVersion := schemaVersion, branchId := id
    baseProjectDigest := "sha256:" ++ String.ofList (replicate 64 'a')
    workflowDigest := "sha256:" ++ String.ofList (replicate 64 'b')
    resultDigest := "sha256:" ++ String.ofList (replicate 64 'c')
    assumptions := .ofList
      [("walking_speed", ScenarioAssumption.mk (.ofF64 (F64.ofNat speed)) "m/s")]
    outcomes := .ofList [("reachable_population",
        ScenarioSpatialOutcome.mk "persons" (.ofList [("23101", F64.ofNat reached)]))]
    branchDigest := "" }

def branch (id : String) (speed reached : Nat) : ScenarioBranch :=
  { draft id speed reached with
    branchDigest := branchDigest Runtime.reference (draft id speed reached) }

theorem verifyBranch_branch {id : String} {speed reached : Nat}
    (h : validateDraft (draft id speed reached) = .ok ()) :
    verifyBranch Runtime.reference (branch id speed reached) = .ok () := by
  have hdraft : validateDraft (branch id speed reached) = .ok () := h
  simp only [verifyBranch, bind_iff, Unique.exists_iff, PUnit.default_eq_unit, require_ok]
  refine ⟨hdraft, ?_⟩
  simp only [Bool.not_eq_true', Bool.or_eq_false_iff, bne_eq_false_iff_eq]
  exact ⟨rfl, rfl⟩

def base : ScenarioBranch := branch "base" 1 35

def faster : ScenarioBranch := branch "faster" 35 136

theorem verify_base : verifyBranch Runtime.reference base = .ok () :=
  verifyBranch_branch (by decide +kernel)

theorem verify_faster : verifyBranch Runtime.reference faster = .ok () :=
  verifyBranch_branch (by decide +kernel)

theorem digests_distinct : base.branchDigest ≠ faster.branchDigest := by decide +kernel

end Sample

theorem compare_bound_faster :
    ∃ c, Scenario.compare Runtime.reference Sample.base Sample.faster = .ok c ∧
      (c.changes.map ScenarioSemanticChange.path).Nodup ∧
      sameEntries (applyChanges "assumption" c.changes
          (serialized ScenarioAssumption.toValue Sample.base.assumptions))
        (serialized ScenarioAssumption.toValue Sample.faster.assumptions) := by
  obtain ⟨c, hc, -, hpaths, happlied, -⟩ := compare_bound Runtime.floatText_reference
    Sample.verify_base Sample.verify_faster rfl Sample.digests_distinct
  exact ⟨c, hc, hpaths, happlied⟩

end GeneGIS.Scenario
