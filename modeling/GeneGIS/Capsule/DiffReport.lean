/-
Two documents differ nowhere exactly when they are the same.  Manifests are compared by path and
result digest only: a changed role or media type is no change.
-/
import GeneGIS.Capsule.Approval

namespace GeneGIS

open List hiding contains_iff_mem
open Bool hiding and_comm false_or or_comm true_and

def ChangeKind.swap : ChangeKind → ChangeKind
  | .added => .removed
  | .removed => .added
  | .modified => .modified

def SemanticChange.swap (c : SemanticChange) : SemanticChange :=
  { c with kind := c.kind.swap, old := c.new, new := c.old }

def SemanticDiffReport.swap (r : SemanticDiffReport) : SemanticDiffReport :=
  { r with oldResultDigest := r.newResultDigest, newResultDigest := r.oldResultDigest
           changes := r.changes.map SemanticChange.swap }

theorem SemanticDiffReport.mem_swap {r : SemanticDiffReport} {change : SemanticChange} :
    change ∈ r.swap.changes ↔ ∃ c ∈ r.changes, c.swap = change := mem_map

namespace Capsule

open Fallible Except Std

mutual
/-- Equality of documents, with the equality of numbers that `sameNumber` gives. -/
def sameJson (a b : Json) : Bool :=
  match a, b with
  | .obj a, .obj b => sameMembers a b
  | .arr a, .arr b => sameItems a b
  | a, b => sameScalar a b
  termination_by sizeOf a

def sameMembers (a b : List (String × Json)) : Bool :=
  match a, b with
  | [], [] => true
  | (key, value) :: a, (key', value') :: b =>
    key == key' && sameJson value value' && sameMembers a b
  | _, _ => false
  termination_by sizeOf a

def sameItems (a b : List Json) : Bool :=
  match a, b with
  | [], [] => true
  | value :: a, value' :: b => sameJson value value' && sameItems a b
  | _, _ => false
  termination_by sizeOf a
end

theorem leaf_nil {role pointer : String} {old new : Json} :
    (if sameScalar old new then [] else [leafChange role pointer .modified (some old) (some new)]) =
      [] ↔ sameScalar old new = true := by
  by_cases h : sameScalar old new = true
  · simp [h]
  · simp [h]

variable (role : String)

mutual
theorem diffJson_nil : ∀ (old new : Json) (pointer : String),
    diffJson role old new pointer = [] ↔ sameJson old new = true
  | old, new, pointer => by
    rw [diffJson.eq_def]
    split
    case h_1 old new =>
      rw [sameJson]
      exact diffMembers_nil old new pointer
    case h_2 old new =>
      rw [sameJson]
      exact diffItems_nil old new pointer 0
    case h_3 hobj harr =>
      rw [sameJson.eq_3 old new hobj harr]
      exact leaf_nil
  termination_by old => sizeOf old

theorem diffMembers_nil : ∀ (old new : List (String × Json)) (pointer : String),
    diffMembers role old new pointer = [] ↔ sameMembers old new = true
  | [], [], _ => by simp [diffMembers, sameMembers]
  | (_, _) :: _, [], _ => by simp [diffMembers, sameMembers]
  | [], (_, _) :: _, _ => by simp [diffMembers, sameMembers]
  | (key, value) :: old, (key', value') :: new, pointer => by
    have hvalue := diffJson_nil value value' (pointer ++ "/" ++ escapeKey key)
    have hrest := diffMembers_nil old new pointer
    rw [diffMembers, sameMembers]
    cases hkey : compare key key' with
    | lt =>
      have hcompare : compare key key' ≠ .eq := by simp [hkey]
      have hne : key ≠ key' := ReflCmp.ne_of_cmp_ne_eq hcompare
      simp [hne]
    | gt =>
      have hcompare : compare key key' ≠ .eq := by simp [hkey]
      have hne : key ≠ key' := ReflCmp.ne_of_cmp_ne_eq hcompare
      simp [hne]
    | eq =>
      rw [LawfulEqOrd.eq_of_compare hkey]
      rw [LawfulEqOrd.eq_of_compare hkey] at hvalue
      simp only [List.append_eq_nil_iff, hvalue, hrest, beq_self_eq_true, Bool.true_and,
        Bool.and_eq_true]
  termination_by old => sizeOf old

theorem diffItems_nil : ∀ (old new : List Json) (pointer : String) (index : Nat),
    diffItems role old new pointer index = [] ↔ sameItems old new = true
  | [], [], _, _ => by simp [diffItems, sameItems]
  | _ :: _, [], _, _ => by simp [diffItems, sameItems]
  | [], _ :: _, _, _ => by simp [diffItems, sameItems]
  | value :: old, value' :: new, pointer, index => by
    have hvalue := diffJson_nil value value' (pointer ++ "/" ++ toString index)
    have hrest := diffItems_nil old new pointer (index + 1)
    rw [diffItems, sameItems, List.append_eq_nil_iff, hvalue, hrest, Bool.and_eq_true]
  termination_by old => sizeOf old
end

theorem sameNumber_comm (a b : Number) : sameNumber a b = sameNumber b a := by
  cases a with
  | int m =>
    cases b with
    | int n => exact beq_comm
    | float y hy => rfl
  | float x hx =>
    cases b with
    | int n => rfl
    | float y hy =>
      rw [sameNumber, sameNumber, F64.eq, F64.eq, Bool.and_comm (!x.isNan), beq_comm]

theorem sameScalar_comm (a b : Json) : sameScalar a b = sameScalar b a := by
  cases a <;> cases b <;> simp only [sameScalar]
  · exact beq_comm
  · exact sameNumber_comm _ _
  · exact beq_comm

variable {path : String}

theorem leafChange_swap {kind : ChangeKind} {old new : Option Json} :
    (leafChange role path kind old new).swap = leafChange role path kind.swap new old := rfl

mutual
theorem diffJson_swap : ∀ (old new : Json) (pointer : String),
    diffJson role new old pointer = (diffJson role old new pointer).map SemanticChange.swap
  | old, new, pointer => by
    rw [diffJson.eq_def role old new]
    split
    case h_1 old new =>
      rw [diffJson]
      exact diffMembers_swap old new pointer
    case h_2 old new =>
      rw [diffJson]
      exact diffItems_swap old new pointer 0
    case h_3 hobj harr =>
      rw [diffJson.eq_3 role new old pointer (fun a b hnew hold => hobj b a hold hnew)
        (fun a b hnew hold => harr b a hold hnew), sameScalar_comm]
      by_cases h : sameScalar old new = true
      · rw [if_pos h, if_pos h]
        rfl
      · rw [if_neg h, if_neg h]
        rfl
  termination_by old new => sizeOf old + sizeOf new

theorem diffMembers_swap : ∀ (old new : List (String × Json)) (pointer : String),
    diffMembers role new old pointer = (diffMembers role old new pointer).map SemanticChange.swap
  | [], [], _ => by simp [diffMembers]
  | (key, value) :: old, [], pointer => by
    rw [diffMembers, diffMembers, map_cons, leafChange_swap, diffMembers_swap old [] pointer]
    rfl
  | [], (key, value) :: new, pointer => by
    rw [diffMembers, diffMembers, map_cons, leafChange_swap, diffMembers_swap [] new pointer]
    rfl
  | (key, value) :: old, (key', value') :: new, pointer => by
    rw [diffMembers, diffMembers, OrientedOrd.eq_swap]
    cases hkey : compare key key' with
    | lt =>
      have hrest := diffMembers_swap old ((key', value') :: new) pointer
      simp only [Ordering.swap, map_cons, leafChange_swap, hrest]
      rfl
    | gt =>
      have hrest := diffMembers_swap ((key, value) :: old) new pointer
      simp only [Ordering.swap, map_cons, leafChange_swap, hrest]
      rfl
    | eq =>
      have hvalue := diffJson_swap value value' (pointer ++ "/" ++ escapeKey key)
      have hrest := diffMembers_swap old new pointer
      have heq : key = key' := LawfulEqOrd.eq_of_compare hkey
      simp only [Ordering.swap, map_append, ← heq, hvalue, hrest]
  termination_by old new => sizeOf old + sizeOf new

theorem diffItems_swap : ∀ (old new : List Json) (pointer : String) (index : Nat),
    diffItems role new old pointer index =
      (diffItems role old new pointer index).map SemanticChange.swap
  | [], [], _, _ => by simp [diffItems]
  | value :: old, [], pointer, index => by
    rw [diffItems, diffItems, map_cons, leafChange_swap, diffItems_swap old [] pointer (index + 1)]
    rfl
  | [], value :: new, pointer, index => by
    rw [diffItems, diffItems, map_cons, leafChange_swap, diffItems_swap [] new pointer (index + 1)]
    rfl
  | value :: old, value' :: new, pointer, index => by
    rw [diffItems, diffItems, map_append,
      diffJson_swap value value' (pointer ++ "/" ++ toString index),
      diffItems_swap old new pointer (index + 1)]
  termination_by old new => sizeOf old + sizeOf new
end

/-! ## Compared subjects -/

variable {lib : Offline} {readers : Readers} {oldRoot newRoot : Directory}
variable {old new : CapsuleManifest}

/-- The documents of a path are equal after the members of a run are removed. -/
def SameDocument (readers : Readers) (oldRoot newRoot : Directory) (path : String) : Prop :=
  ∃ a b, readJson readers.value oldRoot path = .ok a ∧ readJson readers.value newRoot path = .ok b ∧
    sameJson (a.strip runtimeMembers).json (b.strip runtimeMembers).json = true

theorem compareSubject_nil {a b : CapsuleEntry} :
    compareSubject readers oldRoot newRoot path (some a) (some b) = .ok [] ↔ a.sha256 = b.sha256 ∨
        isJson a = true ∧ isJson b = true ∧ SameDocument readers oldRoot newRoot path := by
  rw [compareSubject]
  by_cases hsha : a.sha256 = b.sha256
  · simp [hsha]
  rw [if_neg hsha]
  by_cases hjson : (isJson a && isJson b) = true
  · rw [if_pos hjson]
    rw [Bool.and_eq_true] at hjson
    constructor
    · intro h
      obtain ⟨x, hx, h⟩ := bind_iff.mp h
      obtain ⟨y, hy, h⟩ := bind_iff.mp h
      have hnil := ok.inj h
      exact .inr ⟨hjson.1, hjson.2, x, y, hx, hy, (diffJson_nil _ _ _ _).mp hnil⟩
    · intro h
      obtain ⟨-, -, x, y, hx, hy, hsame⟩ := h.resolve_left hsha
      refine then_ok hx (then_ok hy ?_)
      exact congrArg ok ((diffJson_nil _ _ _ _).mpr hsame)
  · rw [if_neg hjson]
    rw [Bool.and_eq_true] at hjson
    simp only [ok.injEq, List.cons_ne_nil, hsha, false_or, false_iff]
    exact fun h => hjson ⟨h.1, h.2.1⟩

theorem compareSubject_both {a b : Option CapsuleEntry}
    (h : compareSubject readers oldRoot newRoot path a b = .ok []) :
    a.isSome = b.isSome := by
  cases a with
  | none =>
    cases b with
    | none => rfl
    | some b => exact absurd (ok.inj h) (List.cons_ne_nil _ _)
  | some a =>
    cases b with
    | none => exact absurd (ok.inj h) (List.cons_ne_nil _ _)
    | some b => rfl

theorem compareSubject_swap {a b : Option CapsuleEntry} {changes : List SemanticChange}
    (hrole : ∀ x y, a = some x → b = some y → x.role = y.role)
    (h : compareSubject readers oldRoot newRoot path a b = .ok changes) :
    compareSubject readers newRoot oldRoot path b a = .ok (changes.map SemanticChange.swap) := by
  cases a with
  | none =>
    cases b with
    | none =>
      rw [← ok.inj h]
      rfl
    | some b =>
      rw [← ok.inj h]
      rfl
  | some a =>
    cases b with
    | none =>
      rw [← ok.inj h]
      rfl
    | some b =>
      have hroles : a.role = b.role := hrole a b rfl rfl
      rw [compareSubject] at h ⊢
      by_cases hsha : a.sha256 = b.sha256
      · rw [if_pos hsha] at h
        rw [if_pos hsha.symm, ← ok.inj h]
        rfl
      rw [if_neg hsha] at h
      rw [if_neg (Ne.symm hsha), Bool.and_comm]
      by_cases hjson : (isJson a && isJson b) = true
      · rw [if_pos hjson] at h ⊢
        obtain ⟨x, hx, h⟩ := bind_iff.mp h
        obtain ⟨y, hy, h⟩ := bind_iff.mp h
        refine then_ok hy (then_ok hx ?_)
        rw [← ok.inj h, ← diffJson_swap, hroles]
        rfl
      · rw [if_neg hjson] at h ⊢
        rw [← ok.inj h, map_singleton, subjectChange, subjectChange, hroles]
        rfl

variable {a b : ExtTreeMap String CapsuleEntry} {paths : List String}

theorem compareSubjects_nil : compareSubjects readers oldRoot newRoot a b paths = .ok [] ↔
      ∀ path ∈ paths, compareSubject readers oldRoot newRoot path a[path]? b[path]? = .ok [] := by
  induction paths with
  | nil => simp [compareSubjects]
  | cons path rest ih =>
    rw [compareSubjects, forall_mem_cons, ← ih]
    constructor
    · intro h
      obtain ⟨changes, hchanges, h⟩ := bind_iff.mp h
      obtain ⟨others, hothers, h⟩ := bind_iff.mp h
      have hnil := List.append_eq_nil_iff.mp (ok.inj h)
      rw [hnil.1] at hchanges
      rw [hnil.2] at hothers
      exact ⟨hchanges, hothers⟩
    · intro ⟨hchanges, hothers⟩
      exact then_ok hchanges (then_ok hothers rfl)

theorem compareSubjects_swap (hrole : ∀ (path : String) (x y : CapsuleEntry),
      a[path]? = some x → b[path]? = some y → x.role = y.role)
    {changes : List SemanticChange}
    (h : compareSubjects readers oldRoot newRoot a b paths = .ok changes) :
    compareSubjects readers newRoot oldRoot b a paths = .ok (changes.map SemanticChange.swap) := by
  induction paths generalizing changes with
  | nil =>
    rw [← ok.inj h]
    rfl
  | cons path rest ih =>
    obtain ⟨first, hfirst, h⟩ := bind_iff.mp h
    obtain ⟨others, hothers, h⟩ := bind_iff.mp h
    refine then_ok (compareSubject_swap (hrole path) hfirst) ?_
    refine then_ok (ih hothers) ?_
    rw [← ok.inj h, map_append]
    rfl

theorem compareSubjects_flatMap {changes : String → List SemanticChange}
    (h : ∀ path ∈ paths, compareSubject readers oldRoot newRoot path a[path]? b[path]? =
      .ok (changes path)) :
    compareSubjects readers oldRoot newRoot a b paths = .ok (paths.flatMap changes) := by
  induction paths with
  | nil => rfl
  | cons path rest ih =>
    obtain ⟨hpath, hrest⟩ := forall_mem_cons.mp h
    exact then_ok hpath (then_ok (ih hrest) rfl)

/-! ## Compared capsules -/

def pathsOf (old new : CapsuleManifest) : ExtTreeSet String :=
  .ofList (old.entries.map CapsuleEntry.path ++ new.entries.map CapsuleEntry.path)

def reportOf (old new : CapsuleManifest) (subjects : List SemanticChange) : SemanticDiffReport :=
  let changes := (subjects ++ resultChange old new).insertionSort fun a b => notAfter a b
  { oldResultDigest := old.subjectResultDigest, newResultDigest := new.subjectResultDigest
    changes := changes
    unclassifiedChanges := (changes.filter fun change => change.category == .unclassified).length }

theorem diffCapsules_ok {report : SemanticDiffReport} :
    diffCapsules readers oldRoot newRoot = .ok report ↔
      ∃ old new subjects, readJson readers.manifest oldRoot manifestPath = .ok old ∧
        readJson readers.manifest newRoot manifestPath = .ok new ∧
        compareSubjects readers oldRoot newRoot (entriesByPath old) (entriesByPath new)
          (pathsOf old new).toList = .ok subjects ∧
        reportOf old new subjects = report := by
  constructor
  · intro h
    obtain ⟨old, hold, h⟩ := bind_iff.mp h
    obtain ⟨new, hnew, h⟩ := bind_iff.mp h
    obtain ⟨subjects, hsubjects, h⟩ := bind_iff.mp h
    exact ⟨old, new, subjects, hold, hnew, hsubjects, ok.inj h⟩
  · intro ⟨old, new, subjects, hold, hnew, hsubjects, hreport⟩
    refine then_ok hold (then_ok hnew ?_)
    exact then_ok hsubjects (congrArg ok hreport)

theorem mem_pathsOf : path ∈ (pathsOf old new).toList ↔
    path ∈ old.entries.map CapsuleEntry.path ∨ path ∈ new.entries.map CapsuleEntry.path := by
  rw [ExtTreeSet.mem_toList, pathsOf, ExtTreeSet.mem_ofList, List.contains_iff_mem,
    List.mem_append]

theorem pathsOf_comm : pathsOf old new = pathsOf new old := by
  apply ExtTreeSet.ext_mem
  intro path
  rw [← ExtTreeSet.mem_toList, ← ExtTreeSet.mem_toList, mem_pathsOf, mem_pathsOf, or_comm]

theorem entriesByPath_some {entry : CapsuleEntry}
    (hdistinct : (old.entries.map CapsuleEntry.path).Nodup) :
    (entriesByPath old)[path]? = some entry ↔ entry ∈ old.entries ∧ entry.path = path :=
  Keyed.getElem?_ofList hdistinct

theorem mem_paths (hdistinct : (old.entries.map CapsuleEntry.path).Nodup) :
    path ∈ old.entries.map CapsuleEntry.path ↔ (entriesByPath old)[path]?.isSome = true := by
  rw [Option.isSome_iff_exists, mem_map]
  simp only [entriesByPath_some hdistinct]

theorem resultChange_nil :
    resultChange old new = [] ↔ old.subjectResultDigest = new.subjectResultDigest := by
  rw [resultChange]
  by_cases h : old.subjectResultDigest = new.subjectResultDigest
  · simp [h]
  · simp [h]

variable {subjects : List SemanticChange}

theorem mem_reportOf {change : SemanticChange} : change ∈ (reportOf old new subjects).changes ↔
      change ∈ subjects ∨ change ∈ resultChange old new := by
  rw [← List.mem_append]
  exact mem_insertionSort _

theorem reportOf_nil : (reportOf old new subjects).changes = [] ↔
      subjects = [] ∧ old.subjectResultDigest = new.subjectResultDigest := by
  have hlength : (reportOf old new subjects).changes.length =
      (subjects ++ resultChange old new).length := length_insertionSort _ _
  rw [← length_eq_zero_iff, hlength, length_eq_zero_iff, List.append_eq_nil_iff, resultChange_nil]

theorem resultChange_swap :
    resultChange new old = (resultChange old new).map SemanticChange.swap := by
  rw [resultChange, resultChange]
  by_cases h : old.subjectResultDigest = new.subjectResultDigest
  · rw [if_pos h, if_pos h.symm]
    rfl
  · rw [if_neg h, if_neg (Ne.symm h)]
    rfl

theorem reportOf_swap :
    reportOf new old (subjects.map SemanticChange.swap) = (reportOf old new subjects).swap := by
  have hsort : ((subjects.map SemanticChange.swap ++ resultChange new old).insertionSort
      fun a b => notAfter a b) =
      (reportOf old new subjects).changes.map SemanticChange.swap := by
    rw [resultChange_swap, ← map_append]
    exact (map_insertionSort (r := fun a b => notAfter a b = true)
      (s := fun a b => notAfter a b = true) SemanticChange.swap _ fun _ _ _ _ => Iff.rfl).symm
  rw [reportOf, hsort, SemanticDiffReport.swap, SemanticDiffReport.mk.injEq]
  refine ⟨rfl, rfl, rfl, ?_⟩
  rw [filter_map, length_map]
  rfl

def SameFile (lib : Offline) (oldRoot newRoot : Directory) (path : String) : Prop :=
  ∃ a b, oldRoot.read path = .ok a ∧ newRoot.read path = .ok b ∧
    lib.digestBytes a = lib.digestBytes b

/-- What two manifests agree on when no change is reported. -/
structure Alike (lib : Offline) (readers : Readers) (oldRoot newRoot : Directory)
    (old new : CapsuleManifest) : Prop where
  paths : ∀ path, path ∈ old.entries.map CapsuleEntry.path ↔
    path ∈ new.entries.map CapsuleEntry.path
  result : old.subjectResultDigest = new.subjectResultDigest
  subjects : ∀ a ∈ old.entries, ∀ b ∈ new.entries, a.path = b.path →
    SameFile lib oldRoot newRoot a.path ∨
      isJson a = true ∧ isJson b = true ∧ SameDocument readers oldRoot newRoot a.path

def AlikeCapsules (lib : Offline) (readers : Readers) (oldRoot newRoot : Directory) : Prop :=
  ∃ old new, readJson readers.manifest oldRoot manifestPath = .ok old ∧
    readJson readers.manifest newRoot manifestPath = .ok new ∧
    Alike lib readers oldRoot newRoot old new

/-- The two manifests give every common path one role. -/
def SameRoles (readers : Readers) (oldRoot newRoot : Directory) : Prop :=
  ∀ old new, readJson readers.manifest oldRoot manifestPath = .ok old →
    readJson readers.manifest newRoot manifestPath = .ok new →
    ∀ a ∈ old.entries, ∀ b ∈ new.entries, a.path = b.path → a.role = b.role

theorem sha256_eq_iff {a b : CapsuleEntry} (ha : Intact lib oldRoot a) (hb : Intact lib newRoot b)
    (hpath : a.path = b.path) : a.sha256 = b.sha256 ↔ SameFile lib oldRoot newRoot a.path := by
  obtain ⟨x, hx, -, hxdigest⟩ := ha
  obtain ⟨y, hy, -, hydigest⟩ := hb
  rw [← hpath] at hy
  constructor
  · intro hsha
    exact ⟨x, y, hx, hy, by rw [hxdigest, hydigest, hsha]⟩
  · intro ⟨x', y', hx', hy', hdigest⟩
    rw [hx, ok.injEq] at hx'
    rw [hy, ok.injEq] at hy'
    rw [← hxdigest, ← hydigest, hx', hy', hdigest]

theorem compareSubjects_alike (hold : ∀ entry ∈ old.entries, Listed lib oldRoot entry)
    (hnew : ∀ entry ∈ new.entries, Listed lib newRoot entry)
    (holdPaths : (old.entries.map CapsuleEntry.path).Nodup)
    (hnewPaths : (new.entries.map CapsuleEntry.path).Nodup)
    (hresult : old.subjectResultDigest = new.subjectResultDigest) :
    compareSubjects readers oldRoot newRoot (entriesByPath old) (entriesByPath new)
      (pathsOf old new).toList = .ok [] ↔ Alike lib readers oldRoot newRoot old new := by
  rw [compareSubjects_nil]
  constructor
  · intro h
    have hboth : ∀ path, path ∈ old.entries.map CapsuleEntry.path ∨
        path ∈ new.entries.map CapsuleEntry.path →
        (entriesByPath old)[path]?.isSome = (entriesByPath new)[path]?.isSome :=
      fun path hpath => compareSubject_both (h path (mem_pathsOf.mpr hpath))
    refine ⟨?_, hresult, ?_⟩
    · intro path
      rw [mem_paths holdPaths, mem_paths hnewPaths]
      constructor
      · intro hmem
        rw [← hboth path (.inl ((mem_paths holdPaths).mpr hmem))]
        exact hmem
      · intro hmem
        rw [hboth path (.inr ((mem_paths hnewPaths).mpr hmem))]
        exact hmem
    · intro a ha b hb hpath
      have hcompare := h a.path (mem_pathsOf.mpr (.inl (mem_map_of_mem ha)))
      rw [(entriesByPath_some holdPaths).mpr ⟨ha, rfl⟩,
        (entriesByPath_some hnewPaths).mpr ⟨hb, hpath.symm⟩, compareSubject_nil,
        sha256_eq_iff (hold a ha).intact (hnew b hb).intact hpath] at hcompare
      exact hcompare
  · intro halike path hpath
    have hmem : path ∈ old.entries.map CapsuleEntry.path :=
      (mem_pathsOf.mp hpath).elim id (halike.paths path).mpr
    obtain ⟨a, ha, hapath⟩ := mem_map.mp hmem
    obtain ⟨b, hb, hbpath⟩ := mem_map.mp ((halike.paths path).mp hmem)
    have hsame : a.path = b.path := hapath.trans hbpath.symm
    rw [(entriesByPath_some holdPaths).mpr ⟨ha, hapath⟩,
      (entriesByPath_some hnewPaths).mpr ⟨hb, hbpath⟩, compareSubject_nil,
      sha256_eq_iff (hold a ha).intact (hnew b hb).intact hsame, ← hapath]
    exact halike.subjects a ha b hb hsame

namespace Sample

/-! Three capsules that differ in their notes. -/

theorem files_eq (note other : Note) : files note =
    (files other).dropLast ++ [(notePath, note.role, note.mediaType, note.bytes)] := rfl

theorem mem_files {note other : Note} {f : String × String × String × Bytes} (h : f ∈ files note)
    (hpath : f.1 ≠ notePath) : f ∈ files other := by
  rw [files_eq note other, List.mem_append, mem_singleton] at h
  cases h with
  | inl h => exact dropLast_subset _ h
  | inr h =>
    rw [h] at hpath
    exact absurd rfl hpath

def noteEntry (note : Note) : CapsuleEntry :=
  entryOf (notePath, note.role, note.mediaType, note.bytes)

theorem noteEntry_mem {note : Note} : noteEntry note ∈ (manifest note).entries :=
  mem_map_of_mem note_mem

theorem eq_noteEntry {note : Note} {entry : CapsuleEntry} (h : entry ∈ (manifest note).entries)
    (hpath : entry.path = notePath) : entry = noteEntry note :=
  Keyed.eq_of_mem paths_distinct h noteEntry_mem hpath

variable {m n : Note}

theorem alike_notes (h : SameFile library (capsule m) (capsule n) notePath ∨
      isJson (noteEntry m) = true ∧ isJson (noteEntry n) = true ∧
        SameDocument serde (capsule m) (capsule n) notePath) :
    Alike library serde (capsule m) (capsule n) (manifest m) (manifest n) := by
  refine ⟨fun _ => Iff.rfl, rfl, ?_⟩
  intro a ha b hb hpath
  by_cases hnote : a.path = notePath
  · have hold : a = noteEntry m := eq_noteEntry ha hnote
    have hnew : b = noteEntry n := eq_noteEntry hb (hpath.symm.trans hnote)
    rw [hold, hnew]
    exact h
  · obtain ⟨f, hf, rfl⟩ := mem_map.mp ha
    refine .inl ⟨f.2.2.2, f.2.2.2, read_of_lookup (lookup_file f hf), ?_, rfl⟩
    exact read_of_lookup (lookup_file f (mem_files hf hnote))

theorem unreported (hm : m ∈ notes) (hn : n ∈ notes)
    (h : Alike library serde (capsule m) (capsule n) (manifest m) (manifest n)) :
    ∃ report, diffCapsules serde (capsule m) (capsule n) = .ok report ∧ report.changes = [] := by
  have hsubjects := (compareSubjects_alike (fun _ => listed_file _) (fun _ => listed_file _)
    paths_distinct paths_distinct h.result).mpr h
  exact ⟨_, diffCapsules_ok.mpr ⟨_, _, [], readJson_manifest hm, readJson_manifest hn, hsubjects,
    rfl⟩, reportOf_nil.mpr ⟨rfl, h.result⟩⟩

def noteChange (note : Note) : SemanticChange := subjectChange (noteEntry note) notePath .modified

def noteReport (m n : Note) : SemanticDiffReport :=
  reportOf (manifest m) (manifest n) ((pathsOf (manifest m) (manifest n)).toList.flatMap fun path =>
    if path = notePath then [noteChange m] else [])

theorem diffCapsules_notes (hm : m ∈ notes) (hn : n ∈ notes)
    (hdigest : (noteEntry m).sha256 ≠ (noteEntry n).sha256)
    (hjson : isJson (noteEntry m) = false) :
    diffCapsules serde (capsule m) (capsule n) = .ok (noteReport m n) := by
  refine diffCapsules_ok.mpr ⟨_, _, _, readJson_manifest hm, readJson_manifest hn, ?_, rfl⟩
  apply compareSubjects_flatMap
  intro path hpath
  have hmem : path ∈ (manifest m).entries.map CapsuleEntry.path := (mem_pathsOf.mp hpath).elim id id
  obtain ⟨entry, hentry, hpath⟩ := mem_map.mp hmem
  rw [(entriesByPath_some paths_distinct).mpr ⟨hentry, hpath⟩]
  by_cases hnote : path = notePath
  · rw [if_pos hnote, (entriesByPath_some paths_distinct).mpr ⟨noteEntry_mem, hnote.symm⟩,
      eq_noteEntry hentry (hpath.trans hnote), compareSubject, if_neg hdigest, hjson, hnote]
    rfl
  · obtain ⟨f, hf, rfl⟩ := mem_map.mp hentry
    have hother : f ∈ files n := mem_files hf (fun h => hnote (hpath.symm.trans h))
    rw [if_neg hnote, (entriesByPath_some paths_distinct).mpr ⟨mem_map_of_mem hother, hpath⟩]
    exact if_pos rfl

theorem mem_noteReport {change : SemanticChange} :
    change ∈ (noteReport m n).changes ↔ change = noteChange m := by
  have hresult : resultChange (manifest m) (manifest n) = [] := resultChange_nil.mpr rfl
  have hmem : notePath ∈ (pathsOf (manifest m) (manifest n)).toList :=
    mem_pathsOf.mpr (.inl (mem_map_of_mem noteEntry_mem))
  rw [noteReport, mem_reportOf, hresult, mem_flatMap]
  constructor
  · intro h
    obtain ⟨path, -, h⟩ := h.resolve_right not_mem_nil
    by_cases hnote : path = notePath
    · rw [if_pos hnote, mem_singleton] at h
      exact h
    · rw [if_neg hnote] at h
      cases h
  · intro h
    refine .inl ⟨notePath, hmem, ?_⟩
    rw [if_pos rfl, mem_singleton]
    exact h

theorem serde_value : serde.value = parse write documents := by
  rw [serde]

theorem readJson_ward {id : String} (h : wardDocument id ∈ documents) :
    readJson serde.value (capsule (wardNote id)) notePath = .ok (wardDocument id) := by
  have hbytes : (wardNote id).bytes = write (wardDocument id) := by rw [wardNote]
  have hread : (capsule (wardNote id)).read notePath = .ok (wardNote id).bytes := read_file note_mem
  have hparse : parse write documents (write (wardDocument id)) = .ok (wardDocument id) :=
    parse_of_mem write_inj h
  rw [hbytes] at hread
  rw [serde_value]
  exact readJson_ok.mpr ⟨write (wardDocument id), hread, hparse⟩

theorem sameDocument_ward : SameDocument serde (capsule (wardNote "chikusa"))
    (capsule (wardNote "higashi")) notePath := by
  have hstrip : ∀ id, ((wardDocument id).strip runtimeMembers).json = .obj [] := fun id => rfl
  refine ⟨_, _, readJson_ward ?_, readJson_ward ?_, ?_⟩
  · simp [documents]
  · simp [documents]
  · rw [hstrip, hstrip, sameJson, sameMembers]

theorem digest_wards : (noteEntry wards).sha256 ≠ (noteEntry oldWards).sha256 := by
  decide +kernel

end Sample

end Capsule
end GeneGIS
