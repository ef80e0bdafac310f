/-
No location is reported twice, the values are the ones at the location, and the changes turn the
one document into the other.
-/
import GeneGIS.Capsule.DiffReport
import GeneGIS.Data.F64Order
import GeneGIS.Data.Pointer
import Mathlib.Algebra.Order.BigOperators.Group.List

namespace GeneGIS.Capsule

open List Option Std Nat

open Pointer (escape parse parse_render render render_append)

/-! ## Differences -/

structure Difference where
  path : List String
  kind : ChangeKind
  old : Option Json
  new : Option Json

namespace Difference

variable (token : String)

def below (d : Difference) : Difference := { d with path := token :: d.path }

/-- The differences below one step. -/
def inside (differences : List Difference) : List Difference := differences.filterMap fun d =>
    match d.path with
    | first :: rest => if first = token then some { d with path := rest } else none
    | [] => none

def toChange (role : String) (d : Difference) : SemanticChange :=
  leafChange role (String.ofList (render d.path)) d.kind d.old d.new

@[simp] theorem inside_nil : inside token [] = [] := rfl

@[simp] theorem inside_append (l m : List Difference) :
    inside token (l ++ m) = inside token l ++ inside token m := filterMap_append

theorem inside_below (token first : String) (l : List Difference) :
    inside token (l.map (below first)) = if first = token then l else [] := by
  by_cases h : first = token
  · rw [if_pos h]
    induction l with
    | nil => rfl
    | cons d l ih =>
      rw [List.map_cons, inside, filterMap_cons]
      simp only [below, if_pos h]
      exact congrArg (d :: ·) ih
  · rw [if_neg h]
    refine filterMap_eq_nil_iff.mpr fun d hd => ?_
    obtain ⟨d', -, rfl⟩ := List.mem_map.mp hd
    simp only [below, if_neg h]

theorem mem_inside {token : String} {l : List Difference} {d : Difference} :
    d ∈ inside token l ↔ d.below token ∈ l := by
  rw [inside, List.mem_filterMap]
  constructor
  · intro h
    obtain ⟨e, he, hd⟩ := h
    obtain ⟨path, kind, old, new⟩ := e
    cases path with
    | nil => cases hd
    | cons first rest =>
      by_cases hfirst : first = token
      · simp only [if_pos hfirst, Option.some.injEq] at hd
        rw [← hd, ← hfirst]
        exact he
      · simp only [if_neg hfirst] at hd
        cases hd
  · intro h
    exact ⟨d.below token, h, by simp only [below, if_true]⟩

theorem nodup_of_inside {l : List Difference} (hne : ∀ d ∈ l, d.path ≠ [])
    (h : ∀ token, ((inside token l).map Difference.path).Nodup) :
    (l.map Difference.path).Nodup := by
  induction l with
  | nil => exact nodup_nil
  | cons d l ih =>
    obtain ⟨first, rest, hpath⟩ := exists_cons_of_ne_nil (hne d mem_cons_self)
    have hhead : inside first (d :: l) = { d with path := rest } :: inside first l := by
      rw [inside, filterMap_cons]
      simp only [hpath, if_true]
      rfl
    rw [List.map_cons, nodup_cons]
    constructor
    · intro hmem
      obtain ⟨e, he, hsame⟩ := List.mem_map.mp hmem
      have hnodup := h first
      rw [hhead, List.map_cons, nodup_cons] at hnodup
      refine hnodup.1 (List.mem_map.mpr ⟨{ e with path := rest }, mem_inside.mpr ?_, rfl⟩)
      have hbelow : below first { e with path := rest } = e := by
        rw [below, ← hpath, ← hsame]
      rw [hbelow]
      exact he
    · refine ih (fun e he => hne e (mem_cons_of_mem _ he)) fun token => ?_
      have hsublist : (inside token l).Sublist (inside token (d :: l)) :=
        (sublist_cons_self d l).filterMap _
      exact (hsublist.map _).nodup (h token)

end Difference

open Difference

mutual
/-- The comparison of two documents, over locations. -/
def differences (old new : Json) : List Difference :=
  match old, new with
  | .obj old, .obj new => memberDifferences old new
  | .arr old, .arr new => itemDifferences old new 0
  | old, new =>
    if sameScalar old new then [] else [⟨[], .modified, some old, some new⟩]
  termination_by sizeOf old + sizeOf new

def memberDifferences (old new : List (String × Json)) : List Difference :=
  match old, new with
  | [], [] => []
  | (key, value) :: old, [] => ⟨[key], .removed, some value, none⟩ :: memberDifferences old []
  | [], (key, value) :: new => ⟨[key], .added, none, some value⟩ :: memberDifferences [] new
  | (key, value) :: old, (key', value') :: new =>
    match compare key key' with
    | .lt => ⟨[key], .removed, some value, none⟩ :: memberDifferences old ((key', value') :: new)
    | .gt => ⟨[key'], .added, none, some value'⟩ :: memberDifferences ((key, value) :: old) new
    | .eq => (differences value value').map (below key) ++ memberDifferences old new
  termination_by sizeOf old + sizeOf new

def itemDifferences (old new : List Json) (index : Nat) : List Difference :=
  match old, new with
  | [], [] => []
  | value :: old, [] =>
    ⟨[toString index], .removed, some value, none⟩ :: itemDifferences old [] (index + 1)
  | [], value :: new =>
    ⟨[toString index], .added, none, some value⟩ :: itemDifferences [] new (index + 1)
  | value :: old, value' :: new =>
    (differences value value').map (below (toString index)) ++ itemDifferences old new (index + 1)
  termination_by sizeOf old + sizeOf new
end

/-! ## Paths -/

/-- A change below the location with the given tokens. -/
def changeBelow (role : String) (tokens : List String) (d : Difference) : SemanticChange :=
  leafChange role (String.ofList (render (tokens ++ d.path))) d.kind d.old d.new

theorem changeBelow_below (role : String) (tokens : List String) (token : String) (d : Difference) :
    changeBelow role tokens (d.below token) = changeBelow role (tokens ++ [token]) d := by
  rw [changeBelow, changeBelow, append_assoc]
  rfl

theorem pointer_key (tokens : List String) (key : String) :
    String.ofList (render tokens) ++ "/" ++ escapeKey key =
      String.ofList (render (tokens ++ [key])) := by
  refine String.toList_injective ?_
  simp only [String.toList_append, String.toList_ofList, render_append, escapeKey, append_assoc]
  exact congrArg (render tokens ++ ·) (append_nil _).symm

theorem pointer_index (tokens : List String) (index : Nat) :
    String.ofList (render tokens) ++ "/" ++ toString index =
      String.ofList (render (tokens ++ [toString index])) := by
  refine String.toList_injective ?_
  simp only [String.toList_append, String.toList_ofList, render_append, append_assoc]
  refine congrArg (render tokens ++ ·) ?_
  show '/' :: (toString index).toList = '/' :: escape (toString index).toList ++ []
  rw [Pointer.escape_toString, append_nil]

variable (role : String)

mutual
theorem diffJson_eq : ∀ (old new : Json) (tokens : List String),
    diffJson role old new (String.ofList (render tokens)) =
      (differences old new).map (changeBelow role tokens)
  | old, new, tokens => by
    rw [diffJson.eq_def]
    split
    case h_1 old new =>
      rw [differences]
      exact diffMembers_eq old new tokens
    case h_2 old new =>
      rw [differences]
      exact diffItems_eq old new 0 tokens
    case h_3 hobj harr =>
      rw [differences.eq_3 old new hobj harr]
      by_cases h : sameScalar old new = true
      · rw [if_pos h, if_pos h]
        rfl
      · rw [if_neg h, if_neg h, map_singleton, changeBelow, append_nil]
  termination_by old new => sizeOf old + sizeOf new

theorem diffMembers_eq : ∀ (old new : List (String × Json)) (tokens : List String),
    diffMembers role old new (String.ofList (render tokens)) =
      (memberDifferences old new).map (changeBelow role tokens)
  | [], [], _ => by rw [diffMembers, memberDifferences, map_nil]
  | (key, value) :: old, [], tokens => by
    rw [diffMembers, memberDifferences, List.map_cons, diffMembers_eq old [] tokens, pointer_key]
    rfl
  | [], (key, value) :: new, tokens => by
    rw [diffMembers, memberDifferences, List.map_cons, diffMembers_eq [] new tokens, pointer_key]
    rfl
  | (key, value) :: old, (key', value') :: new, tokens => by
    rw [diffMembers, memberDifferences]
    cases hkey : compare key key' with
    | lt =>
      have hrest := diffMembers_eq old ((key', value') :: new) tokens
      simp only [List.map_cons, hrest, pointer_key]
      rfl
    | gt =>
      have hrest := diffMembers_eq ((key, value) :: old) new tokens
      simp only [List.map_cons, hrest, pointer_key]
      rfl
    | eq =>
      have hvalue := diffJson_eq value value' (tokens ++ [key])
      have hrest := diffMembers_eq old new tokens
      simp only [List.map_append, hrest, pointer_key, hvalue, List.map_map]
      rw [List.map_congr_left fun d _ => (changeBelow_below role tokens key d).symm]
      rfl
  termination_by old new => sizeOf old + sizeOf new

theorem diffItems_eq : ∀ (old new : List Json) (index : Nat) (tokens : List String),
    diffItems role old new (String.ofList (render tokens)) index =
      (itemDifferences old new index).map (changeBelow role tokens)
  | [], [], _, _ => by rw [diffItems, itemDifferences, map_nil]
  | value :: old, [], index, tokens => by
    rw [diffItems, itemDifferences, List.map_cons, diffItems_eq old [] (index + 1) tokens,
      pointer_index]
    rfl
  | [], value :: new, index, tokens => by
    rw [diffItems, itemDifferences, List.map_cons, diffItems_eq [] new (index + 1) tokens,
      pointer_index]
    rfl
  | value :: old, value' :: new, index, tokens => by
    have hvalue := diffJson_eq value value' (tokens ++ [toString index])
    have hrest := diffItems_eq old new (index + 1) tokens
    rw [diffItems, itemDifferences, List.map_append, pointer_index, hvalue, hrest, List.map_map,
      List.map_congr_left fun d _ => (changeBelow_below role tokens (toString index) d).symm]
    rfl
  termination_by old new => sizeOf old + sizeOf new
end

/-! ## Slots -/

/-- The differences of two slots of a document, which may be empty. -/
def slotDifferences : Option Json → Option Json → List Difference
  | some old, some new => differences old new
  | some old, none => [⟨[], .removed, some old, none⟩]
  | none, some new => [⟨[], .added, none, some new⟩]
  | none, none => []

/-- The key stands before every key of an object. -/
def Before (key : String) (members : List (String × Json)) : Prop :=
  ∀ m ∈ members, compare key m.1 = .lt

variable {members : List (String × Json)} {key : String}

theorem Before.lookup (h : Before key members) : members.lookup key = none := by
  rw [lookup_eq_none_iff]
  intro m hm
  have hne : key ≠ m.1 := by
    intro heq
    have hlt := h m hm
    rw [← heq] at hlt
    have hself : compare key key = .eq := ReflCmp.compare_self
    rw [hself] at hlt
    cases hlt
  simpa using hne

theorem Before.cons {key key' : String} {value : Json}
    (h : compare key key' = .lt) (hrest : Before key' members) :
    Before key ((key', value) :: members) := by
  intro m hm
  rcases mem_cons.mp hm with rfl | hm
  · exact h
  · exact TransCmp.lt_trans h (hrest m hm)

theorem lookup_cons_of_ne {token key : String} {value : Json}
    (h : key ≠ token) : ((key, value) :: members).lookup token = members.lookup token := by
  have hne : (token == key) = false := by simpa using fun heq => h heq.symm
  rw [lookup_cons, hne]

theorem inside_cons {token key : String} {kind : ChangeKind} {old new : Option Json}
    {l : List Difference} : inside token (⟨[key], kind, old, new⟩ :: l) =
      (if key = token then [⟨[], kind, old, new⟩] else []) ++ inside token l :=
  (inside_append token [⟨[key], kind, old, new⟩] l).trans
    (congrArg (· ++ inside token l) (inside_below token key [⟨[], kind, old, new⟩]))

theorem inside_members (token : String) : ∀ (old new : List (String × Json)),
    (old.Pairwise fun a b => compare a.1 b.1 = .lt) →
    (new.Pairwise fun a b => compare a.1 b.1 = .lt) →
    inside token (memberDifferences old new) = slotDifferences (old.lookup token) (new.lookup token)
  | [], [], _, _ => by rw [memberDifferences]; rfl
  | (key, value) :: old, [], hold, hnew => by
    obtain ⟨hbefore, hold⟩ := pairwise_cons.mp hold
    rw [memberDifferences, inside_cons, inside_members token old [] hold hnew]
    by_cases h : key = token
    · rw [if_pos h, ← h, Before.lookup hbefore, lookup_cons_self]
      rfl
    · rw [if_neg h, lookup_cons_of_ne h]
      rfl
  | [], (key, value) :: new, hold, hnew => by
    obtain ⟨hbefore, hnew⟩ := pairwise_cons.mp hnew
    rw [memberDifferences, inside_cons, inside_members token [] new hold hnew]
    by_cases h : key = token
    · rw [if_pos h, ← h, Before.lookup hbefore, lookup_cons_self]
      rfl
    · rw [if_neg h, lookup_cons_of_ne h]
      rfl
  | (key, value) :: old, (key', value') :: new, hold, hnew => by
    obtain ⟨hbefore, hold'⟩ := pairwise_cons.mp hold
    obtain ⟨hbefore', hnew'⟩ := pairwise_cons.mp hnew
    rw [memberDifferences]
    cases hkey : compare key key' with
    | lt =>
      have hrest := inside_members token old ((key', value') :: new) hold' hnew
      simp only [inside_cons, hrest]
      by_cases h : key = token
      · rw [if_pos h, ← h, Before.lookup hbefore, lookup_cons_self,
          Before.lookup (Before.cons hkey hbefore')]
        rfl
      · rw [if_neg h, lookup_cons_of_ne h]
        rfl
    | gt =>
      have hkey' : compare key' key = .lt := OrientedCmp.lt_of_gt hkey
      have hrest := inside_members token ((key, value) :: old) new hold hnew'
      simp only [inside_cons, hrest]
      by_cases h : key' = token
      · rw [if_pos h, ← h, Before.lookup hbefore', lookup_cons_self,
          Before.lookup (Before.cons hkey' hbefore)]
        rfl
      · rw [if_neg h, lookup_cons_of_ne h]
        rfl
    | eq =>
      have heq : key = key' := Std.LawfulEqOrd.eq_of_compare hkey
      have hrest := inside_members token old new hold' hnew'
      simp only [inside_append, inside_below, hrest]
      by_cases h : key = token
      · rw [if_pos h, ← h, Before.lookup hbefore, heq, Before.lookup hbefore',
          lookup_cons_self, lookup_cons_self]
        exact append_nil _
      · rw [if_neg h, lookup_cons_of_ne h, lookup_cons_of_ne (heq ▸ h)]
        rfl
  termination_by old new => old.length + new.length

theorem itemDifferences_step {old new : List Json} (h : old ≠ [] ∨ new ≠ []) (index : Nat) :
    itemDifferences old new index =
      (slotDifferences old.head? new.head?).map (below (toString index)) ++
        itemDifferences old.tail new.tail (index + 1) := by
  cases old with
  | nil =>
    cases new with
    | nil => exact absurd rfl (h.resolve_left fun hne => hne rfl)
    | cons value new =>
      rw [itemDifferences]
      rfl
  | cons value old =>
    cases new with
    | nil =>
      rw [itemDifferences]
      rfl
    | cons value' new =>
      rw [itemDifferences]
      rfl

theorem items_path (old new : List Json) (index : Nat) {d : Difference}
    (h : d ∈ itemDifferences old new index) :
    ∃ i rest, index ≤ i ∧ d.path = toString i :: rest := by
  by_cases hnil : old = [] ∧ new = []
  · rw [hnil.1, hnil.2, itemDifferences] at h
    cases h
  · have hne : old ≠ [] ∨ new ≠ [] := by
      by_cases hold : old = []
      · exact Or.inr fun hnew => hnil ⟨hold, hnew⟩
      · exact Or.inl hold
    rw [itemDifferences_step hne] at h
    rcases List.mem_append.mp h with h | h
    · obtain ⟨e, -, rfl⟩ := List.mem_map.mp h
      exact ⟨index, e.path, le_rfl, rfl⟩
    · have hlt : old.tail.length + new.tail.length < old.length + new.length := by
        rw [length_tail, length_tail]
        rcases hne with hne | hne <;> have := length_pos_iff.mpr hne <;> omega
      obtain ⟨i, rest, hi, hpath⟩ := items_path old.tail new.tail (index + 1) h
      exact ⟨i, rest, by omega, hpath⟩
  termination_by old.length + new.length

theorem inside_items (old new : List Json) (index i : Nat) :
    inside (toString (index + i)) (itemDifferences old new index) =
      slotDifferences old[i]? new[i]? := by
  induction i generalizing old new index with
  | zero =>
    by_cases hnil : old = [] ∧ new = []
    · rw [hnil.1, hnil.2, itemDifferences]
      rfl
    · have hne : old ≠ [] ∨ new ≠ [] := not_and_or.mp hnil
      have hrest : inside (toString index)
          (itemDifferences old.tail new.tail (index + 1)) = [] := by
        refine eq_nil_iff_forall_not_mem.mpr fun d hd => ?_
        obtain ⟨i, rest, hi, hpath⟩ := items_path _ _ _ (mem_inside.mp hd)
        have := Pointer.toString_injective (cons.inj hpath).1
        omega
      rw [itemDifferences_step hne, Nat.add_zero, inside_append, inside_below, if_pos rfl, hrest,
        append_nil, head?_eq_getElem?, head?_eq_getElem?]
  | succ i ih =>
    by_cases hnil : old = [] ∧ new = []
    · rw [hnil.1, hnil.2, itemDifferences]
      rfl
    · have hne : old ≠ [] ∨ new ≠ [] := not_and_or.mp hnil
      have hindex : toString index ≠ toString (index + (i + 1)) := by
        intro h
        have := Pointer.toString_injective h
        omega
      have hshift : index + (i + 1) = index + 1 + i := by omega
      rw [itemDifferences_step hne, inside_append, inside_below, if_neg hindex, nil_append,
        hshift, ih, getElem?_tail, getElem?_tail]

/-! ## Induction over slots -/

variable (old new : Option Json)

/-- Two slots that are not both arrays and not both objects. -/
def Apart : Prop := (∀ a b, old = some (.obj a) → new = some (.obj b) → False) ∧
    ∀ a b, old = some (.arr a) → new = some (.arr b) → False

theorem sizeOf_lookup {value : Json}
    (h : members.lookup key = some value) : sizeOf value < sizeOf members := by
  obtain ⟨before, after, rfl, -⟩ := lookup_eq_some_iff.mp h
  have hmem : (key, value) ∈ before ++ (key, value) :: after := by simp
  have hlt := sizeOf_lt_of_mem hmem
  have hpair : sizeOf value < sizeOf (key, value) := by
    show sizeOf value < 1 + sizeOf key + sizeOf value
    omega
  exact hpair.trans hlt

/-- What holds of the slots of objects and arrays if it holds of those below them, and of slots that
are not compared further, holds of any two slots. -/
theorem slot_induction {P : Option Json → Option Json → Prop}
    (apart : ∀ old new, Apart old new → P old new)
    (objects : ∀ old new, (Json.obj old).Ordered → (Json.obj new).Ordered →
      (∀ key, P (old.lookup key) (new.lookup key)) → P (some (.obj old)) (some (.obj new)))
    (arrays : ∀ old new, (∀ i : Nat, P old[i]? new[i]?) → P (some (.arr old)) (some (.arr new))) :
    ∀ old new : Option Json, (∀ j ∈ old, j.Ordered) → (∀ j ∈ new, j.Ordered) → P old new := by
  suffices h : ∀ n : Nat, ∀ old new : Option Json, (∀ j ∈ old, j.Ordered) → (∀ j ∈ new, j.Ordered) →
      (∀ j ∈ old, sizeOf j ≤ n) → P old new by
    intro old new hold hnew
    exact h (old.elim 0 sizeOf) old new hold hnew fun j hj => by
      rw [mem_def.mp hj]
      exact le_rfl
  intro n
  induction n with
  | zero =>
    intro old new hold hnew hsize
    refine apart old new ⟨fun a b ha _ => ?_, fun a b ha _ => ?_⟩
    · have hzero := hsize _ ha
      simp at hzero
    · have hzero := hsize _ ha
      simp at hzero
  | succ n ih =>
    intro old new hold hnew hsize
    by_cases hobj : ∃ a b, old = some (.obj a) ∧ new = some (.obj b)
    · obtain ⟨a, b, rfl, rfl⟩ := hobj
      have ha : (Json.obj a).Ordered := hold _ rfl
      have hb : (Json.obj b).Ordered := hnew _ rfl
      have hlt : sizeOf a ≤ n := by
        have hle := hsize _ rfl
        simp only [Json.obj.sizeOf_spec] at hle
        omega
      refine objects a b ha hb fun key => ih _ _ (fun j hj => ?_) (fun j hj => ?_) fun j hj => ?_
      · obtain ⟨before, after, hlist, -⟩ := lookup_eq_some_iff.mp hj
        exact (Json.orderedMembers_iff a).mp ha.2 (key, j) (by rw [hlist]; simp)
      · obtain ⟨before, after, hlist, -⟩ := lookup_eq_some_iff.mp hj
        exact (Json.orderedMembers_iff b).mp hb.2 (key, j) (by rw [hlist]; simp)
      · have := sizeOf_lookup hj
        omega
    · by_cases harr : ∃ a b, old = some (.arr a) ∧ new = some (.arr b)
      · obtain ⟨a, b, rfl, rfl⟩ := harr
        have ha : (Json.arr a).Ordered := hold _ rfl
        have hb : (Json.arr b).Ordered := hnew _ rfl
        have hlt : sizeOf a ≤ n := by
          have hle := hsize _ rfl
          simp only [Json.arr.sizeOf_spec] at hle
          omega
        refine arrays a b fun i => ih _ _ (fun j hj => ?_) (fun j hj => ?_) fun j hj => ?_
        · exact (Json.orderedItems_iff a).mp ha j (mem_of_getElem? hj)
        · exact (Json.orderedItems_iff b).mp hb j (mem_of_getElem? hj)
        · have := sizeOf_lt_of_mem (mem_of_getElem? hj)
          omega
      · exact apart old new ⟨fun a b ha hb => hobj ⟨a, b, ha, hb⟩, fun a b ha hb => harr ⟨a, b, ha, hb⟩⟩

/-- Two slots hold equal values, or neither holds a value. -/
def sameSlot : Option Json → Option Json → Bool
  | some a, some b => sameJson a b
  | none, none => true
  | _, _ => false

/-- Slots that cannot be compared further have one difference at most, at the slot itself. -/
theorem apart_differences {old new : Option Json} (h : Apart old new) :
    (slotDifferences old new = [] ∧ sameSlot old new = true) ∨
      ∃ kind, slotDifferences old new = [⟨[], kind, old, new⟩] := by
  cases old with
  | none =>
    cases new with
    | none => exact Or.inl ⟨rfl, rfl⟩
    | some new => exact Or.inr ⟨_, rfl⟩
  | some old =>
    cases new with
    | none => exact Or.inr ⟨_, rfl⟩
    | some new =>
      have hobj : ∀ a b, old = .obj a → new = .obj b → False :=
        fun a b ha hb => h.1 a b (congrArg some ha) (congrArg some hb)
      have harr : ∀ a b, old = .arr a → new = .arr b → False :=
        fun a b ha hb => h.2 a b (congrArg some ha) (congrArg some hb)
      rw [slotDifferences, differences.eq_3 old new hobj harr, sameSlot,
        sameJson.eq_3 old new hobj harr]
      by_cases hsame : sameScalar old new = true
      · exact Or.inl ⟨if_pos hsame, hsame⟩
      · exact .inr ⟨_, if_neg hsame⟩

/-! ## Distinct paths -/

theorem members_path_ne : ∀ (old new : List (String × Json)), ∀ d ∈ memberDifferences old new,
    d.path ≠ []
  | [], [], d, hd => by
    rw [memberDifferences] at hd
    cases hd
  | (key, value) :: old, [], d, hd => by
    rw [memberDifferences] at hd
    rcases mem_cons.mp hd with rfl | hd
    · exact cons_ne_nil _ _
    · exact members_path_ne old [] d hd
  | [], (key, value) :: new, d, hd => by
    rw [memberDifferences] at hd
    rcases mem_cons.mp hd with rfl | hd
    · exact cons_ne_nil _ _
    · exact members_path_ne [] new d hd
  | (key, value) :: old, (key', value') :: new, d, hd => by
    rw [memberDifferences] at hd
    cases hkey : compare key key' with
    | lt =>
      simp only [hkey] at hd
      rcases mem_cons.mp hd with rfl | hd
      · exact cons_ne_nil _ _
      · exact members_path_ne old ((key', value') :: new) d hd
    | gt =>
      simp only [hkey] at hd
      rcases mem_cons.mp hd with rfl | hd
      · exact cons_ne_nil _ _
      · exact members_path_ne ((key, value) :: old) new d hd
    | eq =>
      simp only [hkey] at hd
      rcases List.mem_append.mp hd with hd | hd
      · obtain ⟨e, -, rfl⟩ := List.mem_map.mp hd
        exact cons_ne_nil _ _
      · exact members_path_ne old new d hd
  termination_by old new => old.length + new.length

theorem nodup_paths (hold : ∀ j ∈ old, j.Ordered)
    (hnew : ∀ j ∈ new, j.Ordered) : ((slotDifferences old new).map Difference.path).Nodup := by
  refine slot_induction (P := fun old new => ((slotDifferences old new).map Difference.path).Nodup)
    (fun old new hapart => ?_) (fun a b ha hb ih => ?_) (fun a b ih => ?_) old new hold hnew
  · rcases apart_differences hapart with ⟨hnil, -⟩ | ⟨kind, hone⟩
    · rw [hnil]
      exact nodup_nil
    · rw [hone]
      exact nodup_singleton _
  · rw [slotDifferences, differences]
    refine nodup_of_inside (members_path_ne a b) fun token => ?_
    rw [inside_members token a b ha.1 hb.1]
    exact ih token
  · rw [slotDifferences, differences]
    refine nodup_of_inside (fun d hd => ?_) fun token => ?_
    · obtain ⟨i, rest, -, hpath⟩ := items_path a b 0 hd
      rw [hpath]
      exact cons_ne_nil _ _
    · by_cases hnil : inside token (itemDifferences a b 0) = []
      · rw [hnil]
        exact nodup_nil
      · obtain ⟨d, hd⟩ := exists_mem_of_ne_nil _ hnil
        obtain ⟨i, rest, -, hpath⟩ := items_path a b 0 (mem_inside.mp hd)
        have htoken : token = toString (0 + i) := by
          rw [zero_add]
          exact (cons.inj hpath).1
        rw [htoken, inside_items a b 0 i]
        exact ih i

theorem located (hold : ∀ j ∈ old, j.Ordered)
    (hnew : ∀ j ∈ new, j.Ordered) : ∀ d ∈ slotDifferences old new,
      old.bind (Json.follow d.path) = d.old ∧ new.bind (Json.follow d.path) = d.new := by
  refine slot_induction (P := fun old new => ∀ d ∈ slotDifferences old new,
      old.bind (Json.follow d.path) = d.old ∧ new.bind (Json.follow d.path) = d.new)
    (fun old new hapart d hd => ?_) (fun a b ha hb ih d hd => ?_) (fun a b ih d hd => ?_) old new
    hold hnew
  · rcases apart_differences hapart with ⟨hnil, -⟩ | ⟨kind, hone⟩
    · rw [hnil] at hd
      cases hd
    · rw [hone, mem_singleton] at hd
      rw [hd]
      constructor
      · cases old <;> rfl
      · cases new <;> rfl
  · rw [slotDifferences, differences] at hd
    obtain ⟨token, rest, hpath⟩ := exists_cons_of_ne_nil (members_path_ne a b d hd)
    have hinside : { d with path := rest } ∈ inside token (memberDifferences a b) := by
      refine mem_inside.mpr ?_
      have hbelow : below token { d with path := rest } = d := by
        rw [below, ← hpath]
      rw [hbelow]
      exact hd
    rw [inside_members token a b ha.1 hb.1] at hinside
    have hslot := ih token _ hinside
    rw [hpath]
    exact hslot
  · rw [slotDifferences, differences] at hd
    obtain ⟨i, rest, -, hpath⟩ := items_path a b 0 hd
    have hinside : { d with path := rest } ∈ inside (toString (0 + i)) (itemDifferences a b 0) := by
      refine mem_inside.mpr ?_
      have hbelow : below (toString (0 + i)) { d with path := rest } = d := by
        rw [below, zero_add, ← hpath]
      rw [hbelow]
      exact hd
    rw [inside_items a b 0 i] at hinside
    have hslot := ih i _ hinside
    rw [hpath]
    show ((Json.arr a).child (toString i)).bind (Json.follow rest) = d.old ∧
      ((Json.arr b).child (toString i)).bind (Json.follow rest) = d.new
    rw [Json.child_index, Json.child_index]
    exact hslot

/-! ## Applying changes -/

/-- The value of a slot after its differences: the one given at the slot itself, or the old one with
those below applied. -/
def patchSlot (patch : List Difference → Json → Json) (edits : List Difference)
    (old : Option Json) : Option Json :=
  match edits.find? fun d => d.path.isEmpty with
  | some d => d.new
  | none => old.map (patch edits)

/-- The keys of an object, and those of the differences below it. -/
def patchKeys (members : List (String × Json)) (edits : List Difference) : List String :=
  (ExtTreeSet.ofList (members.map Prod.fst ++ edits.filterMap fun d => d.path.head?)).toList

/-- A document with all differences applied, each at its location; `depth` bounds the length
of their paths. -/
def patch : Nat → List Difference → Json → Json
  | 0, _, old => old
  | depth + 1, edits, old =>
    match old with
    | .obj members =>
      .obj ((patchKeys members edits).filterMap fun key =>
        (patchSlot (patch depth) (inside key edits) (members.lookup key)).map fun v => (key, v))
    | .arr items =>
      .arr ((range (items.length + edits.length)).filterMap fun i =>
        patchSlot (patch depth) (inside (toString i) edits) items[i]?)
    | other => other

/-- A reported change, at the location that its path points to. -/
def SemanticChange.located (change : SemanticChange) : Option Difference :=
  (parse change.path.toList).map fun tokens =>
    ⟨tokens, change.kind, change.old, change.new⟩

/-- The document that the changes make of another one. -/
def applyChanges (changes : List SemanticChange) (old : Json) : Option Json :=
  let edits := changes.filterMap SemanticChange.located
  patchSlot (patch (edits.map fun d => d.path.length).sum) edits (some old)

theorem sameNumber_self (n : Number) : sameNumber n n = true := by
  cases n with
  | int n => exact beq_self_eq_true n
  | float x hx => simp [sameNumber, F64.eq, F64.isNan_of_finite hx]

mutual
theorem sameJson_self : ∀ j : Json, sameJson j j = true
  | .obj members => by
    rw [sameJson]
    exact sameMembers_self members
  | .arr items => by
    rw [sameJson]
    exact sameItems_self items
  | .null => by rw [sameJson]; rfl; all_goals simp
  | .bool b => by rw [sameJson]; exact beq_self_eq_true b; all_goals simp
  | .num n => by rw [sameJson]; exact sameNumber_self n; all_goals simp
  | .str s => by rw [sameJson]; exact beq_self_eq_true s; all_goals simp

theorem sameMembers_self : ∀ members : List (String × Json), sameMembers members members = true
  | [] => by rw [sameMembers]
  | (key, value) :: rest => by
    rw [sameMembers, beq_self_eq_true, sameJson_self value, sameMembers_self rest]
    rfl

theorem sameItems_self : ∀ items : List Json, sameItems items items = true
  | [] => by rw [sameItems]
  | value :: rest => by
    rw [sameItems, sameJson_self value, sameItems_self rest]
    rfl
end

theorem sameSlot_self (slot : Option Json) : sameSlot slot slot = true := by
  cases slot with
  | none => rfl
  | some j => exact sameJson_self j

theorem sameMembers_of_lookup : ∀ {a b : List (String × Json)},
    (a.Pairwise fun a b => compare a.1 b.1 = .lt) → (b.Pairwise fun a b => compare a.1 b.1 = .lt) →
    (∀ key, sameSlot (a.lookup key) (b.lookup key) = true) → sameMembers a b = true
  | [], [], _, _, _ => by rw [sameMembers]
  | (key, value) :: a, [], _, _, h => by
    have hkey := h key
    rw [lookup_cons_self] at hkey
    cases hkey
  | [], (key, value) :: b, _, _, h => by
    have hkey := h key
    rw [lookup_cons_self] at hkey
    cases hkey
  | (key, value) :: a, (key', value') :: b, ha, hb, h => by
    obtain ⟨hbefore, hrest⟩ := pairwise_cons.mp ha
    obtain ⟨hbefore', hrest'⟩ := pairwise_cons.mp hb
    -- The smaller key would be missing on one side.
    have heq : key = key' := by
      cases hkey : compare key key' with
      | eq => exact Std.LawfulEqOrd.eq_of_compare hkey
      | lt =>
        have hslot := h key
        rw [lookup_cons_self, Before.lookup (Before.cons hkey hbefore')] at hslot
        cases hslot
      | gt =>
        have hslot := h key'
        rw [lookup_cons_self,
          Before.lookup (Before.cons (OrientedCmp.lt_of_gt hkey) hbefore)] at hslot
        cases hslot
    subst heq
    have hvalue := h key
    rw [lookup_cons_self, lookup_cons_self] at hvalue
    have hsame : sameMembers a b = true := sameMembers_of_lookup hrest hrest' fun token => by
      by_cases htoken : key = token
      · rw [← htoken, Before.lookup hbefore, Before.lookup hbefore']
        rfl
      · have hslot := h token
        rw [lookup_cons_of_ne htoken, lookup_cons_of_ne htoken] at hslot
        exact hslot
    rw [sameMembers, beq_self_eq_true, hsame]
    exact (Bool.and_true _).trans hvalue

theorem sameItems_of_slots {slot : Nat → Option Json} {items : List Json} {n : Nat}
    (hn : items.length ≤ n) (h : ∀ i, sameSlot (slot i) items[i]? = true) :
    sameItems ((range n).filterMap slot) items = true := by
  induction n generalizing slot items with
  | zero =>
    rw [length_eq_zero_iff.mp (by omega : items.length = 0)]
    exact sameItems_self []
  | succ n ih =>
    rw [range_succ_eq_map, filterMap_cons, filterMap_map]
    cases items with
    | nil =>
      have hzero := h 0
      cases hslot : slot 0 with
      | none => exact ih (zero_le n) fun i => h (i + 1)
      | some j =>
        rw [hslot] at hzero
        cases hzero
    | cons value rest =>
      have hzero := h 0
      cases hslot : slot 0 with
      | none =>
        rw [hslot] at hzero
        cases hzero
      | some j =>
        rw [hslot] at hzero
        have hrest := @ih (slot ∘ Nat.succ) rest (by simpa using hn) fun i => h (i + 1)
        show sameItems (j :: _) (value :: rest) = true
        rw [sameItems, hrest, Bool.and_true]
        exact hzero

theorem patchKeys_sorted (members : List (String × Json)) (edits : List Difference) :
    (patchKeys members edits).Pairwise fun a b => compare a b = .lt :=
  ExtTreeSet.ordered_toList

theorem mem_patchKeys {edits : List Difference} : key ∈ patchKeys members edits ↔
      (∃ value, (key, value) ∈ members) ∨ ∃ d ∈ edits, d.path.head? = some key := by
  rw [patchKeys, ExtTreeSet.mem_toList, ExtTreeSet.mem_ofList, List.contains_iff_mem,
    List.mem_append, List.mem_map, List.mem_filterMap]
  constructor
  · intro h
    rcases h with ⟨m, hm, rfl⟩ | h
    · exact .inl ⟨m.2, hm⟩
    · exact .inr h
  · intro h
    rcases h with ⟨value, hm⟩ | h
    · exact .inl ⟨_, hm, rfl⟩
    · exact .inr h

theorem lookup_made {keys : List String} (hkeys : keys.Nodup) {slot : String → Option Json}
    (habsent : key ∉ keys → slot key = none) :
    (keys.filterMap fun key => (slot key).map fun v => (key, v)).lookup key = slot key := by
  induction keys with
  | nil =>
    rw [habsent not_mem_nil]
    rfl
  | cons first rest ih =>
    obtain ⟨hfirst, hrest⟩ := nodup_cons.mp hkeys
    by_cases heq : first = key
    · subst heq
      cases hslot : slot first with
      | none =>
        rw [filterMap_cons]
        simp only [hslot, map_none]
        rw [lookup_eq_none_iff]
        intro m hm
        obtain ⟨k, hk, hmade⟩ := List.mem_filterMap.mp hm
        obtain ⟨v, -, rfl⟩ := map_eq_some_iff.mp hmade
        have hne : first ≠ k := fun h => hfirst (h ▸ hk)
        simpa using hne
      | some v =>
        rw [filterMap_cons]
        simp only [hslot, map_some, lookup_cons_self]
    · have htail := ih hrest fun hmem => habsent fun h =>
        (mem_cons.mp h).elim (fun h => heq h.symm) hmem
      rw [filterMap_cons]
      cases hslot : slot first with
      | none =>
        simp only [map_none]
        exact htail
      | some v =>
        simp only [map_some]
        rw [lookup_cons_of_ne heq]
        exact htail

theorem made_sorted {keys : List String} (hkeys : keys.Pairwise fun a b => compare a b = .lt)
    (slot : String → Option Json) :
    (keys.filterMap fun key => (slot key).map fun v => (key, v)).Pairwise
      fun a b => compare a.1 b.1 = .lt := by
  refine hkeys.filterMap _ fun a b hab x hx y hy => ?_
  obtain ⟨v, -, rfl⟩ := map_eq_some_iff.mp hx
  obtain ⟨w, -, rfl⟩ := map_eq_some_iff.mp hy
  exact hab

theorem length_inside {token : String} {l : List Difference} {depth : Nat}
    (h : ∀ d ∈ l, d.path.length ≤ depth + 1) : ∀ d ∈ inside token l, d.path.length ≤ depth := by
  intro d hd
  have hlength := h _ (mem_inside.mp hd)
  simpa [below] using hlength

theorem patchSlot_below {p : List Difference → Json → Json} {edits : List Difference}
    (h : ∀ d ∈ edits, d.path ≠ []) (old : Json) :
    patchSlot p edits (some old) = some (p edits old) := by
  have hfind : (edits.find? fun d => d.path.isEmpty) = none :=
    find?_eq_none.mpr fun d hd => by simpa using h d hd
  rw [patchSlot, hfind]
  rfl

theorem differences_nil {old new : Json} : differences old new = [] ↔ sameJson old new = true := by
  rw [← diffJson_nil "" old new (String.ofList (render [])), diffJson_eq, map_eq_nil_iff]

theorem length_items (old new : List Json) (index : Nat) :
    new.length ≤ old.length + (itemDifferences old new index).length := by
  by_cases hnil : old = [] ∧ new = []
  · rw [hnil.2]
    exact zero_le _
  · have hne : old ≠ [] ∨ new ≠ [] := not_and_or.mp hnil
    have hlt : old.tail.length + new.tail.length < old.length + new.length := by
      rw [length_tail, length_tail]
      rcases hne with hne | hne <;> have := length_pos_iff.mpr hne <;> omega
    have hrest := length_items old.tail new.tail (index + 1)
    rw [itemDifferences_step hne, length_append, length_map]
    rw [length_tail, length_tail] at hrest
    cases old with
    | cons value old =>
      rw [length_cons] at hrest ⊢
      omega
    | nil =>
      cases new with
      | nil => exact zero_le _
      | cons value new =>
        have hadded : (slotDifferences ([] : List Json).head? (value :: new).head?).length = 1 := rfl
        rw [hadded]
        omega
  termination_by old.length + new.length

theorem same_of_short {old new : Json} (hne : ∀ d ∈ differences old new, d.path ≠ [])
    (hdepth : ∀ d ∈ differences old new, d.path.length ≤ 0) : sameJson old new = true := by
  refine differences_nil.mp (eq_nil_iff_forall_not_mem.mpr fun d hd => hne d hd ?_)
  exact length_eq_zero_iff.mp (by have := hdepth d hd; omega)

theorem patchSlot_same (hold : ∀ j ∈ old, j.Ordered) (hnew : ∀ j ∈ new, j.Ordered) : ∀ depth,
      (∀ d ∈ slotDifferences old new, d.path.length ≤ depth) →
      sameSlot (patchSlot (patch depth) (slotDifferences old new) old) new = true := by
  refine slot_induction (P := fun old new => ∀ depth,
      (∀ d ∈ slotDifferences old new, d.path.length ≤ depth) →
      sameSlot (patchSlot (patch depth) (slotDifferences old new) old) new = true)
    (fun old new hapart depth hdepth => ?_) (fun a b ha hb ih depth hdepth => ?_)
    (fun a b ih depth hdepth => ?_) old new hold hnew
  · rcases apart_differences hapart with ⟨hnil, hsame⟩ | ⟨kind, hone⟩
    · rw [hnil]
      cases old with
      | none => exact hsame
      | some a =>
        cases new with
        | none => cases hsame
        | some b =>
          -- Equal values of slots that cannot be compared further are scalars.
          have hscalar : patch depth [] a = a := by
            have hsame' : sameScalar a b = true := by
              rw [sameSlot, sameJson.eq_3 a b (fun x y hx hy => hapart.1 x y (congrArg some hx)
                (congrArg some hy)) fun x y hx hy => hapart.2 x y (congrArg some hx)
                (congrArg some hy)] at hsame
              exact hsame
            cases depth with
            | zero => rfl
            | succ depth =>
              cases a with
              | obj members => cases hsame'
              | arr items => cases hsame'
              | null => rfl
              | bool b => rfl
              | num n => rfl
              | str s => rfl
          show sameJson (patch depth [] a) b = true
          rw [hscalar]
          exact hsame
    · rw [hone]
      exact sameSlot_self new
  · have hne : ∀ d ∈ differences (.obj a) (.obj b), d.path ≠ [] := by
      rw [differences]
      exact members_path_ne a b
    rw [slotDifferences] at hdepth ⊢
    rw [patchSlot_below hne]
    cases depth with
    | zero => exact same_of_short hne hdepth
    | succ depth =>
      rw [differences] at hdepth ⊢
      rw [patch, sameSlot, sameJson]
      refine sameMembers_of_lookup (made_sorted (patchKeys_sorted _ _) _) hb.1 fun key => ?_
      rw [lookup_made]
      · rw [inside_members key a b ha.1 hb.1]
        refine ih key depth fun d hd => ?_
        rw [← inside_members key a b ha.1 hb.1] at hd
        exact length_inside hdepth d hd
      · refine (patchKeys_sorted _ _).imp fun {x y} hxy heq => ?_
        rw [heq] at hxy
        have hself : compare y y = .eq := ReflCmp.compare_self
        rw [hself] at hxy
        cases hxy
      · intro habsent
        have hlookup : a.lookup key = none := by
          rw [lookup_eq_none_iff]
          intro m hm
          have hkey : key ≠ m.1 := fun h =>
            habsent (mem_patchKeys.mpr (.inl ⟨m.2, by rw [h]; exact hm⟩))
          simpa using hkey
        have hinside : inside key (memberDifferences a b) = [] := by
          refine eq_nil_iff_forall_not_mem.mpr fun d hd => habsent (mem_patchKeys.mpr ?_)
          exact .inr ⟨_, mem_inside.mp hd, rfl⟩
        rw [hlookup, hinside]
        rfl
  · have hne : ∀ d ∈ differences (.arr a) (.arr b), d.path ≠ [] := by
      rw [differences]
      intro d hd
      obtain ⟨i, rest, -, hpath⟩ := items_path a b 0 hd
      rw [hpath]
      exact cons_ne_nil _ _
    rw [slotDifferences] at hdepth ⊢
    rw [patchSlot_below hne]
    cases depth with
    | zero => exact same_of_short hne hdepth
    | succ depth =>
      rw [differences] at hdepth ⊢
      rw [patch, sameSlot, sameJson]
      refine sameItems_of_slots (length_items a b 0) fun i => ?_
      have hinside := inside_items a b 0 i
      rw [zero_add] at hinside
      rw [hinside]
      refine ih i depth fun d hd => ?_
      rw [← hinside] at hd
      exact length_inside hdepth d hd

theorem located_toChange (d : Difference) :
    SemanticChange.located (changeBelow role [] d) = some d := by
  rw [SemanticChange.located, changeBelow, nil_append]
  show Option.map _ (parse (String.ofList (render d.path)).toList) = _
  rw [String.toList_ofList, parse_render]
  rfl

/-- There are no changes exactly when the documents are equal; otherwise they have distinct paths,
each to one location with the reported values, and make the new document of the old one. -/
theorem diffJson_faithful (old new : Value) :
    (diffJson role old.json new.json "" = [] ↔ sameJson old.json new.json = true) ∧
    ((diffJson role old.json new.json "").map SemanticChange.path).Nodup ∧
    (∀ change ∈ diffJson role old.json new.json "", ∃ tokens,
      (∀ others, render others = change.path.toList ↔ others = tokens) ∧
      old.json.follow tokens = change.old ∧ new.json.follow tokens = change.new) ∧
    ∃ result, applyChanges (diffJson role old.json new.json "") old.json = some result ∧
      sameJson result new.json = true := by
  have heq : diffJson role old.json new.json "" =
      (differences old.json new.json).map (changeBelow role []) :=
    diffJson_eq role old.json new.json []
  have hold : ∀ j ∈ some old.json, j.Ordered := by
    intro j hj
    cases hj
    exact old.ordered
  have hnew : ∀ j ∈ some new.json, j.Ordered := by
    intro j hj
    cases hj
    exact new.ordered
  refine ⟨diffJson_nil role old.json new.json "", ?_, fun change hchange => ?_, ?_⟩
  · rw [heq, List.map_map]
    have hpaths := nodup_paths (some old.json) (some new.json) hold hnew
    have hmap : (differences old.json new.json).map (SemanticChange.path ∘ changeBelow role []) =
        ((differences old.json new.json).map Difference.path).map fun tokens =>
          String.ofList (render tokens) := by
      rw [List.map_map]
      rfl
    rw [hmap]
    refine hpaths.map fun a b hab => ?_
    have hrender : render a = render b := String.ofList_injective hab
    have hparse := congrArg parse hrender
    rw [parse_render, parse_render] at hparse
    exact Option.some.inj hparse
  · rw [heq] at hchange
    obtain ⟨d, hd, rfl⟩ := List.mem_map.mp hchange
    obtain ⟨hbefore, hafter⟩ := located (some old.json) (some new.json) hold hnew d hd
    refine ⟨d.path, fun others => ?_, hbefore, hafter⟩
    have hpath : (changeBelow role [] d).path.toList = render d.path := String.toList_ofList
    rw [hpath]
    constructor
    · intro h
      have hparse := congrArg parse h
      rw [parse_render, parse_render] at hparse
      exact Option.some.inj hparse
    · intro h
      rw [h]
  · have hedits : (diffJson role old.json new.json "").filterMap SemanticChange.located =
        differences old.json new.json := by
      rw [heq, filterMap_map]
      have hsome : (SemanticChange.located ∘ changeBelow role []) = some :=
        funext fun d => located_toChange role d
      rw [hsome, filterMap_some]
    have hsame := patchSlot_same (some old.json) (some new.json) hold hnew
      ((differences old.json new.json).map fun d => d.path.length).sum fun d hd =>
        single_le_sum (fun x _ => zero_le x) _ (List.mem_map.mpr ⟨d, hd, rfl⟩)
    rw [applyChanges, hedits]
    rw [slotDifferences] at hsame
    cases hresult : patchSlot (patch ((differences old.json new.json).map fun d => d.path.length).sum)
        (differences old.json new.json) (some old.json) with
    | none =>
      rw [hresult] at hsame
      cases hsame
    | some result =>
      rw [hresult] at hsame
      exact ⟨result, rfl, hsame⟩

end GeneGIS.Capsule
