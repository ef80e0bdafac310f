/-
The objects of a `Value` are maps: they list their members in ascending key order.  Lookup commutes
with `strip`, which removes the members of given names at every depth.
-/
import GeneGIS.Data.Binary64
import Mathlib.Data.List.Sort

namespace GeneGIS

open List Std.ExtTreeMap Std

/-- A JSON number.  A floating-point number is finite: there is no text for the
others, and they are written as `null`. -/
inductive Number where
  | int (n : Int)
  | float (x : F64) (finite : x.isFinite = true)

inductive Json where
  | null
  | bool (b : Bool)
  | num (n : Number)
  | str (s : String)
  | arr (items : List Json)
  | obj (members : List (String × Json))

namespace Json

def get? (key : String) : Json → Option Json
  | .obj members => members.lookup key
  | _ => none

mutual
/-- Remove the members called `names`, at every depth. -/
def strip (names : List String) : Json → Json
  | .arr items => .arr (stripItems names items)
  | .obj members => .obj (stripMembers names members)
  | .null => .null
  | .bool b => .bool b
  | .num n => .num n
  | .str s => .str s

def stripItems (names : List String) : List Json → List Json
  | [] => []
  | item :: rest => strip names item :: stripItems names rest

def stripMembers (names : List String) : List (String × Json) → List (String × Json)
  | [] => []
  | (key, value) :: rest =>
    if key ∈ names then stripMembers names rest
    else (key, strip names value) :: stripMembers names rest
end

theorem stripItems_eq_map (names : List String) (items : List Json) :
    stripItems names items = items.map (strip names) := by
  induction items with
  | nil => rfl
  | cons item rest ih => rw [stripItems, ih, map_cons]

theorem stripMembers_eq (names : List String) (members : List (String × Json)) :
    stripMembers names members =
      (members.filter fun m => m.1 ∉ names).map fun m => (m.1, m.2.strip names) := by
  induction members with
  | nil => rfl
  | cons m rest ih =>
    obtain ⟨key, value⟩ := m
    by_cases h : key ∈ names
    · simp [stripMembers, h, ih]
    · simp [stripMembers, h, ih]

mutual
/-- Every object lists its members in strictly ascending key order. -/
def Ordered : Json → Prop
  | .arr items => OrderedItems items
  | .obj members => members.Pairwise (fun a b => compare a.1 b.1 = .lt) ∧ OrderedMembers members
  | .null | .bool _ | .num _ | .str _ => True

def OrderedItems : List Json → Prop
  | [] => True
  | item :: rest => Ordered item ∧ OrderedItems rest

def OrderedMembers : List (String × Json) → Prop
  | [] => True
  | (_, value) :: rest => Ordered value ∧ OrderedMembers rest
end

theorem orderedItems_iff (items : List Json) : OrderedItems items ↔ ∀ j ∈ items, Ordered j := by
  induction items with
  | nil => simp [OrderedItems]
  | cons item rest ih => simp [OrderedItems, ih]

theorem orderedMembers_iff (members : List (String × Json)) :
    OrderedMembers members ↔ ∀ m ∈ members, Ordered m.2 := by
  induction members with
  | nil => simp [OrderedMembers]
  | cons m rest ih => simp [OrderedMembers, ih]

mutual
theorem ordered_strip (names : List String) : ∀ j : Json, j.Ordered → (j.strip names).Ordered
  | .null, _ | .bool _, _ | .num _, _ | .str _, _ => trivial
  | .arr items, h => orderedItems_strip names items h
  | .obj members, h => by
    refine ⟨?_, orderedMembers_strip names members h.2⟩
    rw [stripMembers_eq, pairwise_map]
    exact h.1.filter _

theorem orderedItems_strip (names : List String) :
    ∀ items : List Json, OrderedItems items → OrderedItems (stripItems names items)
  | [], _ => trivial
  | item :: rest, h => ⟨ordered_strip names item h.1, orderedItems_strip names rest h.2⟩

theorem orderedMembers_strip (names : List String) :
    ∀ members : List (String × Json), OrderedMembers members →
      OrderedMembers (stripMembers names members)
  | [], _ => trivial
  | (key, value) :: rest, h => by
    have hrest := orderedMembers_strip names rest h.2
    rw [stripMembers]
    split
    · exact hrest
    · exact ⟨ordered_strip names value h.1, hrest⟩
end

/-! ## Lookup -/

theorem lookup_map_value {α β : Type} (f : α → β) (key : String) (l : List (String × α)) :
    (l.map fun e => (e.1, f e.2)).lookup key = (l.lookup key).map f := by
  induction l with
  | nil => rfl
  | cons e rest ih =>
    obtain ⟨k, v⟩ := e
    simp only [map_cons, lookup_cons]
    cases key == k
    · exact ih
    · rfl

theorem lookup_filter_key {α : Type} (keep : String → Bool) (key : String) (l : List (String × α)) :
    (l.filter fun e => keep e.1).lookup key = if keep key then l.lookup key else none := by
  induction l with
  | nil => simp
  | cons e rest ih =>
    obtain ⟨k, v⟩ := e
    by_cases hk : key = k
    · subst hk
      by_cases hkeep : keep key = true
      · simp [hkeep]
      · simp [hkeep, ih]
    · have hne : (key == k) = false := by simpa using hk
      by_cases hkeep : keep k = true
      · simp only [filter_cons, hkeep, if_true, lookup_cons, hne, ih]
      · simp only [filter_cons, hkeep, lookup_cons, hne, ih, Bool.false_eq_true, if_false]

theorem get?_strip {names : List String} {key : String} (h : key ∉ names) (j : Json) :
    (j.strip names).get? key = (j.get? key).map (strip names) := by
  cases j with
  | obj members =>
    rw [strip, get?, get?, stripMembers_eq, lookup_map_value,
      lookup_filter_key fun k => decide (k ∉ names)]
    simp [h]
  | _ => rfl

theorem get?_strip_of_mem {names : List String} {key : String} (h : key ∈ names) (j : Json) :
    (j.strip names).get? key = none := by
  cases j with
  | obj members =>
    rw [strip, get?, stripMembers_eq, lookup_map_value,
      lookup_filter_key fun k => decide (k ∉ names)]
    simp [h]
  | _ => rfl

theorem lookup_eq_of_pairwise {α : Type} {l : List (String × α)} {key : String} {value : α}
    (hl : l.Pairwise fun a b => a.1 ≠ b.1) (h : (key, value) ∈ l) :
    l.lookup key = some value := by
  induction l with
  | nil => cases h
  | cons e rest ih =>
    obtain ⟨k, v⟩ := e
    rw [pairwise_cons] at hl
    rcases mem_cons.mp h with h | h
    · cases h
      simp
    · have hne : (key == k) = false := by simpa using (hl.1 _ h).symm
      rw [lookup_cons, hne]
      exact ih hl.2 h

theorem lookup_toList {α : Type} (m : ExtTreeMap String α) (key : String) :
    m.toList.lookup key = m[key]? := by
  have hdistinct : m.toList.Pairwise fun a b => a.1 ≠ b.1 := by
    refine m.distinct_keys_toList.imp (fun {a b} h e => h ?_)
    rw [e]
    exact ReflCmp.compare_self
  cases hm : m[key]? with
  | some value =>
    exact lookup_eq_of_pairwise hdistinct (mem_toList_iff_getElem?_eq_some.mpr hm)
  | none =>
    rw [lookup_eq_none_iff]
    intro e he
    have hmem : m[e.1]? = some e.2 := mem_toList_iff_getElem?_eq_some.mp he
    rw [bne_iff_ne]
    rintro rfl
    rw [hmem] at hm
    cases hm

theorem members_ext {l m : List (String × Json)} (hl : l.Pairwise fun a b => compare a.1 b.1 = .lt)
    (hm : m.Pairwise fun a b => compare a.1 b.1 = .lt)
    (h : ∀ key, l.lookup key = m.lookup key) : l = m := by
  have hmem : ∀ {l : List (String × Json)}, (l.Pairwise fun a b => compare a.1 b.1 = .lt) →
      ∀ e, e ∈ l ↔ l.lookup e.1 = some e.2 := by
    intro l hl e
    constructor
    · exact lookup_eq_of_pairwise (hl.imp fun {a b} hab e => by rw [e] at hab; simp at hab)
    · intro he
      obtain ⟨l₁, l₂, rfl, -⟩ := lookup_eq_some_iff.mp he
      simp
  have hasymm : Antisymm fun a b : String × Json => compare a.1 b.1 = .lt := by
    refine ⟨fun a b hab hba => ?_⟩
    rw [OrientedOrd.eq_swap (a := a.1) (b := b.1), hba] at hab
    cases hab
  have hirrefl : Irrefl fun a b : String × Json => compare a.1 b.1 = .lt :=
    ⟨fun a ha => by simp at ha⟩
  refine List.Pairwise.eq_of_mem_iff hl hm fun e => ?_
  rw [hmem hl, hmem hm, h]

end Json

/-- A JSON value of the program: its objects are maps. -/
@[ext] structure Value where
  json : Json
  ordered : json.Ordered

namespace Value

def null : Value := ⟨.null, trivial⟩

def bool (b : Bool) : Value := ⟨.bool b, trivial⟩

def str (s : String) : Value := ⟨.str s, trivial⟩

def ofInt (n : Int) : Value := ⟨.num (.int n), trivial⟩

def ofNat (n : Nat) : Value := ofInt n

/-- There is no JSON number for an infinity or a NaN. -/
def ofF64 (x : F64) : Value :=
  if h : x.isFinite = true then ⟨.num (.float x h), trivial⟩ else null

variable {α : Type} (f : α → Value)

/-- An optional value, absent as `null`. -/
def ofOption : Option α → Value
  | none => null
  | some a => f a

def ofList (l : List α) : Value where
  json := .arr (l.map fun a => (f a).json)
  ordered := by
    rw [Json.Ordered, Json.orderedItems_iff]
    simpa using fun a _ => (f a).ordered

def ofMap (m : ExtTreeMap String α) : Value where
  json := .obj (m.toList.map fun e => (e.1, (f e.2).json))
  ordered := by
    refine ⟨pairwise_map.mpr m.ordered_keys_toList, (Json.orderedMembers_iff _).mpr ?_⟩
    intro e he
    obtain ⟨a, -, rfl⟩ := mem_map.mp he
    exact (f a.2).ordered

/-- An object from its members in any order; the last member of a key counts. -/
def object (members : List (String × Value)) : Value := ofMap id (.ofList members)

/-- An optional member, absent when there is no value. -/
def optional (key : String) (f : α → Value) : Option α → List (String × Value)
  | none => []
  | some a => [(key, f a)]

/-- A list member, absent when the list is empty. -/
def unlessEmpty (key : String) (f : α → Value) : List α → List (String × Value)
  | [] => []
  | l => [(key, ofList f l)]

theorem get?_object {members : List (String × Value)} {key : String}
    (hdistinct : (members.map Prod.fst).Nodup) :
    (object members).json.get? key = (members.lookup key).map json := by
  have hpair : members.Pairwise fun a b => ¬ compare a.1 b.1 = .eq := by
    rw [List.Nodup, pairwise_map] at hdistinct
    exact hdistinct.imp fun h e => h (LawfulEqOrd.eq_of_compare e)
  rw [object, ofMap, Json.get?, Json.lookup_map_value (fun v : Value => (id v).json),
    Json.lookup_toList]
  cases hl : members.lookup key with
  | some value =>
    have hmem : (key, value) ∈ members := by
      obtain ⟨l₁, l₂, rfl, -⟩ := lookup_eq_some_iff.mp hl
      simp
    rw [getElem?_ofList_of_mem ReflCmp.compare_self hpair hmem]
    rfl
  | none =>
    rw [getElem?_ofList_of_contains_eq_false]
    · rfl
    · rw [lookup_eq_none_iff] at hl
      rw [contains_eq_any_beq]
      simpa using fun a b hab => by simpa using hl (a, b) hab

theorem get?_ofMap (m : ExtTreeMap String α) (key : String) :
    (ofMap f m).json.get? key = m[key]?.map fun a => (f a).json := by
  rw [ofMap, Json.get?, Json.lookup_map_value (fun a => (f a).json), Json.lookup_toList]

def strip (names : List String) (v : Value) : Value :=
  ⟨v.json.strip names, Json.ordered_strip names v.json v.ordered⟩

theorem map_json_strip (names : List String) (o : Option Value) :
    (o.map json).map (Json.strip names) = (o.map (strip names)).map json := by
  cases o <;> rfl

theorem strip_object_congr {names : List String} {l m : List (String × Value)}
    (hl : (l.map Prod.fst).Nodup) (hm : (m.map Prod.fst).Nodup)
    (h : ∀ key ∉ names, (l.lookup key).map (strip names) = (m.lookup key).map (strip names)) :
    (object l).strip names = (object m).strip names := by
  refine Value.ext (congrArg Json.obj (Json.members_ext ?_ ?_ fun key => ?_))
  · exact ((object l).strip names).ordered.1
  · exact ((object m).strip names).ordered.1
  · show ((object l).json.strip names).get? key = ((object m).json.strip names).get? key
    by_cases hkey : key ∈ names
    · rw [Json.get?_strip_of_mem hkey, Json.get?_strip_of_mem hkey]
    · rw [Json.get?_strip hkey, Json.get?_strip hkey, get?_object hl, get?_object hm,
        map_json_strip, map_json_strip, h key hkey]

end Value
end GeneGIS

/-! ## What stripping hides

What is kept and what is hidden together determine the document. -/

namespace GeneGIS
namespace Json

mutual
/-- The members called `names`, at every depth, without the scalars around them. -/
def hidden (names : List String) : Json → Json
  | .arr items => .arr (hiddenItems names items)
  | .obj members => .obj (hiddenMembers names members)
  | .null | .bool _ | .num _ | .str _ => .null

def hiddenItems (names : List String) : List Json → List Json
  | [] => []
  | item :: rest => hidden names item :: hiddenItems names rest

def hiddenMembers (names : List String) : List (String × Json) → List (String × Json)
  | [] => []
  | (key, value) :: rest =>
    (key, if key ∈ names then value else hidden names value) :: hiddenMembers names rest
end

mutual
theorem eq_of_strip_hidden (names : List String) : ∀ a b : Json, a.strip names = b.strip names →
    a.hidden names = b.hidden names → a = b
  | .null, b, hs, _ => by
    cases b <;> simp_all [strip]
  | .bool _, b, hs, _ => by
    cases b <;> simp_all [strip]
  | .num _, b, hs, _ => by
    cases b <;> simp_all [strip]
  | .str _, b, hs, _ => by
    cases b <;> simp_all [strip]
  | .arr items, b, hs, hh => by
    cases b with
    | arr items' =>
      rw [eq_of_strip_hiddenItems names items items' (Json.arr.inj hs) (Json.arr.inj hh)]
    | null | bool | num | str | obj => cases hs
  | .obj members, b, hs, hh => by
    cases b with
    | obj members' =>
      rw [eq_of_strip_hiddenMembers names members members' (Json.obj.inj hs) (Json.obj.inj hh)]
    | null | bool | num | str | arr => cases hs

theorem eq_of_strip_hiddenItems (names : List String) : ∀ l m : List Json,
    stripItems names l = stripItems names m → hiddenItems names l = hiddenItems names m → l = m
  | [], m, hs, _ => by
    cases m with
    | nil => rfl
    | cons => cases hs
  | item :: rest, m, hs, hh => by
    cases m with
    | nil => cases hs
    | cons item' rest' =>
      obtain ⟨hs₁, hs₂⟩ := List.cons.inj hs
      obtain ⟨hh₁, hh₂⟩ := List.cons.inj hh
      rw [eq_of_strip_hidden names item item' hs₁ hh₁,
        eq_of_strip_hiddenItems names rest rest' hs₂ hh₂]

theorem eq_of_strip_hiddenMembers (names : List String) : ∀ l m : List (String × Json),
    stripMembers names l = stripMembers names m →
    hiddenMembers names l = hiddenMembers names m → l = m
  | [], m, _, hh => by
    cases m with
    | nil => rfl
    | cons => cases hh
  | (key, value) :: rest, m, hs, hh => by
    cases m with
    | nil => cases hh
    | cons first rest' =>
      obtain ⟨key', value'⟩ := first
      obtain ⟨hh₁, hh₂⟩ := List.cons.inj hh
      obtain ⟨hkey, hvalue⟩ := Prod.mk.inj hh₁
      subst hkey
      rw [stripMembers, stripMembers] at hs
      by_cases hname : key ∈ names
      · rw [if_pos hname, if_pos hname] at hs hvalue
        rw [hvalue, eq_of_strip_hiddenMembers names rest rest' hs hh₂]
      · rw [if_neg hname, if_neg hname] at hs hvalue
        obtain ⟨hs₁, hs₂⟩ := List.cons.inj hs
        rw [eq_of_strip_hidden names value value' (Prod.mk.inj hs₁).2 hvalue,
          eq_of_strip_hiddenMembers names rest rest' hs₂ hh₂]
end

end Json

theorem Value.eq_iff_hidden {names : List String} {a b : Value}
    (h : a.strip names = b.strip names) :
    a = b ↔ a.json.hidden names = b.json.hidden names := by
  constructor
  · intro hab
    rw [hab]
  · intro hhidden
    exact Value.ext (Json.eq_of_strip_hidden names _ _ (congrArg Value.json h) hhidden)

end GeneGIS
