/-
What a stripped document shows.

`Shows names f view` says that two values written by `f` strip to the same document exactly when
they have the same `view`.
-/
import GeneGIS.Data.Json

namespace GeneGIS.Value

open List hiding forall_mem_map map_map
open Option hiding forall_mem_map map_map
open Std.ExtTreeMap hiding map_map

variable {α β : Type} {names : List String} {f : α → Value} {view : α → β}

def Shows (names : List String) (f : α → Value) (view : α → β) : Prop :=
  ∀ a b, (f a).strip names = (f b).strip names ↔ view a = view b

@[simp] theorem strip_null : null.strip names = null := rfl

@[simp] theorem strip_ofInt (n : Int) : (ofInt n).strip names = ofInt n := rfl

@[simp] theorem strip_str (s : String) : (str s).strip names = str s := rfl

@[simp] theorem strip_bool (b : Bool) : (bool b).strip names = bool b := rfl

@[simp] theorem strip_ofNat (n : Nat) : (ofNat n).strip names = ofNat n := rfl

@[simp] theorem strip_ofF64 (x : F64) : (ofF64 x).strip names = ofF64 x := by
  rw [ofF64]
  split <;> rfl

@[simp] theorem str_inj {s t : String} : str s = str t ↔ s = t := by
  constructor
  · intro h
    exact Json.str.inj (congrArg json h)
  · intro h
    rw [h]

@[simp] theorem bool_inj {a b : Bool} : bool a = bool b ↔ a = b := by
  constructor
  · intro h
    exact Json.bool.inj (congrArg json h)
  · intro h
    rw [h]

@[simp] theorem ofInt_inj {m n : Int} : ofInt m = ofInt n ↔ m = n := by
  constructor
  · intro h
    exact Number.int.inj (Json.num.inj (congrArg json h))
  · intro h
    rw [h]

@[simp] theorem ofNat_inj {m n : Nat} : ofNat m = ofNat n ↔ m = n := by
  rw [ofNat, ofNat, ofInt_inj]
  exact Int.ofNat_inj

theorem ofF64_eq {x y : F64} : ofF64 x = ofF64 y ↔
    x = y ∨ x.isFinite = false ∧ y.isFinite = false := by
  by_cases hx : x.isFinite = true
  · by_cases hy : y.isFinite = true
    · rw [ofF64, ofF64, dif_pos hx, dif_pos hy]
      simp only [hx, hy, Bool.true_eq_false, and_self, or_false]
      constructor
      · intro h
        have hnumber := Json.num.inj (congrArg json h)
        injection hnumber
      · intro h
        subst h
        rfl
    · rw [ofF64, ofF64, dif_pos hx, dif_neg hy]
      refine iff_of_false (fun h => ?_) ?_
      · cases congrArg json h
      · intro h
        rcases h with rfl | h
        · exact hy hx
        · rw [h.1] at hx
          cases hx
  · by_cases hy : y.isFinite = true
    · rw [ofF64, ofF64, dif_neg hx, dif_pos hy]
      refine iff_of_false (fun h => ?_) ?_
      · cases congrArg json h
      · intro h
        rcases h with rfl | h
        · exact hx hy
        · rw [h.2] at hy
          cases hy
    · rw [ofF64, ofF64, dif_neg hx, dif_neg hy]
      simp only [true_iff]
      exact Or.inr ⟨by simpa using hx, by simpa using hy⟩

theorem strip_ofList (l : List α) : (ofList f l).strip names = ofList (fun a => (f a).strip names) l := by
  refine Value.ext ?_
  show Json.arr (Json.stripItems names _) = Json.arr _
  rw [Json.stripItems_eq_map, List.map_map]
  rfl

theorem ofList_eq {l m : List α} : ofList f l = ofList f m ↔ l.map f = m.map f := by
  constructor
  · intro h
    have hitems := Json.arr.inj (congrArg json h)
    have hmap : ∀ l : List α, l.map (fun a => (f a).json) = (l.map f).map json := by
      intro l
      rw [List.map_map]
      rfl
    rw [hmap, hmap] at hitems
    exact map_injective_iff.mpr (fun a b hab => Value.ext hab) hitems
  · intro h
    refine Value.ext (congrArg Json.arr ?_)
    have hjson := congrArg (List.map json) h
    rw [List.map_map, List.map_map] at hjson
    exact hjson

theorem Shows.list (h : Shows names f view) : Shows names (ofList f) (List.map view) := by
  intro l m
  rw [strip_ofList, strip_ofList, ofList_eq]
  induction l generalizing m with
  | nil =>
    cases m with
    | nil => simp
    | cons b m => simp
  | cons a l ih =>
    cases m with
    | nil => simp
    | cons b m =>
      rw [map_cons, map_cons, map_cons, map_cons, cons.injEq, cons.injEq, ih, h a b]

theorem Shows.option (h : Shows names f view) (hnull : ∀ a, (f a).strip names ≠ null) :
    Shows names (ofOption f) (Option.map view) := by
  intro a b
  cases a with
  | none =>
    cases b with
    | none => simp
    | some b => simpa [ofOption] using Ne.symm (hnull b)
  | some a =>
    cases b with
    | none => simpa [ofOption] using hnull a
    | some b => simpa [ofOption] using h a b

theorem shows_str : Shows names str fun s => s := by
  intro s t
  rw [strip_str, strip_str, str_inj]

theorem shows_ofNat : Shows names ofNat fun n => n := by
  intro m n
  rw [strip_ofNat, strip_ofNat, ofNat_inj]

theorem shows_spelled {spell : α → String} (hspell : ∀ a b, spell a = spell b → a = b) :
    Shows names (fun a => str (spell a)) fun a => a := by
  intro a b
  rw [strip_str, strip_str, str_inj]
  exact ⟨hspell a b, congrArg spell⟩

theorem str_ne_null (s : String) : (str s).strip names ≠ null := by
  intro h
  cases congrArg json h

theorem ofNat_ne_null (n : Nat) : (ofNat n).strip names ≠ null := by
  intro h
  cases congrArg json h

theorem ofList_ne_null (l : List α) : (ofList f l).strip names ≠ null := by
  intro h
  cases congrArg json h

/-! ## Maps and objects -/

theorem strip_ofMap_eq {m n : Std.ExtTreeMap String α} :
    (ofMap f m).strip names = (ofMap f n).strip names ↔
      ∀ key ∉ names, m[key]?.map (fun a => (f a).strip names) =
        n[key]?.map (fun a => (f a).strip names) := by
  have hread : ∀ (m : Std.ExtTreeMap String α) (key : String), key ∉ names →
      ((ofMap f m).json.strip names).get? key =
        (m[key]?.map (fun a => (f a).strip names)).map json := by
    intro m key hkey
    rw [Json.get?_strip hkey, get?_ofMap, Option.map_map, Option.map_map]
    rfl
  constructor
  · intro h key hkey
    have hlookup := congrArg (fun v : Value => v.json.get? key) h
    have hjson : ((ofMap f m).json.strip names).get? key =
      ((ofMap f n).json.strip names).get? key := hlookup
    rw [hread m key hkey, hread n key hkey] at hjson
    exact map_injective (fun a b hab => Value.ext hab) hjson
  · intro h
    refine Value.ext (congrArg Json.obj (Json.members_ext ?_ ?_ fun key => ?_))
    · exact ((ofMap f m).strip names).ordered.1
    · exact ((ofMap f n).strip names).ordered.1
    · show ((ofMap f m).json.strip names).get? key = ((ofMap f n).json.strip names).get? key
      by_cases hkey : key ∈ names
      · rw [Json.get?_strip_of_mem hkey, Json.get?_strip_of_mem hkey]
      · rw [hread m key hkey, hread n key hkey, h key hkey]

theorem Shows.map (h : Shows names f view) :
    Shows names (ofMap f) fun m : Std.ExtTreeMap String α =>
      m.filterMap fun key a => if key ∈ names then none else some (view a) := by
  intro m n
  have hread : ∀ (m : Std.ExtTreeMap String α) (key : String),
      (m.filterMap fun key a => if key ∈ names then none else some (view a))[key]? =
        if key ∈ names then none else m[key]?.map view := by
    intro m key
    rw [getElem?_filterMap']
    by_cases hkey : key ∈ names
    · cases m[key]? <;> simp [hkey]
    · cases m[key]? <;> simp [hkey]
  have hview : ∀ a b : Option α, a.map (fun a => (f a).strip names) =
      b.map (fun a => (f a).strip names) ↔ a.map view = b.map view := by
    intro a b
    cases a <;> cases b <;> simp [h _ _]
  rw [strip_ofMap_eq]
  constructor
  · intro heq
    refine ext_getElem? ?_
    intro key
    rw [hread, hread]
    by_cases hkey : key ∈ names
    · rw [if_pos hkey, if_pos hkey]
    · rw [if_neg hkey, if_neg hkey, ← hview]
      exact heq key hkey
  · intro heq key hkey
    have hkeys := congrArg (fun m : Std.ExtTreeMap String β => m[key]?) heq
    simp only [hread, if_neg hkey] at hkeys
    exact (hview _ _).mpr hkeys

theorem strip_object_eq {l m : List (String × Value)} (hl : (l.map Prod.fst).Nodup)
    (hm : (m.map Prod.fst).Nodup) :
    (object l).strip names = (object m).strip names ↔
      ∀ key ∉ names, (l.lookup key).map (strip names) = (m.lookup key).map (strip names) := by
  refine ⟨fun h key hkey => ?_, strip_object_congr hl hm⟩
  have hlookup : ((object l).json.strip names).get? key =
      ((object m).json.strip names).get? key :=
    congrArg (fun v : Value => v.json.get? key) h
  rw [Json.get?_strip hkey, Json.get?_strip hkey, get?_object hl, get?_object hm,
    map_json_strip, map_json_strip] at hlookup
  exact map_injective (fun a b hab => Value.ext hab) hlookup

/-- The members of a record some of whose fields may be absent. -/
def members (fields : List (String × (α → Option Value))) (a : α) : List (String × Value) :=
  fields.filterMap fun e => (e.2 a).map fun v => (e.1, v)

theorem members_cons (e : String × (α → Option Value)) (fields : List (String × (α → Option Value)))
    (a : α) : members (e :: fields) a =
      ((e.2 a).map fun v => (e.1, v)).toList ++ members fields a := by
  rw [members, filterMap_cons]
  cases e.2 a <;> rfl

@[simp] theorem members_nil (a : α) : members [] a = [] := rfl

theorem optional_eq (key : String) (write : α → Value) (o : Option α) :
    optional key write o = ((o.map write).map fun v => (key, v)).toList := by
  cases o <;> rfl

theorem members_sublist (fields : List (String × (α → Option Value))) (a : α) :
    ((members fields a).map Prod.fst).Sublist (fields.map Prod.fst) := by
  induction fields with
  | nil => exact Sublist.refl _
  | cons e rest ih =>
    rw [members_cons]
    cases e.2 a with
    | none => exact ih.cons e.1
    | some v => exact ih.cons_cons e.1

theorem lookup_members {fields : List (String × (α → Option Value))}
    (hkeys : (fields.map Prod.fst).Nodup) (a : α) (key : String) :
    (members fields a).lookup key = (fields.lookup key).bind fun write => write a := by
  induction fields with
  | nil => rfl
  | cons e rest ih =>
    rw [map_cons, nodup_cons] at hkeys
    obtain ⟨name, write⟩ := e
    rw [members_cons, lookup_cons]
    by_cases hkey : key = name
    · subst hkey
      rw [beq_self_eq_true]
      cases hwrite : write a with
      | some v => simp [hwrite]
      | none =>
        have habsent : (members rest a).lookup key = none := by
          rw [lookup_eq_none_iff]
          intro e he
          rw [bne_iff_ne]
          rintro rfl
          exact hkeys.1 ((members_sublist rest a).subset (mem_map_of_mem he))
        simp [hwrite, habsent]
    · have hne : (key == name) = false := by simpa using hkey
      rw [hne, ← ih hkeys.2]
      cases hwrite : write a with
      | none => simp [hwrite]
      | some v => simp [hwrite, lookup_cons, hne]

theorem strip_members_eq (fields : List (String × (α → Option Value)))
    (hkeys : (fields.map Prod.fst).Nodup) {a b : α} :
    (object (members fields a)).strip names = (object (members fields b)).strip names ↔
      ∀ e ∈ fields, e.1 ∉ names → (e.2 a).map (strip names) = (e.2 b).map (strip names) := by
  rw [strip_object_eq ((members_sublist fields a).nodup hkeys)
    ((members_sublist fields b).nodup hkeys)]
  simp only [lookup_members hkeys]
  constructor
  · intro h e he hname
    have hfield : fields.lookup e.1 = some e.2 :=
      Json.lookup_eq_of_pairwise (pairwise_map.mp hkeys) he
    have hkey := h e.1 hname
    rw [hfield] at hkey
    exact hkey
  · intro h key hname
    cases hfield : fields.lookup key with
    | none => rfl
    | some write =>
      obtain ⟨before, after, rfl, -⟩ := lookup_eq_some_iff.mp hfield
      exact h (key, write) (by simp) hname

theorem shows_members (fields : List (String × (α → Option Value)))
    (hf : ∀ a, f a = object (members fields a)) (hkeys : (fields.map Prod.fst).Nodup)
    (hkept : ∀ e ∈ fields, e.1 ∉ names)
    (hview : ∀ a b, (∀ e ∈ fields, (e.2 a).map (strip names) = (e.2 b).map (strip names)) ↔
      view a = view b) :
    Shows names f view := by
  intro a b
  rw [hf, hf, strip_members_eq fields hkeys, ← hview]
  constructor
  · intro h e he
    exact h e he (hkept e he)
  · intro h e he _
    exact h e he

theorem shows_record (fields : List (String × (α → Value)))
    (hf : ∀ a, f a = object (fields.map fun e => (e.1, e.2 a)))
    (hkeys : (fields.map Prod.fst).Nodup) (hkept : ∀ e ∈ fields, e.1 ∉ names)
    (hview : ∀ a b, (∀ e ∈ fields, (e.2 a).strip names = (e.2 b).strip names) ↔ view a = view b) :
    Shows names f view := by
  have hmembers : ∀ a, members (fields.map fun e => (e.1, fun a => some (e.2 a))) a =
      fields.map fun e => (e.1, e.2 a) := by
    intro a
    rw [members, filterMap_map]
    exact congrFun (filterMap_eq_map (f := fun e : String × (α → Value) => (e.1, e.2 a))) fields
  refine shows_members (fields.map fun e => (e.1, fun a => some (e.2 a))) ?_ ?_ ?_ ?_
  · intro a
    rw [hf, hmembers]
  · rw [List.map_map]
    exact hkeys
  · rw [List.forall_mem_map]
    exact hkept
  · intro a b
    rw [← hview, List.forall_mem_map]
    simp only [map_some, Option.some.injEq]

theorem strip_pair_eq {first second : String} (hne : first ≠ second) (hfirst : first ∉ names)
    (hsecond : second ∉ names) {a b a' b' : Value} :
    (object [(first, a), (second, b)]).strip names =
        (object [(first, a'), (second, b')]).strip names ↔
      a.strip names = a'.strip names ∧ b.strip names = b'.strip names := by
  refine (strip_members_eq [(first, fun v : Value × Value => some v.1),
    (second, fun v => some v.2)] (a := (a, b)) (b := (a', b')) (by simpa using hne)).trans ?_
  simp [hfirst, hsecond]

theorem strip_object_ne {l m : List (String × Value)} (hl : (l.map Prod.fst).Nodup)
    (hm : (m.map Prod.fst).Nodup) (key : String) (hkey : key ∉ names)
    (hne : (l.lookup key).map (strip names) ≠ (m.lookup key).map (strip names)) :
    (object l).strip names ≠ (object m).strip names :=
  fun h => hne ((strip_object_eq hl hm).mp h key hkey)

end GeneGIS.Value
