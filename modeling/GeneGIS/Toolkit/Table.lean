/-
A query filters features, sorts the matching ones by a field and returns a page.  Two numbers
compare as numbers, other values as JSON text, and missing ones come last.
-/
import GeneGIS.Data.F64Order
import GeneGIS.Data.StableSort
import GeneGIS.Runtime
import GeneGIS.Toolkit.ExprParse
import Mathlib.Data.Prod.Lex
import Mathlib.Data.String.Basic

namespace GeneGIS.Toolkit.Table

open Expression Option Fallible F64 Prod Nat

structure TableQuery where
  filter : Option String := none
  sortBy : Option String := none
  descending : Bool := false
  offset : Nat := 0
  limit : Option Nat := none

structure TableRow where
  id : UInt64
  properties : Properties

structure TablePage where
  totalMatched : Nat
  totalRows : Nat
  rows : List TableRow

/-- `Value::as_f64`. -/
def number (v : Value) : Option F64 :=
  match v.json with
  | .num (.int n) => some (ofInt n)
  | .num (.float x _) => some x
  | _ => none

variable (debug : Tok → String) (platform : Platform)

def orderValues (a b : Option Value) : Ordering :=
  match a.filter (fun v => !isNullValue v), b.filter (fun v => !isNullValue v) with
  | none, none => .eq
  | none, some _ => .gt
  | some _, none => .lt
  | some x, some y =>
    match number x, number y with
    | some x, some y => (partialCmp x y).getD .eq
    | _, _ => compare (display platform x) (display platform y)

variable (layer : Layer)

/-- The properties with a null for every field that the feature lacks. -/
def withNulls (properties : Properties) : Properties :=
  layer.fields.foldl (fun out field => out.insertIfNew field.name .null) properties

def hasField (name : String) : Bool := layer.fields.any fun f => f.name == name

/-- A filter of blanks only is none. -/
def readFilter (query : TableQuery) : Except ToolkitError (Option Expr) :=
  match query.filter.filter fun f => !(Text.trim f).isEmpty with
  | none => .ok none
  | some text => do
    let filter ← parse debug text.toList
    match (fields filter).find? fun field => !hasField layer field with
    | some field => err ("unknown field " ++ field)
    | none => return some filter

def isTrue (v : Value) : Bool :=
  match v.json with
  | .bool b => b
  | _ => false

def keeps (filter : Option Expr) (feature : Feature) : Except ToolkitError Bool :=
  match filter with
  | some f => do return isTrue (← eval platform (withNulls layer feature.properties) f)
  | none => .ok true

def matching (layer : Layer) (filter : Option Expr) :
    List Feature → Except ToolkitError (List Feature)
  | [] => .ok []
  | feature :: rest => do
    let keep ← keeps platform layer filter feature
    let matched ← matching layer filter rest
    return if keep then feature :: matched else matched

/-- What `sort_by` compares two features with. -/
def compareRows (sort : String) (descending : Bool) (a b : Feature) : Ordering :=
  let ordering := orderValues platform a.properties[sort]? b.properties[sort]?
  if descending then ordering.swap else ordering

def sortRows (sort : String) (descending : Bool) (matched : List Feature) : List Feature :=
  matched.mergeSort fun a b => compareRows platform sort descending a b != .gt

def sorted (query : TableQuery) (matched : List Feature) : Except ToolkitError (List Feature) :=
  match query.sortBy with
  | none => .ok matched
  | some sort =>
    if hasField layer sort then .ok (sortRows platform sort query.descending matched)
    else err ("unknown sort field " ++ sort)

def page (query : TableQuery) (matched : List Feature) : TablePage where
  totalMatched := matched.length
  totalRows := layer.features.length
  rows := ((matched.drop query.offset).take (Min.min (query.limit.getD 100) 5000)).map
    fun f => { id := f.id, properties := f.properties }

def query (layer : Layer) (query : TableQuery) : Except ToolkitError TablePage := do
  let filter ← readFilter debug layer query
  let matched ← matching platform layer filter layer.features
  let matched ← sorted platform layer query matched
  return page layer query matched

/-! ## Sort keys

The first character of a text tells the class of its value, and the classes do not interleave. -/

abbrev SortKey := Nat ×ₗ Int ×ₗ String

def sortClass (v : Value) : Nat :=
  match v.json with
  | .str _ => 0
  | .num _ => 1
  | .null => 3
  | _ => 2

def classKey (v : Value) : Int ×ₗ String :=
  match number v with
  | some x => toLex (x.rank, "")
  | none => toLex (0, display platform v)

def sortKey (v : Option Value) : SortKey :=
  match v.filter fun v => !isNullValue v with
  | none => toLex (3, toLex (0, ""))
  | some v => toLex (sortClass v, classKey platform v)

variable {platform} {v w : Value} {a b c : Option Value}

theorem number_isNan {x : F64} (h : number v = some x) : x.isNan = false := by
  obtain ⟨json, hordered⟩ := v
  cases json with
  | num n =>
    cases n with
    | int n =>
      cases h
      show (ofInt n).isNan = false
      rw [ofInt]
      split
      · rw [isNan_neg]
        exact isNan_round _ _ _
      · exact isNan_round _ _ _
    | float y hy =>
      cases h
      exact isNan_of_finite hy
  | null => cases h
  | bool _ => cases h
  | str _ => cases h
  | arr _ => cases h
  | obj _ => cases h

theorem number_isSome : (number v).isSome = true ↔ sortClass v = 1 := by
  obtain ⟨json, hordered⟩ := v
  cases json with
  | num n => cases n <;> simp [number, sortClass]
  | null => simp [number, sortClass]
  | bool _ => simp [number, sortClass]
  | str _ => simp [number, sortClass]
  | arr _ => simp [number, sortClass]
  | obj _ => simp [number, sortClass]

theorem sortClass_le (h : isNullValue v = false) : sortClass v ≤ 2 := by
  obtain ⟨json, hordered⟩ := v
  cases json with
  | null => cases h
  | num n => exact le_succ 1
  | bool _ => exact le_refl 2
  | str _ => exact zero_le 2
  | arr _ => exact le_refl 2
  | obj _ => exact le_refl 2

/-- What the class of a value says of the first character of its text. -/
def Leads (sortClass : Nat) (c : Char) : Prop :=
  match sortClass with
  | 0 => c = '"'
  | 1 => c.isDigit = true ∨ c = '-'
  | _ => '9' < c

theorem display_leads (hfloat : Json.FloatText platform.floatText) (h : isNullValue v = false) :
    ∃ c rest, (display platform v).toList = c :: rest ∧ Leads (sortClass v) c := by
  obtain ⟨json, hordered⟩ := v
  rw [display, String.toList_ofList]
  cases json with
  | null => cases h
  | bool b =>
    cases b
    · exact ⟨'f', _, rfl, (by decide : '9' < 'f')⟩
    · exact ⟨'t', _, rfl, (by decide : '9' < 't')⟩
  | num n => exact Json.numberChars_lead hfloat n
  | str s => exact ⟨'"', _, rfl, rfl⟩
  | arr items => exact ⟨'[', _, rfl, (by decide : '9' < '[')⟩
  | obj members => exact ⟨'\x7b', _, rfl, (by decide : '9' < '\x7b')⟩

theorem leads_lt {m n : Nat} {c d : Char} (hc : Leads m c) (hd : Leads n d) (h : m < n)
    (hn : n ≤ 2) : c < d := by
  have hdigit : ∀ e : Char, e.isDigit = true ∨ e = '-' → '"' < e ∧ e ≤ '9' := by
    intro e he
    rcases he with he | rfl
    · simp only [Char.isDigit, Bool.and_eq_true, decide_eq_true_eq] at he
      exact ⟨lt_of_lt_of_le (by decide : '"' < '0') he.1, he.2⟩
    · decide
  match m, n, h with
  | 0, 1, _ =>
    obtain rfl : c = '"' := hc
    exact (hdigit d hd).1
  | 0, n + 2, _ =>
    obtain rfl : c = '"' := hc
    exact lt_trans (by decide : '"' < '9') hd
  | 1, n + 2, _ => exact lt_of_le_of_lt (hdigit c hc).2 hd
  | m + 2, n, h => omega

theorem display_lt (hfloat : Json.FloatText platform.floatText) (hv : isNullValue v = false)
    (hw : isNullValue w = false) (h : sortClass v < sortClass w) :
    display platform v < display platform w := by
  obtain ⟨c, s, hvs, hc⟩ := display_leads hfloat hv
  obtain ⟨d, t, hwt, hd⟩ := display_leads hfloat hw
  rw [String.lt_iff_toList_lt, hvs, hwt]
  exact List.Lex.rel (leads_lt hc hd h (sortClass_le hw))

theorem partialCmp_eq_compare {x y : F64} (hx : x.isNan = false) (hy : y.isNan = false) :
    (partialCmp x y).getD .eq = compare x.rank y.rank := by
  rw [partialCmp]
  rcases lt_trichotomy x.rank y.rank with hlt | heq | hgt
  · rw [if_pos (lt_iff.mpr ⟨hx, hy, hlt⟩), compare_lt_iff_lt.mpr hlt]
    rfl
  · have hnot : ¬ F64.lt x y = true := fun h => by
      have := (lt_iff.mp h).2.2
      omega
    rw [if_neg hnot, if_pos (by simp [F64.eq, hx, hy, heq]), compare_eq_iff_eq.mpr heq]
    rfl
  · have hnot : ¬ F64.lt x y = true := fun h => by
      have := (lt_iff.mp h).2.2
      omega
    have hne : ¬ F64.eq x y = true := fun h => by
      simp only [F64.eq, Bool.and_eq_true, beq_iff_eq] at h
      omega
    rw [if_neg hnot, if_neg hne, if_pos (lt_iff.mpr ⟨hy, hx, hgt⟩), compare_gt_iff_gt.mpr hgt]
    rfl

theorem compare_classes {α : Type} [LinearOrder α] {m n : Nat} {x y : α} (h : m < n) :
    compare (toLex (m, x)) (toLex (n, y)) = .lt :=
  compare_lt_iff_lt.mpr (Lex.toLex_lt_toLex.mpr (.inl h))

theorem compare_strictMono {β α : Type} [LinearOrder β] [LinearOrder α] (f : α → β)
    (hf : StrictMono f) {x y : α} : compare (f x) (f y) = compare x y := by
  rw [← cmp_eq_compare, ← cmp_eq_compare, hf.cmp_map_eq]

theorem compare_within {β α : Type} [LinearOrder β] [LinearOrder α] {m : β} {x y : α} :
    compare (toLex (m, x)) (toLex (m, y)) = compare x y := by
  refine compare_strictMono (fun x => toLex (m, x)) fun x y h => ?_
  exact Lex.toLex_lt_toLex.mpr (.inr ⟨rfl, h⟩)

theorem compare_paired {β α : Type} [LinearOrder β] [LinearOrder α] {m n : β} {x : α} :
    compare (toLex (m, x)) (toLex (n, x)) = compare m n := by
  refine compare_strictMono (fun m => toLex (m, x)) fun m n h => ?_
  exact Lex.toLex_lt_toLex.mpr (.inl h)

theorem compare_display (hfloat : Json.FloatText platform.floatText) (hv : isNullValue v = false)
    (hw : isNullValue w = false) (hnumber : number v = none ∨ number w = none) :
    compare (display platform v) (display platform w) =
      compare (toLex (sortClass v, classKey platform v))
        (toLex (sortClass w, classKey platform w)) := by
  rcases lt_trichotomy (sortClass v) (sortClass w) with hlt | heq | hgt
  · rw [compare_classes hlt, compare_lt_iff_lt]
    exact display_lt hfloat hv hw hlt
  · have hnone : number v = none ∧ number w = none := by
      have hiff : (number v).isSome = true ↔ (number w).isSome = true := by
        rw [number_isSome, number_isSome, heq]
      rcases hnumber with h | h
      · rw [h] at hiff ⊢
        exact ⟨rfl, not_isSome_iff_eq_none.mp fun hs => by cases hiff.mpr hs⟩
      · rw [h] at hiff ⊢
        exact ⟨not_isSome_iff_eq_none.mp fun hs => (by cases hiff.mp hs), rfl⟩
    rw [heq, compare_within, classKey, classKey, hnone.1, hnone.2]
    exact compare_within.symm
  · have hkeys : compare (toLex (sortClass v, classKey platform v))
        (toLex (sortClass w, classKey platform w)) = .gt :=
      compare_gt_iff_gt.mpr (Lex.toLex_lt_toLex.mpr (.inl hgt))
    rw [hkeys, compare_gt_iff_gt]
    exact display_lt hfloat hw hv hgt

theorem present_of_filter (h : a.filter (fun v => !isNullValue v) = some v) :
    isNullValue v = false := by
  have hv := (filter_eq_some_iff.mp h).2
  rwa [Bool.not_eq_true'] at hv

theorem orderValues_eq_compare (hfloat : Json.FloatText platform.floatText) :
    orderValues platform a b = compare (sortKey platform a) (sortKey platform b) := by
  rw [orderValues, sortKey, sortKey]
  cases ha : a.filter fun v => !isNullValue v with
  | none =>
    cases hb : b.filter fun v => !isNullValue v with
    | none => exact (compare_eq_iff_eq.mpr rfl).symm
    | some w =>
      have hclass := sortClass_le (present_of_filter hb)
      refine (compare_gt_iff_gt.mpr ?_).symm
      exact Lex.toLex_lt_toLex.mpr (.inl (lt_succ_of_le hclass))
  | some v =>
    have hv := present_of_filter ha
    cases hb : b.filter fun v => !isNullValue v with
    | none => exact (compare_classes (lt_succ_of_le (sortClass_le hv))).symm
    | some w =>
      have hw := present_of_filter hb
      cases hx : number v with
      | none =>
        simp only [hx]
        exact compare_display hfloat hv hw (.inl hx)
      | some x =>
        cases hy : number w with
        | none =>
          simp only [hx, hy]
          exact compare_display hfloat hv hw (.inr hy)
        | some y =>
          have hcv : sortClass v = 1 := number_isSome.mp (by rw [hx]; rfl)
          have hcw : sortClass w = 1 := number_isSome.mp (by rw [hy]; rfl)
          simp only [hx, hy]
          rw [hcv, hcw, compare_within, classKey, classKey, hx, hy,
            partialCmp_eq_compare (number_isNan hx) (number_isNan hy)]
          exact compare_paired.symm

theorem orderValues_le_iff (hfloat : Json.FloatText platform.floatText) :
    orderValues platform a b ≠ .gt ↔ sortKey platform a ≤ sortKey platform b := by
  rw [orderValues_eq_compare hfloat, ne_eq, compare_gt_iff_gt]
  exact not_lt

theorem orderValues_swap (hfloat : Json.FloatText platform.floatText) :
    orderValues platform b a = (orderValues platform a b).swap := by
  rw [orderValues_eq_compare hfloat, orderValues_eq_compare hfloat]
  rcases lt_trichotomy (sortKey platform a) (sortKey platform b) with hlt | heq | hgt
  · rw [compare_lt_iff_lt.mpr hlt, compare_gt_iff_gt.mpr hlt]
    rfl
  · rw [compare_eq_iff_eq.mpr heq, compare_eq_iff_eq.mpr heq.symm]
    rfl
  · rw [compare_gt_iff_gt.mpr hgt, compare_lt_iff_lt.mpr hgt]
    rfl

/-! ## Sorted rows -/

variable (sort : String) (matched : List Feature)

def rowKey (platform : Platform) (sort : String) (feature : Feature) : SortKey :=
  sortKey platform feature.properties[sort]?

theorem rising_stable (hfloat : Json.FloatText platform.floatText) :
    StableSort (rowKey platform sort) matched (sortRows platform sort false matched) := by
  refine StableSort.mergeSort ?_ matched
  intro x y
  rw [bne_iff_ne]
  exact orderValues_le_iff hfloat

theorem falling_stable (hfloat : Json.FloatText platform.floatText) :
    StableSort (fun x => OrderDual.toDual (rowKey platform sort x)) matched
      (sortRows platform sort true matched) := by
  refine StableSort.mergeSort ?_ matched
  intro x y
  rw [bne_iff_ne, OrderDual.toDual_le_toDual]
  show (orderValues platform x.properties[sort]? y.properties[sort]?).swap ≠ .gt ↔ _
  rw [← orderValues_swap hfloat]
  exact orderValues_le_iff hfloat

variable {debug} {sort} {layer : Layer} {request : TableQuery}

theorem query_sorted {result : TablePage} (hsort : request.sortBy = some sort)
    (h : query debug platform layer request = .ok result) :
    ∃ filter matched, readFilter debug layer request = .ok filter ∧
      matching platform layer filter layer.features = .ok matched ∧
      result = page layer request (sortRows platform sort request.descending matched) := by
  rw [query] at h
  obtain ⟨filter, hfilter, h⟩ := bind_iff.mp h
  obtain ⟨matched, hmatched, h⟩ := bind_iff.mp h
  obtain ⟨rows, hrows, h⟩ := bind_iff.mp h
  rw [sorted, hsort] at hrows
  by_cases hfield : hasField layer sort = true
  · simp only [hfield, if_true] at hrows
    rw [← Except.ok.inj hrows] at h
    exact ⟨filter, matched, hfilter, hmatched, (Except.ok.inj h).symm⟩
  · simp only [hfield] at hrows
    cases hrows

/-- A total preorder on the values of a column, which the stable sort follows; descending is its
mirror image. -/
theorem orderValues_preorder (debug : Tok → String) (hfloat : Json.FloatText platform.floatText) :
    (∀ a, orderValues platform a a = .eq) ∧
    (∀ a b, orderValues platform b a = (orderValues platform a b).swap) ∧
    (∀ a b, orderValues platform a b ≠ .gt ∨ orderValues platform b a ≠ .gt) ∧
    (∀ a b c, orderValues platform a b ≠ .gt → orderValues platform b c ≠ .gt →
      orderValues platform a c ≠ .gt) ∧
    (∀ a b, orderValues platform a b = .eq ↔ sortKey platform a = sortKey platform b) ∧
    ∀ layer request sort result, request.sortBy = some sort →
      query debug platform layer request = .ok result →
      ∃ filter matched rising falling, readFilter debug layer request = .ok filter ∧
        matching platform layer filter layer.features = .ok matched ∧
        (∀ rows, StableSort (rowKey platform sort) matched rows ↔ rows = rising) ∧
        (∀ rows, StableSort (fun x => OrderDual.toDual (rowKey platform sort x)) matched rows ↔
          rows = falling) ∧
        falling.map (rowKey platform sort) = (rising.map (rowKey platform sort)).reverse ∧
        result = page layer request (if request.descending then falling else rising) := by
  refine ⟨?_, ?_, ?_, ?_, ?_, ?_⟩
  · intro a
    rw [orderValues_eq_compare hfloat]
    exact compare_eq_iff_eq.mpr rfl
  · intro a b
    exact orderValues_swap hfloat
  · intro a b
    rw [orderValues_le_iff hfloat, orderValues_le_iff hfloat]
    exact le_total _ _
  · intro a b c hab hbc
    rw [orderValues_le_iff hfloat] at hab hbc ⊢
    exact hab.trans hbc
  · intro a b
    rw [orderValues_eq_compare hfloat]
    exact compare_eq_iff_eq
  · intro layer request sort result hsort h
    obtain ⟨filter, matched, hfilter, hmatched, hresult⟩ := query_sorted hsort h
    have hrising := rising_stable sort matched hfloat
    have hfalling := falling_stable sort matched hfloat
    refine ⟨filter, matched, sortRows platform sort false matched,
      sortRows platform sort true matched, hfilter, hmatched, ?_, ?_,
      StableSort.keys_mirrored hrising hfalling, ?_⟩
    · intro rows
      constructor
      · exact fun hrows => hrows.unique hrising
      · intro heq
        rw [heq]
        exact hrising
    · intro rows
      constructor
      · exact fun hrows => hrows.unique hfalling
      · intro heq
        rw [heq]
        exact hfalling
    · rw [hresult]
      cases request.descending <;> rfl

def plainPlatform : Platform where
  floatText := Runtime.reference.floatText
  sqrt := id
  powi := fun x _ => x
  lower := id
  upper := id

theorem orderValues_preorder_mixed :
    (orderValues plainPlatform (some (.str "b")) (some (.ofInt 2)) ≠ .gt ∧
      orderValues plainPlatform (some (.ofInt 2)) (some (.bool true)) ≠ .gt ∧
      orderValues plainPlatform (some (.str "b")) (some (.bool true)) ≠ .gt) ∧
    (orderValues plainPlatform (some (.ofInt 2)) none = .lt ∧
      orderValues plainPlatform none (some (.ofInt 2)) = .gt) := by
  obtain ⟨-, hswap, -, htrans, -, -⟩ := @orderValues_preorder plainPlatform
    (fun _ => "") Runtime.floatText_reference
  have htext : orderValues plainPlatform (some (.str "b")) (some (.ofInt 2)) ≠ .gt := by decide
  have hbool : orderValues plainPlatform (some (.ofInt 2)) (some (.bool true)) ≠ .gt := by decide
  have hnone : orderValues plainPlatform (some (.ofInt 2)) none = .lt := rfl
  refine ⟨⟨htext, hbool, htrans _ _ _ htext hbool⟩, hnone, ?_⟩
  rw [hswap, hnone]
  rfl

end GeneGIS.Toolkit.Table
