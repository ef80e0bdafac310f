/-
A numeric field is cut at breaks and every feature is counted.  The categorical method has a class
for every text, and one for the rest when there are too many.
-/
import GeneGIS.Data.Keyed
import GeneGIS.Data.Tally
import GeneGIS.Toolkit.ExprFields
import GeneGIS.Toolkit.Jenks
import GeneGIS.Toolkit.Table

namespace GeneGIS.Toolkit.Classify

open Expression Table Tally Option F64
open List hiding dedup getElem?_insert map_id map_map
open Std.ExtTreeMap hiding getElem?_insert map_id map_map

inductive ClassMethod where
  | equalInterval
  | quantile
  | naturalBreaks
  | categorical
  deriving DecidableEq

structure ClassifyRequest where
  field : String
  method : ClassMethod
  classes : Nat := 5

structure LegendClass where
  label : String
  min : Option F64
  max : Option F64
  value : Option String
  color : String
  count : Nat

structure Classification where
  field : String
  unit : Option String
  method : ClassMethod
  classes : List LegendClass
  assignments : Std.ExtTreeMap UInt64 (Option Nat)

def sequentialPalette : List String :=
  ["#ffffd9", "#edf8b1", "#c7e9b4", "#7fcdbb", "#41b6c4", "#1d91c0", "#225ea8", "#253494",
    "#081d58"]

def qualitativePalette : List String :=
  ["#66c2a5", "#fc8d62", "#8da0cb", "#e78ac3", "#a6d854", "#ffd92f", "#e5c494", "#b3b3b3",
    "#1b9e77", "#d95f02", "#7570b3", "#e7298a"]

/-- The colour of the `i`-th of `n` classes. -/
def sequential (n i : Nat) : String :=
  let idx := if n = 1 then 4 else 1 + i * 7 / (n - 1)
  sequentialPalette.getD (Min.min idx 8) ""

/-- Commas between groups of three, counted from the end. -/
def groupDigits : List Char → List Char
  | [] => []
  | c :: rest =>
    c :: (if rest.length % 3 = 0 ∧ rest ≠ [] then ',' :: groupDigits rest else groupDigits rest)

/-- `i64::abs` without an overflow check: the least number has no opposite. -/
def absText (n : Int) : List Char :=
  if n = -(2 ^ 63) then n.repr.toList else n.natAbs.repr.toList

section

-- `fixed` is the text with a number of decimals.
variable (fixed : Nat → F64 → String)

def fmtNum (v : F64) : String :=
  if le (.ofNat 1000) v.abs || isWhole v then
    let rounded := (roundHalfAway v).toI64
    let out := groupDigits (absText rounded)
    String.ofList (if rounded < 0 then '-' :: out else out)
  else if le (.ofNat 1) v.abs then fixed 1 v
  else fixed 3 v

def rangeLabel (unit : Option String) (low high : F64) : String :=
  fmtNum fixed low ++ " – " ++ fmtNum fixed high ++ (unit.map fun u => " " ++ u).getD ""

end

def countIn (classes : List LegendClass) : Option Nat → List LegendClass
  | some i => classes.modify i fun c => { c with count := c.count + 1 }
  | none => classes

/-- Every feature is counted in its class and recorded under its id. -/
def assign (index : Feature → Option Nat) (features : List Feature) (classes : List LegendClass) :
    List LegendClass × Std.ExtTreeMap UInt64 (Option Nat) :=
  features.foldl (fun state feature =>
    (countIn state.1 (index feature), state.2.insert feature.id (index feature))) (classes, ∅)

def numericType (field : Field) : Bool := field.fieldType == .integer || field.fieldType == .float

section

variable (platform : Platform) (name : String)

def category (feature : Feature) : Option String :=
  (feature.properties[name]?.filter fun v => !isNullValue v).map (textOf platform)

def categories (layer : Layer) (name : String) : List String :=
  dedup ((layer.features.filterMap (category platform name)).mergeSort (· ≤ ·))

def categoryClass (value : String × String) : LegendClass where
  label := value.1
  min := none
  max := none
  value := some value.1
  color := value.2
  count := 0

def othersClass (rest : Nat) : LegendClass where
  label := "その他 (" ++ rest.repr ++ " 種)"
  min := none
  max := none
  value := none
  color := "#cccccc"
  count := 0

def categoryClasses (values : List String) : List LegendClass :=
  let shown := Min.min values.length (qualitativePalette.length - 1)
  ((values.take shown).zip qualitativePalette).map categoryClass ++
    if shown < values.length then [othersClass (values.length - shown)] else []

def categoryIndex (classes : List LegendClass) (feature : Feature) : Option Nat :=
  (category platform name feature).map fun key =>
    (classes.findIdx? fun c => c.value == some key).getD (classes.length - 1)

/-- The number that a feature has in the field. -/
def numberOf (feature : Feature) : Option F64 := feature.properties[name]?.bind number

def sortedValues (layer : Layer) (name : String) : List F64 :=
  ((layer.features.filterMap (numberOf name)).filter isFinite).mergeSort le

def equalIntervals (low high : F64) (k : Nat) : List F64 := (List.range' 1 (k - 1)).map fun i =>
    add low (div (mul (sub high low) (.ofNat i)) (.ofNat k))

def quantiles (values : List F64) (k : Nat) : List F64 := (List.range' 1 (k - 1)).map fun i =>
    values.getD (Min.min (values.length * i / k) (values.length - 1)) .zero

def breaksOf (method : ClassMethod) (values : List F64) (low high : F64) (k : Nat) : List F64 :=
  match method with
  | .equalInterval => equalIntervals low high k
  | .quantile => quantiles values k
  | .naturalBreaks => Jenks.jenks values k
  | .categorical => []

/-- The breaks that rise and do not pass the end. -/
def keepBreaks (high : F64) : F64 → List F64 → List F64
  | _, [] => []
  | last, b :: rest =>
    if lt last b && le b high then b :: keepBreaks high b rest
    else keepBreaks high last rest

def boundsOf (low high : F64) (breaks : List F64) : List F64 :=
  low :: keepBreaks high low breaks ++ [high]

/-- The first class whose upper bound is above the value, or the last. -/
def classIndex (bounds : List F64) (v : F64) : Nat :=
  classOf (bounds.length - 1) fun i => lt v (bounds.getD (i + 1) .zero)

variable (fixed : Nat → F64 → String)

def rangeClasses (unit : Option String) (bounds : List F64) : List LegendClass :=
  (bounds.zip bounds.tail).mapIdx fun i b =>
    { label := rangeLabel fixed unit b.1 b.2, min := some b.1, max := some b.2, value := none
      color := sequential (bounds.length - 1) i, count := 0 }

def classifyCategories (layer : Layer) (field : Field) (name : String) : Classification :=
  let classes := categoryClasses (categories platform layer name)
  let result := assign (categoryIndex platform name classes) layer.features classes
  { field := name, unit := field.unit, method := .categorical, classes := result.1
    assignments := result.2 }

def classifyRanges (layer : Layer) (field : Field)
    (request : ClassifyRequest) : Except ToolkitError Classification :=
  match sortedValues layer request.field with
  | [] => err (request.field ++ " has no numeric values")
  | low :: rest =>
    let high := (low :: rest).getLast (by simp)
    let k := Max.max 2 (Min.min request.classes 9)
    let bounds := boundsOf low high (breaksOf request.method (low :: rest) low high k)
    let index := fun feature => (numberOf request.field feature).map (classIndex bounds)
    let result := assign index layer.features (rangeClasses fixed field.unit bounds)
    .ok { field := request.field, unit := field.unit, method := request.method
          classes := result.1, assignments := result.2 }

def classify (layer : Layer) (request : ClassifyRequest) : Except ToolkitError Classification :=
  match layer.fields.find? fun f => f.name == request.field with
  | none => err ("unknown field " ++ request.field)
  | some field =>
    if !numericType field || request.method = .categorical then
      .ok (classifyCategories platform layer field request.field)
    else classifyRanges fixed layer field request

end

/-! ## Bounds -/

/-- The class has the value: its lower bound, and its upper one if it is the last class. -/
def InRange (bounds : List F64) (v : F64) (i : Nat) : Prop :=
  ∃ low high, bounds[i]? = some low ∧ bounds[i + 1]? = some high ∧ le low v = true ∧
    (lt v high = true ∨ i + 2 = bounds.length ∧ le v high = true)

def Rising (bounds : List F64) : Prop := bounds.Pairwise fun a b => le a b = true

variable {low high v : F64} {bounds : List F64}

theorem le_trans {a b c : F64} (hab : le a b = true) (hbc : le b c = true) :
    le a c = true := by
  rw [le_iff] at hab hbc ⊢
  exact ⟨hab.1, hbc.2.1, hab.2.2.trans hbc.2.2⟩

theorem le_of_lt {a b : F64} (h : lt a b = true) : le a b = true := by
  rw [lt_iff] at h
  rw [le_iff]
  exact ⟨h.1, h.2.1, Int.le_of_lt h.2.2⟩

theorem keepBreaks_rising (breaks : List F64) : ∀ {last : F64}, le last high = true →
    Rising (last :: keepBreaks high last breaks ++ [high]) := by
  induction breaks with
  | nil =>
    intro last h
    refine List.Pairwise.cons ?_ (pairwise_singleton _ _)
    intro b hb
    rw [mem_singleton.mp hb]
    exact h
  | cons b rest ih =>
    intro last h
    rw [keepBreaks]
    by_cases hkeep : (lt last b && le b high) = true
    · rw [if_pos hkeep]
      rw [Bool.and_eq_true] at hkeep
      have hrest := ih hkeep.2
      refine List.Pairwise.cons ?_ hrest
      intro x hx
      rcases mem_cons.mp hx with rfl | hx
      · exact le_of_lt hkeep.1
      · exact le_trans (le_of_lt hkeep.1) ((pairwise_cons.mp hrest).1 x hx)
    · rw [if_neg hkeep]
      exact ih h

theorem boundsOf_rising (h : le low high = true) (breaks : List F64) :
    Rising (boundsOf low high breaks) := keepBreaks_rising breaks h

theorem boundsOf_isNan (h : le low high = true) (breaks : List F64) :
    ∀ b ∈ boundsOf low high breaks, b.isNan = false := by
  intro b hb
  rcases mem_cons.mp hb with rfl | hb
  · exact (le_iff.mp h).1
  · have hrise := boundsOf_rising h breaks
    exact (le_iff.mp ((pairwise_cons.mp hrise).1 b hb)).2.1

theorem inRange_iff (hbounds : ∀ b ∈ bounds, b.isNan = false) (hv : v.isNan = false) (i : Nat) :
    InRange bounds v i ↔ InClass (bounds.map rank) v.rank i := by
  rw [InRange, InClass, length_map]
  constructor
  · intro h
    obtain ⟨a, b, ha, hb, hle, hlt⟩ := h
    refine ⟨a.rank, b.rank, by rw [List.getElem?_map, ha]; rfl, by rw [List.getElem?_map, hb]; rfl,
      (le_iff.mp hle).2.2, ?_⟩
    rcases hlt with hlt | hlast
    · exact .inl (lt_iff.mp hlt).2.2
    · exact .inr ⟨hlast.1, (le_iff.mp hlast.2).2.2⟩
  · intro h
    obtain ⟨r, s, hr, hs, hle, hlt⟩ := h
    rw [List.getElem?_map] at hr hs
    obtain ⟨a, ha, rfl⟩ := Option.map_eq_some_iff.mp hr
    obtain ⟨b, hb, rfl⟩ := Option.map_eq_some_iff.mp hs
    have han := hbounds a (mem_of_getElem? ha)
    have hbn := hbounds b (mem_of_getElem? hb)
    refine ⟨a, b, ha, hb, le_iff.mpr ⟨han, hv, hle⟩, ?_⟩
    rcases hlt with hlt | hlast
    · exact .inl (lt_iff.mpr ⟨hv, hbn, hlt⟩)
    · exact .inr ⟨hlast.1, le_iff.mpr ⟨hv, hbn, hlast.2⟩⟩

theorem inRange_iff_classIndex (breaks : List F64) (hlow : le low v = true)
    (hhigh : le v high = true) (i : Nat) :
    InRange (boundsOf low high breaks) v i ↔ i = classIndex (boundsOf low high breaks) v := by
  have hends : le low high = true := le_trans hlow hhigh
  have hv : v.isNan = false := (le_iff.mp hhigh).1
  have hnan := boundsOf_isNan hends breaks
  have hsorted : ((boundsOf low high breaks).map rank).Pairwise (· ≤ ·) :=
    pairwise_map.mpr ((boundsOf_rising hends breaks).imp fun h => (le_iff.mp h).2.2)
  have hlength : 2 ≤ ((boundsOf low high breaks).map rank).length := by
    rw [boundsOf, length_map, length_append, length_cons, length_singleton]
    omega
  have hclass : InClass ((boundsOf low high breaks).map rank) v.rank
      (classOf (((boundsOf low high breaks).map rank).length - 1)
        fun i => lt v ((boundsOf low high breaks).getD (i + 1) .zero)) := by
    refine classOf_inClass hlength ?_ ?_ ?_
    · intro r hr
      cases hr
      exact (le_iff.mp hlow).2.2
    · intro r hr
      rw [← getLast?_eq_getElem?, boundsOf, map_append, map_singleton, getLast?_concat] at hr
      rw [← Option.some.inj hr]
      exact (le_iff.mp hhigh).2.2
    · intro i r hr
      rw [List.getElem?_map] at hr
      obtain ⟨b, hb, rfl⟩ := Option.map_eq_some_iff.mp hr
      rw [List.getD_eq_getElem?_getD, hb, Option.getD_some, lt_iff]
      exact ⟨fun h => h.2.2, fun h => ⟨hv, hnan b (mem_of_getElem? hb), h⟩⟩
  rw [length_map] at hclass
  rw [inRange_iff hnan hv]
  constructor
  · intro hi
    exact inClass_unique hsorted hi hclass
  · intro hi
    rw [hi]
    exact hclass

theorem mergeSort_rank {l : List F64} (h : ∀ x ∈ l, x.isNan = false) :
    (l.mergeSort le).Pairwise fun a b => a.rank ≤ b.rank := by
  have hsame : l.mergeSort le = l.mergeSort fun a b => decide (a.rank ≤ b.rank) := by
    have hmap := map_mergeSort (r := le) (s := fun a b => decide (a.rank ≤ b.rank))
      (f := id) (l := l) fun a ha b hb => by
        rw [le, h a ha, h b hb]
        rfl
    rw [List.map_id, List.map_id] at hmap
    exact hmap
  rw [hsame]
  have hsorted : (l.mergeSort fun a b => decide (a.rank ≤ b.rank)).Pairwise fun a b =>
      decide (a.rank ≤ b.rank) = true := by
    refine pairwise_mergeSort ?_ ?_ l
    · intro a b c hab hbc
      simp only [decide_eq_true_eq] at hab hbc ⊢
      omega
    · intro a b
      simp only [Bool.or_eq_true, decide_eq_true_eq]
      omega
  exact hsorted.imp fun h => of_decide_eq_true h

theorem sortedValues_ends {layer : Layer} {name : String} {rest : List F64}
    (h : sortedValues layer name = low :: rest) :
    le low ((low :: rest).getLast (by simp)) = true ∧
      ∀ feature ∈ layer.features, ∀ v, numberOf name feature = some v → v.isFinite = true →
        le low v = true ∧ le v ((low :: rest).getLast (by simp)) = true := by
  have hfinite : ∀ x ∈ low :: rest, x.isNan = false := by
    intro x hx
    rw [← h, sortedValues, List.mem_mergeSort, mem_filter] at hx
    exact isNan_of_finite hx.2
  have hsorted : (low :: rest).Pairwise fun a b => a.rank ≤ b.rank := by
    rw [← h, sortedValues]
    refine mergeSort_rank ?_
    intro x hx
    exact isNan_of_finite (mem_filter.mp hx).2
  have hlow : ∀ x ∈ low :: rest, le low x = true := by
    intro x hx
    refine le_iff.mpr ⟨hfinite low mem_cons_self, hfinite x hx, ?_⟩
    rcases mem_cons.mp hx with rfl | hx
    · exact Int.le_refl _
    · exact (pairwise_cons.mp hsorted).1 x hx
  have hhigh : ∀ x ∈ low :: rest, le x ((low :: rest).getLast (by simp)) = true := by
    intro x hx
    refine le_iff.mpr ⟨hfinite x hx, hfinite _ (getLast_mem _), ?_⟩
    exact hsorted.rel_getLast hx
  refine ⟨hlow _ (getLast_mem _), ?_⟩
  intro feature hfeature v hv hvFinite
  have hmem : v ∈ low :: rest := by
    rw [← h, sortedValues, List.mem_mergeSort, mem_filter, List.mem_filterMap]
    exact ⟨⟨feature, hfeature, hv⟩, hvFinite⟩
  exact ⟨hlow v hmem, hhigh v hmem⟩

variable {index : Feature → Option Nat} {classes : List LegendClass}

theorem map_modify {α β : Type} (f : α → α) (g : β → β) (view : α → β)
    (h : ∀ a, view (f a) = g (view a)) (l : List α) (i : Nat) :
    (l.modify i f).map view = (l.map view).modify i g := by
  refine List.ext_getElem? fun j => ?_
  rw [List.getElem?_map, getElem?_modify, getElem?_modify, List.getElem?_map]
  cases l[j]? with
  | none => rfl
  | some a =>
    show some (view (if i = j then f a else a)) = some (if i = j then g (view a) else view a)
    split
    · rw [h]
    · rfl

variable (features : List Feature)

theorem assign_eq (index : Feature → Option Nat) (classes : List LegendClass) :
    assign index features classes =
      (features.foldl (fun classes feature => countIn classes (index feature)) classes,
        features.foldl (fun ids feature => ids.insert feature.id (index feature)) ∅) := by
  rw [assign]
  generalize (∅ : Std.ExtTreeMap UInt64 (Option Nat)) = ids
  induction features generalizing classes ids with
  | nil => rfl
  | cons feature rest ih => exact ih _ _

theorem assign_counts (index : Feature → Option Nat)
    (classes : List LegendClass) : (assign index features classes).1.map LegendClass.count =
      tally index (classes.map LegendClass.count) features := by
  rw [assign_eq]
  induction features generalizing classes with
  | nil => rfl
  | cons feature rest ih =>
    rw [foldl_cons, ih, tally, tally, foldl_cons]
    congr 1
    cases index feature with
    | none => rfl
    | some i =>
      exact map_modify (fun c : LegendClass => { c with count := c.count + 1 }) (· + 1)
        LegendClass.count (fun _ => rfl) classes i

theorem assign_bounds (index : Feature → Option Nat)
    (classes : List LegendClass) : (assign index features classes).1.map (fun c => (c.min, c.max)) =
      classes.map fun c => (c.min, c.max) := by
  rw [assign_eq]
  induction features generalizing classes with
  | nil => rfl
  | cons feature rest ih =>
    rw [foldl_cons, ih]
    cases index feature with
    | none => rfl
    | some i =>
      refine (map_modify (fun c : LegendClass => { c with count := c.count + 1 }) id
        (fun c => (c.min, c.max)) (fun _ => rfl) classes i).trans ?_
      exact modify_id _ _

theorem assign_last {before after : List Feature} {feature : Feature}
    (index : Feature → Option Nat) (classes : List LegendClass)
    (h : ∀ g ∈ after, g.id ≠ feature.id) :
    (assign index (before ++ feature :: after) classes).2[feature.id]? = some (index feature) := by
  rw [assign_eq]
  dsimp only
  rw [foldl_append, foldl_cons]
  have hrest : ∀ ids : Std.ExtTreeMap UInt64 (Option Nat),
      (after.foldl (fun ids feature => ids.insert feature.id (index feature)) ids)[feature.id]? =
        ids[feature.id]? := by
    induction after with
    | nil => exact fun ids => rfl
    | cons g rest ih =>
      intro ids
      have hg := h g mem_cons_self
      rw [foldl_cons, ih (fun x hx => h x (mem_cons_of_mem g hx)),
        Keyed.getElem?_insert_ne (Ne.symm hg)]
  rw [hrest, getElem?_insert_self]

/-! ## Partitions -/

/-- What a classification says: each feature is counted where `index` puts it, and the last one of
an id is recorded. -/
structure Assigned (layer : Layer) (classification : Classification)
    (index : Feature → Option Nat) : Prop where
  counts : ∀ i c, classification.classes[i]? = some c →
    c.count = layer.features.countP fun feature => index feature = some i
  total : (classification.classes.map LegendClass.count).sum =
    layer.features.countP fun feature => (index feature).isSome
  recorded : ∀ before feature after, layer.features = before ++ feature :: after →
    (∀ g ∈ after, g.id ≠ feature.id) →
    classification.assignments[feature.id]? = some (index feature)

theorem assigned {layer : Layer} {classification : Classification} {index : Feature → Option Nat}
    {classes : List LegendClass} (hcounts : ∀ c ∈ classes, c.count = 0)
    (hindex : ∀ feature ∈ layer.features, ∀ i, index feature = some i → i < classes.length)
    (hclasses : classification.classes = (assign index layer.features classes).1)
    (hassignments : classification.assignments = (assign index layer.features classes).2) :
    Assigned layer classification index := by
  have htally := assign_counts layer.features index classes
  rw [← hclasses] at htally
  constructor
  · intro i c hc
    have hget : (classification.classes.map LegendClass.count)[i]? = some c.count := by
      rw [List.getElem?_map, hc]
      rfl
    rw [htally, tally_getElem?, List.getElem?_map] at hget
    cases hi : classes[i]? with
    | none =>
      rw [hi] at hget
      cases hget
    | some c' =>
      rw [hi] at hget
      have hzero := hcounts c' (mem_of_getElem? hi)
      have hsum := Option.some.inj hget
      rw [← hsum]
      show c'.count + _ = _
      rw [hzero, Nat.zero_add]
  · rw [htally, sum_tally]
    · have hzero : (classes.map LegendClass.count).sum = 0 := by
        rw [sum_eq_zero_iff]
        intro n hn
        obtain ⟨c, hc, rfl⟩ := mem_map.mp hn
        exact hcounts c hc
      rw [hzero, Nat.zero_add]
    · intro feature hfeature i hi
      rw [length_map]
      exact hindex feature hfeature i hi
  · intro before feature after hfeatures hlast
    rw [hassignments, hfeatures]
    exact assign_last index classes hlast

section

variable {platform : Platform} {fixed : Nat → F64 → String} {layer : Layer}
  {request : ClassifyRequest} {field : Field} {classification : Classification}

/-- The classes stand for the ranges between the bounds. -/
def Spans (classes : List LegendClass) (bounds : List F64) : Prop :=
  classes.map (fun c => (c.min, c.max)) = (bounds.zip bounds.tail).map fun b => (some b.1, some b.2)

/-- A partition by ranges: a feature with a finite number is in the one class that has it. -/
def RangePartition (layer : Layer) (name : String) (classification : Classification)
    (bounds : List F64) (index : Feature → Option Nat) : Prop :=
  Rising bounds ∧ Spans classification.classes bounds ∧
    (∀ feature ∈ layer.features, ∀ v, numberOf name feature = some v → v.isFinite = true →
      ∃ i, index feature = some i ∧ ∀ j, InRange bounds v j ↔ j = i) ∧
    (∀ feature, index feature = none ↔ numberOf name feature = none) ∧
    Assigned layer classification index

/-- A partition by texts: no class has a bound, and a feature with a value is in one class. -/
def CategoryPartition (platform : Platform) (layer : Layer) (name : String)
    (classification : Classification) (index : Feature → Option Nat) : Prop :=
  (∀ c ∈ classification.classes, c.min = none ∧ c.max = none) ∧
    (∀ feature, index feature = none ↔ category platform name feature = none) ∧
    Assigned layer classification index

theorem rangeClasses_length (fixed : Nat → F64 → String) (unit : Option String)
    (bounds : List F64) : (rangeClasses fixed unit bounds).length = bounds.length - 1 := by
  rw [rangeClasses, length_mapIdx, length_zip, length_tail]
  omega

theorem rangeClasses_spans (fixed : Nat → F64 → String) (unit : Option String)
    (bounds : List F64) : Spans (rangeClasses fixed unit bounds) bounds := by
  refine List.ext_getElem? fun i => ?_
  rw [rangeClasses, List.getElem?_map, List.getElem?_mapIdx, List.getElem?_map, Option.map_map]
  rfl

theorem Spans.exists_class {classes : List LegendClass} {bounds : List F64} {low high : F64}
    {i : Nat} (h : Spans classes bounds) (hlow : bounds[i]? = some low)
    (hhigh : bounds[i + 1]? = some high) : ∃ c ∈ classes, c.min = some low := by
  have hzip : (low, high) ∈ bounds.zip bounds.tail := by
    refine mem_of_getElem? (i := i) ?_
    rw [getElem?_zip_eq_some, getElem?_tail]
    exact ⟨hlow, hhigh⟩
  have hmem := mem_map_of_mem (f := fun b : F64 × F64 => (some b.1, some b.2)) hzip
  rw [← h] at hmem
  obtain ⟨c, hc, heq⟩ := mem_map.mp hmem
  exact ⟨c, hc, (Prod.mk.inj heq).1⟩

theorem classifyRanges_partition (h : classifyRanges fixed layer field request = .ok classification) :
    ∃ bounds index, RangePartition layer request.field classification bounds index := by
  rw [classifyRanges] at h
  split at h
  · cases h
  · rename_i low rest hvalues
    obtain ⟨hends, hall⟩ := sortedValues_ends hvalues
    obtain ⟨breaks, hbreaks⟩ : ∃ breaks, breaks = breaksOf request.method (low :: rest) low
      ((low :: rest).getLast (by simp)) (Max.max 2 (Min.min request.classes 9)) := ⟨_, rfl⟩
    obtain ⟨bounds, hbounds⟩ : ∃ bounds, bounds = boundsOf low
      ((low :: rest).getLast (by simp)) breaks := ⟨_, rfl⟩
    dsimp only at h
    rw [← hbreaks, ← hbounds] at h
    cases h
    refine ⟨bounds, fun feature => (numberOf request.field feature).map (classIndex bounds),
      ?_, ?_, ?_, ?_, ?_⟩
    · rw [hbounds]
      exact boundsOf_rising hends breaks
    · show List.map _ (assign _ _ _).1 = _
      rw [assign_bounds]
      exact rangeClasses_spans fixed field.unit bounds
    · intro feature hfeature v hv hfinite
      obtain ⟨hlow, hhigh⟩ := hall feature hfeature v hv hfinite
      refine ⟨classIndex bounds v, by simp only [hv, map_some], fun j => ?_⟩
      rw [hbounds]
      exact inRange_iff_classIndex breaks hlow hhigh j
    · intro feature
      exact map_eq_none_iff
    · refine @assigned _ _ _ (rangeClasses fixed field.unit bounds) ?_ ?_ rfl rfl
      · intro c hc
        rw [rangeClasses] at hc
        obtain ⟨i, hi, rfl⟩ := mem_mapIdx.mp hc
        rfl
      · intro feature _ i hi
        obtain ⟨v, -, rfl⟩ := Option.map_eq_some_iff.mp hi
        rw [rangeClasses_length]
        have hlength : 0 < bounds.length - 1 := by
          rw [hbounds, boundsOf, length_append, length_cons, length_singleton]
          omega
        exact (classOf_spec hlength _).1

theorem classifyCategories_partition : ∃ index, CategoryPartition platform layer request.field
      (classifyCategories platform layer field request.field) index := by
  obtain ⟨classes, hclasses⟩ : ∃ classes, classes =
    categoryClasses (categories platform layer request.field) := ⟨_, rfl⟩
  have hzero : ∀ c ∈ classes, c.count = 0 ∧ c.min = none ∧ c.max = none := by
    intro c hc
    rw [hclasses, categoryClasses] at hc
    rcases mem_append.mp hc with hc | hc
    · obtain ⟨v, -, rfl⟩ := mem_map.mp hc
      exact ⟨rfl, rfl, rfl⟩
    · split at hc
      · rw [mem_singleton.mp hc]
        exact ⟨rfl, rfl, rfl⟩
      · cases hc
  refine ⟨categoryIndex platform request.field classes, ?_, ?_, ?_⟩
  · intro c hc
    have hbounds := assign_bounds layer.features
      (categoryIndex platform request.field classes) classes
    have hmem : (c.min, c.max) ∈ classes.map fun c => (c.min, c.max) := by
      rw [← hbounds]
      refine mem_map.mpr ⟨c, ?_, rfl⟩
      rw [hclasses]
      exact hc
    obtain ⟨c', hc', heq⟩ := mem_map.mp hmem
    obtain ⟨hmin, hmax⟩ := Prod.mk.inj heq
    rw [← hmin, ← hmax]
    exact (hzero c' hc').2
  · intro feature
    exact map_eq_none_iff
  · refine assigned (fun c hc => (hzero c hc).1) ?_ (by rw [classifyCategories, hclasses])
      (by rw [classifyCategories, hclasses])
    intro feature hfeature i hi
    obtain ⟨key, hkey, rfl⟩ := Option.map_eq_some_iff.mp hi
    have hmem : key ∈ categories platform layer request.field := by
      rw [categories, mem_dedup, List.mem_mergeSort]
      exact List.mem_filterMap.mpr ⟨feature, hfeature, hkey⟩
    have hpos : 0 < classes.length := by
      have hvalues := length_pos_of_mem hmem
      rw [hclasses, categoryClasses, length_append, length_map, length_zip, length_take]
      show 0 < Min.min (Min.min (Min.min _ 11) _) 12 + _
      omega
    cases hfind : classes.findIdx? fun c => c.value == some key with
    | none => rw [getD_none]; omega
    | some i =>
      rw [Option.getD_some]
      exact (findIdx?_eq_some_iff_findIdx_eq.mp hfind).1

/-- A numeric field is partitioned by ranges, and by texts under the categorical method. -/
theorem classify_partitions
    (hfield : (layer.fields.find? fun f => f.name == request.field) = some field)
    (hnumeric : numericType field = true)
    (h : classify platform fixed layer request = .ok classification) :
    (request.method ≠ .categorical →
      ∃ bounds index, RangePartition layer request.field classification bounds index) ∧
    (request.method = .categorical →
      ∃ index, CategoryPartition platform layer request.field classification index) := by
  rw [classify, hfield] at h
  simp only [hnumeric, Bool.not_true, Bool.false_or, decide_eq_true_eq] at h
  constructor
  · intro hmethod
    rw [if_neg hmethod] at h
    exact classifyRanges_partition h
  · intro hmethod
    rw [if_pos hmethod] at h
    rw [← Except.ok.inj h]
    exact classifyCategories_partition

end

def popField : Field := { name := "pop", fieldType := .integer, unit := none }

def counted : Feature where
  id := 0
  geometry := none
  properties := (∅ : Std.ExtTreeMap String Value).insert "pop" (.ofInt 1)

def uncounted : Feature where
  id := 0
  geometry := none
  properties := ∅

/-- Two features of one id, of which the first has a number. -/
def popLayer : Layer where
  name := "t"
  crs := "EPSG:4326"
  crsStatus := .declared
  fields := [popField]
  features := [counted, uncounted]

def popRequest (method : ClassMethod) : ClassifyRequest where
  field := "pop"
  method := method

theorem numberOf_counted : numberOf "pop" counted = some (ofInt 1) := by
  rw [numberOf, counted, getElem?_insert_self]
  rfl

theorem numberOf_uncounted : numberOf "pop" uncounted = none := by
  rw [numberOf, uncounted, getElem?_empty]
  rfl

theorem one_isFinite : (ofInt 1).isFinite = true := by decide +kernel

theorem popLayer_values : sortedValues popLayer "pop" = [ofInt 1] := by
  have hvalues : (popLayer.features.filterMap (numberOf "pop")).filter isFinite = [ofInt 1] := by
    rw [popLayer, filterMap_cons_some numberOf_counted,
      filterMap_cons_none numberOf_uncounted, filterMap_nil,
      filter_cons_of_pos one_isFinite, filter_nil]
  rw [sortedValues, hvalues, mergeSort_singleton]

theorem popLayer_ranges : ∃ classification,
    classify plainPlatform (fun _ _ => "") popLayer (popRequest .equalInterval) =
      .ok classification := by
  have hvalues : sortedValues popLayer (popRequest .equalInterval).field = [ofInt 1] :=
    popLayer_values
  rw [classify, show (popLayer.fields.find? fun f => f.name == (popRequest .equalInterval).field) =
    some popField from rfl]
  dsimp only
  rw [if_neg (by decide), classifyRanges]
  split
  · rename_i hnil
    rw [hvalues] at hnil
    cases hnil
  · exact ⟨_, rfl⟩

theorem classify_partitions_pop : ∃ classification bounds index,
    classify plainPlatform (fun _ _ => "") popLayer (popRequest .equalInterval) =
      .ok classification ∧ RangePartition popLayer "pop" classification bounds index := by
  obtain ⟨classification, h⟩ := popLayer_ranges
  obtain ⟨bounds, index, hpartition⟩ := (@classify_partitions _ _ _ _ popField _ rfl rfl h).1
    (by decide)
  exact ⟨classification, bounds, index, h, hpartition⟩

/-- The categorical classes have no bounds, and a feature is not found under an id that a later one
has. -/
theorem classify_not_ranges : (∃ classification,
      classify plainPlatform (fun _ _ => "") popLayer (popRequest .categorical) =
        .ok classification ∧
      ¬ ∃ bounds index, RangePartition popLayer "pop" classification bounds index) ∧
    ∃ classification, classify plainPlatform (fun _ _ => "") popLayer (popRequest .equalInterval) =
        .ok classification ∧
      numberOf "pop" counted = some (ofInt 1) ∧
      classification.assignments[counted.id]? = some none := by
  constructor
  · refine ⟨classifyCategories plainPlatform popLayer popField "pop", rfl, ?_⟩
    intro h
    obtain ⟨bounds, index, -, hspans, hall, -⟩ := h
    obtain ⟨-, hnone, -⟩ := @classifyCategories_partition plainPlatform popLayer
      (popRequest .categorical) popField
    obtain ⟨i, -, hrange⟩ := hall counted mem_cons_self _ numberOf_counted one_isFinite
    obtain ⟨low, high, hlow, hhigh, -⟩ := (hrange i).mpr rfl
    obtain ⟨c, hc, hmin⟩ := hspans.exists_class hlow hhigh
    have hbounds := (hnone c hc).1
    rw [hmin] at hbounds
    cases hbounds
  · obtain ⟨classification, h⟩ := popLayer_ranges
    refine ⟨classification, h, numberOf_counted, ?_⟩
    have hranges : classifyRanges (fun _ _ => "") popLayer popField (popRequest .equalInterval) =
        .ok classification := h
    obtain ⟨bounds, index, -, -, -, hindex, hassigned⟩ := classifyRanges_partition hranges
    have hrecorded := hassigned.recorded [counted] uncounted [] rfl (by simp)
    rw [(hindex uncounted).mpr numberOf_uncounted] at hrecorded
    exact hrecorded

end GeneGIS.Toolkit.Classify
