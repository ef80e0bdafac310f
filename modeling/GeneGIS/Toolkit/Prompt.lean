/-
The first number that a unit follows is the distance, and every word with the letter of the metre
counts as metres.  A layer is filtered by the values of its features that the prompt names.
-/
import Mathlib.Data.List.Infix
import GeneGIS.Toolkit.ExprFields
import GeneGIS.Toolkit.ExprRoundTrip
import GeneGIS.Toolkit.Plan
import GeneGIS.Toolkit.Table

namespace GeneGIS.Toolkit.Prompt

open Std.ExtTreeMap
open List hiding dedup
open Bool hiding false_or not_or or_false true_or

/-- A number of a prompt, with what is in front of it and behind it. -/
structure Number where
  before : List Char
  text : List Char
  after : List Char

def isNumeric (c : Char) : Bool := c.isDigit || c == '.' || c == ','

/-- A number starts at a digit, and the loop goes on behind it. -/
def numbersFrom (before : List Char) : List Char → List Number
  | [] => []
  | c :: rest =>
    if c.isDigit then
      let text := c :: rest.takeWhile isNumeric
      ⟨before, text, rest.dropWhile isNumeric⟩ ::
        numbersFrom (before ++ text) (rest.dropWhile isNumeric)
    else numbersFrom (before ++ [c]) rest
  termination_by chars => chars.length
  decreasing_by
    · exact Nat.lt_succ_of_le (length_dropWhile_le _ _)
    · exact Nat.lt_succ_self _

def numbers (prompt : List Char) : List Number := numbersFrom [] prompt

namespace Number

variable (n : Number)

def value : Option F64 := F64.parse (n.text.filter fun c => c != ',')

def rest : List Char := n.after.dropWhile Text.isWhitespace

def startsWith (word : String) : Bool := word.toList.isPrefixOf n.rest

def isWalk : Bool := "徒歩".toList.isSuffixOf n.before || decide ("walk".toList <:+: n.before) ||
    "歩いて".toList.isSuffixOf n.before

def isRide : Bool := "自転車".toList.isSuffixOf n.before || decide ("bike".toList <:+: n.before)

end Number

inductive Measure where
  | kilometres
  | metres
  | walk
  | ride

namespace Measure

/-- The metres of so many units. -/
def distance (number : F64) : Measure → F64
  | kilometres => number.mul (F64.ofNat 1000)
  | metres => number
  | walk => number.mul (F64.ofNat 80)
  | ride => number.mul (F64.ofNat 250)

/-- The assumption behind a distance, where `display` writes a number. -/
def assumption (display : F64 → String) (number : F64) : Measure → Option String
  | kilometres => none
  | metres => none
  | walk => some ("徒歩" ++ display number ++ "分 = " ++ display (walk.distance number) ++
      " m（80 m/分の不動産表示基準で換算）")
  | ride => some ("自転車" ++ display number ++ "分 = " ++ display (ride.distance number) ++
      " m（15 km/h で換算）")

end Measure

namespace Number

variable (n : Number)

def duration : Option Measure :=
  if n.isWalk then some .walk else if n.isRide then some .ride else none

/-- The tests of the loop, in their order. -/
def taken : Option Measure :=
  if n.startsWith "km" || n.startsWith "キロ" then some .kilometres
  else if n.startsWith "m" || n.startsWith "メートル" then some .metres
  else if n.startsWith "分" || n.startsWith "min" then n.duration
  else none

/-- The text behind the number starts with this word, and not with a longer one. -/
def isWord (word : String) : Bool :=
  n.startsWith word && (n.rest.drop word.length).head?.all fun c => !c.isAlpha

/-- The unit behind the number. Latin units are words of their own. -/
def unit : Option Measure :=
  if n.isWord "km" || n.startsWith "キロ" then some .kilometres
  else if n.isWord "m" || n.startsWith "メートル" then some .metres
  else if n.startsWith "分" || n.isWord "min" then n.duration
  else none

end Number

def distanceOf (display : F64 → String) : List Number → Option (F64 × Option String)
  | [] => none
  | n :: rest =>
    match n.value with
    | none => none
    | some number =>
      match n.taken with
      | some measure => some (measure.distance number, measure.assumption display number)
      | none => distanceOf display rest

def extractDistance (display : F64 → String) (prompt : List Char) : Option (F64 × Option String) :=
  distanceOf display (numbers prompt)

/-- The distance of the first number with a unit. -/
def denoted : List Number → Option F64
  | [] => none
  | n :: rest =>
    match n.unit with
    | some measure => n.value.map measure.distance
    | none => denoted rest

/-- The number at which the loop ends is the one with the first unit, in that unit, or no later
number denotes another distance. -/
def Clear : List Number → Prop
  | [] => True
  | n :: rest =>
    match n.value, n.taken, n.unit with
    | none, _, some _ => True
    | none, _, none => denoted rest = none
    | some _, none, _ => Clear rest
    | some number, some taken, some measure => measure.distance number = taken.distance number
    | some number, some taken, none => denoted rest = some (taken.distance number)

namespace Number

variable {n : Number}

theorem startsWith_of_isWord {word : String} (h : n.isWord word = true) :
    n.startsWith word = true := by
  rw [isWord, and_eq_true] at h
  exact h.1

theorem unit_of_taken (h : n.taken = none) : n.unit = none := by
  rw [taken] at h
  split_ifs at h with hkm hm hmin
  all_goals
    simp only [Bool.or_eq_true, not_or] at hkm hm hmin
    have hword : ∀ word, n.startsWith word ≠ true → n.isWord word ≠ true :=
      fun word hstart hisWord => hstart (startsWith_of_isWord hisWord)
    rw [unit, if_neg, if_neg]
  · rw [h]
    exact ite_self _
  · simp [hword _ hm.1, hm.2]
  · simp [hword _ hkm.1, hkm.2]
  · rw [if_neg]
    simp [hword _ hmin.2, hmin.1]
  · simp [hword _ hm.1, hm.2]
  · simp [hword _ hkm.1, hkm.2]

end Number

theorem distanceOf_denotes_iff (display : F64 → String) : ∀ ns : List Number,
    (distanceOf display ns).map Prod.fst = denoted ns ↔ Clear ns
  | [] => by simp [distanceOf, denoted, Clear]
  | n :: rest => by
    have ih := distanceOf_denotes_iff display rest
    rw [distanceOf, denoted, Clear]
    cases hvalue : n.value with
    | none =>
      cases hunit : n.unit with
      | none => exact eq_comm
      | some measure => exact iff_of_true rfl trivial
    | some number =>
      cases htaken : n.taken with
      | none =>
        rw [n.unit_of_taken htaken]
        exact ih
      | some taken =>
        cases hunit : n.unit with
        | none => exact eq_comm
        | some measure => exact Option.some_inj.trans eq_comm

/-- The distance is the one of the first number with a unit. -/
theorem extractDistance_denotes_iff (display : F64 → String) (prompt : List Char) :
    (extractDistance display prompt).map Prod.fst = denoted (numbers prompt) ↔
      Clear (numbers prompt) :=
  distanceOf_denotes_iff display (numbers prompt)

/-- A version of three parts ends the search, and members are taken for metres. -/
theorem extractDistance_misreads :
    (extractDistance (fun _ => "") "v1.2.3 500m".toList).map Prod.fst ≠
        denoted (numbers "v1.2.3 500m".toList) ∧
      (extractDistance (fun _ => "") "3 members 500m".toList).map Prod.fst ≠
        denoted (numbers "3 members 500m".toList) := by
  decide +kernel

/-! ## Names

The filter compares the values that the prompt contains with those of the layer as they stand. -/

open Expression

variable (lower : String → String)

/-- Half width and lower case, where `lower` is `str::to_lowercase`. -/
def normalize (text : String) : String := lower (text.map fun c =>
    if 0xFF01 ≤ c.toNat ∧ c.toNat ≤ 0xFF5E then Char.ofNat (c.toNat - 0xFEE0)
    else if c = '　' then ' '
    else c)

def synonyms : List (List String) :=
  [["station", "stations", "駅"], ["shelter", "shelters", "避難所", "避難場所"],
    ["school", "schools", "学校", "小学校", "中学校"], ["hospital", "hospitals", "病院", "医療機関"],
    ["shop", "shops", "store", "stores", "店", "店舗", "スーパー", "supermarket", "poi", "pois"],
    ["park", "parks", "公園"], ["ward", "wards", "区", "行政区", "zones"],
    ["flood", "浸水", "洪水", "浸水想定"], ["road", "roads", "道路", "network"],
    ["facility", "facilities", "施設", "poi", "pois"]]

def genericParts : List String :=
  ["nagoya", "real", "data", "layer", "2020", "名古屋", "名古屋市", "サンプル", "sample"]

def separatesParts (c : Char) : Bool :=
  ['_', '-', ' ', '.', '（', '）', '(', ')', '・', '/', '／'].contains c

def contains (text word : String) : Bool := decide (word.toList <:+: text.toList)

def layerAliases (layer : Layer) : List String :=
  let name := normalize lower layer.name
  let parts := (name.toList.splitOnP separatesParts).map String.ofList
  let named := fun word : String => contains name (normalize lower word)
  let multi := fun words : List String => words.any fun w => 2 ≤ w.length && named w
  let single := fun words : List String => words.any fun w => w.length = 1 && named w
  let groups := synonyms.filter fun words => multi words || single words && !synonyms.any multi
  dedup ((name :: parts.filter (fun part => 2 ≤ part.length && !genericParts.contains part) ++
    groups.flatMap fun words => words.map (normalize lower)).mergeSort
      fun a b => b.length ≤ a.length)

def isAdministrative (c : Char) : Bool := "市区町村都道府県郡".toList.contains c

/-- What follows the occurrences of a value, which do not overlap and are not empty. -/
def afterMatches (value : List Char) : Nat → List Char → List (List Char)
  | _, [] => []
  | skip + 1, _ :: rest => afterMatches value skip rest
  | 0, c :: rest =>
    if value.isPrefixOf (c :: rest) then
      (c :: rest).drop value.length :: afterMatches value (value.length - 1) rest
    else afterMatches value 0 rest

def mentionsStandalone (prompt value : String) : Bool :=
  (afterMatches value.toList 0 prompt.toList).any fun after =>
    value.toList.getLast?.any isAdministrative || after.head?.all fun c => !isAdministrative c

/-- The text of a feature in a field. -/
def textIn (field : String) (feature : Feature) : Option String :=
  feature.properties[field]?.bind asStr

def countText (field : String) (counts : Std.ExtTreeMap String Nat) (feature : Feature) :
    Std.ExtTreeMap String Nat :=
  match textIn field feature with
  | some text =>
    let value := normalize lower (Text.trim text)
    counts.insert value (counts.getD value 0 + 1)
  | none => counts

def counts (layer : Layer) (field : String) : Std.ExtTreeMap String Nat :=
  layer.features.foldl (countText lower field) ∅

variable (prompt : String)

/-- The values of a field that the prompt mentions. -/
def hits (layer : Layer) (field : String) : List String :=
  let total := Max.max layer.features.length 1
  let found := ((counts lower layer field).toList.filter fun e =>
    1 ≤ e.1.length && e.1.length ≤ 20 && e.2 * 2 ≤ total && mentionsStandalone prompt e.1).map
      Prod.fst
  let longest := found.filter fun v => !found.any fun w => w != v && contains w v
  longest.filter fun v =>
    2 ≤ v.length || (layerAliases lower layer).any fun a => contains prompt (v ++ a)

def more (layer : Layer) (best : Option (String × List String)) (f : Field) :
    Option (String × List String) :=
  let found := hits lower prompt layer f.name
  if !found.isEmpty && best.all fun b => b.2.length < found.length then some (f.name, found)
  else best

def namedValues (layer : Layer) : Option (String × List String) :=
  (layer.fields.filter fun f => f.fieldType = .text).foldl (more lower prompt layer) none

def namedExpression (field : String) (values : List String) : List Char :=
  let quoted := values.map fun v => '\x27' :: (v.toList.flatMap doubled ++ ['\x27'])
  match quoted with
  | [value] => '"' :: (field.toList ++ '"' :: ' ' :: '=' :: ' ' :: value)
  | quoted => '"' :: (field.toList ++ '"' :: ' ' :: 'I' :: 'N' :: ' ' :: '(' ::
      (listText quoted ++ [')']))

/-- What `apply_named` writes of the plan of the rules. -/
structure RulePlan where
  steps : List PlanStep
  rationale : List String
  used : Std.ExtTreeSet String

def filterStep (stepId layerRef : String) (expression : List Char) : PlanStep where
  id := stepId
  op := "filter"
  inputs := .ofList [("layer", layerRef)]
  params := .object [("where", .str (String.ofList expression))]

def applyNamed (plan : RulePlan) (text : String) (layers : Layers) (layerRef stepId : String) :
    RulePlan × String :=
  match layers[layerRef]? with
  | none => (plan, layerRef)
  | some layer =>
    match namedValues lower text layer with
    | none => (plan, layerRef)
    | some (field, values) =>
      let expression := namedExpression field values
      ({ steps := plan.steps ++ [filterStep stepId layerRef expression]
         rationale := plan.rationale ++
           [layer.name ++ " を " ++ String.ofList expression ++ " に絞り込む"]
         used := plan.used.insert "named" }, stepId)

variable {lower} {prompt field : String} {values : List String} {layer : Layer} {feature : Feature}

/-- The text of the feature in the field is one of the values. -/
def IsNamed (lower : String → String) (field : String) (values : List String)
    (feature : Feature) : Prop :=
  ∃ text, textIn field feature = some text ∧ normalize lower (Text.trim text) ∈ values

theorem mem_counts {value : String} (h : value ∈ counts lower layer field) :
    ∃ feature ∈ layer.features, IsNamed lower field [value] feature := by
  suffices hfold : ∀ (features : List Feature) (counted : Std.ExtTreeMap String Nat),
      value ∈ features.foldl (countText lower field) counted →
      value ∈ counted ∨ ∃ feature ∈ features, IsNamed lower field [value] feature by
    exact (hfold _ _ h).resolve_left not_mem_empty
  intro features
  induction features with
  | nil => exact fun _ h => .inl h
  | cons feature rest ih =>
    intro counted h
    rcases ih _ h with h | ⟨other, hother, hnamed⟩
    · rw [countText] at h
      cases htext : textIn field feature with
      | none =>
        rw [htext] at h
        exact .inl h
      | some text =>
        rw [htext] at h
        rcases mem_insert.mp h with heq | h
        · have hvalue := mem_singleton.mpr (compare_eq_iff_eq.mp heq)
          exact .inr ⟨feature, mem_cons_self, text, htext, hvalue⟩
        · exact .inl h
    · exact .inr ⟨other, mem_cons_of_mem _ hother, hnamed⟩

theorem mem_hits {value : String} (h : value ∈ hits lower prompt layer field) :
    value ∈ counts lower layer field := by
  rw [hits, mem_filter, mem_filter] at h
  obtain ⟨e, he, rfl⟩ := mem_map.mp h.1.1
  exact mem_iff_isSome_getElem?.mpr (by
    rw [mem_toList_iff_getElem?_eq_some.mp (mem_filter.mp he).1]
    rfl)

/-- The values are those that were found in a field of the layer, and there are some. -/
def Found (lower : String → String) (prompt : String) (layer : Layer)
    (best : String × List String) : Prop :=
  best.2 ≠ [] ∧ best.2 = hits lower prompt layer best.1 ∧ ∃ f ∈ layer.fields, f.name = best.1

theorem found_more {f : Field} (hf : f ∈ layer.fields) {best : Option (String × List String)}
    (hbest : ∀ b ∈ best, Found lower prompt layer b) :
    ∀ b ∈ more lower prompt layer best f, Found lower prompt layer b := by
  intro b hb
  simp only [more] at hb
  split at hb
  next hmore =>
    cases hb
    rw [and_eq_true, not_eq_true', isEmpty_eq_false_iff] at hmore
    exact ⟨hmore.1, rfl, f, hf, rfl⟩
  next => exact hbest b hb

theorem namedValues_found (h : namedValues lower prompt layer = some (field, values)) :
    Found lower prompt layer (field, values) := by
  refine foldlRecOn (motive := fun best => ∀ b ∈ best, Found lower prompt layer b) _
    (more lower prompt layer) (by simp) ?_ (field, values) h
  intro best hbest f hf
  exact found_more (mem_filter.mp hf).1 hbest

theorem Found.exists_named (h : Found lower prompt layer (field, values)) :
    ∃ feature ∈ layer.features, IsNamed lower field values feature := by
  obtain ⟨hne, hhits, -⟩ := h
  obtain ⟨value, hvalue⟩ := exists_mem_of_ne_nil values hne
  have hmem : value ∈ hits lower prompt layer field := hhits ▸ hvalue
  obtain ⟨feature, hfeature, text, htext, heq⟩ := mem_counts (mem_hits hmem)
  rw [mem_singleton] at heq
  exact ⟨feature, hfeature, text, htext, heq ▸ hvalue⟩

/-! ## The expression -/

variable {name text : String} {debug : Tok → String} {platform : Platform}

def literals (values : List String) : List Expr := values.map fun v => .literal (.str v)

/-- What the filter says of the values, of which there is at least one. -/
def selection (field : String) : List String → Expr
  | [value] => .binary (.field field) .eq (.literal (.str value))
  | values => .inList (.field field) (literals values) false

theorem renderAll_literals : renderAll (literals values) =
    values.map fun v => '\x27' :: (v.toList.flatMap doubled ++ ['\x27']) := by
  induction values with
  | nil => rfl
  | cons value rest ih =>
    rw [map_cons, ← ih]
    rfl

theorem renderable_literals : RenderableAll (literals values) := by
  induction values with
  | nil => trivial
  | cons value rest ih => exact ⟨trivial, ih⟩

theorem quotedName_plain (h : '"' ∉ field.toList) :
    quotedName field = '"' :: (field.toList ++ ['"']) := by
  simp [quotedName, nameQuotes, h]

theorem quotable_plain (h : '"' ∉ field.toList) : Quotable field :=
  ⟨('"', '"'), mem_cons_self, by simpa using h⟩

theorem tokenize_one (h : '"' ∉ field.toList) (value : String) :
    tokenize (namedExpression field [value]) = .ok [.quoted field, .op "=", .str value] := by
  have htext : namedExpression field [value] = quotedName field ++
      ' ' :: ((opText .eq).toList ++ ' ' :: (literalText (.str value) ++ [])) := by
    simp [namedExpression, quotedName_plain h, opText, literalText, Value.str]
  rw [htext, tokenize_name (quotable_plain h), tokenize_space, tokenize_op,
    tokenize_literal (by simp [Ends])]
  rfl

theorem tokenize_many (h : '"' ∉ field.toList) (hvalues : ∀ value, values ≠ [value]) :
    tokenize (namedExpression field values) = .ok (.quoted field :: .ident "IN" :: .openParen ::
      (separated (tokensAll (literals values)) ++ [.closeParen])) := by
  have htext : namedExpression field values = quotedName field ++
      ' ' :: ("IN".toList ++ ' ' :: '(' :: (listText (renderAll (literals values)) ++ [')'])) := by
    rw [renderAll_literals, quotedName_plain h, namedExpression]
    cases values with
    | nil => simp
    | cons first rest =>
      cases rest with
      | nil => exact absurd rfl (hvalues first)
      | cons second rest => simp
  rw [htext, tokenize_name (quotable_plain h), tokenize_space,
    tokenize_keyword (by decide) ends_space, tokenize_space, tokenize_openParen,
    tokenize_list _ renderable_literals _ ends_closeParen, tokenize_closeParen]
  show Except.ok _ = _
  simp

theorem parse_named (h : '"' ∉ field.toList) (hne : values ≠ []) :
    parse debug (namedExpression field values) = .ok (selection field values) := by
  have hfield : Derives .additive [.quoted field] (.field field) :=
    (Derives.quoted field).operand rfl _
  rw [parse_ok]
  by_cases hone : ∃ value, values = [value]
  · obtain ⟨value, rfl⟩ := hone
    have hvalue : Derives .additive [.str value] (.literal (.str value)) :=
      (Derives.str value).operand rfl _
    refine ⟨_, tokenize_one h value, Derives.comparison_or ?_ rfl⟩
    have hequal : comparisonOp (.op "=") = some .eq := rfl
    exact Derives.comparison hequal hfield hvalue
  · rw [not_exists] at hone
    refine ⟨_, tokenize_many h hone, Derives.comparison_or ?_ rfl⟩
    have hpaired : paired (literals values) ≠ [] := by simpa [paired, literals] using hne
    have hlist := Derives.inList hfield (negation_notTokens false)
      (by decide : isWord "IN" (.ident "IN") = true) hpaired
      (derives_all _ renderable_literals .additive)
    rw [separated_paired, paired_snd] at hlist
    cases values with
    | nil => exact absurd rfl hne
    | cons first rest =>
      cases rest with
      | nil => exact absurd rfl (hone first)
      | cons second rest => exact hlist

theorem fields_selection : fields (selection field values) = [field] := by
  have hnone : ∀ values : List String, collectAll (literals values) = [] := by
    intro values
    induction values with
    | nil => rfl
    | cons value rest ih => exact ih
  have hcollect : collectFields (selection field values) = [field] := by
    rw [selection.eq_def]
    split
    · rfl
    · rw [collectFields, hnone]
      rfl
  rw [fields, hcollect, mergeSort_singleton]
  rfl

/-! ## Its value -/

theorem getElem?_withNulls (properties : Properties) (h : ∃ f ∈ layer.fields, f.name = field) :
    (Table.withNulls layer properties)[field]? = some (properties[field]?.getD .null) := by
  suffices hfold : ∀ (fs : List Field) (out : Properties),
      (fs.foldl (fun out f => out.insertIfNew f.name .null) out)[field]? =
        out[field]?.or (if ∃ f ∈ fs, f.name = field then some .null else none) by
    rw [Table.withNulls, hfold, if_pos h]
    cases properties[field]? <;> rfl
  intro fs
  induction fs with
  | nil => simp
  | cons f fs ih =>
    intro out
    rw [foldl_cons, ih, getElem?_insertIfNew]
    by_cases hname : f.name = field
    · by_cases hmem : field ∈ out
      · simp [hname, hmem]
      · simp [hname, hmem]
    · simp [hname]

/-- The filter is true of the feature. -/
def Selects (platform : Platform) (layer : Layer) (e : Expr) (feature : Feature) : Prop :=
  eval platform (Table.withNulls layer feature.properties) e = .ok (.bool true)

def isEqual (platform : Platform) (v : Value) (value : String) : Bool :=
  compareValues platform v (.str value) = some .eq

theorem evalAny_literals (properties : Properties) (v : Value) :
    evalAny platform properties v (literals values) = .ok (values.any (isEqual platform v)) := by
  induction values with
  | nil => rfl
  | cons value rest ih =>
    show (if compareValues platform v (.str value) = some .eq then .ok true
      else evalAny platform properties v (literals rest)) = _
    rw [ih, any_cons, isEqual]
    by_cases heq : compareValues platform v (.str value) = some .eq
    · rw [if_pos heq, decide_eq_true heq, Bool.true_or]
    · rw [if_neg heq, decide_eq_false heq, Bool.false_or]

theorem isEqual_null {v : Value} (h : isNullValue v = true) (value : String) :
    isEqual platform v value = false := by
  simp [isEqual, compareValues, h]

theorem isEqual_text {v : Value} {t : String} (h : asStr v = some t) (value : String) :
    isEqual platform v value = true ↔ t = value := by
  have hnull : isNullValue v = false := by
    unfold asStr at h
    unfold isNullValue
    split at h
    next hjson => rw [hjson]
    next => cases h
  have htexts : compareValues platform v (.str value) = some (compare t value) := by
    have hstr : asStr (.str value) = some value := rfl
    have hnot : isNullValue (.str value) = false := rfl
    rw [compareValues, h, hstr, hnull, hnot]
    dsimp only
    split
    next => contradiction
    next => split <;> simp
  rw [isEqual, htexts, decide_eq_true_iff, Option.some_inj, compare_eq_iff_eq]

theorem selects_selection (h : ∃ f ∈ layer.fields, f.name = field) (hne : values ≠ []) :
    Selects platform layer (selection field values) feature ↔
      ∃ value ∈ values, isEqual platform (feature.properties[field]?.getD .null) value = true := by
  have hvalue : eval platform (Table.withNulls layer feature.properties) (.field field) =
      .ok (feature.properties[field]?.getD .null) := by
    rw [eval, getElem?_withNulls feature.properties h]
  generalize feature.properties[field]?.getD .null = v at hvalue
  have heval : eval platform (Table.withNulls layer feature.properties) (selection field values) =
      .ok (.bool (values.any (isEqual platform v))) := by
    rw [selection.eq_def]
    split
    next value =>
      rw [eval, hvalue, eval]
      · show Except.ok (Value.bool _) = _
        rw [any_cons, any_nil, Bool.or_false, isEqual]
        cases compareValues platform v (.str value) with
        | none => rfl
        | some ordering => cases ordering <;> rfl
      · nofun
      · nofun
    next =>
      rw [eval, hvalue]
      show (if isNullValue v = true then _ else _) = _
      by_cases hnull : isNullValue v = true
      · rw [if_pos hnull, any_eq_false.mpr fun value _ => by simp [isEqual_null hnull]]
        rfl
      · rw [if_neg hnull, evalAny_literals]
        show Except.ok (Value.bool (_ != false)) = _
        rw [bne_false]
  rw [Selects, heval, ← any_eq_true]
  constructor
  · intro h
    exact Json.bool.inj (congrArg Value.json (Except.ok.inj h))
  · intro h
    rw [h]

theorem mem_collectFields {level : Level} {tokens : List Tok} {e : Expr}
    (h : Derives level tokens e) (hhead : tokens.head? = some (.quoted name)) :
    name ∈ collectFields e := by
  have hleft : ∀ {level : Level} {left right : List Tok} {l : Expr}, Derives level left l →
      (left ++ right).head? = some (.quoted name) → left.head? = some (.quoted name) := by
    intro level left right l hl hhead
    obtain ⟨token, rest, rfl, -⟩ := hl.head
    exact hhead
  induction h with
  | binary _ hl _ ih _ => exact mem_append_left _ (ih (hleft hl hhead))
  | tighter _ _ _ ih => exact ih hhead
  | not hword _ _ =>
    rw [Option.some.inj hhead] at hword
    cases hword
  | comparison _ hl _ ih _ => exact mem_append_left _ (ih (hleft hl hhead))
  | isNull hl _ _ _ ih => exact ih (hleft hl hhead)
  | inList hl _ _ _ _ ih _ => exact mem_append_left _ (ih (hleft hl hhead))
  | like hl _ _ _ ih _ => exact mem_append_left _ (ih (hleft hl hhead))
  | quoted other =>
    obtain rfl := Tok.quoted.inj (Option.some.inj hhead)
    exact mem_singleton_self _
  | _ => cases hhead

theorem fields_ne {expression : List Char} {e : Expr} (h : '"' ∈ field.toList)
    (hparse : parse debug ('"' :: (field.toList ++ expression)) = .ok e) : fields e ≠ [field] := by
  obtain ⟨tokens, htokens, hderives⟩ := parse_ok.mp hparse
  let front := String.ofList (field.toList.takeWhile (· != '"'))
  have hfront : '"' ∉ front.toList := by
    intro hmem
    rw [String.toList_ofList] at hmem
    simpa using mem_takeWhile_imp hmem
  obtain ⟨rest, hrest⟩ : ∃ rest, field.toList = front.toList ++ '"' :: rest := by
    have hdrop : field.toList.dropWhile (· != '"') ≠ [] := by
      rw [Ne, dropWhile_eq_nil_iff]
      intro hall
      simpa using hall '"' h
    obtain ⟨c, rest, hcons⟩ := exists_cons_of_ne_nil hdrop
    have hc := head_dropWhile_not (fun c : Char => c != '"') hdrop
    simp only [hcons, head_cons, bne_eq_false_iff_eq] at hc
    rw [hc] at hcons
    refine ⟨rest, ?_⟩
    rw [String.toList_ofList, ← hcons, takeWhile_append_dropWhile]
  have hfirst : tokens.head? = some (.quoted front) := by
    have htext : '"' :: (field.toList ++ expression) =
        quotedName front ++ (rest ++ expression) := by
      rw [quotedName_plain hfront, hrest]
      simp
    rw [htext, tokenize_name (quotable_plain hfront), prepend] at htokens
    cases hothers : tokenize (rest ++ expression) with
    | error error =>
      rw [hothers] at htokens
      cases htokens
    | ok others =>
      rw [hothers] at htokens
      cases htokens
      rfl
  intro hfields
  have hmem : front ∈ fields e := mem_fields.mpr (mem_collectFields hderives hfirst)
  rw [hfields, mem_singleton] at hmem
  exact hfront (hmem ▸ h)

/-! ## Which features the filter selects -/

/-- The filter is about the field alone and selects the features that have one of the values. -/
def SelectsNamed (debug : Tok → String) (platform : Platform) (lower : String → String)
    (layer : Layer) (field : String) (values : List String) (expression : List Char) : Prop :=
  ∃ e, parse debug expression = .ok e ∧ fields e = [field] ∧
    (∀ feature ∈ layer.features, Selects platform layer e feature ↔
      IsNamed lower field values feature) ∧
    ∃ feature ∈ layer.features, Selects platform layer e feature

/-- The field's name has no quote, and a text of the field is one of the values as it stands exactly
if it is one when folded, as nothing else in it is. -/
structure Verbatim (platform : Platform) (lower : String → String) (layer : Layer)
    (field : String) (values : List String) : Prop where
  name : '"' ∉ field.toList
  text : ∀ feature ∈ layer.features, ∀ text, textIn field feature = some text →
    (text ∈ values ↔ normalize lower (Text.trim text) ∈ values)
  other : ∀ feature ∈ layer.features, ∀ v, feature.properties[field]? = some v → asStr v = none →
    ∀ value ∈ values, isEqual platform v value = false

theorem selects_iff (hfield : ∃ f ∈ layer.fields, f.name = field) (hne : values ≠ []) :
    (∀ feature ∈ layer.features, Selects platform layer (selection field values) feature ↔
      IsNamed lower field values feature) ↔
    (∀ feature ∈ layer.features, ∀ text, textIn field feature = some text →
      (text ∈ values ↔ normalize lower (Text.trim text) ∈ values)) ∧
    ∀ feature ∈ layer.features, ∀ v, feature.properties[field]? = some v → asStr v = none →
      ∀ value ∈ values, isEqual platform v value = false := by
  rw [← forall₂_and]
  refine forall₂_congr fun feature _ => ?_
  rw [selects_selection hfield hne, IsNamed, textIn]
  cases feature.properties[field]? with
  | none =>
    have hnull : ∀ value, isEqual platform .null value = false := isEqual_null rfl
    simp [hnull]
  | some v =>
    cases htext : asStr v with
    | none => simp [htext]
    | some text => simp [htext, isEqual_text htext]

theorem steps_applyNamed {plan : RulePlan} {layerRef stepId : String} {layers : Layers}
    (hlayer : layers[layerRef]? = some layer)
    (h : namedValues lower prompt layer = some (field, values)) :
    (applyNamed lower plan prompt layers layerRef stepId).1.steps =
      plan.steps ++ [filterStep stepId layerRef (namedExpression field values)] := by
  simp [applyNamed, hlayer, h]

/-- The filter selects the features that have a value of the prompt exactly when they have it as it
stands. -/
theorem applyNamed_selects_iff (debug : Tok → String) (platform : Platform)
    (lower : String → String) (plan : RulePlan) (prompt layerRef stepId : String)
    {layers : Layers} {layer : Layer} {field : String} {values : List String}
    (hlayer : layers[layerRef]? = some layer)
    (h : namedValues lower prompt layer = some (field, values)) :
    ∃ expression, (applyNamed lower plan prompt layers layerRef stepId).1.steps =
        plan.steps ++ [filterStep stepId layerRef expression] ∧
      (SelectsNamed debug platform lower layer field values expression ↔
        Verbatim platform lower layer field values) := by
  have hfound := namedValues_found h
  have hfield : ∃ f ∈ layer.fields, f.name = field := hfound.2.2
  have hne : values ≠ [] := hfound.1
  refine ⟨namedExpression field values, steps_applyNamed hlayer h, ?_, ?_⟩
  · intro hselects
    obtain ⟨e, hparse, hfields, hexact, -⟩ := hselects
    have hname : '"' ∉ field.toList := by
      intro hquote
      rw [namedExpression] at hparse
      split at hparse
      next => exact fields_ne hquote hparse hfields
      next => exact fields_ne hquote hparse hfields
    rw [parse_named hname hne] at hparse
    cases hparse
    obtain ⟨htext, hother⟩ := (selects_iff hfield hne).mp hexact
    exact ⟨hname, htext, hother⟩
  · intro hverbatim
    have hexact := (selects_iff hfield hne).mpr ⟨hverbatim.text, hverbatim.other⟩
    obtain ⟨feature, hfeature, hnamed⟩ := hfound.exists_named
    exact ⟨_, parse_named hverbatim.name hne, fields_selection, hexact, feature, hfeature,
      (hexact feature hfeature).mpr hnamed⟩

namespace Sample

def asciiLower (s : String) : String := s.map Char.toLower

def stops (names : List String) : Layer where
  name := "stops"
  crs := "EPSG:4326"
  crsStatus := .declared
  fields := [⟨"name", .text, none⟩]
  features := names.mapIdx fun i name => ⟨.ofNat i, none, .ofList [("name", Value.str name)]⟩

def planned (prompt : String) (layer : Layer) : RulePlan × String :=
  applyNamed asciiLower ⟨[], [], ∅⟩ prompt (.ofList [("lyr_stops", layer)]) "lyr_stops" "named"

end Sample

open Sample

theorem applyNamed_selects_iff_quoted :
    ∃ expression, (planned "near miller's" (stops ["miller's", "Sakae"])).1.steps =
        [filterStep "named" "lyr_stops" expression] ∧
      (SelectsNamed (fun _ => "") Expression.Sample.plain asciiLower
          (stops ["miller's", "Sakae"]) "name" ["miller's"] expression ↔
        Verbatim Expression.Sample.plain asciiLower (stops ["miller's", "Sakae"]) "name"
          ["miller's"]) :=
  applyNamed_selects_iff _ _ _ ⟨[], [], ∅⟩ "near miller's" "lyr_stops" "named" rfl
    (by decide +kernel)

/-- The prompt names a stop, and the filter for it selects no stop. -/
theorem applyNamed_misses : ∃ expression, (planned "near sakae" (stops ["Sakae", "Osu"])).1.steps =
        [filterStep "named" "lyr_stops" expression] ∧
      (∃ feature ∈ (stops ["Sakae", "Osu"]).features, IsNamed asciiLower "name" ["sakae"] feature) ∧
      ∀ e, parse (fun _ => "") expression = .ok e → ∀ feature ∈ (stops ["Sakae", "Osu"]).features,
          ¬ Selects Expression.Sample.plain (stops ["Sakae", "Osu"]) e feature := by
  have hplain : '"' ∉ "name".toList := by decide
  have hnamed : namedValues asciiLower "near sakae" (stops ["Sakae", "Osu"]) =
      some ("name", ["sakae"]) := by decide +kernel
  refine ⟨namedExpression "name" ["sakae"], ?_, (namedValues_found hnamed).exists_named, ?_⟩
  · exact steps_applyNamed rfl hnamed
  · intro e he feature hfeature hselects
    rw [parse_named hplain (by simp)] at he
    cases he
    have hfield : ∃ f ∈ (stops ["Sakae", "Osu"]).fields, f.name = "name" :=
      (namedValues_found hnamed).2.2
    obtain ⟨value, hvalue, hequal⟩ := (selects_selection hfield (by simp)).mp hselects
    obtain rfl := mem_singleton.mp hvalue
    have hother : ∀ feature ∈ (stops ["Sakae", "Osu"]).features,
        isEqual Expression.Sample.plain (feature.properties["name"]?.getD .null) "sakae" = false := by
      decide
    rw [hother feature hfeature] at hequal
    cases hequal

end GeneGIS.Toolkit.Prompt
