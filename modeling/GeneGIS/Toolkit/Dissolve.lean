/-
Group value and aggregates are inserted into one map, each under its own name, so of two with one
name the later one is left.
-/
import GeneGIS.Toolkit.Classify
import GeneGIS.Toolkit.Intersect
import GeneGIS.Toolkit.Gpkg
import GeneGIS.Toolkit.Schema

namespace GeneGIS.Toolkit

open Fallible
open List hiding beq_eq_decide forall_mem_map getElem?_map map_map mem_map
open Std.ExtTreeMap hiding getElem?_map map_map mem_map

/-- Only the first field of the name gets the unit. -/
def Layer.setFieldUnit (layer : Layer) (name unit : String) : Layer :=
  { layer with fields := layer.fields.replaceF fun field =>
      if field.name = name then some { field with unit := some unit } else none }

/-! ## Aggregates -/

inductive AggOp where
  | count
  | sum
  | mean
  | min
  | max
  | areaWeightedSum
  deriving DecidableEq

def AggOp.debug : AggOp → String
  | count => "Count"
  | sum => "Sum"
  | mean => "Mean"
  | min => "Min"
  | max => "Max"
  | areaWeightedSum => "AreaWeightedSum"

structure Aggregate where
  op : AggOp
  field : Option String := none
  aliasName : Option String := none
  unit : Option String := none

namespace Aggregate

variable (a : Aggregate)

def fieldText : String := a.field.getD ""

def outputName : String := a.aliasName.getD <| match a.op with
    | .count => "count"
    | .sum => "sum_" ++ a.fieldText
    | .mean => "mean_" ++ a.fieldText
    | .min => "min_" ++ a.fieldText
    | .max => "max_" ++ a.fieldText
    | .areaWeightedSum => "aw_sum_" ++ a.fieldText

def check (op : String) (source : Layer) (allowAreaWeighted : Bool) (a : Aggregate) :
    Except ToolkitError Unit :=
  if a.op = .areaWeightedSum ∧ !allowAreaWeighted then
    .error (.parameter op "area_weighted_sum is only valid in spatial_join")
  else if a.op = .count then .ok ()
  else
    match a.field with
    | none => .error (.parameter op (a.op.debug ++ " needs a field"))
    | some field =>
      match source.field field with
      | none => .error (.parameter op ("unknown field " ++ field))
      | some schema =>
        if Classify.numericType schema then .ok ()
        else .error (.parameter op ("field " ++ field ++ " is not numeric"))

def unitIn (source : Layer) (a : Aggregate) : Option String := a.unit.or <| match a.op with
    | .count => some "features"
    | _ => (a.field.bind source.field).bind Field.unit

/-- The value of an aggregate over features with weights. -/
def value (members : List (Feature × F64)) : Value :=
  if a.op = .count then .ofNat members.length
  else
    let values := members.filterMap fun m =>
      (Classify.numberOf a.fieldText m.1).map fun v => (v, m.2)
    let numbers := values.map Prod.fst
    if values.isEmpty then
      if a.op = .sum ∨ a.op = .areaWeightedSum then .ofNat 0 else .null
    else
      match a.op with
      | .sum => .ofF64 (F64.sum numbers)
      | .areaWeightedSum => .ofF64 (F64.sum (values.map fun m => m.1.mul m.2))
      | .mean => .ofF64 ((F64.sum numbers).div (.ofNat values.length))
      | .min => .ofF64 (numbers.foldl F64.min (.infinity false))
      | .max => .ofF64 (numbers.foldl F64.max (.infinity true))
      | .count => .null

end Aggregate

namespace Dissolve

open Operation

/-- `serde_json` reads the list of aggregates. -/
abbrev Reader := Json → Except String (List Aggregate)

def aggregatesParam (read : Reader) (op : String) (params : Value) (source : Layer)
    (allowAreaWeighted : Bool) : Except ToolkitError (List Aggregate) := do
  let aggregates ← match params.json.get? "aggregates" with
    | none => .ok [{ op := .count }]
    | some .null => .ok [{ op := .count }]
    | some value => (read value).mapError fun e => .parameter op ("aggregates: " ++ e)
  aggregates.forM (Aggregate.check op source allowAreaWeighted)
  return aggregates

def strParam (params : Value) (key : String) : Option String :=
  (textAt key params.json).filter fun s => !Text.isBlank s

def fieldParam (params : Value) (layer : Layer) : Except ToolkitError (Option String) :=
  match strParam params "by" with
  | none => .ok none
  | some name =>
    if (layer.field name).isNone then .error (.parameter "dissolve" ("unknown field " ++ name))
    else .ok (some name)

/-- The group field and the aggregates that are accepted. -/
def dissolveParams (read : Reader) (params : Value) (layer : Layer) :
    Except ToolkitError (Option String × List Aggregate) := do
  return (← fieldParam params layer, ← aggregatesParam read "dissolve" params layer false)

variable (geo : Library) (groupField : Option String) (aggregates : List Aggregate)

variable (feature : Feature)

def groupValue : Value := (groupField.bind fun name => feature.properties[name]?).getD .null

def groupKey : String := String.ofList ((groupValue groupField feature).canonicalJson geo.floatText)

abbrev Groups := Std.ExtTreeMap String (Value × List Feature)

def addMember (groups : Groups) (feature : Feature) : Groups :=
  let group := groups.getD (groupKey geo groupField feature) (groupValue groupField feature, [])
  groups.insert (groupKey geo groupField feature) (group.1, group.2 ++ [feature])

def groupsOf (features : List Feature) : Groups := features.foldl (addMember geo groupField) ∅

/-- The polygons are united; otherwise features of one kind are put together, and features of
several kinds are collected. -/
def geometryOf (members : List Feature) : Option Geometry :=
  let parts := members.filterMap Feature.geometry
  let polys := parts.filterMap (Clip.polygonal geo.toOverlay)
  let lines := (parts.filterMap Clip.lineal).flatten
  let points := (parts.filterMap Clip.puntal).flatten
  if polys.length == members.length && !polys.isEmpty then
    Clip.fromPolygons geo.toOverlay (unionAll geo polys)
  else if !lines.isEmpty && points.isEmpty && polys.isEmpty then Clip.fromLines lines
  else if !points.isEmpty && lines.isEmpty && polys.isEmpty then Clip.fromPoints points
  else if parts.isEmpty then none
  else some (.collection parts)

/-- The attributes in the order in which they are inserted. -/
def entries (value : Value) (members : List Feature) : List (String × Value) :=
  (groupField.map fun name => (name, value)).toList ++
    aggregates.map fun a => (a.outputName, a.value (members.map fun f => (f, .ofNat 1)))

def featureOf (index : Nat) (group : Value × List Feature) : Feature where
  id := .ofNat index
  geometry := geometryOf geo group.2
  properties := (entries groupField aggregates group.1 group.2).foldl
    (fun properties e => properties.insert e.1 e.2) ∅

def areaCheck (areas : List F64) (out : Layer) : List Check :=
  let input := areas.foldl F64.add .zero
  let largest := areas.foldl F64.max .zero
  let output := F64.sum (out.features.filterMap (featureArea geo))
  let tolerance := F64.add (F64.mul input (.ofRatio 1 (10 ^ 9))) (.ofRatio 1 (10 ^ 12))
  if F64.lt .zero input then
    [{ id := "dissolved_area_bounds"
       passed := F64.le output (F64.add input tolerance) &&
         F64.le largest (F64.add output tolerance)
       detail := "largest input " ++ geo.scientific 6 largest ++ " ≤ dissolved " ++
         geo.scientific 6 output ++ " ≤ sum of inputs " ++ geo.scientific 6 input }]
  else []

def countOf : Option Int64 := feature.properties["count"]?.bind fun v =>
    match v.json with
    | .num n => Gpkg.asI64 n
    | _ => none

def countCheck (layer out : Layer) : List Check :=
  let counted := (out.features.filterMap countOf).foldl (· + ·) 0
  if aggregates.any fun a => a.op == .count && a.aliasName.isNone then
    [{ id := "members_conserved"
       passed := counted.toUInt64.toNat == layer.features.length
       detail := counted.toInt.repr ++ " members across groups vs " ++
         layer.features.length.repr ++ " input features" }]
  else []

def setUnit (source out : Layer) (a : Aggregate) : Layer :=
  ((a.unitIn source).map fun unit => out.setFieldUnit a.outputName unit).getD out

def output (layer : Layer) : OpOutput :=
  let groups := (groupsOf geo groupField layer.features).toList.map Prod.snd
  let out := { derived (layer.name ++ "_dissolved") layer.crs with
    features := groups.mapIdx (featureOf geo groupField aggregates) }
  let out := aggregates.foldl (setUnit layer) out.refreshSchema
  let areas := groups.flatMap fun group => group.2.filterMap (featureArea geo)
  { layer := out, checks := areaCheck geo areas out ++ countCheck aggregates layer out
    notes := [] }

def dissolve (read : Reader) (params : Value) (layer : Layer) : Except ToolkitError OpOutput := do
  requireValid geo "dissolve" layer
  let (groupField, aggregates) ← dissolveParams read params layer
  return output geo groupField aggregates layer

/-! ## One feature for each value -/

open Classical in
noncomputable def membersOf (features : List Feature) (value : Value) : List Feature :=
  features.filter fun f => groupValue groupField f = value

/-- A feature of the output has the group value and every aggregate over the group, each under
its own name. -/
structure Keeps (features : List Feature) (value : Value) (feature : Feature) : Prop where
  group : ∀ name ∈ groupField, feature.properties[name]? = some value
  aggregates : ∀ a ∈ aggregates, feature.properties[a.outputName]? =
    some (a.value ((membersOf groupField features value).map fun f => (f, .ofNat 1)))

structure Dissolved (features out : List Feature) (values : List Value) : Prop where
  nodup : values.Nodup
  mem_iff : ∀ v, v ∈ values ↔ ∃ f ∈ features, groupValue groupField f = v
  size : (values.map fun v => (membersOf groupField features v).length).sum = features.length
  keeps : Forall₂ (Keeps groupField aggregates features) values out

/-- What goes by one name is the same for every group. -/
def Consistent (features : List Feature) : Prop :=
  ∀ f ∈ features, ∀ e ∈ entries groupField aggregates (groupValue groupField f)
      (membersOf groupField features (groupValue groupField f)),
    ∀ e' ∈ entries groupField aggregates (groupValue groupField f)
      (membersOf groupField features (groupValue groupField f)), e.1 = e'.1 → e.2 = e'.2

variable {geo groupField aggregates} {features : List Feature}

theorem groupsOf_getElem? (features : List Feature) (key : String) :
    (groupsOf geo groupField features)[key]? =
      (features.filter fun f => groupKey geo groupField f = key).head?.map fun f =>
        (groupValue groupField f, features.filter fun f => groupKey geo groupField f = key) := by
  induction features using reverseRecOn with
  | nil => simp [groupsOf]
  | append_singleton before f ih =>
    rw [groupsOf, foldl_append, foldl_cons, foldl_nil, ← groupsOf, addMember,
      getD_eq_getD_getElem?, filter_append]
    by_cases hkey : groupKey geo groupField f = key
    · have hone : [f].filter (fun f => groupKey geo groupField f = key) = [f] := by simp [hkey]
      rw [hkey, getElem?_insert_self, ih, hone]
      cases before.filter fun f => groupKey geo groupField f = key <;> rfl
    · have hnone : [f].filter (fun f => groupKey geo groupField f = key) = [] := by simp [hkey]
      rw [Keyed.getElem?_insert_ne (Ne.symm hkey), ih, hnone, append_nil]

section Groups

variable (hfloat : Json.FloatText geo.floatText)

include hfloat

theorem groupKey_inj {f g : Feature} : groupKey geo groupField f = groupKey geo groupField g ↔
      groupValue groupField f = groupValue groupField g := by
  constructor
  · exact fun h => Value.canonicalJson_inj hfloat (String.ofList_injective h)
  · intro h
    rw [groupKey, h, groupKey]

theorem mem_groups {key : String} {value : Value} {members : List Feature} :
    (key, value, members) ∈ (groupsOf geo groupField features).toList ↔
      ∃ f ∈ features, groupKey geo groupField f = key ∧ groupValue groupField f = value ∧
        members = membersOf groupField features value := by
  have hmembers : ∀ f, groupKey geo groupField f = key →
      (features.filter fun g => groupKey geo groupField g = key) =
        membersOf groupField features (groupValue groupField f) := by
    intro f hf
    refine filter_congr fun g _ => ?_
    rw [← hf, decide_eq_decide]
    exact groupKey_inj hfloat
  rw [mem_toList_iff_getElem?_eq_some, groupsOf_getElem?, Option.map_eq_some_iff]
  constructor
  · intro h
    obtain ⟨f, hhead, hpair⟩ := h
    obtain ⟨hvalue, hlist⟩ := Prod.mk.inj hpair
    obtain ⟨hf, hkey⟩ := mem_filter.mp (mem_of_head? hhead)
    have hkey' : groupKey geo groupField f = key := of_decide_eq_true hkey
    exact ⟨f, hf, hkey', hvalue, by rw [← hlist, ← hvalue, hmembers f hkey']⟩
  · intro h
    obtain ⟨f, hf, hkey, hvalue, hlist⟩ := h
    have hmem : f ∈ features.filter fun g => groupKey geo groupField g = key :=
      mem_filter.mpr ⟨hf, decide_eq_true hkey⟩
    cases hfilter : features.filter fun g => groupKey geo groupField g = key with
    | nil =>
      rw [hfilter] at hmem
      cases hmem
    | cons g rest =>
      have hmember : g ∈ features.filter fun g => groupKey geo groupField g = key :=
        hfilter ▸ mem_cons_self
      have hg : groupKey geo groupField g = key := of_decide_eq_true (mem_filter.mp hmember).2
      have hsame : groupValue groupField g = value := by
        rw [← hvalue, ← groupKey_inj hfloat, hg, hkey]
      exact ⟨g, rfl, by rw [← hfilter, hmembers g hg, hsame, hlist]⟩

end Groups

theorem sum_members {values : List Value} (hnodup : values.Nodup)
    (hiff : ∀ v, v ∈ values ↔ ∃ f ∈ features, groupValue groupField f = v) :
    (values.map fun v => (membersOf groupField features v).length).sum = features.length := by
  classical
  have hcount : ∀ v, (membersOf groupField features v).length =
      (features.map (groupValue groupField)).count v := by
    intro v
    rw [count, countP_map, countP_eq_length_filter, membersOf]
    exact congrArg _ (filter_congr fun f _ => by simp [beq_eq_decide])
  have hperm : values.Perm (features.map (groupValue groupField)).dedup := by
    rw [perm_ext_iff_of_nodup hnodup (nodup_dedup _)]
    intro v
    rw [List.mem_dedup, List.mem_map, hiff]
  simp only [hcount]
  rw [(hperm.map _).sum_eq, sum_map_count_dedup_eq_length, length_map]

theorem keeps_featureOf_iff (index : Nat) (value : Value) :
    Keeps groupField aggregates features value
        (featureOf geo groupField aggregates index (value, membersOf groupField features value)) ↔
      ∀ e ∈ entries groupField aggregates value (membersOf groupField features value),
        ∀ e' ∈ entries groupField aggregates value (membersOf groupField features value),
          e.1 = e'.1 → e.2 = e'.2 := by
  rw [← Keyed.found_foldl_insert_iff (m := ∅)]
  simp only [entries, List.forall_mem_append, List.forall_mem_map]
  constructor
  · intro h
    refine ⟨fun e he => ?_, h.aggregates⟩
    obtain ⟨name, hname, rfl⟩ := Option.map_eq_some_iff.mp (Option.mem_toList.mp he)
    exact h.group name hname
  · intro h
    refine ⟨fun name hname => ?_, h.2⟩
    exact h.1 (name, value) (Option.mem_toList.mpr (Option.mem_map.mpr ⟨name, hname, rfl⟩))

theorem features_setUnits (source : Layer) (aggregates : List Aggregate) : ∀ out : Layer,
    (aggregates.foldl (setUnit source) out).features = out.features := by
  induction aggregates with
  | nil => exact fun _ => rfl
  | cons a rest ih =>
    intro out
    rw [foldl_cons, ih, setUnit]
    cases a.unitIn source <;> rfl

theorem features_output (hfloat : Json.FloatText geo.floatText) (layer : Layer) :
    ∃ values : List Value, values.Nodup ∧
      (∀ v, v ∈ values ↔ ∃ f ∈ layer.features, groupValue groupField f = v) ∧
      (output geo groupField aggregates layer).layer.features = values.mapIdx fun i v =>
        featureOf geo groupField aggregates i (v, membersOf groupField layer.features v) := by
  obtain ⟨groups, hgroups⟩ : ∃ groups, groups =
    (groupsOf geo groupField layer.features).toList := ⟨_, rfl⟩
  obtain ⟨values, hvalues⟩ : ∃ values, values = groups.map fun e => e.2.1 := ⟨_, rfl⟩
  have hmem : ∀ e ∈ groups, ∃ f ∈ layer.features, groupKey geo groupField f = e.1 ∧
      groupValue groupField f = e.2.1 ∧ e.2.2 = membersOf groupField layer.features e.2.1 :=
    fun e he => (mem_groups hfloat).mp (hgroups ▸ he)
  have hpairs : groups.map Prod.snd = values.map fun v =>
      (v, membersOf groupField layer.features v) := by
    rw [hvalues, List.map_map]
    refine map_congr_left fun e he => ?_
    obtain ⟨-, -, -, -, hmembers⟩ := hmem e he
    exact Prod.ext rfl hmembers
  refine ⟨values, ?_, fun v => ?_, ?_⟩
  · have hkeys : groups.Pairwise fun a b => ¬ compare a.1 b.1 = .eq :=
      hgroups ▸ distinct_keys_toList
    rw [hvalues, Nodup, pairwise_map]
    refine Pairwise.imp_of_mem ?_ hkeys
    intro a b ha hb hne heq
    obtain ⟨f, -, hfkey, hfvalue, -⟩ := hmem a ha
    obtain ⟨g, -, hgkey, hgvalue, -⟩ := hmem b hb
    refine hne ?_
    rw [← hfkey, ← hgkey, (groupKey_inj hfloat).mpr (hfvalue.trans (heq.trans hgvalue.symm))]
    exact Std.ReflCmp.compare_self
  · rw [hvalues, List.mem_map]
    constructor
    · intro h
      obtain ⟨e, he, rfl⟩ := h
      obtain ⟨f, hf, -, hvalue, -⟩ := hmem e he
      exact ⟨f, hf, hvalue⟩
    · intro h
      obtain ⟨f, hf, hvalue⟩ := h
      refine ⟨(groupKey geo groupField f, v, membersOf groupField layer.features v), ?_, rfl⟩
      rw [hgroups]
      exact (mem_groups hfloat).mpr ⟨f, hf, rfl, hvalue, rfl⟩
  · refine (features_setUnits layer aggregates _).trans ?_
    show ((groupsOf geo groupField layer.features).toList.map Prod.snd).mapIdx _ = _
    rw [← hgroups, hpairs]
    refine mapIdx_eq_iff.mpr fun i => ?_
    rw [List.getElem?_mapIdx, List.getElem?_map, Option.map_map]
    rfl

/-- The aggregates that go by the name of the group field have the group value. -/
def Named (groupField : Option String) (aggregates : List Aggregate) (features : List Feature)
    (v : Value) : Prop :=
  ∀ name ∈ groupField, ∀ a ∈ aggregates, a.outputName = name →
    a.value ((membersOf groupField features v).map fun f => (f, .ofNat 1)) = v

theorem Keeps.named {v : Value} {feature : Feature}
    (h : Keeps groupField aggregates features v feature) :
    Named groupField aggregates features v := by
  intro name hname a ha hsame
  have hkept := h.aggregates a ha
  rw [hsame, h.group name hname] at hkept
  exact (Option.some.inj hkept).symm

theorem Dissolved.named {out : List Feature} {values : List Value}
    (h : Dissolved groupField aggregates features out values) {v : Value}
    (hv : ∃ f ∈ features, groupValue groupField f = v) :
    Named groupField aggregates features v := by
  obtain ⟨i, hi, rfl⟩ := mem_iff_getElem.mp ((h.mem_iff v).mpr hv)
  exact (h.keeps.get hi (h.keeps.length_eq ▸ hi)).named

theorem Named.found {index : Nat} {v : Value} (h : Named groupField aggregates features v)
    {name : String} (hname : name ∈ groupField) :
    (featureOf geo groupField aggregates index
      (v, membersOf groupField features v)).properties[name]? = some v := by
  have hfirst : (name, v) ∈ entries groupField aggregates v (membersOf groupField features v) :=
    mem_append_left _ (Option.mem_toList.mpr (Option.mem_map.mpr ⟨name, hname, rfl⟩))
  refine Keyed.found_foldl_insert hfirst fun e he hkey => ?_
  rcases mem_append.mp he with hgroup | haggregate
  · obtain ⟨-, -, rfl⟩ := Option.mem_map.mp (Option.mem_toList.mp hgroup)
    rfl
  · obtain ⟨a, ha, rfl⟩ := List.mem_map.mp haggregate
    exact h name hname a ha hkey

theorem eq_of_forall₂_mapIdx {α β : Type} {R : β → α → Prop} :
    ∀ {l l' : List β} {f : Nat → β → α}, (∀ i, ∀ b ∈ l, ∀ b', R b' (f i b) → b' = b) →
      Forall₂ R l' (l.mapIdx f) → l' = l
  | [], l', f, _, h => forall₂_nil_right_iff.mp h
  | b :: rest, l', f, hR, h => by
    rw [mapIdx_cons] at h
    cases h with
    | cons hhead htail =>
      rw [hR 0 b mem_cons_self _ hhead,
        eq_of_forall₂_mapIdx (fun i c hc => hR (i + 1) c (mem_cons_of_mem _ hc)) htail]

/-- Every group has its feature, and the features keep what they should where no two things of
one name differ. -/
theorem dissolved_output_iff (hfloat : Json.FloatText geo.floatText) (layer : Layer) :
    (∃ values, Dissolved groupField aggregates layer.features
      (output geo groupField aggregates layer).layer.features values) ↔
      Consistent groupField aggregates layer.features := by
  obtain ⟨values, hnodup, hiff, hout⟩ := @features_output geo groupField aggregates hfloat layer
  have hkeeps : Forall₂ (Keeps groupField aggregates layer.features) values
      (output geo groupField aggregates layer).layer.features ↔
      Consistent groupField aggregates layer.features := by
    rw [hout, Intersect.forall₂_mapIdx fun i v => keeps_featureOf_iff i v]
    constructor
    · exact fun h f hf => h _ ((hiff _).mpr ⟨f, hf, rfl⟩)
    · intro h v hv
      obtain ⟨f, hf, rfl⟩ := (hiff v).mp hv
      exact h f hf
  constructor
  · intro h
    obtain ⟨values', hdissolved⟩ := h
    have hboth := (forall₂_and_left _ _).mpr
      ⟨fun v hv => (hdissolved.mem_iff v).mp hv, hdissolved.keeps⟩
    have hnamed : ∀ v ∈ values, Named groupField aggregates layer.features v :=
      fun v hv => hdissolved.named ((hiff v).mp hv)
    rw [hout] at hboth
    have hsame : values' = values := by
      refine eq_of_forall₂_mapIdx (fun i v hv v' hv' => ?_) hboth
      cases hfield : groupField with
      | none =>
        subst hfield
        obtain ⟨⟨f, -, hf⟩, -⟩ := hv'
        obtain ⟨g, -, hg⟩ := (hiff v).mp hv
        exact hf.symm.trans hg
      | some name =>
        have hfound := hv'.2.group name hfield
        rw [(hnamed v hv).found hfield] at hfound
        exact (Option.some.inj hfound).symm
    exact hkeeps.mp (hsame ▸ hdissolved.keeps)
  · intro h
    exact ⟨values, hnodup, hiff, sum_members hnodup hiff, hkeeps.mpr h⟩

/-- One feature for each value, with the aggregates, exactly where nothing is overwritten by
something else. -/
theorem dissolve_groups_iff (hfloat : Json.FloatText geo.floatText) {read : Reader}
    {params : Value} {layer : Layer} {out : OpOutput}
    (h : dissolve geo read params layer = .ok out) :
    ∃ groupField aggregates, dissolveParams read params layer = .ok (groupField, aggregates) ∧
      ((∃ values, Dissolved groupField aggregates layer.features out.layer.features values) ↔
        Consistent groupField aggregates layer.features) := by
  obtain ⟨-, -, hrest⟩ := bind_iff.mp h
  obtain ⟨accepted, hparams, hout⟩ := bind_iff.mp hrest
  refine ⟨accepted.1, accepted.2, hparams, ?_⟩
  rw [← Except.ok.inj hout]
  exact dissolved_output_iff hfloat layer

namespace Shops

def library : Library := { Intersect.Ward.library with floatText := Runtime.reference.floatText }

def read : Reader := fun _ => .error ""

def params (field : String) : Value := .object [("by", .str field)]

def shop : Feature := ⟨0, none, .ofList [("kind", .str "bakery"), ("count", .ofNat 7)] compare⟩

def layer : Layer where
  name := "shops"
  crs := "EPSG:6677"
  crsStatus := .declared
  fields := [⟨"kind", .text, none⟩, ⟨"count", .integer, none⟩]
  features := [shop]

theorem params_kind : dissolveParams read (params "kind") layer =
    .ok (some "kind", [{ op := .count }]) := by rfl

theorem params_count : dissolveParams read (params "count") layer =
    .ok (some "count", [{ op := .count }]) := by rfl

theorem dissolve_ok {params : Value} {groupField : Option String} {aggregates : List Aggregate}
    (h : dissolveParams read params layer = .ok (groupField, aggregates)) :
    dissolve library read params layer = .ok (output library groupField aggregates layer) :=
  then_ok rfl (then_ok h rfl)

end Shops

theorem dissolve_groups_iff_kind : ∃ out values,
    dissolve Shops.library Shops.read (Shops.params "kind") Shops.layer = .ok out ∧
      Dissolved (some "kind") [{ op := .count }] Shops.layer.features out.layer.features values := by
  have hok := Shops.dissolve_ok Shops.params_kind
  obtain ⟨groupField, aggregates, hparams, hiff⟩ :=
    dissolve_groups_iff Runtime.floatText_reference hok
  cases Shops.params_kind.symm.trans hparams
  obtain ⟨values, hdissolved⟩ := hiff.mpr (by
    intro f hf e he e' he'
    simp only [entries, Option.map_some, Option.toList_some, map_cons, map_nil,
      cons_append, nil_append, mem_cons, not_mem_nil, or_false] at he he'
    rcases he with rfl | rfl <;> rcases he' with rfl | rfl <;> simp [Aggregate.outputName])
  exact ⟨_, values, hok, hdissolved⟩

/-- The number of shops takes the place of the value that they are grouped by. -/
theorem dissolve_overwrites : ∃ out,
    dissolve Shops.library Shops.read (Shops.params "count") Shops.layer = .ok out ∧
      dissolveParams Shops.read (Shops.params "count") Shops.layer =
        .ok (some "count", [{ op := .count }]) ∧
      ¬ ∃ values, Dissolved (some "count") [{ op := .count }] Shops.layer.features
        out.layer.features values := by
  refine ⟨_, Shops.dissolve_ok Shops.params_count, Shops.params_count, fun h => ?_⟩
  obtain ⟨values, hdissolved⟩ := h
  have hvalue : groupValue (some "count") Shops.shop = .ofNat 7 := by rfl
  have hnamed := hdissolved.named ⟨Shops.shop, mem_cons_self, hvalue⟩ "count" rfl _
    mem_cons_self rfl
  have hlength : (membersOf (some "count") Shops.layer.features (.ofNat 7)).length ≤ 1 :=
    length_filter_le _ _
  rw [Aggregate.value, if_pos rfl, length_map] at hnamed
  generalize (membersOf (some "count") Shops.layer.features (.ofNat 7)).length = n at hlength hnamed
  have hjson := congrArg Value.json hnamed
  simp only [Value.ofNat, Value.ofInt, Json.num.injEq, Number.int.injEq] at hjson
  omega

end Dissolve
end GeneGIS.Toolkit
