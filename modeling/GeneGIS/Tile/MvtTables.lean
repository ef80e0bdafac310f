/-
Keys are numbered as they first appear and listed in the order of their texts.  Values are listed
as numbered, but a zero takes the number of a zero of either sign.
-/
import GeneGIS.Data.Each
import GeneGIS.Tile.Mvt
import Mathlib.Data.List.Sort

namespace GeneGIS.Mvt

open Intern Option
open List hiding contains_iff_mem getElem?_insert
open Std.ExtTreeMap hiding contains_iff_mem getElem?_insert

variable {libm : Libm} {order order' : List String} {values values' : List TileValue}
  {m : Std.ExtTreeMap String Nat} {key : String} {value : TileValue}

/-- The map numbers the keys of a list by their places in it. -/
structure Numbered (order : List String) (m : Std.ExtTreeMap String Nat) : Prop where
  nodup : order.Nodup
  index : ∀ key, m[key]? = order.findIdx? fun k => decide (k = key)
  size : m.size = order.length

theorem numbered_empty : Numbered [] ∅ := by
  refine ⟨nodup_nil, ?_, rfl⟩
  intro key
  rw [getElem?_empty]
  rfl

theorem mem_of_numbered (h : Numbered order m) : key ∈ m ↔ key ∈ order := by
  rw [← isSome_getElem?_iff_mem, h.index]
  constructor
  · intro hsome
    by_contra hnot
    rw [findIdx?_eq_none_iff_not_mem.mpr hnot] at hsome
    cases hsome
  · intro hmem
    rw [← ne_none_iff_isSome]
    intro hnone
    exact findIdx?_eq_none_iff_not_mem.mp hnone hmem

theorem numbered_keyIndex (h : Numbered order m) (key : String) :
    Numbered (intern (fun a b => decide (a = b)) order key).2 (keyIndex m key).2 ∧
      (keyIndex m key).1 = (intern (fun a b => decide (a = b)) order key).1 := by
  obtain ⟨i, hfind, hcase⟩ | ⟨hfind, hcase⟩ := intern_cases (fun a b => decide (a = b)) order key
  · have hkey : keyIndex m key = (i, m) := by
      rw [keyIndex, h.index, hfind]
    rw [hkey, hcase]
    exact ⟨h, rfl⟩
  · have hkey : keyIndex m key = (m.size, m.insert key m.size) := by
      rw [keyIndex, h.index, hfind]
    have hnew : key ∉ order := findIdx?_eq_none_iff_not_mem.mp hfind
    rw [hkey, hcase]
    refine ⟨⟨?_, ?_, ?_⟩, h.size⟩
    · exact h.nodup.append (nodup_singleton key) (disjoint_singleton.mpr hnew)
    · intro k
      rw [Std.ExtTreeMap.getElem?_insert, List.findIdx?_append, List.findIdx?_singleton, h.index k,
        h.size]
      by_cases hk : key = k
      · have hself : compare key k = .eq := by
          rw [hk]
          exact Std.ReflCmp.compare_self
        rw [if_pos hself, ← hk, hfind, if_pos (decide_eq_true rfl)]
        simp
      · have hother : compare key k ≠ .eq := by
          intro heq
          exact hk (Std.LawfulEqOrd.eq_of_compare heq)
        rw [if_neg hother, if_neg (by simpa using hk), map_none, or_none]
    · have hnot : m.contains key = false := by
        rw [← Bool.not_eq_true, Std.ExtTreeMap.contains_iff_mem, mem_of_numbered h]
        exact hnew
      rw [size_insert, hnot, if_neg Bool.false_ne_true, h.size, length_append, length_singleton]

theorem keys_eq_iff (h : Numbered order m) :
    m.keys = order ↔ order.Pairwise fun a b => compare a b = .lt := by
  constructor
  · intro hkeys
    rw [← hkeys]
    exact Std.ExtTreeMap.ordered_keys
  · intro hordered
    have hasymm : Std.Antisymm fun a b : String => compare a b = .lt := by
      refine ⟨fun a b hab hba => ?_⟩
      rw [Std.OrientedOrd.eq_swap (a := a) (b := b), hba] at hab
      cases hab
    have hirrefl : Std.Irrefl fun a b : String => compare a b = .lt := ⟨fun a ha => by simp at ha⟩
    refine List.Pairwise.eq_of_mem_iff Std.ExtTreeMap.ordered_keys hordered fun key => ?_
    rw [Std.ExtTreeMap.mem_keys, mem_of_numbered h]

theorem length_keys (h : Numbered order m) : m.keys.length = order.length := by
  rw [Std.ExtTreeMap.length_keys, h.size]

/-- What a tag pair says of its property, in the tables as they are filled. -/
structure Coded (order : List String) (values : List TileValue) (p : String × TileValue)
    (tag : Nat × Nat) : Prop where
  key : order[tag.1]? = some p.1
  value : ∃ v, values[tag.2]? = some v ∧ (v = p.2 ∨ v.eq p.2 = true)
  first : p.2.eq p.2 = true → (values.findIdx? fun v => v.eq p.2) = some tag.2

theorem Coded.mono {p : String × TileValue} {tag : Nat × Nat} (h : Coded order values p tag)
    (horder : order <+: order') (hvalues : values <+: values') : Coded order' values' p tag := by
  obtain ⟨v, hv, hsame⟩ := h.value
  refine ⟨getElem?_extend horder h.key, ⟨v, getElem?_extend hvalues hv, hsame⟩, ?_⟩
  intro hself
  exact findIdx?_extend hvalues (h.first hself)

def flatTags (tags : List (Nat × Nat)) : List Nat := tags.flatMap fun tag => [tag.1, tag.2]

/-- What encoding properties adds to the tables. -/
structure Filled (properties : List (String × TileValue)) (order order' : List String)
    (values values' : List TileValue) : Prop where
  entered : order' = (properties.map Prod.fst).foldl enter order
  keys : order <+: order'
  table : values <+: values'
  mem : ∀ v ∈ values', v ∈ values ∨ v ∈ properties.map Prod.snd

theorem Filled.trans {p q : List (String × TileValue)} {order'' : List String}
    {values'' : List TileValue} (h : Filled p order order' values values')
    (h' : Filled q order' order'' values' values'') :
    Filled (p ++ q) order order'' values values'' := by
  refine ⟨?_, h.keys.trans h'.keys, h.table.trans h'.table, ?_⟩
  · rw [h'.entered, h.entered, map_append, foldl_append]
  · intro v hv
    rw [map_append, mem_append]
    rcases h'.mem v hv with hv | hv
    · exact (h.mem v hv).imp_right Or.inl
    · exact Or.inr (Or.inr hv)

theorem coded_step (h : Numbered order m) (values : List TileValue) (key : String) (value : TileValue) :
    ∃ order', Numbered order' (keyIndex m key).2 ∧
      Filled [(key, value)] order order' values (valueIndex values value).2 ∧
      Coded order' (valueIndex values value).2 (key, value)
        ((keyIndex m key).1, (valueIndex values value).1) := by
  obtain ⟨hnumbered, hindex⟩ := numbered_keyIndex h key
  refine ⟨_, hnumbered, ⟨?_, prefix_intern _ _ _, prefix_intern _ _ _, ?_⟩, ⟨?_, ?_, ?_⟩⟩
  · exact intern_eq_enter order key
  · intro v hv
    exact (mem_intern hv).imp_right mem_singleton.mpr
  · obtain ⟨k, hk, hsame⟩ := intern_entry (fun a b => decide (a = b)) order key
    have hkey : k = key := hsame.elim id of_decide_eq_true
    rw [hindex, ← hkey]
    rw [hkey] at hk ⊢
    exact hk
  · exact intern_entry _ _ _
  · exact fun hself => intern_first hself

theorem encodeTags_coded (values : List TileValue) (properties : List (String × TileValue))
    (h : Numbered order m) :
    ∃ order' m' values' tags, encodeTags ⟨m, values⟩ properties =
        (Varint.pack (flatTags tags), ⟨m', values'⟩) ∧
      Numbered order' m' ∧ Filled properties order order' values values' ∧
      List.Forall₂ (Coded order' values') properties tags := by
  induction properties generalizing order m values with
  | nil =>
    exact ⟨order, m, values, [], rfl, h, ⟨rfl, prefix_rfl, prefix_rfl, fun v => Or.inl⟩, .nil⟩
  | cons p rest ih =>
    obtain ⟨key, value⟩ := p
    obtain ⟨order₁, hnumbered, hfilled, hcoded⟩ := coded_step h values key value
    obtain ⟨order', m', values', tags, hencode, hnumbered', hfilled', htags⟩ := ih _ hnumbered
    refine ⟨order', m', values', _ :: tags, ?_, hnumbered', hfilled.trans hfilled',
      .cons (hcoded.mono hfilled'.keys hfilled'.table) htags⟩
    rw [encodeTags]
    dsimp only
    rw [hencode]
    simp only [flatTags, flatMap_cons, Varint.pack, flatMap_append, flatMap_nil,
      append_nil, pushVarint, append_assoc]

/-! ## The layer -/

def emitted (libm : Libm) (z x y extent : Nat) (features : List TilePolygonFeature) :
    List TilePolygonFeature :=
  features.filter fun feature => (encodeFeatureGeometry libm feature z x y extent).isSome

def allProperties (features : List TilePolygonFeature) : List (String × TileValue) :=
  features.flatMap TilePolygonFeature.properties

theorem encodeFeatures_coded (libm : Libm) (z x y extent : Nat) (values : List TileValue)
    (features : List TilePolygonFeature) (h : Numbered order m) :
    ∃ order' m' values' messages tags,
      encodeFeatures libm z x y extent ⟨m, values⟩ features = (messages, ⟨m', values'⟩) ∧
      Numbered order' m' ∧
      Filled (allProperties (emitted libm z x y extent features)) order order' values values' ∧
      List.Forall₂ (fun feature pairs => List.Forall₂ (Coded order' values') feature.properties
        pairs) (emitted libm z x y extent features) tags ∧
      messages.mapM readTags = some (tags.map flatTags) := by
  induction features generalizing order m values with
  | nil =>
    exact ⟨order, m, values, [], [], rfl, h,
      ⟨rfl, prefix_rfl, prefix_rfl, fun v => Or.inl⟩, .nil, rfl⟩
  | cons feature rest ih =>
    cases hgeometry : encodeFeatureGeometry libm feature z x y extent with
    | none =>
      have hemitted : emitted libm z x y extent (feature :: rest) =
          emitted libm z x y extent rest := by
        rw [emitted, filter_cons, hgeometry]
        rfl
      rw [hemitted, encodeFeatures, hgeometry]
      exact ih values h
    | some geometry =>
      have hemitted : emitted libm z x y extent (feature :: rest) =
          feature :: emitted libm z x y extent rest := by
        rw [emitted, filter_cons, hgeometry]
        rfl
      obtain ⟨order₁, m₁, values₁, pairs, htags, hnumbered, hfilled, hpairs⟩ :=
        encodeTags_coded values feature.properties h
      obtain ⟨order', m', values', messages, tags, hencode, hnumbered', hfilled', hcoded, hread⟩ :=
        ih values₁ hnumbered
      have hmessage := readTags_featureMessage feature.id (flatTags pairs) geometry
      refine ⟨order', m', values',
        featureMessage feature.id (Varint.pack (flatTags pairs)) geometry :: messages,
        pairs :: tags, ?_, hnumbered', ?_, ?_, ?_⟩
      · rw [encodeFeatures, hgeometry]
        dsimp only
        rw [htags]
        dsimp only
        rw [hencode]
      · rw [hemitted, allProperties, flatMap_cons]
        exact hfilled.trans hfilled'
      · rw [hemitted]
        exact .cons (hpairs.imp fun _ _ hc => hc.mono hfilled'.keys hfilled'.table) hcoded
      · rw [mapM_cons, hmessage, hread]
        rfl

def layerFields (layerName : String) (extent : Nat) (messages : List Bytes) (keys : List String)
    (values : List TileValue) : List Wire.Field :=
  ⟨15, .varint 2⟩ :: ⟨1, .bytes (Bytes.ofText layerName)⟩ ::
    (messages.map (fun message => ⟨2, .bytes message⟩) ++
      (keys.map (fun key => ⟨3, .bytes (Bytes.ofText key)⟩) ++
        (values.map (fun value => ⟨4, .bytes (encodeValue value)⟩) ++ [⟨5, .varint extent⟩])))

theorem filterMap_bytesOf {α : Type} (number number' : Nat) (f : α → Bytes) (l : List α) :
    (l.map fun a => (⟨number, .bytes (f a)⟩ : Wire.Field)).filterMap (bytesOf number') =
      if number = number' then l.map f else [] := by
  rw [filterMap_map]
  by_cases h : number = number'
  · rw [if_pos h, ← filterMap_eq_map]
    refine filterMap_congr fun a _ => ?_
    show (if number = number' then some (f a) else none) = some (f a)
    rw [if_pos h]
  · rw [if_neg h, filterMap_eq_nil_iff]
    intro a _
    show (if number = number' then some (f a) else none) = none
    rw [if_neg h]

theorem filterMap_layerFields (layerName : String) (extent : Nat) (messages : List Bytes)
    (keys : List String) (values : List TileValue) :
    (layerFields layerName extent messages keys values).filterMap (bytesOf 2) = messages ∧
    (layerFields layerName extent messages keys values).filterMap (bytesOf 3) =
      keys.map Bytes.ofText ∧
    (layerFields layerName extent messages keys values).filterMap (bytesOf 4) =
      values.map encodeValue := by
  have hhead : ∀ number, number ≠ 1 → ∀ rest : List Wire.Field,
      (⟨15, .varint 2⟩ :: ⟨1, .bytes (Bytes.ofText layerName)⟩ :: rest).filterMap
        (bytesOf number) = rest.filterMap (bytesOf number) := by
    intro number hnumber rest
    have hname : bytesOf number ⟨1, .bytes (Bytes.ofText layerName)⟩ = none := if_neg hnumber.symm
    rw [filterMap_cons_none rfl, filterMap_cons_none hname]
  have hlast : ∀ number, [(⟨5, .varint extent⟩ : Wire.Field)].filterMap (bytesOf number) = [] :=
    fun number => rfl
  refine ⟨?_, ?_, ?_⟩
  · rw [layerFields, hhead 2 (by decide)]
    simp only [filterMap_append, filterMap_bytesOf, hlast]
    simp
  · rw [layerFields, hhead 3 (by decide)]
    simp only [filterMap_append, filterMap_bytesOf, hlast]
    simp
  · rw [layerFields, hhead 4 (by decide)]
    simp only [filterMap_append, filterMap_bytesOf, hlast]
    simp

end GeneGIS.Mvt
