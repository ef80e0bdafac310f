/-
The attributes that a reader finds in a vector tile.

It finds the property map of every feature when the keys first appear in the order of their texts
and no two values are the zeros of the two signs.
-/
import GeneGIS.Tile.MvtTables

namespace GeneGIS.Mvt

open Intern Wire Option
open List hiding getElem?_eq_some_iff isEmpty_iff

variable {libm : Libm} {order : List String} {keys : List String} {values : List TileValue}
  {m : Std.ExtTreeMap String Nat}

theorem f64_eq_symm {a b : F64} (h : F64.eq a b = true) : F64.eq b a = true := by
  simp only [F64.eq, Bool.and_eq_true, beq_iff_eq] at h ⊢
  exact ⟨⟨h.1.2, h.1.1⟩, h.2.symm⟩

theorem f64_eq_trans {a b c : F64} (hab : F64.eq a b = true) (hbc : F64.eq b c = true) :
    F64.eq a c = true := by
  simp only [F64.eq, Bool.and_eq_true, beq_iff_eq] at hab hbc ⊢
  exact ⟨⟨hab.1.1, hbc.1.2⟩, hab.2.trans hbc.2⟩

theorem eq_symm {u v : TileValue} (h : u.eq v = true) : v.eq u = true := by
  cases u <;> cases v <;> try cases h
  · exact beq_iff_eq.mpr (beq_iff_eq.mp h).symm
  · exact beq_iff_eq.mpr (beq_iff_eq.mp h).symm
  · exact f64_eq_symm h

theorem eq_trans {u v w : TileValue} (huv : u.eq v = true) (hvw : v.eq w = true) :
    u.eq w = true := by
  cases u <;> cases v <;> try cases huv
  all_goals cases w <;> try cases hvw
  · exact beq_iff_eq.mpr ((beq_iff_eq.mp huv).trans (beq_iff_eq.mp hvw))
  · exact beq_iff_eq.mpr ((beq_iff_eq.mp huv).trans (beq_iff_eq.mp hvw))
  · exact f64_eq_trans huv hvw

theorem eq_congr {u v : TileValue} (h : u.eq v = true) (w : TileValue) : w.eq u = w.eq v := by
  rw [Bool.eq_iff_iff]
  exact ⟨fun hw => eq_trans hw h, fun hw => eq_trans hw (eq_symm h)⟩

def Exact (keys : List String) (values : List TileValue) (p : String × TileValue)
    (tag : Nat × Nat) : Prop :=
  keys[tag.1]? = some p.1 ∧ values[tag.2]? = some p.2

theorem lookupTags_flatTags {properties : List (String × TileValue)} {tags : List (Nat × Nat)} :
    lookupTags keys values (flatTags tags) = some properties ↔
      Forall₂ (Exact keys values) properties tags := by
  induction tags generalizing properties with
  | nil =>
    rw [forall₂_nil_right_iff]
    constructor
    · intro h
      exact (Option.some.inj h).symm
    · intro h
      rw [h]
      rfl
  | cons tag rest ih =>
    rw [forall₂_cons_right_iff]
    constructor
    · intro h
      obtain ⟨key, hkey, h⟩ := bind_eq_some_iff.mp h
      obtain ⟨value, hvalue, h⟩ := bind_eq_some_iff.mp h
      obtain ⟨more, hmore, h⟩ := bind_eq_some_iff.mp h
      exact ⟨(key, value), more, ⟨hkey, hvalue⟩, ih.mp hmore, (Option.some.inj h).symm⟩
    · intro h
      obtain ⟨p, more, hp, hmore, rfl⟩ := h
      refine bind_eq_some_iff.mpr ⟨p.1, hp.1, ?_⟩
      refine bind_eq_some_iff.mpr ⟨p.2, hp.2, ?_⟩
      exact bind_eq_some_iff.mpr ⟨more, ih.mpr hmore, rfl⟩

theorem readLayer_layerFields {layerName : String} {extent : Nat} {messages : List Bytes}
    {tags : List (List Nat)} (h : messages.mapM readTags = some tags) :
    readLayer (writeAll (layerFields layerName extent messages keys values)) =
      tags.mapM (lookupTags keys values) := by
  obtain ⟨hmessages, hkeys, hvalues⟩ := filterMap_layerFields layerName extent messages keys values
  rw [readLayer, readAll_writeAll]
  show (((layerFields layerName extent messages keys values).filterMap (bytesOf 3)).mapM
    Bytes.toText?).bind _ = _
  rw [hkeys, Aligned.mapM_map Bytes.toText?_ofText]
  show (((layerFields layerName extent messages keys values).filterMap (bytesOf 4)).mapM
    readValue).bind _ = _
  rw [hvalues, Aligned.mapM_map readValue_encodeValue]
  show (((layerFields layerName extent messages keys values).filterMap (bytesOf 2)).mapM
    readTags).bind _ = _
  rw [hmessages, h]
  rfl

theorem readProperties_layer (layer : Bytes) :
    readProperties (pushLenField 3 layer) = readLayer layer := by
  have hrecord : pushLenField 3 layer = writeAll [⟨3, .bytes layer⟩] := by
    rw [pushLenField_eq, writeAll_cons, writeAll_nil, append_nil]
  rw [readProperties, hrecord, readAll_writeAll]
  show ([layer].mapM readLayer).bind _ = _
  rw [mapM_cons, mapM_nil]
  cases hread : readLayer layer with
  | none => rfl
  | some properties =>
    show some ([properties].flatten) = _
    rw [flatten_singleton]

theorem layer_eq (layerName : String) (extent : Nat) (messages : List Bytes) :
    pushTag 15 0 ++ pushVarint 2 ++ pushLenField 1 (Bytes.ofText layerName) ++
      messages.flatMap (pushLenField 2) ++
      keys.flatMap (fun key => pushLenField 3 (Bytes.ofText key)) ++
      values.flatMap (fun value => pushLenField 4 (encodeValue value)) ++
      pushTag 5 0 ++ pushVarint extent =
    writeAll (layerFields layerName extent messages keys values) := by
  have hmessages : messages.flatMap (pushLenField 2) =
      writeAll (messages.map fun message => ⟨2, .bytes message⟩) :=
    flatMap_pushLenField 2 (fun message => message) messages
  rw [hmessages, flatMap_pushLenField, flatMap_pushLenField, layerFields]
  simp only [writeAll_cons, writeAll_append, writeAll_nil, ← pushVarintField_eq,
    ← pushLenField_eq, append_assoc, append_nil]

/-! ## Reading back -/

/-- A reader of the tile finds the properties of every feature that the tile shows. -/
def ReadsBack (libm : Libm) (layerName : String) (z x y extent : Nat)
    (features : List TilePolygonFeature) : Prop :=
  readProperties (encodePolygonTile libm layerName z x y extent features) =
    some ((emitted libm z x y extent features).map TilePolygonFeature.properties)

section Exactness

variable {features : List TilePolygonFeature} {tags : List (List (Nat × Nat))}

theorem keys_eq_of_exact (hnumbered : Numbered order m)
    (hfilled : Filled (allProperties features) [] order [] values)
    (hpair : ∀ p ∈ allProperties features, ∃ tag, Coded order values p tag ∧
      Exact m.keys values p tag) : m.keys = order := by
  have hlength := length_keys hnumbered
  refine ext_getElem? ?_
  intro i
  cases hi : order[i]? with
  | none =>
    rw [getElem?_eq_none_iff] at hi ⊢
    omega
  | some k =>
    have hmem : k ∈ (allProperties features).map Prod.fst := by
      have hkey : k ∈ order := mem_of_getElem? hi
      rw [hfilled.entered, mem_foldl_enter] at hkey
      exact hkey.resolve_left not_mem_nil
    obtain ⟨p, hp, rfl⟩ := mem_map.mp hmem
    obtain ⟨tag, hcoded, hexact⟩ := hpair p hp
    have hbound := (getElem?_eq_some_iff.mp hcoded.key).1
    have hsame : tag.1 = i := (getElem?_inj hbound hnumbered.nodup).mp (hcoded.key.trans hi.symm)
    rw [← hsame]
    exact hexact.1

theorem values_eq_of_exact (hpair : ∀ p ∈ allProperties features, ∃ tag, Coded order values p tag ∧
      Exact keys values p tag) :
    ∀ u ∈ (allProperties features).map Prod.snd,
      ∀ v ∈ (allProperties features).map Prod.snd, u.eq v = true → u = v := by
  intro u hu v hv heq
  obtain ⟨p, hp, rfl⟩ := mem_map.mp hu
  obtain ⟨q, hq, rfl⟩ := mem_map.mp hv
  obtain ⟨tag, hcoded, hexact⟩ := hpair p hp
  obtain ⟨tag', hcoded', hexact'⟩ := hpair q hq
  have hfirst := hcoded.first (eq_trans heq (eq_symm heq))
  have hfirst' := hcoded'.first (eq_trans (eq_symm heq) heq)
  have hsame : (fun w : TileValue => w.eq p.2) = fun w => w.eq q.2 :=
    funext fun w => eq_congr heq w
  rw [hsame, hfirst', Option.some.injEq] at hfirst
  have hvalue := hexact.2
  rw [← hfirst, hexact'.2, Option.some.injEq] at hvalue
  exact hvalue.symm

theorem exact_iff (hnumbered : Numbered order m)
    (hfilled : Filled (allProperties features) [] order [] values)
    (hcoded : Forall₂ (fun feature pairs =>
      Forall₂ (Coded order values) feature.properties pairs) features tags) :
    Forall₂ (fun feature pairs =>
        Forall₂ (Exact m.keys values) feature.properties pairs) features tags ↔
      m.keys = order ∧ ∀ u ∈ (allProperties features).map Prod.snd,
        ∀ v ∈ (allProperties features).map Prod.snd, u.eq v = true → u = v := by
  constructor
  · intro hexact
    have hpair : ∀ p ∈ allProperties features, ∃ tag, Coded order values p tag ∧
        Exact m.keys values p tag := by
      intro p hp
      obtain ⟨feature, hfeature, hp⟩ := mem_flatMap.mp hp
      obtain ⟨pairs, hc, he⟩ := Aligned.exists_of_mem hcoded hexact hfeature
      exact Aligned.exists_of_mem hc he hp
    exact ⟨keys_eq_of_exact hnumbered hfilled hpair, values_eq_of_exact hpair⟩
  · intro h
    obtain ⟨hkeys, hvalues⟩ := h
    refine Aligned.imp_mem hcoded fun feature hfeature pairs hpairs => ?_
    refine Aligned.imp_mem hpairs fun p hp tag hc => ?_
    have hmem : p ∈ allProperties features := mem_flatMap.mpr ⟨feature, hfeature, hp⟩
    obtain ⟨v, hv, hsame⟩ := hc.value
    refine ⟨by rw [hkeys]; exact hc.key, ?_⟩
    rcases hsame with rfl | hsame
    · exact hv
    · have hoccurs := (hfilled.mem v (mem_of_getElem? hv)).resolve_left not_mem_nil
      rw [← hvalues v hoccurs p.2 (mem_map_of_mem hmem) hsame]
      exact hv

end Exactness

/-- The condition on the features of a tile. -/
structure Ordinary (features : List TilePolygonFeature) : Prop where
  keys : (firstSeen ((allProperties features).map Prod.fst)).Pairwise fun a b =>
    compare a b = .lt
  values : ∀ u ∈ (allProperties features).map Prod.snd,
    ∀ v ∈ (allProperties features).map Prod.snd, u.eq v = true → u = v

theorem reads_back_iff (libm : Libm) (layerName : String) (z x y extent : Nat)
    (features : List TilePolygonFeature) :
    ReadsBack libm layerName z x y extent features ↔
      Ordinary (emitted libm z x y extent features) := by
  obtain ⟨order, m, values, messages, tags, hencode, hnumbered, hfilled, hcoded, hread⟩ :=
    encodeFeatures_coded libm z x y extent [] features numbered_empty
  have hordinary : Ordinary (emitted libm z x y extent features) ↔ m.keys = order ∧
      ∀ u ∈ (allProperties (emitted libm z x y extent features)).map Prod.snd,
        ∀ v ∈ (allProperties (emitted libm z x y extent features)).map Prod.snd,
          u.eq v = true → u = v := by
    rw [keys_eq_iff hnumbered, hfilled.entered]
    exact ⟨fun h => ⟨h.keys, h.values⟩, fun h => ⟨h.1, h.2⟩⟩
  rw [hordinary, ← exact_iff hnumbered hfilled hcoded, ReadsBack, encodePolygonTile, hencode]
  dsimp only
  by_cases hempty : messages = []
  · -- No feature is shown, and the tile has no bytes.
    rw [hempty] at hread
    have htags : tags = [] := map_eq_nil_iff.mp (Option.some.inj hread).symm
    rw [htags, forall₂_nil_right_iff] at hcoded ⊢
    rw [hempty, hcoded]
    exact iff_of_true rfl rfl
  · rw [if_neg (by rwa [List.isEmpty_iff]), layer_eq, readProperties_layer,
      readLayer_layerFields hread, Aligned.mapM_eq_some, forall₂_map_left_iff,
      forall₂_map_right_iff]
    simp only [lookupTags_flatTags]
    exact ⟨Forall₂.flip, Forall₂.flip⟩

namespace Sample

/-- The library at the angles of zero and of forty-five degrees. -/
def functions : Libm where
  tan radians := if radians = .zero then .zero else ⟨0x3fefffffffffffff#64⟩
  cos radians := if radians = .zero then .ofNat 1 else ⟨0x3fe6a09e667f3bcd#64⟩
  ln argument := if argument = .ofNat 1 then .zero else ⟨0x3fec34366179d426#64⟩

def part : TilePolygonPart where
  exterior := [(.zero, .zero), (.ofNat 90, .zero), (.ofNat 90, .ofNat 45)]
  holes := []

def feature (id : UInt64) (key : String) : TilePolygonFeature :=
  { id := id, parts := [part], properties := [(key, .u64 id)] }

end Sample

theorem later_key_first :
    ¬ ReadsBack Sample.functions "layer" 0 0 0 4096 [Sample.feature 1 "b", Sample.feature 2 "a"] := by
  unfold ReadsBack
  decide +kernel

end GeneGIS.Mvt
