/-
A text with a zero in it ends early and a missing unit is an empty one.  Apart from this the stream
is read back from the left.
-/
import GeneGIS.Toolkit.Layer
import GeneGIS.Runtime
import GeneGIS.Toolkit.WkbRoundTrip

namespace GeneGIS.Toolkit

open List Option Bytes Feature

open Bytes (mem_ofText ofText ofText_inj terminated_inj)
open Wkb.Sample (corners)

def Field.shown (field : Field) : Field := { field with unit := some (field.unit.getD "") }

/-- The bytes of the identifier do not begin as those of a field do. -/
def Feature.Apart (feature : Feature) : Prop := ∀ (name : String) (fieldType : FieldType),
    ¬ (ofText name ++ 0 :: (ofText fieldType.debug ++ [0])) <+: feature.idBytes

def Feature.normalise (outlines : Outlines) (feature : Feature) : Feature :=
  { feature with geometry := feature.geometry.map (Geometry.normalise outlines) }

namespace Layer

variable (outlines : Outlines)

/-- Every text ends at its zero byte, every identifier is apart from a field and every count
fits. -/
structure Plain (layer : Layer) : Prop where
  crs : Char.ofNat 0 ∉ layer.crs.toList
  names : ∀ field ∈ layer.fields, Char.ofNat 0 ∉ field.name.toList
  units : ∀ field ∈ layer.fields, Char.ofNat 0 ∉ (field.unit.getD "").toList
  ids : ∀ feature ∈ layer.features, feature.Apart
  counts : ∀ feature ∈ layer.features, ∀ g, feature.geometry = some g → Wkb.Counted outlines g

/-- The content of two layers is the same, geometries up to their normal form. -/
def SameContent (a b : Layer) : Prop := a.crs = b.crs ∧ a.fields = b.fields ∧
    a.features.map (normalise outlines) = b.features.map (normalise outlines)

/-- All that sets the layers apart is a unit missing in one and empty in the other. -/
def OnlyEmptyUnits (a b : Layer) : Prop :=
  a.crs = b.crs ∧ a.fields ≠ b.fields ∧ a.fields.map Field.shown = b.fields.map Field.shown ∧
    a.features.map (normalise outlines) = b.features.map (normalise outlines)

end Layer

theorem zero_not_mem_ofText {text : String} (h : Char.ofNat 0 ∉ text.toList) :
    0 ∉ ofText text := fun hmem => h ((mem_ofText hmem).2 rfl)

namespace FieldType

theorem bytes_debug (t : FieldType) : (∃ c rest, ofText t.debug = c :: rest) ∧ 0 ∉ ofText t.debug ∧
      1 ∉ ofText t.debug ∧ 255 ∉ ofText t.debug := by
  cases t <;> exact ⟨⟨_, _, rfl⟩, by decide +kernel, by decide +kernel, by decide +kernel⟩

theorem debug_inj {t u : FieldType} (h : t.debug = u.debug) : t = u := by
  cases t <;> cases u <;> first | rfl | exact absurd h (by decide)

end FieldType

theorem Field.bytes_inj {f g : Field} {s t : Bytes} (hf : Char.ofNat 0 ∉ f.name.toList)
    (hg : Char.ofNat 0 ∉ g.name.toList) (hfunit : Char.ofNat 0 ∉ (f.unit.getD "").toList)
    (hgunit : Char.ofNat 0 ∉ (g.unit.getD "").toList) (h : f.bytes ++ s = g.bytes ++ t) :
    f.shown = g.shown ∧ s = t := by
  rw [bytes, bytes] at h
  simp only [append_assoc, cons_append, nil_append] at h
  obtain ⟨hname, h⟩ := terminated_inj (zero_not_mem_ofText hf) (zero_not_mem_ofText hg) h
  obtain ⟨htype, h⟩ := terminated_inj f.fieldType.bytes_debug.2.1 g.fieldType.bytes_debug.2.1 h
  obtain ⟨hunit, h⟩ := terminated_inj (zero_not_mem_ofText hfunit) (zero_not_mem_ofText hgunit) h
  rw [shown, shown, ofText_inj hname, FieldType.debug_inj (ofText_inj htype), ofText_inj hunit]
  exact ⟨rfl, h⟩

/-! ## Features -/

section

variable {floatText : F64 → String} {outlines : Outlines}

namespace Wkb

theorem writeGeometry_lead (g : Geometry) : ∃ kind rest, kind ≠ 0 ∧
    writeGeometry outlines g = 1 :: kind :: 0 :: 0 :: 0 :: rest := by
  cases g <;> rw [writeGeometry] <;> exact ⟨_, _, by decide, rfl⟩

mutual
theorem writeGeometry_normalise : ∀ g : Geometry,
    writeGeometry outlines (g.normalise outlines) = writeGeometry outlines g
  | .point _ | .lineString _ | .polygon _ | .multiPoint _ | .multiLineString _
  | .multiPolygon _ => rfl
  | .line start stop => by
    simp [Geometry.normalise, writeGeometry, ring]
  | .rect _ | .triangle _ => by rw [Geometry.normalise, writeGeometry, writeGeometry]
  | .collection parts => by
    rw [Geometry.normalise, writeGeometry, writeGeometry, writeParts_normalise parts,
      length_normaliseAll parts]

theorem writeParts_normalise : ∀ parts : List Geometry,
    writeParts outlines (Geometry.normaliseAll outlines parts) = writeParts outlines parts
  | [] => rfl
  | part :: rest => by
    rw [Geometry.normaliseAll, writeParts, writeParts, writeGeometry_normalise part,
      writeParts_normalise rest]

theorem length_normaliseAll : ∀ parts : List Geometry,
    (Geometry.normaliseAll outlines parts).length = parts.length
  | [] => rfl
  | _ :: rest => by
    rw [Geometry.normaliseAll, length_cons, length_cons, length_normaliseAll rest]
end

end Wkb

namespace Feature

variable {x : Feature}

theorem geometryBytes_some {g : Geometry} (h : x.geometry = some g) :
    x.geometryBytes outlines = Wkb.writeGeometry outlines g := by
  rw [geometryBytes, h]

theorem geometryBytes_none (h : x.geometry = none) :
    x.geometryBytes outlines = 255 :: ofText "null" := by
  rw [geometryBytes, h]

theorem geometryBytes_inj {x y : Feature} {s t : Bytes}
    (hx : ∀ g, x.geometry = some g → Wkb.Counted outlines g)
    (hy : ∀ g, y.geometry = some g → Wkb.Counted outlines g)
    (h : x.geometryBytes outlines ++ s = y.geometryBytes outlines ++ t) :
    x.geometry.map (Geometry.normalise outlines) =
      y.geometry.map (Geometry.normalise outlines) ∧ s = t := by
  cases hgx : x.geometry with
  | none =>
    rw [geometryBytes_none hgx] at h
    cases hgy : y.geometry with
    | none =>
      rw [geometryBytes_none hgy] at h
      exact ⟨rfl, append_cancel_left h⟩
    | some g =>
      obtain ⟨kind, rest, -, hlead⟩ := @Wkb.writeGeometry_lead outlines g
      rw [geometryBytes_some hgy, hlead] at h
      exact absurd (cons.inj h).1 (by decide)
  | some g =>
    rw [geometryBytes_some hgx] at h
    cases hgy : y.geometry with
    | none =>
      obtain ⟨kind, rest, -, hlead⟩ := @Wkb.writeGeometry_lead outlines g
      rw [geometryBytes_none hgy, hlead] at h
      exact absurd (cons.inj h).1 (by decide)
    | some g' =>
      rw [geometryBytes_some hgy] at h
      obtain ⟨hnormal, hst⟩ := Wkb.writeGeometry_prefixFree (hx g hgx) (hy g' hgy) h
      rw [map_some, map_some, hnormal]
      exact ⟨rfl, hst⟩

theorem attributes_inj {x y : Feature} (h : x.attributes = y.attributes) :
    x.properties = y.properties := by
  refine Std.ExtTreeMap.ext_getElem? fun {key} => ?_
  have hget : ∀ z : Feature, z.attributes.json.get? key = z.properties[key]?.map Value.json :=
    fun z => Value.get?_ofMap _ _ _
  have hvalues : x.properties[key]?.map Value.json = y.properties[key]?.map Value.json := by
    rw [← hget, ← hget, h]
  exact map_injective (fun _ _ hab => Value.ext hab) hvalues

theorem bytes_inj (hfloat : Json.FloatText floatText) {x y : Feature} {s t : Bytes}
    (hx : ∀ g, x.geometry = some g → Wkb.Counted outlines g)
    (hy : ∀ g, y.geometry = some g → Wkb.Counted outlines g)
    (h : x.bytes floatText outlines ++ s = y.bytes floatText outlines ++ t) :
    x.normalise outlines = y.normalise outlines ∧ s = t := by
  rw [bytes, bytes] at h
  simp only [append_assoc] at h
  have hlength : x.idBytes.length = y.idBytes.length := by
    rw [idBytes, idBytes, length_ofNat, length_ofNat]
  obtain ⟨hid, h⟩ := append_inj h hlength
  obtain ⟨hgeometry, h⟩ := geometryBytes_inj hx hy h
  have hzero : ∀ z : Feature,
      0 ∉ ofText (String.ofList (z.attributes.canonicalJson floatText)) := by
    intro z
    refine zero_not_mem_ofText ?_
    rw [String.toList_ofList]
    exact Value.zero_not_mem_canonicalJson hfloat z.attributes
  obtain ⟨htext, h⟩ := terminated_inj (hzero x) (hzero y) h
  have hattributes := Value.canonicalJson_inj hfloat (String.ofList_injective (ofText_inj htext))
  have hnumber : x.id.toNat = y.id.toNat := by
    have hread := congrArg Bytes.toNat hid
    rw [idBytes, idBytes, toNat_ofNat_of_lt x.id.toNat_lt, toNat_ofNat_of_lt y.id.toNat_lt] at hread
    exact hread
  rw [normalise, normalise, hgeometry, attributes_inj hattributes, UInt64.toNat_inj.mp hnumber]
  exact ⟨rfl, h⟩

theorem bytes_normalise (x : Feature) :
    (x.normalise outlines).bytes floatText outlines = x.bytes floatText outlines := by
  have hgeometry : (x.normalise outlines).geometryBytes outlines = x.geometryBytes outlines := by
    rw [geometryBytes, geometryBytes, normalise]
    cases x.geometry with
    | none => rfl
    | some g => exact Wkb.writeGeometry_normalise g
  rw [bytes, bytes, hgeometry]
  rfl

theorem bytes_ne_nil (x : Feature) : x.bytes floatText outlines ≠ [] := by
  rw [bytes]
  exact append_ne_nil_of_right_ne_nil _
    (append_ne_nil_of_right_ne_nil _ (append_ne_nil_of_right_ne_nil _ (by simp)))

theorem apart_of_lt (h : x.id.toNat < 2 ^ 32) : x.Apart := by
  intro name t hstart
  obtain ⟨rest, hrest⟩ := hstart
  obtain ⟨-, hzero, -, -⟩ := t.bytes_debug
  have hletters : ∃ c d e f letters, ofText t.debug = c :: d :: e :: f :: letters := by
    cases t <;> exact ⟨_, _, _, _, _, rfl⟩
  obtain ⟨c, d, e, f, letters, ht⟩ := hletters
  rw [ht] at hrest hzero
  have hhigh : Bytes.ofNat 4 (x.id.toNat / 256 / 256 / 256 / 256) = [0, 0, 0, 0] := by
    have hnone : x.id.toNat / 256 / 256 / 256 / 256 = 0 := by omega
    rw [hnone]
    rfl
  have hid : x.idBytes = UInt8.ofNat (x.id.toNat % 256) :: UInt8.ofNat (x.id.toNat / 256 % 256) ::
      UInt8.ofNat (x.id.toNat / 256 / 256 % 256) ::
        UInt8.ofNat (x.id.toNat / 256 / 256 / 256 % 256) :: [0, 0, 0, 0] := by
    rw [← hhigh]
    rfl
  rw [hid] at hrest
  simp only [mem_cons, not_or] at hzero
  match hname : ofText name with
  | [] | [_] | [_, _] =>
    rw [hname] at hrest
    simp only [append_assoc, cons_append, nil_append, cons.injEq] at hrest
    grind
  | _ :: _ :: _ :: others =>
    rw [hname] at hrest
    have hlength := congrArg List.length hrest
    simp only [length_append, length_cons, length_nil] at hlength
    omega

theorem after_id (x : Feature) (t : Bytes) : ∃ first rest,
    x.bytes floatText outlines ++ t = x.idBytes ++ first :: rest ∧
      (first = 255 ∨ first = 1 ∧ ∃ kind rest', kind ≠ 0 ∧ rest = kind :: 0 :: 0 :: rest') := by
  cases hg : x.geometry with
  | none =>
    rw [bytes, geometryBytes_none hg, append_assoc]
    exact ⟨_, _, rfl, .inl rfl⟩
  | some g =>
    obtain ⟨kind, rest, hkind, hlead⟩ := @Wkb.writeGeometry_lead outlines g
    rw [bytes, geometryBytes_some hg, hlead, append_assoc]
    exact ⟨_, _, rfl, .inr ⟨rfl, kind, _, hkind, rfl⟩⟩

theorem not_mem_type {first b : UInt8} {t : FieldType} (hfirst : first = 255 ∨ first = 1)
    (hb : b ∈ ofText t.debug ++ [0]) : first ≠ b := by
  obtain ⟨-, -, hone, hhigh⟩ := t.bytes_debug
  intro hsame
  rw [← hsame, mem_append, mem_singleton] at hb
  rcases hfirst with rfl | rfl
  · rcases hb with hb | hb
    · exact hhigh hb
    · exact absurd hb (by decide)
  · rcases hb with hb | hb
    · exact hone hb
    · exact absurd hb (by decide)

theorem apart_short {name : String} {t : FieldType} {after rest s : Bytes}
    {first : UInt8} (hx : x.Apart) (hid : x.idBytes = ofText name ++ 0 :: after)
    (hfirst : first = 255 ∨ first = 1) :
    ofText t.debug ++ 0 :: s ≠ after ++ first :: rest := by
  intro h
  have hended : (ofText t.debug ++ [0]) ++ s = after ++ first :: rest := by
    rw [append_assoc]
    exact h
  rcases append_eq_append_iff.mp hended with ⟨more, hafter, -⟩ | ⟨more, hafter, hmore⟩
  · refine hx name t ⟨more, ?_⟩
    rw [hid, hafter, append_assoc, cons_append]
  · cases more with
    | nil =>
      refine hx name t ⟨[], ?_⟩
      rw [hid, hafter, append_nil, append_nil]
    | cons e others =>
      refine not_mem_type (t := t) hfirst ?_ (cons.inj hmore).1
      rw [hafter]
      exact mem_append_right _ mem_cons_self

/-- A name that goes on behind the identifier ends before two zero bytes, where no type is. -/
theorem apart_long {inner rest s : Bytes} {t : FieldType} {kind : UInt8} (hinner : 0 ∉ inner)
    (hkind : kind ≠ 0) :
    inner ++ 0 :: (ofText t.debug ++ 0 :: s) ≠ kind :: 0 :: 0 :: rest := by
  obtain ⟨⟨c, letters, htype⟩, hzero, -, -⟩ := t.bytes_debug
  intro h
  cases inner with
  | nil => exact hkind (cons.inj h).1.symm
  | cons e others =>
    obtain ⟨-, hothers⟩ := cons.inj h
    cases others with
    | nil =>
      rw [htype] at hothers hzero
      have hc : c = 0 := (cons.inj (cons.inj hothers).2).1
      exact hzero (mem_cons.mpr (.inl hc.symm))
    | cons z more =>
      have hz : z = 0 := (cons.inj hothers).1
      exact hinner (mem_cons_of_mem _ (mem_cons.mpr (.inl hz.symm)))

theorem bytes_ne_field {f : Field} {s t : Bytes} (hx : x.Apart)
    (hname : Char.ofNat 0 ∉ f.name.toList) :
    f.bytes ++ s ≠ x.bytes floatText outlines ++ t := by
  intro h
  obtain ⟨first, rest, hbytes, hfirst⟩ := @after_id floatText outlines x t
  have hvalue : first = 255 ∨ first = 1 := hfirst.imp_right And.left
  have hnonzero : first ≠ 0 := by rcases hvalue with rfl | rfl <;> decide
  have hzero := zero_not_mem_ofText hname
  rw [hbytes, Field.bytes, append_assoc] at h
  simp only [cons_append, append_assoc] at h
  rcases append_eq_append_iff.mp h with ⟨inner, hid, htail⟩ | ⟨inner, hlong, htail⟩
  · cases inner with
    | nil => exact hnonzero (cons.inj htail).1.symm
    | cons d after =>
      obtain ⟨rfl, hafter⟩ := cons.inj htail
      exact apart_short hx hid hvalue hafter
  · have hinner : ∀ b ∈ inner, b ∈ ofText f.name := by
      intro b hb
      rw [hlong]
      exact mem_append_right _ hb
    cases inner with
    | nil => exact hnonzero (cons.inj htail).1
    | cons d after =>
      obtain ⟨hd, hafter⟩ := cons.inj htail
      rcases hfirst with hfirst | ⟨-, kind, rest', hkind, hrest⟩
      · have hlow := (mem_ofText (hinner d mem_cons_self)).1
        rw [← hd, hfirst] at hlow
        exact absurd hlow (by decide)
      · rw [hrest] at hafter
        refine apart_long (fun hmem => ?_) hkind hafter.symm
        exact hzero (hinner 0 (mem_cons_of_mem _ hmem))

theorem flatMap_bytes_inj (hfloat : Json.FloatText floatText) {l m : List Feature}
    (hl : ∀ x ∈ l, ∀ g, x.geometry = some g → Wkb.Counted outlines g)
    (hm : ∀ x ∈ m, ∀ g, x.geometry = some g → Wkb.Counted outlines g)
    (h : l.flatMap (bytes floatText outlines) = m.flatMap (bytes floatText outlines)) :
    l.map (normalise outlines) = m.map (normalise outlines) := by
  induction l generalizing m with
  | nil =>
    cases m with
    | nil => rfl
    | cons y m =>
      rw [flatMap_nil, flatMap_cons] at h
      exact absurd (append_eq_nil_iff.mp h.symm).1 (bytes_ne_nil y)
  | cons x l ih =>
    cases m with
    | nil =>
      rw [flatMap_nil, flatMap_cons] at h
      exact absurd (append_eq_nil_iff.mp h).1 (bytes_ne_nil x)
    | cons y m =>
      rw [flatMap_cons, flatMap_cons] at h
      obtain ⟨hfirst, hrest⟩ := bytes_inj hfloat (hl x mem_cons_self) (hm y mem_cons_self) h
      have hothers := ih (fun z hz => hl z (mem_cons_of_mem _ hz))
        (fun z hz => hm z (mem_cons_of_mem _ hz)) hrest
      rw [map_cons, map_cons, hfirst, hothers]

theorem flatMap_bytes_ne_field {f : Field} {l : List Feature} {s : Bytes}
    (hname : Char.ofNat 0 ∉ f.name.toList) (hl : ∀ x ∈ l, x.Apart) :
    f.bytes ++ s ≠ l.flatMap (bytes floatText outlines) := by
  intro h
  cases l with
  | nil =>
    have hnil := (append_eq_nil_iff.mp h).1
    rw [Field.bytes, append_eq_nil_iff] at hnil
    exact cons_ne_nil _ _ hnil.2
  | cons x l => exact bytes_ne_field (hl x mem_cons_self) hname h

end Feature
end

namespace Layer

variable {floatText : F64 → String} {outlines : Outlines} {a b : Layer}

theorem body_inj (hfloat : Json.FloatText floatText) {fs gs : List Field} {xs ys : List Feature}
    (hfs : ∀ f ∈ fs, Char.ofNat 0 ∉ f.name.toList ∧ Char.ofNat 0 ∉ (f.unit.getD "").toList)
    (hgs : ∀ g ∈ gs, Char.ofNat 0 ∉ g.name.toList ∧ Char.ofNat 0 ∉ (g.unit.getD "").toList)
    (hxs : ∀ x ∈ xs, x.Apart ∧ ∀ g, x.geometry = some g → Wkb.Counted outlines g)
    (hys : ∀ y ∈ ys, y.Apart ∧ ∀ g, y.geometry = some g → Wkb.Counted outlines g)
    (h : fs.flatMap Field.bytes ++ xs.flatMap (bytes floatText outlines) =
      gs.flatMap Field.bytes ++ ys.flatMap (bytes floatText outlines)) :
    fs.map Field.shown = gs.map Field.shown ∧
      xs.map (normalise outlines) = ys.map (normalise outlines) := by
  induction fs generalizing gs with
  | nil =>
    cases gs with
    | nil => exact ⟨rfl, flatMap_bytes_inj hfloat (fun x hx => (hxs x hx).2)
        (fun y hy => (hys y hy).2) h⟩
    | cons g gs =>
      rw [flatMap_nil, nil_append, flatMap_cons, append_assoc] at h
      exact absurd h.symm (flatMap_bytes_ne_field (hgs g mem_cons_self).1
        fun x hx => (hxs x hx).1)
  | cons f fs ih =>
    cases gs with
    | nil =>
      rw [flatMap_nil, nil_append, flatMap_cons, append_assoc] at h
      exact absurd h (flatMap_bytes_ne_field (hfs f mem_cons_self).1
        fun y hy => (hys y hy).1)
    | cons g gs =>
      rw [flatMap_cons, flatMap_cons, append_assoc, append_assoc] at h
      obtain ⟨hfname, hfunit⟩ := hfs f mem_cons_self
      obtain ⟨hgname, hgunit⟩ := hgs g mem_cons_self
      obtain ⟨hfirst, hrest⟩ := Field.bytes_inj hfname hgname hfunit hgunit h
      have hothers := ih (fun z hz => hfs z (mem_cons_of_mem _ hz))
        (fun z hz => hgs z (mem_cons_of_mem _ hz)) hrest
      rw [map_cons, map_cons, hfirst, hothers.1]
      exact ⟨rfl, hothers.2⟩

theorem preimage_eq_iff (hfloat : Json.FloatText floatText) (ha : a.Plain outlines)
    (hb : b.Plain outlines) : a.preimage floatText outlines = b.preimage floatText outlines ↔
      a.crs = b.crs ∧ a.fields.map Field.shown = b.fields.map Field.shown ∧
        a.features.map (normalise outlines) =
          b.features.map (normalise outlines) := by
  constructor
  · intro h
    rw [preimage, preimage] at h
    have htail := (cons.inj (append_cancel_left h)).2
    obtain ⟨hcrs, hbody⟩ := terminated_inj (zero_not_mem_ofText ha.crs)
      (zero_not_mem_ofText hb.crs) htail
    have hsame := body_inj hfloat (fun f hf => ⟨ha.names f hf, ha.units f hf⟩)
      (fun g hg => ⟨hb.names g hg, hb.units g hg⟩) (fun x hx => ⟨ha.ids x hx, ha.counts x hx⟩)
      (fun y hy => ⟨hb.ids y hy, hb.counts y hy⟩) hbody
    exact ⟨ofText_inj hcrs, hsame⟩
  · intro h
    obtain ⟨hcrs, hfields, hfeatures⟩ := h
    have hfieldBytes : ∀ l : List Field,
        l.flatMap Field.bytes = (l.map Field.shown).flatMap Field.bytes := by
      intro l
      rw [flatMap_map]
      rfl
    have hfeatureBytes : ∀ l : List Feature, l.flatMap (bytes floatText outlines) =
        (l.map (normalise outlines)).flatMap (bytes floatText outlines) := by
      intro l
      rw [flatMap_map]
      exact congrArg (l.flatMap ·) (funext fun x => (bytes_normalise x).symm)
    rw [preimage, preimage, hcrs, hfieldBytes, hfields, ← hfieldBytes, hfeatureBytes, hfeatures,
      ← hfeatureBytes]

/-- Equal streams mean equal content exactly when the layers do not differ in missing units
only. -/
theorem digest_identifies_iff (hfloat : Json.FloatText floatText) (ha : a.Plain outlines)
    (hb : b.Plain outlines) :
    (a.preimage floatText outlines = b.preimage floatText outlines → SameContent outlines a b) ↔
      ¬ OnlyEmptyUnits outlines a b := by
  rw [preimage_eq_iff hfloat ha hb, SameContent, OnlyEmptyUnits]
  constructor
  · intro h hunits
    exact hunits.2.1 (h ⟨hunits.1, hunits.2.2.1, hunits.2.2.2⟩).2.1
  · intro h hsame
    obtain ⟨hcrs, hfields, hfeatures⟩ := hsame
    have heq : a.fields = b.fields := by
      by_contra hne
      exact h ⟨hcrs, hne, hfields, hfeatures⟩
    exact ⟨hcrs, heq, hfeatures⟩

namespace Sample

def counted (unit : Option String) : Layer where
  name := "wards"
  crs := "EPSG:4326"
  crsStatus := .declared
  fields := [⟨"population", .integer, unit⟩]
  features := [⟨0, none, ∅⟩]

theorem plain_counted {unit : Option String} (h : Char.ofNat 0 ∉ (unit.getD "").toList) :
    (counted unit).Plain corners where
  crs := by
    show Char.ofNat 0 ∉ "EPSG:4326".toList
    decide
  names := by
    intro f hf
    rw [mem_singleton.mp hf]
    show Char.ofNat 0 ∉ "population".toList
    decide
  units := by
    intro f hf
    rw [mem_singleton.mp hf]
    exact h
  ids := by
    intro x hx
    rw [mem_singleton.mp hx]
    exact apart_of_lt (by decide)
  counts := by
    intro x hx g hg
    rw [mem_singleton.mp hx] at hg
    cases hg

theorem persons_told_apart :
    (counted (some "persons")).preimage Runtime.reference.floatText corners ≠
      (counted none).preimage Runtime.reference.floatText corners := by
  have hpersons : (counted (some "persons")).Plain corners := plain_counted (by decide)
  have hnone : (counted none).Plain corners := plain_counted (by decide)
  have hiff := digest_identifies_iff Runtime.floatText_reference hpersons hnone
  have hdiffer : ¬ OnlyEmptyUnits corners (counted (some "persons")) (counted none) :=
    fun h => absurd h.2.2.1 (by decide)
  intro h
  exact absurd (hiff.mpr hdiffer h).2.1 (by decide)

/-- The unit that nobody stated and the empty unit. -/
theorem empty_unit_unseen : ¬ ∀ a b : Layer, a.preimage Runtime.reference.floatText corners =
      b.preimage Runtime.reference.floatText corners → SameContent corners a b := by
  intro h
  exact absurd (h (counted none) (counted (some "")) rfl).2.1 (by decide)

end Sample

end Layer

end GeneGIS.Toolkit
