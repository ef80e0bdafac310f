/-
`hide` removes what the canonical state leaves out: what stands under a run-time name, and the
differences of numbers that are not finite.
-/
import GeneGIS.Core.Project
import GeneGIS.Data.Shown

namespace GeneGIS

open Value Option Function
open List hiding map_id' map_map
open Std.ExtTreeMap hiding map_map

abbrev Unwritten := { c : F64 // c.isFinite = false }

variable (c : Unwritten) {names : List String}

def F64.hide (x : F64) : F64 := if x.isFinite then x else c

theorem shows_ofF64 : Shows names ofF64 (F64.hide c) := by
  intro x y
  rw [strip_ofF64, strip_ofF64, ofF64_eq, F64.hide, F64.hide]
  have hc := c.2
  by_cases hx : x.isFinite = true
  · by_cases hy : y.isFinite = true
    · simp [hx, hy]
    · simp only [hx, hy, if_true]
      refine iff_of_false ?_ ?_
      · intro h
        rcases h with rfl | h
        · exact hy hx
        · cases h.1
      · intro h
        rw [h] at hx
        simp [hc] at hx
  · by_cases hy : y.isFinite = true
    · simp only [hx, hy, if_true]
      refine iff_of_false ?_ ?_
      · intro h
        rcases h with rfl | h
        · exact hx hy
        · cases h.2
      · intro h
        have h' : (c : F64) = y := by simpa using h
        rw [← h', hc] at hy
        cases hy
    · simp [hx, hy]

theorem F64.hide_hide (x : F64) : (x.hide c).hide c = x.hide c := by
  have hc := c.2
  by_cases hx : x.isFinite = true
  · simp [F64.hide, hx]
  · simp [F64.hide, hx]

def F32.hide (x : F32) : F32 :=
  if x.widen.isFinite then x else ⟨c, by rw [c.2]; rfl⟩

theorem F32.widen_hide (x : F32) : (x.hide c).widen = x.widen.hide c := by
  by_cases hx : x.widen.isFinite = true
  · simp [F32.hide, F64.hide, hx]
  · simp [F32.hide, F64.hide, hx]

def Bbox.hide (b : Bbox) : Bbox := ⟨b.minX.hide c, b.minY.hide c, b.maxX.hide c, b.maxY.hide c⟩

theorem Bbox.shows : Shows names Bbox.toJson (Bbox.hide c) := by
  intro a b
  refine ((shows_ofF64 c).list _ _).trans ?_
  simp [Bbox.hide]

def LayerStatistics.hide (s : LayerStatistics) : LayerStatistics :=
  { s with bbox := s.bbox.map (Bbox.hide c) }

theorem LayerStatistics.shows :
    Shows Project.runtimeFields LayerStatistics.toJson (LayerStatistics.hide c) := by
  refine shows_record [("feature_count", fun s => .ofOption .ofNat s.featureCount),
    ("bbox", fun s => .ofOption Bbox.toJson s.bbox)] (fun _ => congrArg object rfl) (by decide)
    (by decide) ?_
  intro a b
  have hcount := (shows_ofNat : Shows Project.runtimeFields _ _).option ofNat_ne_null
    a.featureCount b.featureCount
  have hbbox := (Bbox.shows c : Shows Project.runtimeFields _ _).option
    (fun _ => ofList_ne_null _) a.bbox b.bbox
  simp only [List.forall_mem_cons, hcount, hbbox, map_id']
  cases a
  cases b
  simp [LayerStatistics.hide]

theorem Uuid.toText_eq {a b : Uuid} : a.toText = b.toText ↔ a = b :=
  ⟨Uuid.toText_inj, congrArg Uuid.toText⟩

theorem LayerKind.asStr_eq {a b : LayerKind} : a.asStr = b.asStr ↔ a = b := by
  cases a <;> cases b <;> decide

def Layer.hide (l : Layer) : Layer :=
  { l with
    extent := l.extent.map (Bbox.hide c)
    statistics := l.statistics.hide c
    opacity := l.opacity.hide c }

theorem shows_opacity : Shows names (fun x : F32 => ofF64 x.widen) (F32.hide c) := by
  intro x y
  rw [shows_ofF64 c, ← F32.widen_hide, ← F32.widen_hide]
  constructor
  · intro h
    cases hx : x.hide c
    cases hy : y.hide c
    rw [hx, hy] at h
    cases h
    rfl
  · intro h
    rw [h]

theorem shows_uuid : Shows names (fun id : Uuid => str id.toText) fun id => id :=
  shows_spelled fun _ _ => Uuid.toText_inj

theorem shows_dateTime {rt : Runtime} (htime : Injective rt.rfc3339) :
    Shows names rt.dateTime fun t => t :=
  shows_spelled fun _ _ h => htime h

theorem Layer.shows {rt : Runtime} (htime : Injective rt.rfc3339) :
    Shows Project.runtimeFields (Layer.toJson rt) (Layer.hide c) := by
  refine shows_record [("id", fun l : Layer => .str l.id.toText),
    ("name", fun l => .str l.name), ("kind", fun l => .str l.kind.asStr),
    ("source_id", fun l => .str l.sourceId.toText), ("crs", fun l => .ofOption .str l.crs),
    ("extent", fun l => .ofOption Bbox.toJson l.extent),
    ("time_extent", fun l => .ofOption (fun t => .ofList rt.dateTime [t.1, t.2]) l.timeExtent),
    ("statistics", fun l => l.statistics.toJson),
    ("style_id", fun l => .ofOption (fun id => .str id.toText) l.styleId),
    ("visible", fun l => .bool l.visible),
    ("opacity", fun l => .ofF64 l.opacity.widen)] (fun _ => congrArg object rfl) (by simp)
    (by simp [Project.runtimeFields]) ?_
  intro a b
  have htimes : Shows Project.runtimeFields
      (fun t : DateTime × DateTime => .ofList rt.dateTime [t.1, t.2]) fun t => t := by
    intro s t
    refine ((shows_dateTime htime).list _ _).trans ?_
    simp [Prod.ext_iff]
  have hcrs := (shows_str : Shows Project.runtimeFields _ _).option str_ne_null a.crs b.crs
  have hextent := (Bbox.shows c : Shows Project.runtimeFields _ _).option
    (fun _ => ofList_ne_null _) a.extent b.extent
  have htime := htimes.option (fun _ => ofList_ne_null _) a.timeExtent b.timeExtent
  have hstyle := (shows_uuid : Shows Project.runtimeFields _ _).option (fun _ => str_ne_null _)
    a.styleId b.styleId
  simp only [List.forall_mem_cons, hcrs, hextent, htime, LayerStatistics.shows c _ _, hstyle,
    shows_opacity c _ _, strip_str, str_inj, Uuid.toText_eq, LayerKind.asStr_eq, strip_bool,
    bool_inj, map_id']
  cases a
  cases b
  simp [Layer.hide]

/-! ## Editable layers -/

theorem AttributeType.asStr_eq {a b : AttributeType} : a.asStr = b.asStr ↔ a = b := by
  cases a <;> cases b <;> decide

theorem AttributeField.shows : Shows Project.runtimeFields AttributeField.toJson fun f => f := by
  refine shows_record [("name", fun f : AttributeField => .str f.name),
    ("value_type", fun f => .str f.valueType.asStr), ("nullable", fun f => .bool f.nullable)]
    (fun _ => congrArg object rfl) (by decide) (by decide) ?_
  intro a b
  simp only [List.forall_mem_cons, strip_str, str_inj, AttributeType.asStr_eq, strip_bool, bool_inj]
  cases a
  cases b
  simp

theorem FeatureSchema.shows : Shows Project.runtimeFields FeatureSchema.toJson fun s => s := by
  refine shows_record [("primary_key", fun s : FeatureSchema => .str s.primaryKey),
    ("fields", fun s => .ofList AttributeField.toJson s.fields)]
    (fun _ => congrArg object rfl) (by decide) (by decide) ?_
  intro a b
  simp only [List.forall_mem_cons, strip_str, str_inj, AttributeField.shows.list _ _, List.map_id']
  cases a
  cases b
  simp

def Point.hide (p : Point) : Point := (F64.hide c p.1, F64.hide c p.2)

theorem Point.shows : Shows names Point.toJson (Point.hide c) := by
  intro p q
  refine ((shows_ofF64 c).list _ _).trans ?_
  simp [Point.hide]

def FeatureGeometry.hide : FeatureGeometry → FeatureGeometry
  | .point p => .point (Point.hide c p)
  | .lineString points => .lineString (points.map (Point.hide c))
  | .polygon rings => .polygon (rings.map (List.map (Point.hide c)))
  | .multiPolygon polygons => .multiPolygon (polygons.map (List.map (List.map (Point.hide c))))

theorem FeatureGeometry.shows :
    Shows Project.runtimeFields FeatureGeometry.toJson (FeatureGeometry.hide c) := by
  have hpoint : Shows Project.runtimeFields _ _ := Point.shows c
  have hpair : ∀ {a b a' b' : Value},
      (object [("type", a), ("coordinates", b)]).strip Project.runtimeFields =
        (object [("type", a'), ("coordinates", b')]).strip Project.runtimeFields ↔ _ :=
    strip_pair_eq (by decide) (by decide) (by decide)
  intro a b
  cases a with
  | point p =>
    cases b with
    | point q => simp [toJson, hide, hpair, hpoint p q]
    | _ => simp [toJson, hide, hpair]
  | lineString l =>
    cases b with
    | lineString m => simp [toJson, hide, hpair, hpoint.list l m]
    | _ => simp [toJson, hide, hpair]
  | polygon l =>
    cases b with
    | polygon m => simp [toJson, hide, hpair, hpoint.list.list l m]
    | _ => simp [toJson, hide, hpair]
  | multiPolygon l =>
    cases b with
    | multiPolygon m => simp [toJson, hide, hpair, hpoint.list.list.list l m]
    | _ => simp [toJson, hide, hpair]

def AttributeValue.hide : AttributeValue → AttributeValue
  | .number x => .number (x.hide c)
  | value => value

theorem AttributeValue.shows :
    Shows Project.runtimeFields AttributeValue.toJson (AttributeValue.hide c) := by
  have hpair : ∀ {a b a' b' : Value},
      (object [("type", a), ("value", b)]).strip Project.runtimeFields =
        (object [("type", a'), ("value", b')]).strip Project.runtimeFields ↔ _ :=
    strip_pair_eq (by decide) (by decide) (by decide)
  have hnull : ∀ {a b : Value}, (object [("type", .str "null")]).strip Project.runtimeFields ≠
      (object [("type", a), ("value", b)]).strip Project.runtimeFields := by
    intro a b
    exact strip_object_ne (by decide) (by simp) "value" (by decide) (fun h => by cases h)
  intro a b
  cases a with
  | null =>
    cases b with
    | null => simp [hide]
    | _ => simp [toJson, hide, hnull]
  | number x =>
    cases b with
    | null => simp [toJson, hide, hnull.symm]
    | number y =>
      have hnumber := (shows_ofF64 c : Shows Project.runtimeFields _ _) x y
      rw [strip_ofF64, strip_ofF64] at hnumber
      simp [toJson, hide, hpair, hnumber]
    | _ => simp [toJson, hide, hpair]
  | _ =>
    cases b with
    | null => simp [toJson, hide, hnull.symm]
    | _ => simp [toJson, hide, hpair]

/-- The entries of a map that the canonical state keeps. -/
def hideEntries {α : Type} (hide : α → α) (m : Std.ExtTreeMap String α) : Std.ExtTreeMap String α :=
  m.filterMap fun key a => if key ∈ Project.runtimeFields then none else some (hide a)

def EditableFeature.hide (f : EditableFeature) : EditableFeature :=
  { f with
    geometry := f.geometry.hide c
    attributes := hideEntries (AttributeValue.hide c) f.attributes }

theorem EditableFeature.shows :
    Shows Project.runtimeFields EditableFeature.toJson (EditableFeature.hide c) := by
  refine shows_record [("id", fun f : EditableFeature => .str f.id),
    ("revision", fun f => .ofNat f.revision), ("geometry", fun f => f.geometry.toJson),
    ("attributes", fun f => .ofMap AttributeValue.toJson f.attributes)]
    (fun _ => congrArg object rfl) (by decide) (by decide) ?_
  intro a b
  have hattributes := (AttributeValue.shows c).map a.attributes b.attributes
  simp only [List.forall_mem_cons, strip_str, str_inj, strip_ofNat, ofNat_inj,
    FeatureGeometry.shows c _ _, hattributes]
  cases a
  cases b
  simp [EditableFeature.hide, hideEntries]

theorem Crs.identifier_eq {a b : Crs} : a.identifier = b.identifier ↔ a = b := by
  refine ⟨fun h => ?_, congrArg Crs.identifier⟩
  have hchars : ∀ crs : Crs, crs.identifier.toList.reverse =
      crs.code.repr.toList.reverse ++ ':' :: crs.authority.toList.reverse := by
    intro crs
    simp [Crs.identifier, toString]
  have hdigits : ∀ crs : Crs, ∀ d ∈ crs.code.repr.toList.reverse, (d != ':') = true := by
    intro crs d hd
    have hdigit := Json.isDigit_of_mem_natChars (mem_reverse.mp hd)
    rw [bne_iff_ne]
    rintro rfl
    exact absurd hdigit (by decide)
  have htake : ∀ crs : Crs, crs.identifier.toList.reverse.takeWhile (· != ':') =
      crs.code.repr.toList.reverse := by
    intro crs
    rw [hchars, takeWhile_append_of_pos (hdigits crs)]
    simp
  have hcode : a.code.repr.toList.reverse = b.code.repr.toList.reverse := by
    rw [← htake, ← htake, h]
  have hauthority : a.authority.toList.reverse = b.authority.toList.reverse := by
    have hall := congrArg (fun s : String => s.toList.reverse) h
    simp only [hchars, hcode] at hall
    exact (List.cons.inj (append_cancel_left hall)).2
  cases a
  cases b
  simp only [Crs.mk.injEq]
  exact ⟨String.toList_injective (reverse_injective hauthority),
    Json.natChars_inj (reverse_injective hcode)⟩

theorem CoordinateUnit.asStr_eq {a b : CoordinateUnit} : a.asStr = b.asStr ↔ a = b := by
  cases a <;> cases b <;> decide

theorem EditableGeometryKind.asStr_eq {a b : EditableGeometryKind} : a.asStr = b.asStr ↔ a = b := by
  cases a <;> cases b <;> decide

def EditableLayer.hide (l : EditableLayer) : EditableLayer :=
  { l with features := hideEntries (EditableFeature.hide c) l.features }

theorem EditableLayer.shows :
    Shows Project.runtimeFields EditableLayer.toJson (EditableLayer.hide c) := by
  refine shows_record [("layer_id", fun l : EditableLayer => .str l.layerId.toText),
    ("crs", fun l => l.crs.toJson), ("coordinate_unit", fun l => l.coordinateUnit.toJson),
    ("geometry_kind", fun l => .str l.geometryKind.asStr), ("schema", fun l => l.schema.toJson),
    ("revision", fun l => .ofNat l.revision),
    ("features", fun l => .ofMap EditableFeature.toJson l.features)]
    (fun _ => congrArg object rfl) (by decide) (by decide) ?_
  intro a b
  have hfeatures := (EditableFeature.shows c).map a.features b.features
  simp only [List.forall_mem_cons, strip_str, str_inj, strip_ofNat, ofNat_inj, Uuid.toText_eq,
    Crs.toJson, Crs.identifier_eq, CoordinateUnit.toJson, CoordinateUnit.asStr_eq,
    EditableGeometryKind.asStr_eq, FeatureSchema.shows _ _, hfeatures]
  cases a
  cases b
  simp [EditableLayer.hide, hideEntries]

/-! ## Map styles -/

theorem ClassificationMethod.asStr_eq {a b : ClassificationMethod} : a.asStr = b.asStr ↔ a = b := by
  cases a <;> cases b <;> decide

def ClassBreak.hide (b : ClassBreak) : ClassBreak :=
  { b with minimum := b.minimum.hide c, maximum := b.maximum.hide c }

theorem ClassBreak.shows : Shows Project.runtimeFields ClassBreak.toJson (ClassBreak.hide c) := by
  refine shows_record [("minimum", fun b : ClassBreak => .ofF64 b.minimum),
    ("maximum", fun b => .ofF64 b.maximum), ("fill", fun b => .str b.fill),
    ("label", fun b => .str b.label)] (fun _ => congrArg object rfl) (by decide) (by decide) ?_
  intro a b
  simp only [List.forall_mem_cons, shows_ofF64 c _ _, strip_str, str_inj]
  cases a
  cases b
  simp [ClassBreak.hide]

theorem LegendSpec.shows : Shows Project.runtimeFields LegendSpec.toJson fun l => l := by
  refine shows_record [("title", fun l : LegendSpec => .str l.title),
    ("unit", fun l => .str l.unit), ("x", fun l => .ofNat l.x), ("y", fun l => .ofNat l.y)]
    (fun _ => congrArg object rfl) (by decide) (by decide) ?_
  intro a b
  simp only [List.forall_mem_cons, strip_str, str_inj, strip_ofNat, ofNat_inj]
  cases a
  cases b
  simp

def LabelStyle.hide (l : LabelStyle) : LabelStyle := { l with sizePx := l.sizePx.hide c }

theorem LabelStyle.shows : Shows Project.runtimeFields LabelStyle.toJson (LabelStyle.hide c) := by
  refine shows_record [("field", fun l : LabelStyle => .str l.field),
    ("font_family", fun l => .str l.fontFamily), ("font_digest", fun l => .str l.fontDigest),
    ("size_px", fun l => .ofF64 l.sizePx), ("color", fun l => .str l.color)]
    (fun _ => congrArg object rfl) (by decide) (by decide) ?_
  intro a b
  simp only [List.forall_mem_cons, shows_ofF64 c _ _, strip_str, str_inj]
  cases a
  cases b
  simp [LabelStyle.hide]

def EvidenceMapStyle.hide (s : EvidenceMapStyle) : EvidenceMapStyle :=
  { s with
    breaks := s.breaks.map (ClassBreak.hide c)
    labels := s.labels.map (LabelStyle.hide c) }

theorem EvidenceMapStyle.shows :
    Shows Project.runtimeFields EvidenceMapStyle.toJson (EvidenceMapStyle.hide c) := by
  refine shows_members [("id", fun s : EvidenceMapStyle => some (.str s.id.toText)),
    ("layer_id", fun s => some (.str s.layerId.toText)), ("field", fun s => some (.str s.field)),
    ("value_unit", fun s => some (.str s.valueUnit)),
    ("classification", fun s => some (.str s.classification.asStr)),
    ("breaks", fun s => some (.ofList ClassBreak.toJson s.breaks)),
    ("legend", fun s => some s.legend.toJson), ("labels", fun s => s.labels.map LabelStyle.toJson)]
    ?_ (by decide) (by decide) ?_
  · intro s
    cases hlabels : s.labels <;> simp [toJson, members, hlabels, Value.optional]
  · intro a b
    have hlabels : (a.labels.map LabelStyle.toJson).map (strip Project.runtimeFields) =
        (b.labels.map LabelStyle.toJson).map (strip Project.runtimeFields) ↔
          a.labels.map (LabelStyle.hide c) = b.labels.map (LabelStyle.hide c) := by
      cases a.labels <;> cases b.labels <;> simp [LabelStyle.shows c _ _]
    simp only [List.forall_mem_cons, map_some, Option.some.injEq, hlabels, strip_str, str_inj,
      Uuid.toText_eq, ClassificationMethod.asStr_eq, (ClassBreak.shows c).list _ _,
      LegendSpec.shows _ _]
    cases a
    cases b
    simp [EvidenceMapStyle.hide]

@[simp] theorem Bbox.hide_hide (b : Bbox) : (b.hide c).hide c = b.hide c := by
  simp [Bbox.hide, F64.hide_hide]

@[simp] theorem F32.hide_hide (x : F32) : (x.hide c).hide c = x.hide c := by
  by_cases hx : x.widen.isFinite = true
  · simp [F32.hide, hx]
  · simp [F32.hide, hx]

@[simp] theorem Layer.hide_hide (l : Layer) : (l.hide c).hide c = l.hide c := by
  simp [Layer.hide, LayerStatistics.hide, map_map, comp_def]

@[simp] theorem Point.hide_hide (p : Point) : Point.hide c (Point.hide c p) = Point.hide c p := by
  simp [Point.hide, F64.hide_hide]

@[simp] theorem FeatureGeometry.hide_hide (g : FeatureGeometry) : (g.hide c).hide c = g.hide c := by
  cases g <;> simp [FeatureGeometry.hide, comp_def]

@[simp] theorem AttributeValue.hide_hide (v : AttributeValue) : (v.hide c).hide c = v.hide c := by
  cases v <;> simp [AttributeValue.hide, F64.hide_hide]

theorem hideEntries_hideEntries {α : Type} {hide : α → α} (h : ∀ a, hide (hide a) = hide a)
    (m : Std.ExtTreeMap String α) : hideEntries hide (hideEntries hide m) = hideEntries hide m := by
  refine ext_getElem? ?_
  intro key
  simp only [hideEntries, getElem?_filterMap']
  by_cases hkey : key ∈ Project.runtimeFields
  · cases m[key]? <;> simp [hkey]
  · cases m[key]? <;> simp [hkey, h]

@[simp] theorem EditableFeature.hide_hide (f : EditableFeature) : (f.hide c).hide c = f.hide c := by
  simp [EditableFeature.hide, hideEntries_hideEntries]

@[simp] theorem EditableLayer.hide_hide (l : EditableLayer) : (l.hide c).hide c = l.hide c := by
  simp [EditableLayer.hide, hideEntries_hideEntries]

@[simp] theorem ClassBreak.hide_hide (b : ClassBreak) : (b.hide c).hide c = b.hide c := by
  simp [ClassBreak.hide, F64.hide_hide]

@[simp] theorem LabelStyle.hide_hide (l : LabelStyle) : (l.hide c).hide c = l.hide c := by
  simp [LabelStyle.hide, F64.hide_hide]

@[simp] theorem EvidenceMapStyle.hide_hide (s : EvidenceMapStyle) :
    (s.hide c).hide c = s.hide c := by
  simp [EvidenceMapStyle.hide, map_map, comp_def]

/-! ## The project -/

namespace Project

variable {rt : Runtime} {p q : Project}

/-- The layers, the editable layers and the map styles agree. -/
def SameMap (p q : Project) : Prop := p.workspace.layers = q.workspace.layers ∧
    p.workspace.editableLayers = q.workspace.editableLayers ∧
    p.workspace.mapStyles = q.workspace.mapStyles

def hide (p : Project) : Project := p.modifyWorkspace fun w =>
    { w with
      layers := w.layers.map (Layer.hide c)
      editableLayers := w.editableLayers.map (EditableLayer.hide c)
      mapStyles := w.mapStyles.map (EvidenceMapStyle.hide c) }

/-- No feature and no attribute is under a run-time name, and the numbers are finite: hiding changes
nothing. -/
def Plain (p : Project) : Prop := ∀ c : Unwritten, SameMap (p.hide c) p

theorem canonicalStateJson_eq : p.canonicalStateJson rt = q.canonicalStateJson rt ↔
      p.manifest.schemaVersion = q.manifest.schemaVersion ∧
      (p.workspace.toJson rt).strip runtimeFields = (q.workspace.toJson rt).strip runtimeFields := by
  have hmanifest : ∀ m n : ProjectManifest, (m.toJson rt).strip runtimeFields =
      (n.toJson rt).strip runtimeFields ↔ m.schemaVersion = n.schemaVersion ∧
        (m.workspace.toJson rt).strip runtimeFields =
          (n.workspace.toJson rt).strip runtimeFields := by
    intro m n
    refine (strip_pair_eq (by decide) (by decide) (by decide)).trans ?_
    rw [strip_ofNat, strip_ofNat, ofNat_inj]
  refine Iff.trans ?_ (hmanifest p.manifest q.manifest)
  refine (strip_members_eq [("manifest", fun p : Project => some (p.manifest.toJson rt)),
    ("path", fun p => some (.ofOption .str p.path))] (a := p) (b := q) (by simp)).trans ?_
  simp [runtimeFields]

theorem workspace_strip_eq {v w : Workspace} :
    (v.toJson rt).strip runtimeFields = (w.toJson rt).strip runtimeFields ↔
      v.id = w.id ∧ v.name = w.name ∧
      (ofList DataSource.toJson v.sources).strip runtimeFields =
        (ofList DataSource.toJson w.sources).strip runtimeFields ∧
      (ofList (Layer.toJson rt) v.layers).strip runtimeFields =
        (ofList (Layer.toJson rt) w.layers).strip runtimeFields ∧
      (ofList EditableLayer.toJson v.editableLayers).strip runtimeFields =
        (ofList EditableLayer.toJson w.editableLayers).strip runtimeFields ∧
      (ofList EvidenceMapStyle.toJson v.mapStyles).strip runtimeFields =
        (ofList EvidenceMapStyle.toJson w.mapStyles).strip runtimeFields ∧
      (ofList View.toJson v.views).strip runtimeFields =
        (ofList View.toJson w.views).strip runtimeFields ∧
      (ofOption (fun id : Uuid => .str id.toText) v.activeView).strip runtimeFields =
        (ofOption (fun id : Uuid => .str id.toText) w.activeView).strip runtimeFields ∧
      (v.provenance.toJson rt).strip runtimeFields =
        (w.provenance.toJson rt).strip runtimeFields := by
  have hmembers : ∀ w : Workspace, w.toJson rt = object (members
      [("id", fun w : Workspace => some (.str w.id.toText)), ("name", fun w => some (.str w.name)),
        ("created_at", fun w => some (rt.dateTime w.createdAt)),
        ("updated_at", fun w => some (rt.dateTime w.updatedAt)),
        ("sources", fun w => some (.ofList DataSource.toJson w.sources)),
        ("layers", fun w => some (.ofList (Layer.toJson rt) w.layers)),
        ("editable_layers", fun w => some (.ofList EditableLayer.toJson w.editableLayers)),
        ("map_styles", fun w => some (.ofList EvidenceMapStyle.toJson w.mapStyles)),
        ("views", fun w => some (.ofList View.toJson w.views)),
        ("active_view", fun w => some (.ofOption (fun id => .str id.toText) w.activeView)),
        ("provenance", fun w => some (w.provenance.toJson rt))] w) :=
    fun _ => congrArg object rfl
  rw [hmembers, hmembers, strip_members_eq _ (by simp)]
  simp [runtimeFields, Uuid.toText_eq]

theorem canonicalStateJson_hide (htime : Injective rt.rfc3339)
    (h : p.canonicalStateJson rt = q.canonicalStateJson rt) : SameMap (p.hide c) (q.hide c) := by
  obtain ⟨-, hworkspace⟩ := canonicalStateJson_eq.mp h
  obtain ⟨-, -, -, hlayers, heditable, hstyles, -⟩ := workspace_strip_eq.mp hworkspace
  exact ⟨((Layer.shows c htime).list _ _).mp hlayers,
    ((EditableLayer.shows c).list _ _).mp heditable,
    ((EvidenceMapStyle.shows c).list _ _).mp hstyles⟩

theorem hide_canonicalStateJson (htime : Injective rt.rfc3339) (p : Project) :
    (p.hide c).canonicalStateJson rt = p.canonicalStateJson rt := by
  refine canonicalStateJson_eq.mpr ⟨rfl, workspace_strip_eq.mpr ⟨rfl, rfl, rfl, ?_, ?_, ?_, rfl,
    rfl, rfl⟩⟩
  · refine ((Layer.shows c htime).list _ _).mpr ?_
    simp [hide, modifyWorkspace, workspace, comp_def]
  · refine ((EditableLayer.shows c).list _ _).mpr ?_
    simp [hide, modifyWorkspace, workspace, comp_def]
  · refine ((EvidenceMapStyle.shows c).list _ _).mpr ?_
    simp [hide, modifyWorkspace, workspace, comp_def]

/-- Among plain projects the canonical text determines the map, and every other project shares it
with a different map. -/
theorem canonicalText_covers (rt : Runtime) (hfloat : Json.FloatText rt.floatText)
    (htime : Injective rt.rfc3339) :
    (∀ p q : Project, Plain p → Plain q →
      rt.canonicalJson (p.canonicalStateJson rt) = rt.canonicalJson (q.canonicalStateJson rt) →
      SameMap p q) ∧
    ∀ p : Project, ¬ Plain p → ∃ q : Project,
      rt.canonicalJson (p.canonicalStateJson rt) = rt.canonicalJson (q.canonicalStateJson rt) ∧
      ¬ SameMap p q := by
  refine ⟨?_, ?_⟩
  · intro p q hp hq htext
    have c : Unwritten := ⟨F64.nan, rfl⟩
    have hstate := Value.canonicalJson_inj hfloat htext
    obtain ⟨hlayers, heditable, hstyles⟩ := canonicalStateJson_hide c htime hstate
    obtain ⟨hpl, hpe, hps⟩ := hp c
    obtain ⟨hql, hqe, hqs⟩ := hq c
    exact ⟨by rw [← hpl, hlayers, hql], by rw [← hpe, heditable, hqe], by rw [← hps, hstyles, hqs]⟩
  · intro p hp
    obtain ⟨c, hc⟩ := not_forall.mp hp
    refine ⟨p.hide c, by rw [hide_canonicalStateJson c htime], ?_⟩
    intro hsame
    exact hc ⟨hsame.1.symm, hsame.2.1.symm, hsame.2.2.symm⟩

/-! One editable layer with a feature whose identifier is a run-time name. -/

def pathFeature (x y : Nat) : EditableFeature :=
  { id := "path", revision := 1, geometry := .point (.ofNat x, .ofNat y),
    attributes := .ofList [("code", AttributeValue.text "path")] }

def pathProject (x y : Nat) : Project :=
  (Project.new (Uuid.ofNat 0) ⟨0⟩ "roads").modifyWorkspace fun w =>
    { w with
      editableLayers := [
        { layerId := Uuid.ofNat 1, crs := Crs.epsg 4326, coordinateUnit := .degrees,
          geometryKind := .point, revision := 1,
          schema := { primaryKey := "code", fields := [⟨"code", .text, false⟩] },
          features := .ofList [("path", pathFeature x y)] }] }

theorem hideEntries_path (x y : Nat) :
    hideEntries (EditableFeature.hide c) (.ofList [("path", pathFeature x y)]) = ∅ := by
  rw [hideEntries, filterMap_eq_empty_iff]
  intro key hkey
  have hname : "path" = key := by simpa using hkey
  refine if_pos ?_
  rw [getKey_eq, ← hname]
  decide

theorem hide_pathProject : (pathProject 136 35).hide c = (pathProject 1 0).hide c := by
  rw [pathProject, pathProject, hide, hide]
  simp only [modifyWorkspace, map_cons, map_nil, EditableLayer.hide, hideEntries_path]

theorem canonicalText_pathProject :
    Runtime.reference.canonicalJson ((pathProject 136 35).canonicalStateJson .reference) =
      Runtime.reference.canonicalJson ((pathProject 1 0).canonicalStateJson .reference) ∧
    ((pathProject 136 35).workspace.editableLayers.map fun l => l.features["path"]?) =
      [some (pathFeature 136 35)] ∧
    ((pathProject 1 0).workspace.editableLayers.map fun l => l.features["path"]?) =
      [some (pathFeature 1 0)] ∧
    (pathFeature 136 35).geometry ≠ (pathFeature 1 0).geometry := by
  have c : Unwritten := ⟨F64.nan, rfl⟩
  refine ⟨?_, ?_, ?_, ?_⟩
  · rw [← hide_canonicalStateJson c Runtime.rfc3339_reference, hide_pathProject,
      hide_canonicalStateJson c Runtime.rfc3339_reference]
  · simp [pathProject, modifyWorkspace, workspace]
  · simp [pathProject, modifyWorkspace, workspace]
  · decide +kernel

theorem canonicalText_covers_pathProject : ¬ Plain (pathProject 136 35) ∧ ∃ q : Project,
    Runtime.reference.canonicalJson ((pathProject 136 35).canonicalStateJson .reference) =
      Runtime.reference.canonicalJson (q.canonicalStateJson .reference) ∧
    ¬ SameMap (pathProject 136 35) q := by
  have hplain : ¬ Plain (pathProject 136 35) := by
    intro h
    exact absurd (h ⟨F64.nan, rfl⟩).2.1 (by decide +kernel)
  exact ⟨hplain, (canonicalText_covers .reference Runtime.floatText_reference
    Runtime.rfc3339_reference).2 _ hplain⟩

end Project

end GeneGIS
