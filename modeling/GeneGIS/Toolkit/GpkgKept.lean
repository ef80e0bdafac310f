/-
The layers whose GeoPackage comes back.

Its columns have names and values that the file can hold, every feature has all of them, and file
and import take every geometry.
-/
import GeneGIS.Toolkit.GpkgRoundTrip

namespace GeneGIS.Toolkit.Gpkg

open Fallible Option Text
open List hiding isEmpty_iff
open Std.ExtTreeMap hiding isEmpty_iff

/-- The same columns with the same types, and for every feature the same attributes and the same
geometry. -/
structure Same (layer back : Layer) : Prop where
  columns : ∀ name, (back.field name).map Field.fieldType = (layer.field name).map Field.fieldType
  features : List.Forall₂ (fun feature imported : Feature =>
    imported.geometry = feature.geometry ∧ imported.properties = feature.properties)
    layer.features back.features

section

variable {File : Type} (platform : Platform) (sqlite : Sqlite File) (layer : Layer)

def ComesBack (file : File) : Prop :=
  ∃ back report, importFile platform sqlite file {} = .ok (back, report) ∧ Same layer back

/-- Nothing of the layer is written as something else. -/
structure Kept : Prop where
  nonempty : layer.features ≠ []
  names : ∀ field ∈ layer.fields,
    sanitizeIdentifier field.name = field.name ∧ isWritten field = true
  entries : ∀ feature ∈ layer.features, ∀ name,
    name ∈ feature.properties ↔ ∃ field ∈ layer.fields, field.name = name
  typed : ∀ field ∈ layer.fields, field.fieldType = inferFieldType (layer.values field.name)
  values : ∀ field ∈ layer.fields, ∀ v ∈ layer.values field.name,
    fits field.fieldType v.json = true
  geometries : ∀ feature ∈ layer.features, ∀ g, feature.geometry = some g →
    (platform.boundingRect g).isSome = true ∧ g.isPlain = true
  coordinates : ∀ crs, Proj.lookup layer.crs = .ok crs →
    ∀ feature ∈ layer.features, ∀ g, feature.geometry = some g →
      ∀ c ∈ g.coords, inDomain crs c = true

end

variable {File : Type} {platform : Platform} {sqlite : Sqlite File} {layer : Layer} {crs : CrsInfo}


theorem importFile_of_read {file : File} {back : Layer} {report : ImportReport}
    (h : read platform sqlite file {} {} = .ok (back, report)) :
    importFile platform sqlite file {} =
      if back.features.isEmpty then .error (importError (noFeatures report))
      else do
        validateCoordinates platform back
        return (back, report) := by
  rw [importFile, h]
  rfl

theorem comesBack_iff (hsqlite : Documented sqlite) (h : Written platform sqlite layer crs) :
    ComesBack platform sqlite layer (sqlite.save (database platform sqlite layer crs.epsg)) ↔
      layer.features ≠ [] ∧
        validateCoordinates platform (importedLayer platform sqlite layer crs).refreshSchema =
          .ok () ∧
        Same layer (importedLayer platform sqlite layer crs).refreshSchema := by
  obtain ⟨report, hread⟩ := read_written hsqlite h {}
  have hempty : (importedLayer platform sqlite layer crs).refreshSchema.features.isEmpty = true ↔
      layer.features = [] := by
    show (importedFeatures platform sqlite layer).isEmpty = true ↔ _
    rw [List.isEmpty_iff, importedFeatures, List.map_eq_nil_iff, List.zipIdx_eq_nil_iff]
  rw [ComesBack, importFile_of_read hread]
  constructor
  · intro hback
    obtain ⟨back, report', himported, hsame⟩ := hback
    by_cases hnone : layer.features = []
    · rw [if_pos (hempty.mpr hnone)] at himported
      cases himported
    · rw [if_neg (mt hempty.mp hnone)] at himported
      obtain ⟨_, hvalid, himported⟩ := bind_iff.mp himported
      obtain ⟨rfl, -⟩ := Prod.mk.inj (Except.ok.inj himported)
      exact ⟨hnone, hvalid, hsame⟩
  · intro ⟨hnone, hvalid, hsame⟩
    rw [if_neg (mt hempty.mp hnone)]
    exact ⟨_, report, then_ok hvalid rfl, hsame⟩

/-! ## What is the same -/

theorem forall₂_zipIdx {α β : Type} {R : α → β → Prop} {P : α → Prop} {f : α × Nat → β}
    (hR : ∀ a i, R a (f (a, i)) ↔ P a) (l : List α) (start : Nat) :
    List.Forall₂ R l ((l.zipIdx start).map f) ↔ ∀ a ∈ l, P a := by
  induction l generalizing start with
  | nil => simp
  | cons a rest ih =>
    rw [zipIdx_cons, map_cons, forall₂_cons, hR, ih, forall_mem_cons]

theorem exists_imported {P : Feature → Prop} {Q : Feature → Prop}
    (hP : ∀ entry, P (importedFeature platform sqlite layer entry) ↔ Q entry.1) :
    (∃ feature ∈ importedFeatures platform sqlite layer, P feature) ↔
      ∃ feature ∈ layer.features, Q feature := by
  rw [importedFeatures]
  constructor
  · intro h
    obtain ⟨_, hmem, hfeature⟩ := h
    obtain ⟨entry, hentry, rfl⟩ := mem_map.mp hmem
    exact ⟨entry.1, fst_mem_of_mem_zipIdx hentry, (hP entry).mp hfeature⟩
  · intro h
    obtain ⟨feature, hmem, hfeature⟩ := h
    obtain ⟨i, hi⟩ := mem_iff_getElem?.mp hmem
    have hentry : (feature, i) ∈ layer.features.zipIdx := mem_zipIdx_iff_getElem?.mpr hi
    exact ⟨_, mem_map_of_mem hentry, (hP (feature, i)).mpr hfeature⟩

theorem forall_imported {P : Feature → Prop} {Q : Feature → Prop}
    (hP : ∀ entry, P (importedFeature platform sqlite layer entry) ↔ Q entry.1) :
    (∀ feature ∈ importedFeatures platform sqlite layer, P feature) ↔
      ∀ feature ∈ layer.features, Q feature := by
  have hnot := exists_imported (P := fun feature => ¬ P feature) (Q := fun feature => ¬ Q feature)
    fun entry => not_congr (hP entry)
  simpa using not_congr hnot

theorem values_imported (h : ∀ feature ∈ layer.features,
      importedProperties platform sqlite layer feature = feature.properties) (name : String) :
    (importedLayer platform sqlite layer crs).values name = layer.values name := by
  rw [Layer.values, Layer.values]
  show (importedFeatures platform sqlite layer).filterMap _ = _
  rw [importedFeatures, filterMap_map]
  have hmap : layer.features = layer.features.zipIdx.map Prod.fst := by
    rw [zipIdx_map_fst]
  conv_rhs => rw [hmap, filterMap_map]
  refine filterMap_congr fun entry hentry => ?_
  show (importedProperties platform sqlite layer entry.1)[name]? = entry.1.properties[name]?
  rw [h entry.1 (fst_mem_of_mem_zipIdx hentry)]

theorem same_iff : Same layer (importedLayer platform sqlite layer crs).refreshSchema ↔
    (∀ feature ∈ layer.features, importedGeometry platform feature = feature.geometry ∧
      importedProperties platform sqlite layer feature = feature.properties) ∧
    ∀ name, (if ∃ feature ∈ layer.features, name ∈ feature.properties
      then some (inferFieldType (layer.values name)) else none) =
        (layer.field name).map Field.fieldType := by
  have hfeatures := @forall₂_zipIdx _ _ (fun feature imported : Feature =>
      imported.geometry = feature.geometry ∧ imported.properties = feature.properties)
    (fun feature => importedGeometry platform feature = feature.geometry ∧
      importedProperties platform sqlite layer feature = feature.properties)
    (importedFeature platform sqlite layer) (fun _ _ => Iff.rfl) layer.features 0
  have hcolumns : (∀ feature ∈ layer.features,
      importedGeometry platform feature = feature.geometry ∧
        importedProperties platform sqlite layer feature = feature.properties) → ∀ name,
      ((importedLayer platform sqlite layer crs).refreshSchema.field name).map Field.fieldType =
        if ∃ feature ∈ layer.features, name ∈ feature.properties
        then some (inferFieldType (layer.values name)) else none := by
    intro hsame name
    have hproperties := fun feature hfeature => (hsame feature hfeature).2
    have hexists : (∃ feature ∈ (importedLayer platform sqlite layer crs).features,
        name ∈ feature.properties) ↔ ∃ feature ∈ layer.features, name ∈ feature.properties := by
      refine Iff.trans (exists_imported (Q := fun feature =>
        name ∈ importedProperties platform sqlite layer feature) fun entry => Iff.rfl) ?_
      constructor
      · intro ⟨feature, hfeature, hname⟩
        exact ⟨feature, hfeature, hproperties feature hfeature ▸ hname⟩
      · intro ⟨feature, hfeature, hname⟩
        exact ⟨feature, hfeature, (hproperties feature hfeature).symm ▸ hname⟩
    rw [Layer.fieldType_refreshSchema rfl, values_imported hproperties]
    exact if_congr hexists rfl rfl
  constructor
  · intro h
    have hsame := hfeatures.mp h.features
    refine ⟨hsame, fun name => ?_⟩
    rw [← hcolumns hsame name]
    exact h.columns name
  · intro ⟨hsame, hnames⟩
    refine ⟨fun name => ?_, hfeatures.mpr hsame⟩
    rw [hcolumns hsame name]
    exact hnames name

theorem valid_iff (h : Written platform sqlite layer crs) :
    validateCoordinates platform (importedLayer platform sqlite layer crs).refreshSchema = .ok () ↔
      ∀ feature ∈ layer.features, ∀ g, importedGeometry platform feature = some g →
        ∀ c ∈ g.coords, inDomain crs c = true := by
  have hlookup :
      Proj.lookup (importedLayer platform sqlite layer crs).refreshSchema.crs = .ok crs :=
    (Proj.lookup_name h.lookup).2
  rw [validateCoordinates_ok hlookup]
  exact forall_imported (P := fun feature => ∀ g, feature.geometry = some g →
    ∀ c ∈ g.coords, inDomain crs c = true) fun entry => Iff.rfl

/-! ## What is kept -/

theorem isBlank_layer : isBlank "layer" = false :=
  isBlank_false_of_mem (c := 'l') (by decide) (by decide)

theorem sanitizeIdentifier_again (name : String) :
    sanitizeIdentifier (sanitizeIdentifier name) = sanitizeIdentifier name := by
  have hkeep : ∀ s : String, (∀ c ∈ s.toList, (!isControl c && c != '"') = true) →
      isBlank s = false → sanitizeIdentifier s = s := by
    intro s hs hblank
    rw [sanitizeIdentifier, filter_eq_self.mpr hs, String.ofList_toList, hblank,
      if_neg Bool.false_ne_true]
  have hname : sanitizeIdentifier name = "layer" ∨
      (∀ c ∈ (sanitizeIdentifier name).toList, (!isControl c && c != '"') = true) ∧
        isBlank (sanitizeIdentifier name) = false := by
    rw [sanitizeIdentifier]
    split
    next => exact .inl rfl
    next hblank =>
      refine .inr ⟨fun c hc => ?_, by simpa using hblank⟩
      rw [String.toList_ofList] at hc
      exact (mem_filter.mp hc).2
  rcases hname with hname | ⟨hchars, hblank⟩
  · rw [hname]
    exact hkeep "layer" (by decide) isBlank_layer
  · exact hkeep _ hchars hblank

theorem isWritten_congr {a b : Field}
    (h : sanitizeIdentifier a.name = sanitizeIdentifier b.name) : isWritten a = isWritten b := by
  rw [isWritten, isWritten, h]

/-- The columns of the file are those of the layer. -/
structure Named (layer : Layer) : Prop where
  written : writtenFields layer = layer.fields
  same : ∀ field ∈ layer.fields, sanitizeIdentifier field.name = field.name

theorem named_iff : Named layer ↔ ∀ field ∈ layer.fields,
    sanitizeIdentifier field.name = field.name ∧ isWritten field = true := by
  constructor
  · intro h field hfield
    exact ⟨h.same field hfield, filter_eq_self.mp h.written field hfield⟩
  · intro h
    exact ⟨filter_eq_self.mpr fun field hfield => (h field hfield).2,
      fun field hfield => (h field hfield).1⟩

namespace Named

theorem distinct (hnamed : Named layer) (h : Written platform sqlite layer crs) :
    (layer.fields.map Field.name).Nodup := by
  have hmap : layer.fields.map Field.name =
      (writtenFields layer).map fun field => sanitizeIdentifier field.name := by
    rw [hnamed.written]
    exact map_congr_left fun field hfield => (hnamed.same field hfield).symm
  rw [hmap]
  exact h.distinct

theorem imported_some (hnamed : Named layer) (h : Written platform sqlite layer crs)
    {feature : Feature} {name : String} {v : Value} :
    (importedProperties platform sqlite layer feature)[name]? = some v ↔
      ∃ field ∈ layer.fields, field.name = name ∧
        returnedValue platform sqlite feature field = v := by
  rw [importedProperties_some h, hnamed.written]
  refine exists_congr fun field => and_congr_right fun hfield => ?_
  rw [hnamed.same field hfield]

theorem field_eq (hnamed : Named layer) (h : Written platform sqlite layer crs) {field : Field}
    (hfield : field ∈ layer.fields) : layer.field field.name = some field :=
  (Keyed.find?_eq_some (hnamed.distinct h)).mpr ⟨hfield, rfl⟩

end Named

theorem named_of_columns (h : Written platform sqlite layer crs)
    (hproperties : ∀ feature ∈ layer.features,
      importedProperties platform sqlite layer feature = feature.properties)
    (hcolumns : ∀ field ∈ layer.fields, ∃ feature ∈ layer.features,
      field.name ∈ feature.properties) : Named layer := by
  rw [named_iff]
  intro field hfield
  obtain ⟨feature, hfeature, hname⟩ := hcolumns field hfield
  rw [← hproperties feature hfeature] at hname
  obtain ⟨v, hv⟩ := isSome_iff_exists.mp (mem_iff_isSome_getElem?.mp hname)
  obtain ⟨other, hother, hsame, -⟩ := (importedProperties_some h).mp hv
  have hsanitized : sanitizeIdentifier field.name = field.name := by
    rw [← hsame, sanitizeIdentifier_again]
  refine ⟨hsanitized, ?_⟩
  rw [isWritten_congr (hsanitized.trans hsame.symm)]
  exact (mem_filter.mp hother).2

theorem mem_values {name : String} {v : Value} : v ∈ layer.values name ↔
    ∃ feature ∈ layer.features, feature.properties[name]? = some v := by
  rw [Layer.values, mem_filterMap]

theorem fits_of_same (hsqlite : Documented sqlite) (hnamed : Named layer)
    (h : Written platform sqlite layer crs)
    (hproperties : ∀ feature ∈ layer.features,
      importedProperties platform sqlite layer feature = feature.properties) {field : Field}
    (hfield : field ∈ layer.fields)
    (htyped : field.fieldType = inferFieldType (layer.values field.name)) {v : Value}
    (hv : v ∈ layer.values field.name) : fits field.fieldType v.json = true := by
  have hreturned : ∀ w ∈ layer.values field.name, cellValue platform
      (sqlite.store (sqlType field.fieldType) (toSqlValue platform (some w) field.fieldType)) =
      w := by
    intro w hw
    obtain ⟨feature, hfeature, hget⟩ := mem_values.mp hw
    have himported := hget
    rw [← hproperties feature hfeature] at himported
    obtain ⟨other, hother, hname, hvalue⟩ := (hnamed.imported_some h).mp himported
    obtain rfl : other = field := Keyed.eq_of_mem (hnamed.distinct h) hother hfield hname
    rw [returnedValue, hget] at hvalue
    exact hvalue
  refine fits_of_returned hsqlite (hreturned v hv) (fun k hk => ?_) ?_
  · rw [htyped]
    exact within_inferFieldType hv hk
  · rw [htyped]
    refine inferFieldType_ne_json fun w hw hjson => ?_
    have hcases := @cellValue_json platform (sqlite.store (sqlType field.fieldType)
      (toSqlValue platform (some w) field.fieldType))
    rw [hreturned w hw] at hcases
    rcases hcases with hc | ⟨_, _, hc⟩ | ⟨_, _, hc⟩ | ⟨_, hc⟩
    all_goals
      rw [hc] at hjson
      cases hjson

variable {feature : Feature}

theorem geometry_same_iff {g : Geometry} (hg : feature.geometry = some g) :
    importedGeometry platform feature = some g ↔
      (platform.boundingRect g).isSome = true ∧ (g.normalise platform.outlines).again = g := by
  rw [importedGeometry, hg, bind_some]
  by_cases hrect : (platform.boundingRect g).isSome = true
  · rw [if_pos hrect, Option.some.injEq]
    exact ⟨fun h => ⟨hrect, h⟩, fun h => h.2⟩
  · rw [if_neg hrect]
    exact iff_of_false (fun h => by cases h) fun h => hrect h.1

theorem kept_of_same (hsqlite : Documented sqlite) (h : Written platform sqlite layer crs)
    (hnonempty : layer.features ≠ [])
    (hvalid : validateCoordinates platform (importedLayer platform sqlite layer crs).refreshSchema =
      .ok ())
    (hsame : Same layer (importedLayer platform sqlite layer crs).refreshSchema) :
    Kept platform layer := by
  obtain ⟨hfeatures, hcolumns⟩ := same_iff.mp hsame
  have hproperties := fun feature hfeature => (hfeatures feature hfeature).2
  have hthere : ∀ field ∈ layer.fields, ∃ feature ∈ layer.features,
      field.name ∈ feature.properties := by
    intro field hfield
    have hcolumn := hcolumns field.name
    by_cases hexists : ∃ feature ∈ layer.features, field.name ∈ feature.properties
    · exact hexists
    · rw [if_neg hexists, eq_comm, map_eq_none_iff, Layer.field, find?_eq_none] at hcolumn
      exact absurd (decide_eq_true rfl) (hcolumn field hfield)
  have hnamed := named_of_columns h hproperties hthere
  have htyped : ∀ field ∈ layer.fields,
      field.fieldType = inferFieldType (layer.values field.name) := by
    intro field hfield
    have hcolumn := hcolumns field.name
    rw [if_pos (hthere field hfield), hnamed.field_eq h hfield] at hcolumn
    exact (Option.some.inj hcolumn).symm
  have hgeometry : ∀ feature ∈ layer.features, ∀ g, feature.geometry = some g →
      importedGeometry platform feature = some g := by
    intro feature hfeature g hg
    rw [(hfeatures feature hfeature).1, hg]
  exact
    { nonempty := hnonempty
      names := named_iff.mp hnamed
      entries := fun feature hfeature name => by
        rw [← hproperties feature hfeature, mem_iff_isSome_getElem?, isSome_iff_exists]
        simp only [hnamed.imported_some h]
        constructor
        · rintro ⟨_, field, hfield, hname, -⟩
          exact ⟨field, hfield, hname⟩
        · rintro ⟨field, hfield, hname⟩
          exact ⟨_, field, hfield, hname, rfl⟩
      typed := htyped
      values := fun field hfield v hv =>
        fits_of_same hsqlite hnamed h hproperties hfield (htyped field hfield) hv
      geometries := fun feature hfeature g hg => by
        obtain ⟨hrect, hagain⟩ := (geometry_same_iff hg).mp (hgeometry feature hfeature g hg)
        exact ⟨hrect, Geometry.plain_of_again g hagain⟩
      coordinates := fun crs' hcrs' feature hfeature g hg => by
        cases h.lookup.symm.trans hcrs'
        exact (valid_iff h).mp hvalid feature hfeature g (hgeometry feature hfeature g hg) }

theorem geometry_of_kept (h : Written platform sqlite layer crs) (hkept : Kept platform layer)
    (hfeature : feature ∈ layer.features) :
    importedGeometry platform feature = feature.geometry := by
  cases hg : feature.geometry with
  | none => rw [importedGeometry, hg, bind_none]
  | some g =>
    obtain ⟨hrect, hplain⟩ := hkept.geometries feature hfeature g hg
    have hfinite : Geometry.Finite g.coords := by
      intro c hc
      have hdomain := hkept.coordinates crs h.lookup feature hfeature g hg c hc
      rw [inDomain, Bool.and_eq_true, Bool.and_eq_true] at hdomain
      exact hdomain.1
    refine (geometry_same_iff hg).mpr ⟨hrect, ?_⟩
    rw [Geometry.normalise_plain g hplain, Geometry.again_eq_self_iff]
    exact Geometry.startsAtNumbers_of_finite g hfinite

theorem properties_of_kept (hsqlite : Documented sqlite)
    (hlossy : ∀ s, platform.lossy (Bytes.ofText s) = s) (h : Written platform sqlite layer crs)
    (hkept : Kept platform layer) (hfeature : feature ∈ layer.features) :
    importedProperties platform sqlite layer feature = feature.properties := by
  have hnamed : Named layer := named_iff.mpr hkept.names
  refine ext_getElem? ?_
  intro name
  cases hget : feature.properties[name]? with
  | none =>
    rw [← not_isSome_iff_eq_none, isSome_iff_exists]
    intro ⟨v, hv⟩
    obtain ⟨field, hfield, hname, -⟩ := (hnamed.imported_some h).mp hv
    have hmem := (hkept.entries feature hfeature name).mpr ⟨field, hfield, hname⟩
    rw [mem_iff_isSome_getElem?, hget] at hmem
    cases hmem
  | some v =>
    have hmem : name ∈ feature.properties := by
      rw [mem_iff_isSome_getElem?, hget]
      rfl
    obtain ⟨field, hfield, rfl⟩ := (hkept.entries feature hfeature name).mp hmem
    have hfits := hkept.values field hfield v (mem_values.mpr ⟨feature, hfeature, hget⟩)
    refine (hnamed.imported_some h).mpr ⟨field, hfield, rfl, ?_⟩
    rw [returnedValue, hget]
    exact returned_of_fits hsqlite hlossy hfits

theorem same_of_kept (hsqlite : Documented sqlite)
    (hlossy : ∀ s, platform.lossy (Bytes.ofText s) = s) (h : Written platform sqlite layer crs)
    (hkept : Kept platform layer) :
    Same layer (importedLayer platform sqlite layer crs).refreshSchema := by
  refine same_iff.mpr ⟨fun feature hfeature => ⟨geometry_of_kept h hkept hfeature,
    properties_of_kept hsqlite hlossy h hkept hfeature⟩, fun name => ?_⟩
  by_cases hexists : ∃ feature ∈ layer.features, name ∈ feature.properties
  · rw [if_pos hexists]
    obtain ⟨feature, hfeature, hname⟩ := hexists
    obtain ⟨field, hfield, rfl⟩ := (hkept.entries feature hfeature name).mp hname
    rw [(named_iff.mpr hkept.names).field_eq h hfield, map_some, hkept.typed field hfield]
  · rw [if_neg hexists, eq_comm, map_eq_none_iff, Layer.field, find?_eq_none]
    intro field hfield heq
    obtain ⟨feature, hfeature⟩ := exists_mem_of_ne_nil _ hkept.nonempty
    have hname : field.name = name := by simpa using heq
    exact hexists ⟨feature, hfeature,
      (hkept.entries feature hfeature name).mpr ⟨field, hfield, hname⟩⟩

/-- A layer that has been exported comes back from the file exactly when nothing of it is written
as something else. -/
theorem gpkg_comes_back_iff (hsqlite : Documented sqlite)
    (hlossy : ∀ s, platform.lossy (Bytes.ofText s) = s) {file : File}
    (h : write platform sqlite layer = .ok file) :
    ComesBack platform sqlite layer file ↔ Kept platform layer := by
  obtain ⟨crs, hwritten, rfl⟩ := write_ok hsqlite h
  rw [comesBack_iff hsqlite hwritten]
  constructor
  · intro ⟨hnonempty, hvalid, hsame⟩
    exact kept_of_same hsqlite hwritten hnonempty hvalid hsame
  · intro hkept
    have hsame := same_of_kept hsqlite hlossy hwritten hkept
    refine ⟨hkept.nonempty, (valid_iff hwritten).mpr fun feature hfeature g hg => ?_, hsame⟩
    rw [geometry_of_kept hwritten hkept hfeature] at hg
    exact hkept.coordinates crs hwritten.lookup feature hfeature g hg

/-! ## A layer that comes back and one that does not -/

namespace Sample

def store (declared : String) (cell : Cell) : Cell :=
  match declared, cell with
  | "REAL", .real x => if x.isNan then .null else .real x
  | "TEXT", .real _ => .text (Bytes.ofText "0.0")
  | _, cell => cell

def isSmall : Cell → Bool
  | .blob bytes => bytes.length < 2 ^ 31
  | _ => true

def memory : Sqlite Database where
  save db := db
  load := .ok
  create _ columns :=
    if (columns.map fun column => toAsciiLowercase column.name).Nodup then .ok ()
    else .error "duplicate column name"
  insert cells := if cells.all isSmall then .ok () else .error "string or blob too big"
  store := store
  noTable name := "no such table: " ++ name

theorem documented : Documented memory where
  load_save _ := rfl
  distinct table columns h := by
    by_cases hnodup : (columns.map fun column => toAsciiLowercase column.name).Nodup
    · exact hnodup
    · have hrefused : memory.create table columns = .error "duplicate column name" :=
        if_neg hnodup
      rw [hrefused] at h
      cases h
  sized cells h blob hblob := by
    by_cases hsmall : cells.all isSmall = true
    · exact of_decide_eq_true (all_eq_true.mp hsmall _ hblob)
    · have hrefused : memory.insert cells = .error "string or blob too big" := if_neg hsmall
      rw [hrefused] at h
      cases h
  null declared := by
    show store declared .null = .null
    rw [store] <;> nofun
  blob declared bytes := by
    show store declared (.blob bytes) = .blob bytes
    rw [store] <;> nofun
  integer _ := rfl
  real _ := rfl
  text _ := rfl
  number _ := .inr ⟨_, rfl⟩

def libraries : Platform where
  outlines := Wkb.Sample.corners
  boundingRect g := g.coords.head?.map fun c => ⟨c, c⟩
  floatText _ := ""
  shown _ := ""
  lossy bytes := (Bytes.toText? bytes).getD ""

theorem lossy_ofText (s : String) : libraries.lossy (Bytes.ofText s) = s := by
  show (Bytes.toText? (Bytes.ofText s)).getD "" = s
  rw [Bytes.toText?_ofText]
  rfl

def station (fieldType : FieldType) (value : Value) : Layer where
  name := "stations"
  crs := "EPSG:6675"
  crsStatus := .declared
  fields := [⟨"n", fieldType, none⟩]
  features :=
    [⟨0, some (.point ⟨.zero, .zero⟩), (∅ : Std.ExtTreeMap String Value).insert "n" value⟩]

def counted : Layer := station .integer (.ofInt 3)

def flagged : Layer := station .boolean (.bool true)

theorem station_crs : Proj.lookup "EPSG:6675" = .ok (Proj.info 6675 .metres) := by
  rfl

theorem station_written {layer : Layer}
    (hcrs : Proj.lookup layer.crs = .ok (Proj.info 6675 .metres))
    (hcreate : orExport (memory.create (sanitizeIdentifier layer.name) (columns layer)) = .ok ())
    (hinsert : ∀ feature ∈ layer.features,
      orExport (memory.insert (boundCells libraries layer 6675 feature)) = .ok ()) :
    write libraries memory layer = .ok (database libraries memory layer 6675) := by
  refine bind_iff.mpr ⟨_, hcrs, bind_iff.mpr ⟨(), hcreate, bind_iff.mpr ⟨(), ?_, rfl⟩⟩⟩
  exact Each.forM_ok.mpr hinsert

theorem counted_written : write libraries memory counted =
    .ok (database libraries memory counted 6675) :=
  station_written station_crs rfl (by decide)

theorem flagged_written : write libraries memory flagged =
    .ok (database libraries memory flagged 6675) :=
  station_written station_crs rfl (by decide)

theorem counted_kept : Kept libraries counted where
  nonempty := by decide
  names := by decide
  entries := by
    intro feature hfeature name
    obtain rfl := mem_singleton.mp hfeature
    rw [mem_insert]
    simp [counted, station]
  typed := by decide
  values := by decide
  geometries := by
    intro feature hfeature g hg
    obtain rfl := mem_singleton.mp hfeature
    cases hg
    exact ⟨rfl, rfl⟩
  coordinates := by
    intro crs hcrs feature hfeature g hg c hc
    cases station_crs.symm.trans hcrs
    obtain rfl := mem_singleton.mp hfeature
    cases hg
    obtain rfl := mem_singleton.mp hc
    decide

theorem counted_back :
    ComesBack libraries memory counted (database libraries memory counted 6675) :=
  (gpkg_comes_back_iff documented lossy_ofText counted_written).mpr counted_kept

/-- A truth value comes back as an integer. -/
theorem flag_lost : write libraries memory flagged = .ok (database libraries memory flagged 6675) ∧
    ¬ ComesBack libraries memory flagged (database libraries memory flagged 6675) := by
  refine ⟨flagged_written, fun hback => ?_⟩
  obtain ⟨crs, hwritten, hfile⟩ := write_ok documented flagged_written
  cases station_crs.symm.trans hwritten.lookup
  obtain ⟨-, -, hsame⟩ := (comesBack_iff documented hwritten).mp hback
  have hfeature := (same_iff.mp hsame).1 _ (mem_singleton.mpr rfl)
  have hvalue : (importedProperties libraries memory flagged ⟨0, some (.point ⟨.zero, .zero⟩),
        (∅ : Std.ExtTreeMap String Value).insert "n" (.bool true)⟩)["n"]?.bind
          (fun value => fieldTypeOf value.json) = some .integer := by rfl
  rw [hfeature.2] at hvalue
  revert hvalue
  decide

end Sample

end GeneGIS.Toolkit.Gpkg
