/-
A truth value is written as an integer and a nested value as a text.  A layer comes back exactly
when nothing of it is written as something else.
-/
import GeneGIS.Data.Each
import GeneGIS.Data.Keyed
import GeneGIS.Toolkit.Gpkg
import GeneGIS.Toolkit.Schema
import GeneGIS.Toolkit.WkbRoundTrip

namespace GeneGIS.Toolkit
namespace Gpkg

open Fallible
open List hiding map_map
open Option hiding map_map

variable {File : Type} {platform : Platform} {sqlite : Sqlite File} {layer : Layer}

theorem decodeBlob_header {flags a b c d : UInt8} {box wkb : Bytes}
    (hstandard : flags.toNat.testBit 5 = false)
    (henvelope : envelopeSize flags.toNat = .ok box.length) :
    decodeBlob (0x47 :: 0x50 :: 0 :: flags :: a :: b :: c :: d :: (box ++ wkb)) =
      if flags.toNat.testBit 4 then .ok none
      else
        match Wkb.read wkb with
        | .ok geometry => .ok (some geometry)
        | .error reason => .error (.importFailed "wkb" reason) := by
  have hflags : (0x47 :: 0x50 :: 0 :: flags :: a :: b :: c :: d :: (box ++ wkb)).getD 3 0 = flags :=
    rfl
  have hdrop : (0x47 :: 0x50 :: 0 :: flags :: a :: b :: c :: d :: (box ++ wkb)).drop
      (8 + box.length) = wkb := by
    rw [← drop_drop]
    exact drop_left
  rw [decodeBlob, if_neg (by simp [magic])]
  dsimp only
  rw [hflags, hstandard, if_neg Bool.false_ne_true, henvelope]
  show (if _ then _ else _) = _
  have hlong : ¬ (0x47 :: 0x50 :: 0 :: flags :: a :: b :: c :: d :: (box ++ wkb)).length <
      8 + box.length := by
    simp
    omega
  rw [hdrop]
  cases flags.toNat.testBit 4 with
  | true => rfl
  | false => cases Wkb.read wkb <;> exact if_neg hlong

theorem decodeBlob_encodeBlob {g : Geometry} (h : Wkb.Counted platform.outlines g) (srsId : Int) :
    decodeBlob (encodeBlob platform g srsId) = .ok
      (if (platform.boundingRect g).isSome then some (g.normalise platform.outlines).again
        else none) := by
  have hread : Wkb.read (Wkb.writeGeometry platform.outlines g) =
      .ok (g.normalise platform.outlines).again := by
    have hwrite := Wkb.geometry_write h []
    rw [append_nil] at hwrite
    rw [Wkb.read, hwrite]
  obtain ⟨a, b, c, d, hid⟩ : ∃ a b c d, i32Bytes srsId = [a, b, c, d] := ⟨_, _, _, _, rfl⟩
  rw [encodeBlob, hid]
  cases platform.boundingRect g with
  | none => exact @decodeBlob_header 0x11 a b c d [] _ (by decide) rfl
  | some rect =>
    have hbox : envelopeSize (3 : UInt8).toNat = .ok
        ([rect.min.x, rect.max.x, rect.min.y, rect.max.y].flatMap Wkb.float).length := by
      simp [Wkb.float, envelopeSize]
    have hblob := @decodeBlob_header 3 a b c d _ (Wkb.writeGeometry platform.outlines g)
      (by decide) hbox
    rw [hread] at hblob
    exact hblob

/-- A column keeps a cell of its own kind, and a text column a number as a text. Columns have
distinct names, and no blob has more bytes than thirty-one bits count. -/
structure Documented (sqlite : Sqlite File) : Prop where
  load_save : ∀ db, sqlite.load (sqlite.save db) = .ok db
  distinct : ∀ table columns, sqlite.create table columns = .ok () →
    (columns.map fun column => Text.toAsciiLowercase column.name).Nodup
  sized : ∀ cells, sqlite.insert cells = .ok () → ∀ blob, .blob blob ∈ cells → blob.length < 2 ^ 31
  null : ∀ declared, sqlite.store declared .null = .null
  blob : ∀ declared bytes, sqlite.store declared (.blob bytes) = .blob bytes
  integer : ∀ i, sqlite.store "INTEGER" (.integer i) = .integer i
  real : ∀ x, sqlite.store "REAL" (.real x) = if x.isNan then .null else .real x
  text : ∀ bytes, sqlite.store "TEXT" (.text bytes) = .text bytes
  number : ∀ x, sqlite.store "TEXT" (.real x) = .null ∨
    ∃ bytes, sqlite.store "TEXT" (.real x) = .text bytes

/-- What a file that has been written says about its layer. -/
structure Written (platform : Platform) (sqlite : Sqlite File) (layer : Layer) (crs : CrsInfo) :
    Prop where
  lookup : Proj.lookup layer.crs = .ok crs
  distinct : ((writtenFields layer).map fun field => sanitizeIdentifier field.name).Nodup
  counted : ∀ feature ∈ layer.features, ∀ g, feature.geometry = some g →
    Wkb.Counted platform.outlines g

theorem encodeBlob_length (g : Geometry) (srsId : Int) :
    (Wkb.writeGeometry platform.outlines g).length ≤ (encodeBlob platform g srsId).length := by
  rw [encodeBlob]
  cases platform.boundingRect g with
  | none =>
    simp only [length_append, length_cons]
    omega
  | some rect =>
    simp only [length_append, length_cons]
    omega

theorem write_ok (hsqlite : Documented sqlite) {file : File}
    (h : write platform sqlite layer = .ok file) :
    ∃ crs, Written platform sqlite layer crs ∧
      file = sqlite.save (database platform sqlite layer crs.epsg) := by
  obtain ⟨crs, hlookup, h⟩ := bind_iff.mp h
  obtain ⟨_, hcreate, h⟩ := bind_iff.mp h
  obtain ⟨_, hinsert, h⟩ := bind_iff.mp h
  refine ⟨crs, ⟨hlookup, ?_, ?_⟩, (Except.ok.inj h).symm⟩
  · have hnodup := hsqlite.distinct _ _ (mapError_iff.mp hcreate)
    rw [columns, List.map_cons, List.map_cons, nodup_cons, nodup_cons] at hnodup
    have hmap : ((writtenFields layer).map fieldColumn).map
        (fun column => Text.toAsciiLowercase column.name) =
        ((writtenFields layer).map fun field => sanitizeIdentifier field.name).map
          Text.toAsciiLowercase := by
      simp only [List.map_map, Function.comp_def, fieldColumn]
    have hlower := hnodup.2.2
    rw [hmap] at hlower
    exact hlower.of_map _
  · intro feature hfeature g hg
    have hcell := mapError_iff.mp (Each.forM_ok.mp hinsert feature hfeature)
    have hmem : Cell.blob (encodeBlob platform g crs.epsg) ∈
        boundCells platform layer crs.epsg feature := by
      rw [boundCells, geometryCell, hg]
      exact mem_cons_self
    have hsize := hsqlite.sized _ hcell _ hmem
    have hle := @encodeBlob_length platform g crs.epsg
    exact Wkb.counted_of_length g (by omega)

/-! ## Rows -/

/-- The value of an attribute after the file. -/
def returnedValue (platform : Platform) (sqlite : Sqlite File) (feature : Feature)
    (field : Field) : Value :=
  cellValue platform (sqlite.store (sqlType field.fieldType)
    (toSqlValue platform feature.properties[field.name]? field.fieldType))

def importedProperties (platform : Platform) (sqlite : Sqlite File) (layer : Layer)
    (feature : Feature) : Std.ExtTreeMap String Value :=
  ((writtenFields layer).map fun field =>
    (sanitizeIdentifier field.name, returnedValue platform sqlite feature field)).foldl
      (fun properties entry => properties.insert entry.1 entry.2) ∅

def importedGeometry (platform : Platform) (feature : Feature) : Option Geometry :=
  feature.geometry.bind fun g =>
    if (platform.boundingRect g).isSome then some (g.normalise platform.outlines).again else none

theorem storedRow_eq (srsId : Int) (entry : Feature × Nat) :
    storedRow platform sqlite layer srsId entry = .integer (.ofInt (entry.2 + 1)) ::
        sqlite.store "GEOMETRY" (geometryCell platform srsId entry.1) ::
          (writtenFields layer).map fun field => sqlite.store (sqlType field.fieldType)
            (toSqlValue platform entry.1.properties[field.name]? field.fieldType) := by
  rw [storedRow, columns, boundCells, List.tail_cons, List.zip_cons_cons, List.map_cons,
    List.zip_map', List.map_map]
  exact congrArg₂ List.cons rfl (congrArg₂ List.cons rfl (List.map_congr_left fun field _ => rfl))

theorem isWritten_ne {field : Field} (h : isWritten field = true) :
    sanitizeIdentifier field.name ≠ "geom" ∧ sanitizeIdentifier field.name ≠ "fid" := by
  rw [isWritten, Bool.not_eq_true', Bool.or_eq_false_iff] at h
  constructor
  · intro heq
    rw [heq] at h
    exact absurd h.2 (by decide)
  · intro heq
    rw [heq] at h
    exact absurd h.1 (by decide)

theorem foldl_addCell {fields : List Field} (hfields : ∀ field ∈ fields, isWritten field = true)
    (cell : Field → Cell) (record : Record) :
    (fields.map fun field => (sanitizeIdentifier field.name, cell field)).foldl
      (addCell platform "geom" (some "fid")) record =
      { record with
        properties := (fields.map fun field =>
          (sanitizeIdentifier field.name, cellValue platform (cell field))).foldl
            (fun properties entry => properties.insert entry.1 entry.2) record.properties } := by
  induction fields generalizing record with
  | nil => rfl
  | cons field rest ih =>
    rw [List.forall_mem_cons] at hfields
    obtain ⟨hgeom, hfid⟩ := isWritten_ne hfields.1
    have hstep : addCell platform "geom" (some "fid") record
        (sanitizeIdentifier field.name, cell field) =
        { record with
          properties := record.properties.insert (sanitizeIdentifier field.name)
            (cellValue platform (cell field)) } := by
      rw [addCell, if_neg hgeom, if_neg (by simpa using hfid)]
    simp only [List.map_cons, foldl_cons]
    rw [hstep, ih hfields.2]

theorem zip_storedRow (srsId : Int) (entry : Feature × Nat) :
    ((columns layer).map Column.name).zip (storedRow platform sqlite layer srsId entry) =
      ("fid", .integer (.ofInt (entry.2 + 1))) ::
        ("geom", sqlite.store "GEOMETRY" (geometryCell platform srsId entry.1)) ::
          (writtenFields layer).map fun field => (sanitizeIdentifier field.name,
            sqlite.store (sqlType field.fieldType)
              (toSqlValue platform entry.1.properties[field.name]? field.fieldType)) := by
  rw [storedRow_eq, columns, List.map_cons, List.map_cons, List.zip_cons_cons,
    List.zip_cons_cons, List.map_map, List.zip_map']
  simp only [Function.comp_apply, fieldColumn, keyColumn, geometryColumn]

variable {crs : CrsInfo}

theorem addCell_geometry (hsqlite : Documented sqlite)
    (h : Written platform sqlite layer crs) {feature : Feature}
    (hfeature : feature ∈ layer.features) :
    addCell platform "geom" (some "fid") {}
      ("geom", sqlite.store "GEOMETRY" (geometryCell platform crs.epsg feature)) =
      { geometry := importedGeometry platform feature } := by
  rw [addCell, if_pos rfl, geometryCell, importedGeometry]
  cases hg : feature.geometry with
  | none =>
    rw [elim_none, hsqlite.null]
    rfl
  | some g =>
    rw [Option.elim_some, hsqlite.blob]
    dsimp only
    rw [decodeBlob_encodeBlob (h.counted feature hfeature g hg)]
    rfl

theorem readRecord_storedRow (hsqlite : Documented sqlite)
    (h : Written platform sqlite layer crs) {feature : Feature}
    (hfeature : feature ∈ layer.features) (i : Nat) (rows : List (List Cell)) :
    readRecord platform "geom" ⟨sanitizeIdentifier layer.name, columns layer, rows⟩
      (storedRow platform sqlite layer crs.epsg (feature, i)) =
      { properties := importedProperties platform sqlite layer feature
        geometry := importedGeometry platform feature } := by
  have hfields : ∀ field ∈ writtenFields layer, isWritten field = true :=
    fun field hfield => (List.mem_filter.mp hfield).2
  have hkey : ((columns layer).find? Column.primaryKey).map Column.name = some "fid" := by
    rw [columns, find?_cons_of_pos (by rfl)]
    rfl
  have hfid : ∀ i, addCell platform "geom" (some "fid") {} ("fid", .integer i) = {} := by
    intro i
    rw [addCell]
    dsimp only
    rw [if_neg (by decide), if_pos rfl]
  rw [readRecord]
  dsimp only
  rw [hkey, zip_storedRow, foldl_cons, foldl_cons, hfid,
    addCell_geometry hsqlite h hfeature, foldl_addCell hfields]
  rfl

/-! ## The layer read back -/

def importedFeature (platform : Platform) (sqlite : Sqlite File) (layer : Layer)
    (entry : Feature × Nat) : Feature where
  id := UInt64.ofNat entry.2
  geometry := importedGeometry platform entry.1
  properties := importedProperties platform sqlite layer entry.1

def importedFeatures (platform : Platform) (sqlite : Sqlite File) (layer : Layer) : List Feature :=
  layer.features.zipIdx.map (importedFeature platform sqlite layer)

def importedLayer (platform : Platform) (sqlite : Sqlite File) (layer : Layer) (crs : CrsInfo) :
    Layer where
  name := sanitizeIdentifier layer.name
  crs := crs.id
  crsStatus := .declared
  features := importedFeatures platform sqlite layer

theorem foldl_addRow (hsqlite : Documented sqlite)
    (h : Written platform sqlite layer crs) {features : List Feature}
    (hfeatures : ∀ feature ∈ features, feature ∈ layer.features) (done : List Feature)
    (skipped : List SkippedRecord) (rows : List (List Cell)) (start : Nat) :
    List.foldl (addRow platform "geom" ⟨sanitizeIdentifier layer.name, columns layer, rows⟩)
      (done, skipped)
      (((features.zipIdx done.length).map
        (storedRow platform sqlite layer crs.epsg)).zipIdx start) =
      (done ++ (features.zipIdx done.length).map (importedFeature platform sqlite layer),
        skipped) := by
  induction features generalizing done start with
  | nil => simp
  | cons feature rest ih =>
    rw [List.forall_mem_cons] at hfeatures
    have hstep : addRow platform "geom" ⟨sanitizeIdentifier layer.name, columns layer, rows⟩
        (done, skipped)
        (storedRow platform sqlite layer crs.epsg (feature, done.length), start) =
        (done ++ [importedFeature platform sqlite layer (feature, done.length)], skipped) := by
      rw [addRow, readRecord_storedRow hsqlite h hfeatures.1]
      rfl
    have hrest := ih hfeatures.2 (done ++ [importedFeature platform sqlite layer
      (feature, done.length)]) (start + 1)
    rw [length_append, length_singleton] at hrest
    rw [zipIdx_cons, List.map_cons, zipIdx_cons, foldl_cons, hstep, hrest,
      List.map_cons, append_assoc, singleton_append]

theorem featureTables_database (srsId : Int) (layer : Layer) (hsrs : srsId ≠ -1 ∧ srsId ≠ 0) :
    Container.featureTables
      { spatialRefs := spatialRefs srsId
        geometryColumns := [⟨sanitizeIdentifier layer.name, "geom", srsId⟩] } =
      [⟨sanitizeIdentifier layer.name, "geom", srsId, some "EPSG", some srsId⟩] := by
  have hfind : (spatialRefs srsId).find? (fun ref => ref.srsId = srsId) =
      some ⟨srsId, "EPSG", srsId⟩ := by
    rw [spatialRefs]
    by_cases h : srsId = 4326
    · rw [h]
      rfl
    · simp [h, Ne.symm hsrs.1, Ne.symm hsrs.2, Ne.symm h]
  rw [Container.featureTables, map_singleton, mergeSort_singleton, Container.featureTable]
  dsimp only
  rw [hfind]
  rfl

theorem settleCrs_written {table : String} (h : Proj.lookupEpsg crs.epsg = .ok crs) :
    settleCrs {} ⟨table, "geom", crs.epsg, some "EPSG", some crs.epsg⟩ =
      .ok (crs.id, .declared, ["CRS " ++ crs.id ++ " read from gpkg_spatial_ref_sys"]) := by
  have hupper : Text.toAsciiUppercase "EPSG" = "EPSG" := by decide
  have hlt := Proj.lookupEpsg_lt h
  have hcode : asU32 crs.epsg = crs.epsg := by
    rw [asU32]
    omega
  have hdeclared : declaredEpsg ⟨table, "geom", crs.epsg, some "EPSG", some crs.epsg⟩ =
      .ok crs.epsg := by
    simp only [declaredEpsg, map_some, hupper, hcode]
  exact then_ok hdeclared (then_ok h rfl)

theorem readTable_written (hsqlite : Documented sqlite) (h : Written platform sqlite layer crs) :
    readTable platform "geom"
      { name := sanitizeIdentifier layer.name
        columns := columns layer
        rows := layer.features.zipIdx.map (storedRow platform sqlite layer crs.epsg) } =
      (importedFeatures platform sqlite layer, []) :=
  foldl_addRow hsqlite h (fun _ hf => hf) [] [] _ 0

theorem read_written (hsqlite : Documented sqlite)
    (h : Written platform sqlite layer crs) (report : ImportReport) :
    ∃ report', read platform sqlite (sqlite.save (database platform sqlite layer crs.epsg)) {}
      report = .ok ((importedLayer platform sqlite layer crs).refreshSchema, report') := by
  obtain ⟨hknown, -⟩ := Proj.lookup_name h.lookup
  have hsrs : (crs.epsg : Int) ≠ -1 ∧ (crs.epsg : Int) ≠ 0 := by
    have hpos : crs.epsg ≠ 0 := by
      intro hzero
      rw [hzero] at hknown
      cases hknown
    omega
  have hload : orImport (sqlite.load (sqlite.save (database platform sqlite layer crs.epsg))) =
      .ok (database platform sqlite layer crs.epsg) := by
    rw [hsqlite.load_save]
    rfl
  have hfind : (database platform sqlite layer crs.epsg).tables.find?
      (fun t => sameName t.name (sanitizeIdentifier layer.name)) =
      some
        { name := sanitizeIdentifier layer.name
          columns := columns layer
          rows := layer.features.zipIdx.map (storedRow platform sqlite layer crs.epsg) } :=
    find?_cons_of_pos (by simp [sameName])
  refine Exists.intro ?_ (then_ok hload (then_ok rfl ?_))
  rotate_left
  · rw [featureTables_database crs.epsg layer hsrs]
    refine then_ok rfl (then_ok (settleCrs_written hknown) ?_)
    dsimp only
    rw [hfind]
    dsimp only
    rw [readTable_written hsqlite h, getD_none]
    rfl

/-! ## Geometries that have a code -/

end Gpkg

namespace Geometry

variable {outlines : Outlines}

mutual
/-- Without lines of two coordinates, rectangles and triangles. -/
def isPlain : Geometry → Bool
  | .line _ _ | .rect _ | .triangle _ => false
  | .collection parts => areAllPlain parts
  | .point _ | .lineString _ | .polygon _ | .multiPoint _ | .multiLineString _
  | .multiPolygon _ => true

def areAllPlain : List Geometry → Bool
  | [] => true
  | part :: rest => isPlain part && areAllPlain rest
end

mutual
theorem normalise_plain : ∀ g : Geometry, isPlain g = true → normalise outlines g = g
  | .point _, _ | .lineString _, _ | .polygon _, _ | .multiPoint _, _ | .multiLineString _, _
  | .multiPolygon _, _ => by rw [normalise]
  | .collection parts, h => by
    rw [isPlain] at h
    rw [normalise, normaliseAll_plain parts h]

theorem normaliseAll_plain : ∀ parts : List Geometry, areAllPlain parts = true →
    normaliseAll outlines parts = parts
  | [], _ => rfl
  | part :: rest, h => by
    rw [areAllPlain, Bool.and_eq_true] at h
    rw [normaliseAll, normalise_plain part h.1, normaliseAll_plain rest h.2]
end

mutual
theorem plain_of_again : ∀ g : Geometry, again (normalise outlines g) = g → isPlain g = true
  | .point _, _ | .lineString _, _ | .polygon _, _ | .multiPoint _, _ | .multiLineString _, _
  | .multiPolygon _, _ => rfl
  | .line _ _, h => by simp [normalise, again] at h
  | .rect _, h => by simp [normalise, again] at h
  | .triangle _, h => by simp [normalise, again] at h
  | .collection parts, h => by
    rw [normalise, again, collection.injEq] at h
    rw [isPlain]
    exact allPlain_of_again parts h

theorem allPlain_of_again : ∀ parts : List Geometry,
    againAll (normaliseAll outlines parts) = parts → areAllPlain parts = true
  | [], _ => rfl
  | part :: rest, h => by
    rw [normaliseAll, againAll, List.cons.injEq] at h
    rw [areAllPlain, plain_of_again part h.1, allPlain_of_again rest h.2]
    rfl
end

theorem isNan_of_isFinite {c : Coord} (h : c.x.isFinite = true ∧ c.y.isFinite = true) :
    c.isNan = false := by
  have hnan : ∀ x : F64, x.isFinite = true → x.isNan = false := by
    intro x hx
    rw [F64.isFinite, bne_iff_ne] at hx
    rw [F64.isNan, beq_eq_false_iff_ne.mpr hx, Bool.false_and]
  rw [Coord.isNan, hnan c.x h.1, hnan c.y h.2]
  rfl

def Finite (coords : List Coord) : Prop := ∀ c ∈ coords, c.x.isFinite = true ∧ c.y.isFinite = true

theorem Finite.append {a b : List Coord} (h : Finite (a ++ b)) : Finite a ∧ Finite b :=
  ⟨fun c hc => h c (List.mem_append_left _ hc), fun c hc => h c (List.mem_append_right _ hc)⟩

theorem polygon_startsAtNumbers {p : Polygon}
    (h : Finite ((p.exterior :: p.interiors).flatMap Ring.coords)) :
    p.startsAtNumbers = true := by
  have hring : ∀ r ∈ p.exterior :: p.interiors, r.startsAtNumber = true := by
    intro r hr
    rw [Ring.startsAtNumber]
    cases hhead : r.coords.head? with
    | none => rfl
    | some c =>
      have hmem : c ∈ (p.exterior :: p.interiors).flatMap Ring.coords :=
        List.mem_flatMap.mpr ⟨r, hr, List.mem_of_head? hhead⟩
      rw [Option.all_some, isNan_of_isFinite (h c hmem)]
      rfl
  rw [List.forall_mem_cons] at hring
  rw [Polygon.startsAtNumbers, hring.1, List.all_eq_true.mpr hring.2]
  rfl

mutual
theorem startsAtNumbers_of_finite : ∀ g : Geometry, Finite (coords g) → startsAtNumbers g = true
  | .point _, _ | .line _ _, _ | .lineString _, _ | .multiPoint _, _ | .multiLineString _, _
  | .rect _, _ | .triangle _, _ => rfl
  | .polygon p, h => by
    rw [coords] at h
    exact polygon_startsAtNumbers h
  | .multiPolygon polygons, h => by
    rw [coords] at h
    rw [startsAtNumbers, List.all_eq_true]
    intro p hp
    exact polygon_startsAtNumbers fun c hc => h c (List.mem_flatMap.mpr ⟨p, hp, hc⟩)
  | .collection parts, h => by
    rw [coords] at h
    exact startsAllAtNumbers_of_finite parts h

theorem startsAllAtNumbers_of_finite : ∀ parts : List Geometry, Finite (coordsAll parts) →
    startsAllAtNumbers parts = true
  | [], _ => rfl
  | part :: rest, h => by
    rw [coordsAll] at h
    rw [startsAllAtNumbers, startsAtNumbers_of_finite part h.append.1,
      startsAllAtNumbers_of_finite rest h.append.2]
    rfl
end

end Geometry

namespace Gpkg

def inDomain (crs : CrsInfo) (c : Coord) : Bool := c.x.isFinite && c.y.isFinite &&
    (!crs.isGeographic || (Crs.within 180 c.x && Crs.within 90 c.y))

theorem validateCoordinate_ok {crs : CrsInfo} {feature : Feature} {c : Coord} :
    validateCoordinate platform crs feature c = .ok () ↔ inDomain crs c = true := by
  rw [validateCoordinate, inDomain]
  cases c.x.isFinite <;> cases c.y.isFinite <;> cases crs.isGeographic <;>
    cases Crs.within 180 c.x <;> cases Crs.within 90 c.y <;> simp

theorem validateCoordinates_ok {back : Layer} {crs : CrsInfo} (h : Proj.lookup back.crs = .ok crs) :
    validateCoordinates platform back = .ok () ↔
      ∀ feature ∈ back.features, ∀ g, feature.geometry = some g →
        ∀ c ∈ g.coords, inDomain crs c = true := by
  rw [validateCoordinates, h]
  show (back.features.forM fun feature => (feature.geometry.elim [] Geometry.coords).forM
    (validateCoordinate platform crs feature)) = .ok () ↔ _
  rw [Each.forM_ok]
  refine forall₂_congr fun feature _ => ?_
  rw [Each.forM_ok]
  simp only [validateCoordinate_ok]
  cases feature.geometry with
  | none => simp
  | some g => simp

/-! ## Values -/

theorem importedProperties_some {crs : CrsInfo} (h : Written platform sqlite layer crs)
    {feature : Feature} {name : String} {v : Value} :
    (importedProperties platform sqlite layer feature)[name]? = some v ↔
      ∃ field ∈ writtenFields layer, sanitizeIdentifier field.name = name ∧
        returnedValue platform sqlite feature field = v := by
  rw [importedProperties, Keyed.getElem?_foldl_insert, Std.ExtTreeMap.getElem?_empty,
    Option.or_none, Option.map_eq_some_iff]
  constructor
  · intro hlast
    obtain ⟨entry, hentry, rfl⟩ := hlast
    obtain ⟨hmem, hname⟩ := List.mem_filter.mp (List.mem_of_getLast? hentry)
    obtain ⟨field, hfield, rfl⟩ := List.mem_map.mp hmem
    exact ⟨field, hfield, by simpa using hname, rfl⟩
  · intro hfield
    obtain ⟨field, hfield, hname, hvalue⟩ := hfield
    have hmem : (name, v) ∈ ((writtenFields layer).map fun field =>
        (sanitizeIdentifier field.name, returnedValue platform sqlite feature field)).filter
          fun entry => entry.1 = name := by
      rw [List.mem_filter, List.mem_map]
      exact ⟨⟨field, hfield, by rw [hname, hvalue]⟩, by simp⟩
    cases hlast : (((writtenFields layer).map fun field =>
        (sanitizeIdentifier field.name, returnedValue platform sqlite feature field)).filter
          fun entry => entry.1 = name).getLast? with
    | none =>
      rw [List.getLast?_eq_none_iff.mp hlast] at hmem
      cases hmem
    | some entry =>
      obtain ⟨hentry, hkey⟩ := List.mem_filter.mp (List.mem_of_getLast? hlast)
      obtain ⟨other, hother, rfl⟩ := List.mem_map.mp hentry
      have hotherName : sanitizeIdentifier other.name = name := by simpa using hkey
      have hsame : other = field :=
        Keyed.eq_of_mem h.distinct hother hfield (by rw [hotherName, hname])
      refine ⟨_, rfl, ?_⟩
      rw [hsame]
      exact hvalue

/-- The value has a cell of its own kind in a column of the type. -/
def fits (fieldType : FieldType) (json : Json) : Bool :=
  match fieldType, json with
  | _, .null => true
  | .integer, .num (.int n) => decide (-2 ^ 63 ≤ n ∧ n < 2 ^ 63)
  | .float, .num (.float _ _) => true
  | .text, .str _ => true
  | _, _ => false

theorem cellValue_json (cell : Cell) : (cellValue platform cell).json = .null ∨
      (∃ i : Int64, cell = .integer i ∧ (cellValue platform cell).json = .num (.int i.toInt)) ∨
      (∃ x h, (cellValue platform cell).json = .num (.float x h)) ∨
      ∃ s, (cellValue platform cell).json = .str s := by
  cases cell with
  | null => exact .inl rfl
  | integer i => exact .inr (.inl ⟨i, rfl, rfl⟩)
  | real x =>
    by_cases hx : x.isFinite = true
    · exact .inr (.inr (.inl ⟨x, hx, by rw [cellValue, Value.ofF64, dif_pos hx]⟩))
    · exact .inl (by rw [cellValue, Value.ofF64, dif_neg hx]; rfl)
  | text bytes => exact .inr (.inr (.inr ⟨_, rfl⟩))
  | blob _ => exact .inl rfl

theorem returned_of_fits (hsqlite : Documented sqlite)
    (hlossy : ∀ s, platform.lossy (Bytes.ofText s) = s) {t : FieldType} {v : Value}
    (h : fits t v.json = true) :
    cellValue platform (sqlite.store (sqlType t) (toSqlValue platform (some v) t)) = v := by
  refine Value.ext ?_
  rw [toSqlValue, Option.elim_some]
  cases hjson : v.json with
  | null =>
    dsimp only
    rw [hsqlite.null]
    rfl
  | bool b =>
    rw [hjson] at h
    cases t <;> cases h
  | num x =>
    rw [hjson] at h
    cases x with
    | int n =>
      cases t with
      | integer =>
        have hrange : -2 ^ 63 ≤ n ∧ n < 2 ^ 63 := of_decide_eq_true h
        have hcell : asI64 (.int n) = some (.ofInt n) := if_pos hrange
        dsimp only
        rw [hcell]
        dsimp only
        rw [sqlType, hsqlite.integer, cellValue, Int64.toInt_ofInt_of_le hrange.1 hrange.2]
        rfl
      | float => cases h
      | boolean => cases h
      | text => cases h
      | json => cases h
    | float x hx =>
      cases t with
      | float =>
        have hnan : x.isNan = false := by
          rw [F64.isFinite, bne_iff_ne] at hx
          rw [F64.isNan, beq_eq_false_iff_ne.mpr hx, Bool.false_and]
        show (cellValue platform (sqlite.store "REAL" (.real x))).json = _
        rw [hsqlite.real, hnan, if_neg Bool.false_ne_true, cellValue, Value.ofF64, dif_pos hx]
      | integer => cases h
      | boolean => cases h
      | text => cases h
      | json => cases h
  | str s =>
    rw [hjson] at h
    cases t with
    | text =>
      dsimp only
      rw [sqlType, hsqlite.text, cellValue, hlossy]
      rfl
    | integer => cases h
    | float => cases h
    | boolean => cases h
    | json => cases h
  | arr _ =>
    rw [hjson] at h
    cases t <;> cases h
  | obj _ =>
    rw [hjson] at h
    cases t <;> cases h

theorem real_not_int (hsqlite : Documented sqlite) {t : FieldType} (ht : t = .float ∨ t = .text)
    (x : F64) (n : Int) :
    (cellValue platform (sqlite.store (sqlType t) (.real x))).json ≠ .num (.int n) := by
  rcases ht with rfl | rfl
  · rw [sqlType, hsqlite.real]
    by_cases hnan : x.isNan = true
    · rw [if_pos hnan]
      intro h
      cases h
    · rw [if_neg hnan, cellValue, Value.ofF64]
      split <;> (intro h; cases h)
  · rw [sqlType]
    rcases hsqlite.number x with hcell | ⟨bytes, hcell⟩
    · rw [hcell]
      intro h
      cases h
    · rw [hcell]
      intro h
      cases h

theorem text_not_float (hsqlite : Documented sqlite) (x y : F64) (hy : y.isFinite = true) :
    (cellValue platform (sqlite.store "TEXT" (.real x))).json ≠ .num (.float y hy) := by
  rcases hsqlite.number x with hcell | ⟨bytes, hcell⟩
  · rw [hcell]
    nofun
  · rw [hcell]
    nofun

theorem fits_of_returned (hsqlite : Documented sqlite) {t : FieldType} {v : Value}
    (h : cellValue platform (sqlite.store (sqlType t) (toSqlValue platform (some v) t)) = v)
    (hkind : ∀ k, fieldTypeOf v.json = some k → FieldType.Within k t) (ht : t ≠ .json) :
    fits t v.json = true := by
  have hcases := @cellValue_json platform
    (sqlite.store (sqlType t) (toSqlValue platform (some v) t))
  rw [h] at hcases
  cases hjson : v.json with
  | null => cases t <;> rfl
  | bool b =>
    rw [hjson] at hcases
    simp at hcases
  | num x =>
    rw [hjson] at hkind
    cases x with
    | int n =>
      have hwithin := hkind .integer rfl
      cases t with
      | integer =>
        by_cases hrange : -2 ^ 63 ≤ n ∧ n < 2 ^ 63
        · exact decide_eq_true hrange
        · rw [hjson] at hcases
          rcases hcases with hc | ⟨i, -, hc⟩ | ⟨x, hx, hc⟩ | ⟨s, hc⟩
          · cases hc
          · obtain rfl : n = i.toInt := by simpa using hc
            exact absurd ⟨i.le_toInt, i.toInt_lt⟩ hrange
          · cases hc
          · cases hc
      | float =>
        refine absurd ?_ (@real_not_int _ _ platform hsqlite _ (.inl rfl) (asF64 (.int n)) n)
        rw [toSqlValue, Option.elim_some, hjson] at h
        rw [← hjson, ← h]
      | text =>
        refine absurd ?_ (@real_not_int _ _ platform hsqlite _ (.inr rfl) (asF64 (.int n)) n)
        rw [toSqlValue, Option.elim_some, hjson] at h
        rw [← hjson, ← h]
      | boolean => exact absurd hwithin (by decide)
      | json => exact absurd rfl ht
    | float x hx =>
      have hwithin := hkind .float rfl
      cases t with
      | float => rfl
      | text =>
        refine absurd ?_ (@text_not_float _ _ platform hsqlite x x hx)
        rw [toSqlValue, Option.elim_some, hjson] at h
        rw [← hjson, ← h]
        rfl
      | integer => exact absurd hwithin (by decide)
      | boolean => exact absurd hwithin (by decide)
      | json => exact absurd rfl ht
  | str s =>
    rw [hjson] at hkind
    have hwithin := hkind .text rfl
    cases t with
    | text => rfl
    | integer => exact absurd hwithin (by decide)
    | float => exact absurd hwithin (by decide)
    | boolean => exact absurd hwithin (by decide)
    | json => exact absurd rfl ht
  | arr _ =>
    rw [hjson] at hcases
    simp at hcases
  | obj _ =>
    rw [hjson] at hcases
    simp at hcases

end Gpkg
end GeneGIS.Toolkit
