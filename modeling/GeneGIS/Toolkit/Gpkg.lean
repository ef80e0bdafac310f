/-
A layer is one feature table: a row for every feature, with a key, the geometry and a column for
every field.  The reader takes every column but the key and the geometry as an attribute.
-/
import GeneGIS.Toolkit.Import
import GeneGIS.Toolkit.Proj

namespace GeneGIS.Toolkit.Gpkg

/-- A value of a database.  A text is bytes. -/
inductive Cell where
  | null
  | integer (i : Int64)
  | real (x : F64)
  | text (bytes : Bytes)
  | blob (bytes : Bytes)

structure Column where
  name : String
  declared : String
  primaryKey : Bool := false

structure Table where
  name : String
  columns : List Column
  rows : List (List Cell)

/-- A row of `gpkg_spatial_ref_sys`. -/
structure SpatialRef where
  srsId : Int
  organization : String
  organizationId : Int

/-- A row of `gpkg_geometry_columns`. -/
structure GeometryColumn where
  table : String
  column : String
  srsId : Int

structure Container where
  spatialRefs : List SpatialRef
  geometryColumns : List GeometryColumn

/-- The tables of a database; those of a container may be missing. -/
structure Database where
  container : Except String Container
  tables : List Table

/-- What SQLite does with a database and with the cells that are put into it. -/
structure Sqlite (File : Type) where
  save : Database → File
  load : File → Except String Database
  create : String → List Column → Except String Unit
  insert : List Cell → Except String Unit
  /-- A cell as a column of a declared type keeps it. -/
  store : String → Cell → Cell
  noTable : String → String

/-- What libraries do with numbers, text and geometries. -/
structure Platform where
  outlines : Outlines
  boundingRect : Geometry → Option Rect
  floatText : F64 → String
  shown : F64 → String
  lossy : Bytes → String

variable {File : Type} (platform : Platform) (sqlite : Sqlite File)

def importError (reason : String) : ToolkitError := .importFailed "geopackage" reason

def exportError (reason : String) : ToolkitError := .exportFailed "geopackage" reason

def envelopeSize (flags : Nat) : Except ToolkitError Nat :=
  match flags / 2 % 8 with
  | 0 => .ok 0
  | 1 => .ok 32
  | 2 | 3 => .ok 48
  | 4 => .ok 64
  | other => .error (importError ("invalid envelope indicator " ++ toString other))

def magic : Bytes := [0x47, 0x50]

def decodeBlob (blob : Bytes) : Except ToolkitError (Option Geometry) :=
  if blob.length < 8 ∨ blob.take 2 ≠ magic then
    .error (importError "geometry blob lacks the GP header")
  else
    let flags := (blob.getD 3 0).toNat
    if flags.testBit 5 then
      .error (importError "extended GeoPackage geometries are not supported")
    else do
      let envelope ← envelopeSize flags
      if flags.testBit 4 then .ok none
      else if blob.length < 8 + envelope then .error (importError "truncated geometry blob")
      else
        match Wkb.read (blob.drop (8 + envelope)) with
        | .ok geometry => .ok (some geometry)
        | .error reason => .error (.importFailed "wkb" reason)

/-- `i32::to_le_bytes`. -/
def i32Bytes (n : Int) : Bytes := Bytes.ofNat 4 (BitVec.ofInt 32 n).toNat

def encodeBlob (geometry : Geometry) (srsId : Int) : Bytes :=
  let wkb := Wkb.writeGeometry platform.outlines geometry
  match platform.boundingRect geometry with
  | none => magic ++ (0 :: 0x11 :: (i32Bytes srsId ++ wkb))
  | some rect =>
    magic ++ (0 :: 0x03 :: (i32Bytes srsId ++
      ([rect.min.x, rect.max.x, rect.min.y, rect.max.y].flatMap Wkb.float ++ wkb)))

def isControl (c : Char) : Bool := c.toNat < 0x20 || (0x7F ≤ c.toNat && c.toNat < 0xA0)

def sanitizeIdentifier (name : String) : String :=
  let cleaned := String.ofList (name.toList.filter fun c => !isControl c && c != '"')
  if Text.isBlank cleaned then "layer" else cleaned

/-- `as_i64` of a number. -/
def asI64 : Number → Option Int64
  | .int n => if -2 ^ 63 ≤ n ∧ n < 2 ^ 63 then some (.ofInt n) else none
  | .float _ _ => none

/-- `as_f64` of a number. -/
def asF64 : Number → F64
  | .int n => if n < 0 then .neg (.ofNat n.natAbs) else .ofNat n.natAbs
  | .float x _ => x

def toSqlValue (value : Option Value) (fieldType : FieldType) : Cell :=
  match value.elim .null Value.json with
  | .null => .null
  | .bool b => .integer (if b then 1 else 0)
  | .num n =>
    match fieldType, asI64 n with
    | .integer, some i => .integer i
    | _, _ => .real (asF64 n)
  | .str s => .text (Bytes.ofText s)
  | other => .text (Bytes.ofText (String.ofList (other.compactChars platform.floatText)))

def sqlType : FieldType → String
  | .integer => "INTEGER"
  | .float => "REAL"
  | .boolean => "BOOLEAN"
  | .text | .json => "TEXT"

def sameName (a b : String) : Bool := Text.toAsciiLowercase a = Text.toAsciiLowercase b

def isWritten (field : Field) : Bool :=
  let name := sanitizeIdentifier field.name
  !(sameName name "fid" || sameName name "geom")

variable (layer : Layer)

def writtenFields : List Field := layer.fields.filter isWritten

def keyColumn : Column := ⟨"fid", "INTEGER", true⟩

def geometryColumn : Column := ⟨"geom", "GEOMETRY", false⟩

def fieldColumn (field : Field) : Column where
  name := sanitizeIdentifier field.name
  declared := sqlType field.fieldType

def columns : List Column :=
  keyColumn :: geometryColumn :: (writtenFields layer).map fieldColumn

variable (srsId : Int) (feature : Feature)

def geometryCell : Cell :=
  feature.geometry.elim .null fun geometry => .blob (encodeBlob platform geometry srsId)

def boundCells : List Cell :=
  geometryCell platform srsId feature :: (writtenFields layer).map fun field =>
    toSqlValue platform feature.properties[field.name]? field.fieldType

def storedRow (entry : Feature × Nat) : List Cell := .integer (.ofInt (entry.2 + 1)) ::
    ((columns layer).tail.zip (boundCells platform layer srsId entry.1)).map fun written =>
      sqlite.store written.1.declared written.2

def spatialRefs : List SpatialRef := [⟨-1, "NONE", -1⟩, ⟨0, "NONE", 0⟩] ++
    (if srsId = 4326 then [] else [⟨4326, "EPSG", 4326⟩]) ++ [⟨srsId, "EPSG", srsId⟩]

def database : Database where
  container := .ok
    { spatialRefs := spatialRefs srsId
      geometryColumns := [⟨sanitizeIdentifier layer.name, "geom", srsId⟩] }
  tables :=
    [{ name := sanitizeIdentifier layer.name
       columns := columns layer
       rows := layer.features.zipIdx.map (storedRow platform sqlite layer srsId) }]

def orExport {α : Type} : Except String α → Except ToolkitError α := Except.mapError exportError

def write : Except ToolkitError File := do
  let crs ← Proj.lookup layer.crs
  orExport (sqlite.create (sanitizeIdentifier layer.name) (columns layer))
  layer.features.forM fun feature =>
    orExport (sqlite.insert (boundCells platform layer crs.epsg feature))
  return sqlite.save (database platform sqlite layer crs.epsg)

/-! ## Reading -/

/-- A feature table with its reference system, where the container defines it. -/
structure FeatureTable where
  table : String
  column : String
  srsId : Int
  organization : Option String
  organizationId : Option Int

def Container.featureTable (container : Container) (geometry : GeometryColumn) : FeatureTable :=
  let ref := container.spatialRefs.find? fun ref => ref.srsId = geometry.srsId
  { table := geometry.table
    column := geometry.column
    srsId := geometry.srsId
    organization := ref.map SpatialRef.organization
    organizationId := ref.map SpatialRef.organizationId }

def Container.featureTables (container : Container) : List FeatureTable :=
  (container.geometryColumns.map container.featureTable).mergeSort fun a b => a.table ≤ b.table

def tablesNote (tables : List FeatureTable) (first : FeatureTable) : String :=
  "GeoPackage has " ++ toString tables.length ++ " feature tables (" ++
    ", ".intercalate (tables.map FeatureTable.table) ++ "); imported " ++ first.table ++
    " (choose another with table)"

/-- The table to read, and what is noted about the choice. -/
def chooseTable (options : ImportOptions) (tables : List FeatureTable) :
    Except ToolkitError (FeatureTable × List String) :=
  match tables, options.table with
  | [], _ => .error (importError "the GeoPackage has no feature tables")
  | tables, some name =>
    match tables.find? fun t => t.table = name with
    | some chosen => .ok (chosen, [])
    | none => .error (importError ("no feature table named " ++ name))
  | first :: rest, none =>
    .ok (first, if rest.isEmpty then [] else [tablesNote (first :: rest) first])

/-- `as u32`. -/
def asU32 (n : Int) : Nat := (n % 2 ^ 32).toNat

def declaredEpsg (chosen : FeatureTable) : Except ToolkitError Nat :=
  match chosen.organization.map Text.toAsciiUppercase, chosen.organizationId with
  | some "EPSG", some code => .ok (asU32 code)
  | _, _ =>
    if chosen.srsId = 4326 then .ok 4326
    else .error (.crsRequired ("GeoPackage SRS " ++ toString chosen.srsId ++
      " is not an EPSG definition; choose the CRS explicitly"))

/-- The reference system, how it is known and what is noted about it. -/
def settleCrs (options : ImportOptions) (chosen : FeatureTable) :
    Except ToolkitError (String × CrsStatus × List String) := do
  match options.crs with
  | some user =>
    let crs ← Proj.lookup user
    return (crs.id, .userSupplied, [])
  | none =>
    let crs ← Proj.lookupEpsg (← declaredEpsg chosen)
    return (crs.id, .declared, ["CRS " ++ crs.id ++ " read from gpkg_spatial_ref_sys"])

def cellValue : Cell → Value
  | .null => .null
  | .integer i => .ofInt i.toInt
  | .real x => .ofF64 x
  | .text bytes => .str (platform.lossy bytes)
  | .blob _ => .null

/-- What the cells of a row give. -/
structure Record where
  properties : Std.ExtTreeMap String Value := ∅
  geometry : Option Geometry := none
  failed : Option String := none

variable (geometryName : String)

def addCell (key : Option String) (record : Record) (cell : String × Cell) : Record :=
  if cell.1 = geometryName then
    match cell.2 with
    | .blob blob =>
      match decodeBlob blob with
      | .ok geometry => { record with geometry := geometry }
      | .error error => { record with failed := some error.display }
    | _ => record
  else if some cell.1 = key then record
  else { record with properties := record.properties.insert cell.1 (cellValue platform cell.2) }

variable (table : Table)

def readRecord (row : List Cell) : Record :=
  let key := (table.columns.find? Column.primaryKey).map Column.name
  ((table.columns.map Column.name).zip row).foldl (addCell platform geometryName key) {}

/-- A row becomes a feature or a skipped record. -/
def addRow (state : List Feature × List SkippedRecord)
    (row : List Cell × Nat) : List Feature × List SkippedRecord :=
  let record := readRecord platform geometryName table row.1
  match record.failed with
  | some reason => (state.1, state.2 ++ [⟨row.2 + 1, .text reason⟩])
  | none =>
    (state.1 ++ [⟨UInt64.ofNat state.1.length, record.geometry, record.properties⟩], state.2)

def readTable : List Feature × List SkippedRecord :=
  table.rows.zipIdx.foldl (addRow platform geometryName table) ([], [])

def orImport {α : Type} : Except String α → Except ToolkitError α := Except.mapError importError

def notContainer (error : String) : String := "not a GeoPackage feature container: " ++ error

def read (file : File) (options : ImportOptions) (report : ImportReport) :
    Except ToolkitError (Layer × ImportReport) := do
  let db ← orImport (sqlite.load file)
  let container ← orImport (db.container.mapError notContainer)
  let (chosen, note) ← chooseTable options container.featureTables
  let (crs, status, crsNote) ← settleCrs options chosen
  match db.tables.find? fun t => sameName t.name chosen.table with
  | none => throw (importError (sqlite.noTable chosen.table))
  | some table =>
    let (features, skipped) := readTable platform chosen.column table
    let layer : Layer :=
      { name := options.name.getD chosen.table
        crs := crs
        crsStatus := status
        features := features }
    return (layer.refreshSchema,
      { report with
        notes := report.notes ++ note ++ crsNote
        skipped := report.skipped ++ skipped })

def notFinite : String := "feature " ++ toString feature.id ++ " has a non-finite coordinate"

def outside (feature : Feature) (c : Coord) (crs : CrsInfo) : String :=
  "feature " ++ toString feature.id ++ " has (" ++ platform.shown c.x ++ ", " ++
    platform.shown c.y ++ ") which is outside " ++ crs.id ++
    "; the declared CRS is probably wrong"

def validateCoordinate (crs : CrsInfo) (feature : Feature) (c : Coord) : Except ToolkitError Unit :=
  if !c.x.isFinite || !c.y.isFinite then .error (.invalidCoordinate (notFinite feature))
  else if crs.isGeographic && (!Crs.within 180 c.x || !Crs.within 90 c.y) then
    .error (.invalidCoordinate (outside platform feature c crs))
  else .ok ()

def validateCoordinates : Except ToolkitError Unit := do
  let crs ← Proj.lookup layer.crs
  layer.features.forM fun feature =>
    (feature.geometry.elim [] Geometry.coords).forM (validateCoordinate platform crs feature)

def skipText : SkipReason → String
  | .text reason => reason
  | .wkt _ => ""

def noFeatures (report : ImportReport) : String :=
  match report.skipped with
  | [] => "the file contains no features"
  | first :: _ => "no usable features; first problem: " ++ skipText first.reason

/-- `import_bytes` of a GeoPackage. -/
def importFile (file : File) (options : ImportOptions) :
    Except ToolkitError (Layer × ImportReport) := do
  let (layer, report) ← read platform sqlite file options {}
  if layer.features.isEmpty then .error (importError (noFeatures report))
  else do
    validateCoordinates platform layer
    return (layer, report)

end GeneGIS.Toolkit.Gpkg
