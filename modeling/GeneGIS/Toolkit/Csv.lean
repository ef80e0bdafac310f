/-
A layer is written with its attributes, its geometry as text and its reference system.  The reader
guesses the delimiter, the columns and the types.
-/
import GeneGIS.Toolkit.Import
import GeneGIS.Toolkit.Proj

namespace GeneGIS.Toolkit.Csv

open Text

/-- What libraries do with numbers and text: `serde_json`'s text of a number and
`str::to_lowercase` among them. -/
structure Platform where
  decimal : Decimal
  outlines : Outlines
  floatText : F64 → String
  lower : String → String
  encodings : Encodings

variable (platform : Platform)

def doubleQuote (c : Char) : List Char := if c = '"' then ['"', '"'] else [c]

def needsQuotes (c : Char) : Bool := c = ',' || c = '"' || c = '\n' || c = '\r'

def csvCell (text : List Char) : List Char :=
  if text.any needsQuotes then '"' :: (text.flatMap doubleQuote ++ ['"']) else text

def attributeCell (value : Option Value) : List Char :=
  match value with
  | none => []
  | some v =>
    match v.json with
    | .null => []
    | .str s => csvCell s.toList
    | other => csvCell (other.compactChars platform.floatText)

def geometryText (geometry : Option Geometry) : List Char :=
  geometry.elim [] (Wkt.write platform.decimal platform.outlines)

def rowText (cells : List (List Char)) : List Char := [','].intercalate cells ++ ['\r', '\n']

def headerCells (layer : Layer) : List (List Char) :=
  layer.fields.map (fun field => csvCell field.name.toList) ++ ["geometry_wkt".toList, "crs".toList]

def featureCells (layer : Layer) (feature : Feature) : List (List Char) :=
  layer.fields.map (fun field => attributeCell platform feature.properties[field.name]?) ++
    [csvCell (geometryText platform feature.geometry), layer.crs.toList]

def csvText (layer : Layer) : List Char := rowText (headerCells layer) ++
    layer.features.flatMap fun feature => rowText (featureCells platform layer feature)

def writeCsv (layer : Layer) : Bytes :=
  Bytes.ofText (String.ofList ('\uFEFF' :: csvText platform layer))

/-- The line up to its end, which is a line feed that a carriage return may stand before. -/
def firstLine (text : List Char) : List Char :=
  let line := text.takeWhile fun c => c != '\n'
  if '\n' ∈ text ∧ line.getLast? = some '\r' then line.dropLast else line

def candidates : List Char := [',', '\t', ';']

/-- `Iterator::max_by_key`: the last of the greatest. -/
def maxByKey {α : Type} (key : α → Nat) (l : List α) : Option α := l.foldl (fun best a =>
    match best with
    | none => some a
    | some b => if key b ≤ key a then some a else some b) none

def detectDelimiter (text : List Char) : Char :=
  let first := firstLine text
  ((maxByKey (fun c => first.count c) candidates).filter fun c => first.contains c).getD ','

/-- The rows and the row and the field that are not over. -/
def scan (delimiter : Char) : List Char → Bool → List (List String) → List String → List Char →
    Except ToolkitError (List (List String))
  | [], true, _, _, _ => .error (.importFailed "csv" "unterminated quoted field")
  | [], false, rows, row, field =>
    .ok (if field.isEmpty && row.isEmpty then rows else rows ++ [row ++ [String.ofList field]])
  | '"' :: '"' :: rest, true, rows, row, field => scan delimiter rest true rows row (field ++ ['"'])
  | c :: rest, true, rows, row, field =>
    if c = '"' then scan delimiter rest false rows row field
    else scan delimiter rest true rows row (field ++ [c])
  | c :: rest, false, rows, row, field =>
    if c = '"' ∧ field.isEmpty then scan delimiter rest true rows row field
    else if c = delimiter then scan delimiter rest false rows (row ++ [String.ofList field]) []
    else if c = '\r' then scan delimiter rest false rows row field
    else if c = '\n' then scan delimiter rest false (rows ++ [row ++ [String.ofList field]]) [] []
    else scan delimiter rest false rows row (field ++ [c])

section

variable {rows : List (List String)} {row : List String} {field rest : List Char}

theorem scan_doubled : scan ',' ('"' :: '"' :: rest) true rows row field =
    scan ',' rest true rows row (field ++ ['"']) := by
  rw [scan]

theorem scan_closing (h : rest.head? ≠ some '"') : scan ',' ('"' :: rest) true rows row field =
    scan ',' rest false rows row field := by
  rw [scan.eq_4, if_pos rfl]
  intro rest' _ hrest
  rw [hrest] at h
  exact h rfl

theorem scan_inside {c : Char} (hc : c ≠ '"') : scan ',' (c :: rest) true rows row field =
    scan ',' rest true rows row (field ++ [c]) := by
  rw [scan.eq_4, if_neg hc]
  intro _ hquote _
  exact hc hquote

end

def parseRows (text : List Char) (delimiter : Char) : Except ToolkitError (List (List String)) :=
  scan delimiter text false [] [] []

/-! ## Columns -/

inductive GeometrySource where
  | wkt (column : Nat)
  | xy (x y : Nat)
  deriving DecidableEq

def xNames : List String :=
  ["lon", "lng", "long", "longitude", "x", "経度", "東経", "x座標", "easting", "point_x"]

def yNames : List String := ["lat", "latitude", "y", "緯度", "北緯", "y座標", "northing", "point_y"]

def wktNames : List String :=
  ["wkt", "geometry_wkt", "geometry", "geom", "the_geom", "shape", "ジオメトリ"]

def readTable (text : List Char) (delimiter : Char) :
    Except ToolkitError (List String × List (List String)) := do
  match ← parseRows text delimiter with
  | [] => throw (.importFailed "csv" "file is empty")
  | first :: rows =>
    let header := first.map trim
    if header.any String.isEmpty then
      throw (.importFailed "csv" "header contains an empty column name")
    return (header, rows)

def findColumn (header : List String) (explicit : Option String) (names : List String) :
    Except ToolkitError (Option Nat) :=
  match explicit with
  | some name =>
    match header.findIdx? fun h => h = name with
    | some column => .ok (some column)
    | none => .error (.importFailed "csv" ("column " ++ name ++ " does not exist"))
  | none => .ok (header.findIdx? fun h => platform.lower h ∈ names)

def geometrySource (options : ImportOptions) (header : List String) :
    Except ToolkitError GeometrySource := do
  let wktColumn ← findColumn platform header options.wktField wktNames
  let xColumn ← findColumn platform header options.xField xNames
  let yColumn ← findColumn platform header options.yField yNames
  match wktColumn, xColumn, yColumn with
  | some w, some x, some y =>
    if options.xField.isNone then return .wkt w else return .xy x y
  | some w, _, _ => return .wkt w
  | none, some x, some y => return .xy x y
  | none, _, _ =>
    throw (.importFailed "csv" ("no geometry columns found in [" ++ ", ".intercalate header ++
      "]; name them lon/lat (経度/緯度), x/y, or wkt, or pass x_field/y_field"))

def sourceNote (header : List String) : GeometrySource → String
  | .wkt w => "geometry read from WKT column " ++ header.getD w ""
  | .xy x y =>
    "geometry built from columns " ++ header.getD x "" ++ " (x) and " ++ header.getD y "" ++ " (y)"

/-- The cells of a column; a short row has none. -/
def column (rows : List (List String)) (col : Nat) : List String :=
  rows.filterMap fun row => row[col]?

/-- The one text that all cells with a text have. -/
def agreed (cells : List String) : Option String :=
  match (cells.map trim).filter fun v => !v.isEmpty with
  | [] => none
  | first :: others => if others.all fun v => v = first then some first else none

def isCrsName (name : String) : Bool := toAsciiLowercase name = "crs"

def crsColumn (header : List String) : Option Nat := header.findIdx? isCrsName

def declaredCrs (header : List String) (rows : List (List String)) : Option String :=
  (crsColumn header).bind fun col => agreed (column rows col)

inductive ColumnType where
  | integer
  | float
  | boolean
  | text
  deriving DecidableEq

/-- `str::parse::<i64>`. -/
def parseI64 (text : List Char) : Option Int :=
  let negative := text.head? = some '-'
  let digits := if negative ∨ text.head? = some '+' then text.drop 1 else text
  let value : Nat := digits.foldl (fun n c => 10 * n + (c.toNat - 48)) 0
  if digits.isEmpty || !digits.all Char.isDigit then none
  else if negative then if value ≤ 2 ^ 63 then some (-value) else none
  else if value < 2 ^ 63 then some value else none

def hasSignificantLeadingZero (value : List Char) : Bool :=
  let digits := if value.head? = some '-' then value.drop 1 else value
  1 < digits.length && digits.head? = some '0' && !"0.".toList.isPrefixOf digits

def parseNumber (value : String) : Option F64 :=
  let v := trim value
  if v.isEmpty ∨ toAsciiLowercase v = "nan" ∨
      "inf".toList <:+: (toAsciiLowercase v).toList then none
  else (platform.decimal.parse v.toList).filter F64.isFinite

/-- The type of one trimmed value.  A code with a leading zero stays text. -/
def valueType (value : String) : ColumnType :=
  if hasSignificantLeadingZero value.toList then .text
  else if (parseI64 value.toList).isSome then .integer
  else if (parseNumber platform value).isSome then .float
  else if toAsciiLowercase value = "true" ∨ toAsciiLowercase value = "false" then .boolean
  else .text

def ColumnType.widen (a b : ColumnType) : ColumnType :=
  if a = b then a
  else if a = .integer ∧ b = .float ∨ a = .float ∧ b = .integer then .float
  else .text

/-- Text is not widened any more, so the loop of the source stops there. -/
def columnType (cells : List String) : ColumnType :=
  (((cells.map trim).filter fun v => !v.isEmpty).foldl (fun kind v =>
    some (kind.elim (valueType platform v) fun known => known.widen (valueType platform v)))
      none).getD .text

def typedValue (cell : String) (type : ColumnType) : Value :=
  let v := trim cell
  if v.isEmpty then .null
  else
    match type with
    | .integer => (parseI64 v.toList).elim (.str cell) .ofInt
    | .float => (parseNumber platform v).elim (.str cell) .ofF64
    | .boolean => .bool (toAsciiLowercase v = "true")
    | .text => .str cell

/-! ## Features -/

def rowGeometry (source : GeometrySource) (row : List String) : Except SkipReason Geometry :=
  match source with
  | .wkt w =>
    match Wkt.read platform.decimal (row.getD w "") with
    | .ok geometry => .ok geometry
    | .error e => .error (.wkt e)
  | .xy x y =>
    match parseNumber platform (row.getD x ""), parseNumber platform (row.getD y "") with
    | some px, some py => .ok (.point ⟨px, py⟩)
    | _, _ => .error (.text ("coordinates (" ++ row.getD x "" ++ ", " ++ row.getD y "" ++
        ") are not numbers"))

/-- The cells by the name of their column; the last column of a name counts. -/
def rowProperties (header : List String) (types : List ColumnType) (skip : Nat → Bool)
    (row : List String) : Std.ExtTreeMap String Value :=
  row.zipIdx.foldl (fun properties cell =>
    if skip cell.2 then properties
    else properties.insert (header.getD cell.2 "")
      (typedValue platform cell.1 (types.getD cell.2 .text))) ∅

structure Sheet where
  header : List String
  source : GeometrySource
  types : List ColumnType
  skip : Nat → Bool

def addRow (sheet : Sheet) (state : List Feature × List SkippedRecord) (row : List String × Nat) :
    List Feature × List SkippedRecord :=
  if row.1.all isBlank then state
  else if row.1.length ≠ sheet.header.length then
    (state.1, state.2 ++ [⟨row.2 + 2, .text ("expected " ++ toString sheet.header.length ++
      " columns, found " ++ toString row.1.length)⟩])
  else
    match rowGeometry platform sheet.source row.1 with
    | .error reason => (state.1, state.2 ++ [⟨row.2 + 2, reason⟩])
    | .ok geometry =>
      (state.1 ++ [{
        id := UInt64.ofNat state.1.length
        geometry := some geometry
        properties := rowProperties platform sheet.header sheet.types sheet.skip row.1 }], state.2)

def inferredNote : String :=
  "CSV has no CRS; EPSG:4326 was inferred from the longitude/latitude value ranges — confirm or " ++
    "re-import with an explicit CRS"

def unknownCrs : String :=
  "CSV coordinates are outside the longitude/latitude range; choose the source CRS (for example " ++
    "EPSG:6675 for 平面直角座標系 VII 系)"

/-- The reference system of the layer and what is noted about it. -/
def settleCrs (options : ImportOptions) (declared : Option String) (layer : Layer) :
    Except ToolkitError (Layer × List String) :=
  match options.crs, declared with
  | some user, _ => do
    let info ← Proj.lookup user
    return ({ layer with crs := info.id, crsStatus := .userSupplied }, [])
  | none, some declared => do
    let info ← Proj.lookup declared
    return ({ layer with crs := info.id, crsStatus := .declared },
      ["CRS " ++ info.id ++ " read from the crs column"])
  | none, none =>
    if layer.features.isEmpty then .ok (layer, [])
    else if layer.coordinatesLookGeographic then
      .ok ({ layer with crsStatus := .inferred }, [inferredNote])
    else .error (.crsRequired unknownCrs)

def sheet (header : List String) (rows : List (List String)) (source : GeometrySource) : Sheet where
  header := header
  source := source
  types := (List.range header.length).map fun col => columnType platform (column rows col)
  skip col := source = .wkt col ||
    (declaredCrs header rows).isSome && crsColumn header = some col

def read (bytes : Bytes) (options : ImportOptions) (report : ImportReport) :
    Except ToolkitError (Layer × ImportReport) := do
  let (text, encoding) ← decodeText platform.encodings bytes options.encoding
  let (header, rows) ← readTable text.toList (detectDelimiter text.toList)
  let source ← geometrySource platform options header
  let (features, skipped) :=
    rows.zipIdx.foldl (addRow platform (sheet platform header rows source)) ([], report.skipped)
  let (layer, notes) ← settleCrs options (declaredCrs header rows)
    { name := options.name.getD "", crs := "EPSG:4326", crsStatus := .inferred, features := features }
  return (layer.refreshSchema,
    { encoding := some encoding
      skipped := skipped
      notes := report.notes ++ sourceNote header source :: notes })

end GeneGIS.Toolkit.Csv
