/-
Shapes are listed by record, each with its length in words of two bytes, and attributes in records
of one length.  Sizes are numbers of sixty-four bits.
-/
import GeneGIS.Data.Guarded
import GeneGIS.Toolkit.Csv
import GeneGIS.Toolkit.ShapeRings

namespace GeneGIS.Toolkit.Shapefile

open Guarded

def err (reason : String) : ToolkitError := .importFailed "shapefile" reason

/-- `b.get(offset..offset + size)`. -/
def bytesAt {ε : Type} (b : Bytes) (offset size : Nat) : Guarded ε (Option Bytes) := do
  let stop ← add offset size
  return part b offset stop

def i32 (word : Nat) : Int := if word < 2 ^ 31 then word else word - 2 ^ 32

/-- `as usize`, which extends the sign. -/
def asUsize (n : Int) : Nat := (n % 2 ^ 64).toNat

def beI32 (b : Bytes) (offset : Nat) : Guarded ToolkitError Int := do
  let word ← orRefuse (err "truncated .shp") (← bytesAt b offset 4)
  return i32 (Bytes.toNat word.reverse)

def bad : String := "truncated shape record"

def leI32 (b : Bytes) (offset : Nat) : Guarded String Int := do
  let word ← orRefuse bad (← bytesAt b offset 4)
  return i32 (Bytes.toNat word)

def leF64 (b : Bytes) (offset : Nat) : Guarded String F64 := do
  let word ← orRefuse bad (← bytesAt b offset 8)
  return ⟨BitVec.ofNat 64 (Bytes.toNat word)⟩

def pointAt (c : Bytes) (offset : Nat) : Guarded String Coord := do
  let x ← leF64 c offset
  let y ← leF64 c (← add offset 8)
  return { x := x, y := y }

/-- The points from the `i`-th on; the first that is missing ends the reading. -/
def points (c : Bytes) (start : Nat) : Nat → Nat → Guarded String (List Coord)
  | _, 0 => .ok []
  | i, count + 1 => do
    let point ← pointAt c (← add start (← mul i 16))
    return point :: (← points c start (i + 1) count)

def partStarts (c : Bytes) : Nat → Nat → Guarded String (List Nat)
  | _, 0 => .ok []
  | i, count + 1 => do
    let start ← leI32 c (← add 44 (← mul i 4))
    return asUsize start :: (← partStarts c (i + 1) count)

/-- A part ends where the next one starts, and the last one with the points. -/
def cutLines (coords : List Coord) (numPoints : Nat) : List Nat → Guarded String (List LineString)
  | [] => .ok []
  | start :: rest => do
    let stop := rest.head?.getD numPoints
    if stop < start ∨ coords.length < stop then refuse "invalid part index"
    else
      let line ← range coords start stop
      return line :: (← cutLines coords numPoints rest)

def readLines (c : Bytes) : Guarded String (List LineString) := do
  let numParts := asUsize (← leI32 c 36)
  let numPoints := asUsize (← leI32 c 40)
  if c.length / 4 < numParts ∨ c.length / 16 < numPoints then refuse "implausible part/point count"
  else
    let parts ← partStarts c 0 numParts
    let coords ← points c (← add 44 (← mul numParts 4)) 0 numPoints
    cutLines coords numPoints parts

def lineGeometry : List LineString → Geometry
  | [line] => .lineString line
  | lines => .multiLineString lines

def parseShape (c : Bytes) : Guarded String (Option Geometry) := do
  let kind ← leI32 c 0
  if kind = 0 then return none
  else if kind ∈ [1, 11, 21] then
    return some (.point (← pointAt c 4))
  else if kind ∈ [8, 18, 28] then
    let n := asUsize (← leI32 c 36)
    return some (.multiPoint (← points c 40 0 n))
  else if kind ∈ [3, 13, 23] then
    return some (lineGeometry (← readLines c))
  else if kind ∈ [5, 15, 25] then
    let lines ← readLines c
    return some (← ofExcept (assemblePolygons lines))
  else if kind = 31 then refuse "MultiPatch shapes are not supported"
  else refuse ("unknown shape type " ++ kind.repr)

abbrev ShapeResult := Except String (Option Geometry)

/-- Every record takes eight bytes at least, so there are not more records than bytes. -/
def records (bytes : Bytes) (fileLen : Nat) : Nat → Nat → Guarded ToolkitError (List ShapeResult)
  | fuel, offset => do
    let start ← add offset 8
    if start ≤ fileLen then
      match fuel with
      | 0 => fail (.stuck offset)
      | fuel + 1 =>
        let contentLen ← mul (asUsize (← beI32 bytes (← add offset 4))) 2
        let stop ← add start contentLen
        if bytes.length < stop then refuse (err "record extends past the end of the .shp")
        else
          let content ← range bytes start stop
          let shape ← caught (parseShape content)
          return shape :: (← records bytes fileLen fuel stop)
    else return []

variable (bytes : Bytes)

def readShp : Guarded ToolkitError (List ShapeResult) := do
  let magic ← beI32 bytes 0
  if magic ≠ 9994 then refuse (err "not a shapefile (.shp magic 9994 missing)")
  else
    let fileLen ← mul (asUsize (← beI32 bytes 24)) 2
    records bytes (Min.min fileLen bytes.length) bytes.length 100

/-! ## Attributes -/

/-- An encoding of the platform; malformed bytes are replaced. -/
structure DbfEncoding where
  name : String
  decode : Bytes → String

structure DbfEncodings where
  forLabel : Bytes → Option DbfEncoding
  utf8 : DbfEncoding
  shiftJis : DbfEncoding
  lossy : Bytes → String

structure DbfField where
  name : String
  kind : UInt8
  length : Nat
  decimals : UInt8

abbrev Record := Option (Std.ExtTreeMap String Value)

/-- `from_le_bytes` of a range. -/
def numberAt (start stop : Nat) : Guarded ToolkitError Nat := do
  return Bytes.toNat (← range bytes start stop)

/-- The descriptors of the fields, whose names are decoded later. -/
def descriptors (bytes : Bytes) (limit : Nat) : Nat → Nat → Guarded ToolkitError (List DbfField)
  | fuel, offset => do
    if (← add offset 32) ≤ limit then
      if (← index bytes offset) = 0x0D then return []
      else
        match fuel with
        | 0 => fail (.stuck offset)
        | fuel + 1 =>
          let _ ← range bytes offset (← add offset 11)
          let kind ← index bytes (← add offset 11)
          let length ← index bytes (← add offset 16)
          let decimals ← index bytes (← add offset 17)
          let field : DbfField :=
            { name := "", kind := kind, length := length.toNat, decimals := decimals }
          return field :: (← descriptors bytes limit fuel (← add offset 32))
    else return []

/-- The names as bytes, up to the first zero. -/
def rawNames (bytes : Bytes) : Nat → Nat → Guarded ToolkitError (List Bytes)
  | 0, _ => .ok []
  | count + 1, offset => do
    let raw ← range bytes offset (← add offset 11)
    return raw.takeWhile (· != 0) :: (← rawNames bytes count (← add offset 32))

def isUtf8 : Bool := (Bytes.toText? bytes).isSome

/-- Whether the records from the `r`-th on are UTF-8. -/
def recordsUtf8 (bytes : Bytes) (headerLen recordLen : Nat) : Nat → Nat → Guarded ToolkitError Bool
  | _, 0 => .ok true
  | r, count + 1 => do
    let start ← add headerLen (← mul r recordLen)
    let stop ← add start recordLen
    if (part bytes start (Min.min stop bytes.length)).any isUtf8 then
      recordsUtf8 bytes headerLen recordLen (r + 1) count
    else return false

def utf8Labels : List String := ["65001", "UTF8", "UTF-8"]

def shiftJisLabels : List String := ["932", "CP932", "SJIS", "SHIFT_JIS", "SHIFT-JIS", "MS932"]

section

variable (encodings : DbfEncodings)

/-- The encoding that the caller or the `.cpg` file names. -/
def namedEncoding (explicit : Option String) (cpg : Option Bytes) :
    Option (Except ToolkitError DbfEncoding) :=
  match explicit, cpg with
  | some label, _ =>
    some (match encodings.forLabel (Bytes.ofText (Text.trim label)) with
      | some encoding => .ok encoding
      | none => .error (err ("unknown encoding " ++ label)))
  | none, some cpg =>
    let label := Text.trim (encodings.lossy cpg)
    let upper := Text.toAsciiUppercase label
    some (if upper ∈ utf8Labels then .ok encodings.utf8
      else if upper ∈ shiftJisLabels then .ok encodings.shiftJis
      else match encodings.forLabel (Bytes.ofText label) with
        | some encoding => .ok encoding
        | none => .error (err (".cpg names an unknown encoding " ++ label)))
  | none, none => none

/-- What the header of a table says. -/
structure DbfHeader where
  count : Nat
  headerLen : Nat
  recordLen : Nat
  ldid : UInt8
  fields : List DbfField
  names : List Bytes

/-- Without a name the encoding is that of the language driver, or UTF-8 if the whole table is. -/
def guessedEncoding (bytes : Bytes) (header : DbfHeader) : Guarded ToolkitError DbfEncoding := do
  if header.ldid = 0x13 ∨ header.ldid = 0x7B then return encodings.shiftJis
  else if header.names.all isUtf8 then
    if (← recordsUtf8 bytes header.headerLen header.recordLen 0 header.count) then
      return encodings.utf8
    else return encodings.shiftJis
  else return encodings.shiftJis

def encodingOf (bytes : Bytes) (explicit : Option String) (cpg : Option Bytes)
    (header : DbfHeader) : Guarded ToolkitError DbfEncoding :=
  match namedEncoding encodings explicit cpg with
  | some chosen => ofExcept chosen
  | none => guessedEncoding encodings bytes header

end

def trimEnd (text : String) : String :=
  String.ofList (text.toList.reverse.dropWhile Text.isWhitespace).reverse

def isNumeric (kind : UInt8) : Bool := kind == 78 || kind == 70 || kind == 79

def float (text : String) : Value :=
  match F64.parse text.toList with
  | some x => .ofF64 x
  | none => .str text

def numericValue (decimals : UInt8) (trimmed : String) : Value :=
  if trimmed.isEmpty || ['*'].isPrefixOf trimmed.toList then .null
  else if decimals = 0 then
    match Csv.parseI64 trimmed.toList with
    | some n => .ofInt n
    | none => float trimmed
  else float trimmed

def logicalValue (trimmed : String) : Value :=
  match trimmed.toList.head? with
  | some c =>
    if c ∈ ['T', 't', 'Y', 'y'] then .bool true
    else if c ∈ ['F', 'f', 'N', 'n'] then .bool false
    else .null
  | none => .null

/-- A date has eight bytes: the year, the month and the day. -/
def dateValue (trimmed : String) : Guarded ToolkitError Value := do
  let year ← textRange trimmed.toList 0 4
  let month ← textRange trimmed.toList 4 6
  let day ← textRange trimmed.toList 6 8
  return .str (String.ofList (year ++ '-' :: month ++ '-' :: day))

def isDate (kind : UInt8) (trimmed : String) : Bool := kind == 68 && byteLength trimmed.toList == 8

def cellValue (field : DbfField) (text : String) : Guarded ToolkitError Value :=
  let trimmed := Text.trim text
  if isNumeric field.kind then .ok (numericValue field.decimals trimmed)
  else if field.kind = 76 then .ok (logicalValue trimmed)
  else if isDate field.kind trimmed then dateValue trimmed
  else if trimmed.isEmpty then .ok .null
  else .ok (.str (trimEnd text))

/-- The fields of a record one after the other; a field past the end is empty. -/
def readFields (decode : Bytes → String) (record : Bytes) : List DbfField → Nat →
    Std.ExtTreeMap String Value → Guarded ToolkitError (Std.ExtTreeMap String Value)
  | [], _, props => .ok props
  | field :: rest, offset, props => do
    let stop ← add offset field.length
    let raw := (part record offset stop).getD []
    let value ← cellValue field (decode raw)
    readFields decode record rest stop (props.insert field.name value)

def readRecord (decode : Bytes → String) (fields : List DbfField) (record : Bytes) :
    Guarded ToolkitError Record := do
  if (← index record 0) = 42 then return none
  else return some (← readFields decode record fields 1 ∅)

/-- The records from the `r`-th on. -/
def readRecords (decode : Bytes → String) (bytes : Bytes) (fields : List DbfField)
    (headerLen recordLen : Nat) : Nat → Nat → Guarded ToolkitError (List Record)
  | _, 0 => .ok []
  | r, count + 1 => do
    let start ← add headerLen (← mul r recordLen)
    let record ← orRefuse (err (".dbf record " ++ (r + 1).repr ++ " is truncated"))
      (part bytes start (← add start recordLen))
    let value ← readRecord decode fields record
    return value :: (← readRecords decode bytes fields headerLen recordLen (r + 1) count)

def named (decode : Bytes → String) (fields : List DbfField) (names : List Bytes) : List DbfField :=
  (fields.zip names).map fun p => { p.1 with name := Text.trim (decode p.2) }

def readHeader : Guarded ToolkitError DbfHeader := do
  if bytes.length < 32 then refuse (err ".dbf header is truncated")
  else
    let count ← numberAt bytes 4 8
    let headerLen ← numberAt bytes 8 10
    let recordLen ← numberAt bytes 10 12
    let ldid ← index bytes 29
    let fields ← descriptors bytes (Min.min headerLen bytes.length) bytes.length 32
    let names ← rawNames bytes fields.length 32
    return { count, headerLen, recordLen, ldid, fields, names }

def readDbf (encodings : DbfEncodings) (bytes : Bytes) (explicit : Option String)
    (cpg : Option Bytes) : Guarded ToolkitError (List Record × String) := do
  let header ← readHeader bytes
  let encoding ← encodingOf encodings bytes explicit cpg header
  let fields := named encoding.decode header.fields header.names
  let records ← readRecords encoding.decode bytes fields header.headerLen header.recordLen 0
    header.count
  return (records, Text.toAsciiLowercase encoding.name)

end GeneGIS.Toolkit.Shapefile
