/-
Imports.

The hints of the caller, the report, the decoding of text and the schema that follows from the
attributes.
-/
import GeneGIS.Toolkit.Layer
import GeneGIS.Toolkit.Wkt
import GeneGIS.Crs

namespace GeneGIS.Toolkit

structure ImportOptions where
  name : Option String := none
  crs : Option String := none
  xField : Option String := none
  yField : Option String := none
  wktField : Option String := none
  encoding : Option String := none
  table : Option String := none

inductive SkipReason where
  | text (reason : String)
  | wkt (error : Wkt.WktError)

structure SkippedRecord where
  record : Nat
  reason : SkipReason

structure ImportReport where
  encoding : Option String := none
  skipped : List SkippedRecord := []
  notes : List String := []

/-- A character encoding.  Malformed bytes have no text. -/
structure Encoding where
  name : String
  decode : Bytes → Option String

structure Encodings where
  forLabel : String → Option Encoding
  shiftJis : Encoding

def stripBom (bytes : Bytes) : Bytes :=
  if [0xEF, 0xBB, 0xBF] <+: bytes then bytes.drop 3 else bytes

def decodeText (encodings : Encodings) (bytes : Bytes) (explicit : Option String) :
    Except ToolkitError (String × String) :=
  match explicit with
  | some label =>
    match encodings.forLabel (Text.trim label) with
    | none => .error (.importFailed "text" ("unknown encoding " ++ label))
    | some encoding =>
      match encoding.decode bytes with
      | none => .error (.importFailed "text" ("bytes are not valid " ++ encoding.name))
      | some text => .ok (text, Text.toAsciiLowercase encoding.name)
  | none =>
    match Bytes.toText? (stripBom bytes) with
    | some text => .ok (text, "utf-8")
    | none =>
      match encodings.shiftJis.decode bytes with
      | none => .error (.importFailed "text"
          "text is neither UTF-8 nor Shift_JIS; specify the encoding explicitly")
      | some text => .ok (text, "shift_jis")

namespace Geometry

mutual
def coords : Geometry → List Coord
  | .point p => [p]
  | .line start stop => [start, stop]
  | .lineString l => l
  | .polygon p => (p.exterior :: p.interiors).flatMap Ring.coords
  | .multiPoint points => points
  | .multiLineString lines => lines.flatten
  | .multiPolygon polygons =>
    polygons.flatMap fun p => (p.exterior :: p.interiors).flatMap Ring.coords
  | .collection parts => coordsAll parts
  | .rect r => [r.min, ⟨r.min.x, r.max.y⟩, r.max, ⟨r.max.x, r.min.y⟩]
  | .triangle t => [t.a, t.b, t.c]

def coordsAll : List Geometry → List Coord
  | [] => []
  | part :: rest => coords part ++ coordsAll rest
end

end Geometry

def looksGeographic (geometry : Geometry) : Bool :=
  geometry.coords.all fun c => Crs.within 180 c.x && Crs.within 90 c.y

namespace Layer

/-- Whether every coordinate fits the longitude/latitude domain. -/
def coordinatesLookGeographic (layer : Layer) : Bool :=
  (layer.features.filterMap Feature.geometry).all looksGeographic

end Layer

def fieldTypeOf : Json → Option FieldType
  | .null => none
  | .bool _ => some .boolean
  | .num (.int _) => some .integer
  | .num (.float _ _) => some .float
  | .str _ => some .text
  | .arr _ | .obj _ => some .json

def FieldType.widen (a b : FieldType) : FieldType :=
  if a = b then a
  else if a = .integer ∧ b = .float ∨ a = .float ∧ b = .integer then .float
  else if a = .json ∨ b = .json then .json
  else .text

/-- The narrowest type that fits every value but the nulls. -/
def inferFieldType (values : List Value) : FieldType := (values.foldl (fun kind value =>
    match fieldTypeOf value.json with
    | none => kind
    | some this => some (kind.elim this fun known => known.widen this)) none).getD .text

namespace Layer

def schemaOrder (layer : Layer) : List String := layer.features.foldl (fun order feature =>
    feature.properties.keys.foldl (fun order key =>
      if key ∈ order then order else order ++ [key]) order) (layer.fields.map Field.name)

/-- The schema again from the attributes; known fields keep their unit and their place. -/
def refreshSchema (layer : Layer) : Layer where
  name := layer.name
  crs := layer.crs
  crsStatus := layer.crsStatus
  features := layer.features
  provenance := layer.provenance
  fields := layer.schemaOrder.map fun name =>
    let values := (layer.features.filterMap fun feature => feature.properties[name]?).filter
      fun value => (fieldTypeOf value.json).isSome
    let previous := layer.fields.reverse.find? fun field => field.name = name
    { name := name
      unit := previous.bind Field.unit
      fieldType :=
        match values, previous with
        | [], some field => field.fieldType
        | _, _ => inferFieldType values }

end Layer

end GeneGIS.Toolkit
