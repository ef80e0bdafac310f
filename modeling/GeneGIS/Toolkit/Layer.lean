/-
Toolkit errors.
-/
import GeneGIS.Data.Canonical
import GeneGIS.Data.Sha256
import GeneGIS.Toolkit.Wkb

namespace GeneGIS.Toolkit

inductive ToolkitError where
  | importFailed (format reason : String)
  | unsupportedFormat (format : String)
  | crsRequired (reason : String)
  | unsupportedCrs (crs : String)
  | invalidCoordinate (reason : String)
  | unit (reason : String)
  | parameter (operation reason : String)
  | unknownReference (reference : String)
  | plan (reason : String)
  | verification (reason : String)
  | expression (reason : String)
  | provider (reason : String)
  | unresolved (reason : String)
  | exportFailed (format reason : String)
  | command (reason : String)
  | io (reason : String)
  deriving DecidableEq

def ToolkitError.display : ToolkitError → String
  | .importFailed format reason => format ++ " import failed: " ++ reason
  | .unsupportedFormat format => "unsupported file format: " ++ format
  | .crsRequired reason => "CRS is required: " ++ reason
  | .unsupportedCrs crs => "unsupported CRS " ++ crs
  | .invalidCoordinate reason => "invalid coordinate: " ++ reason
  | .unit reason => "unit error: " ++ reason
  | .parameter operation reason => "invalid parameter for " ++ operation ++ ": " ++ reason
  | .unknownReference reference => "unknown reference: " ++ reference
  | .plan reason => "invalid plan: " ++ reason
  | .verification reason => "verification failed: " ++ reason
  | .expression reason => "invalid expression: " ++ reason
  | .provider reason => "provider error: " ++ reason
  | .unresolved reason => "planner could not resolve the request: " ++ reason
  | .exportFailed format reason => format ++ " export failed: " ++ reason
  | .command reason => "command rejected: " ++ reason
  | .io reason => reason

end GeneGIS.Toolkit

/-! ## Toolkit layers

The identity of a layer is the digest of one stream: its reference system, fields and features. -/

namespace GeneGIS.Toolkit

inductive FieldType where
  | integer
  | float
  | boolean
  | text
  | json
  deriving DecidableEq

/-- The name that `{:?}` prints. -/
def FieldType.debug : FieldType → String
  | .integer => "Integer"
  | .float => "Float"
  | .boolean => "Boolean"
  | .text => "Text"
  | .json => "Json"

structure Field where
  name : String
  fieldType : FieldType
  unit : Option String
  deriving DecidableEq

structure Feature where
  id : UInt64
  geometry : Option Geometry
  properties : Std.ExtTreeMap String Value

inductive CrsStatus where
  | declared
  | formatDefault
  | inferred
  | userSupplied
  | derived

structure LayerProvenance where
  sourceUri : String := ""
  sourceSha256 : Option String := none
  license : Option String := none
  attribution : Option String := none
  format : String := ""
  retrievedAt : Option String := none
  parents : List String := []
  operation : Option String := none
  workflowDigest : Option String := none
  notes : List String := []

structure Layer where
  name : String
  crs : String
  crsStatus : CrsStatus
  fields : List Field := []
  features : List Feature := []
  provenance : LayerProvenance := {}

def Field.bytes (field : Field) : Bytes :=
  Bytes.ofText field.name ++ 0 :: (Bytes.ofText field.fieldType.debug ++
    0 :: (Bytes.ofText (field.unit.getD "") ++ [0]))

def Feature.idBytes (feature : Feature) : Bytes := Bytes.ofNat 8 feature.id.toNat

def Feature.attributes (feature : Feature) : Value := .ofMap (fun v => v) feature.properties

section

variable (floatText : F64 → String) (outlines : Outlines)

def Feature.geometryBytes (feature : Feature) : Bytes :=
  match feature.geometry with
  | some geometry => Wkb.writeGeometry outlines geometry
  | none => 255 :: Bytes.ofText "null"

def Feature.bytes (feature : Feature) : Bytes :=
  feature.idBytes ++ (feature.geometryBytes outlines ++
    (Bytes.ofText (String.ofList (feature.attributes.canonicalJson floatText)) ++ [0]))

namespace Layer

variable (layer : Layer)

def preimage : Bytes :=
  Bytes.ofText "genegis-layer-v1" ++ 0 :: (Bytes.ofText layer.crs ++
    0 :: (layer.fields.flatMap Field.bytes ++
      layer.features.flatMap (Feature.bytes floatText outlines)))

def digest : String :=
  "sha256:" ++ Sha256.hexBytes ((layer.preimage floatText outlines).map UInt8.toNat)

/-- `layer_id_from_digest`. -/
def idFromDigest (digest : String) : String :=
  "lyr_" ++ String.ofList (((Text.withoutPrefix "sha256:" digest).getD digest).toList.take 12)

def id : String := idFromDigest (layer.digest floatText outlines)

end Layer

end

end GeneGIS.Toolkit
