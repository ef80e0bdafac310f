/-
Evidence-carrying map styles: classified fills, legend and labels of one layer.
-/
import GeneGIS.Data.Json

namespace GeneGIS

inductive ClassificationMethod where
  | equalInterval
  | quantile
  | manual
  deriving DecidableEq

def ClassificationMethod.asStr : ClassificationMethod → String
  | .equalInterval => "equal_interval"
  | .quantile => "quantile"
  | .manual => "manual"

/-- One class `[minimum, maximum)` of values. -/
structure ClassBreak where
  minimum : F64
  maximum : F64
  fill : String
  label : String
  deriving DecidableEq

def ClassBreak.toJson (c : ClassBreak) : Value :=
  .object [("minimum", .ofF64 c.minimum), ("maximum", .ofF64 c.maximum), ("fill", .str c.fill),
    ("label", .str c.label)]

structure LegendSpec where
  title : String
  unit : String
  x : Nat
  y : Nat
  deriving DecidableEq

def LegendSpec.toJson (l : LegendSpec) : Value :=
  .object [("title", .str l.title), ("unit", .str l.unit), ("x", .ofNat l.x), ("y", .ofNat l.y)]

structure LabelStyle where
  field : String
  fontFamily : String
  fontDigest : String
  sizePx : F64
  color : String
  deriving DecidableEq

def LabelStyle.toJson (l : LabelStyle) : Value :=
  .object [("field", .str l.field), ("font_family", .str l.fontFamily),
    ("font_digest", .str l.fontDigest), ("size_px", .ofF64 l.sizePx), ("color", .str l.color)]

structure EvidenceMapStyle where
  id : Uuid
  layerId : Uuid
  field : String
  valueUnit : String
  classification : ClassificationMethod
  breaks : List ClassBreak
  legend : LegendSpec
  labels : Option LabelStyle
  deriving DecidableEq

inductive StyleError where
  | invalidStyle (reason : String)

namespace EvidenceMapStyle

def toJson (s : EvidenceMapStyle) : Value :=
  .object ( [("id", .str s.id.toText), ("layer_id", .str s.layerId.toText), ("field", .str s.field),
      ("value_unit", .str s.valueUnit), ("classification", .str s.classification.asStr),
      ("breaks", .ofList ClassBreak.toJson s.breaks), ("legend", s.legend.toJson)] ++
    Value.optional "labels" LabelStyle.toJson s.labels)

def validHexColor (value : String) : Bool :=
  value.utf8ByteSize = 7 && ("#".toList.isPrefixOf value.toList) &&
    (value.toList.drop 1).all Text.isHexDigit

def validDigest (value : String) : Bool :=
  value.utf8ByteSize = 71 && ("sha256:".toList.isPrefixOf value.toList) &&
    (value.toList.drop 7).all Text.isHexDigit

def validClass (c : ClassBreak) : Bool :=
  c.minimum.isFinite && c.maximum.isFinite && !F64.le c.maximum c.minimum &&
    validHexColor c.fill && !Text.isBlank c.label

def validLabels (l : LabelStyle) : Bool :=
  !Text.isBlank l.field && !Text.isBlank l.fontFamily && validDigest l.fontDigest &&
    l.sizePx.isFinite && F64.le (.ofNat 4) l.sizePx && F64.le l.sizePx (.ofNat 96) &&
    validHexColor l.color

/-- Each class is checked before its join with the one below it. -/
def validateBreaks : Nat → Option ClassBreak → List ClassBreak → Except StyleError Unit
  | _, _, [] => .ok ()
  | index, previous, c :: rest =>
    if !validClass c then
      .error (.invalidStyle ("class " ++ toString index ++ " has invalid bounds, fill, or label"))
    else if previous.any fun p => !F64.eq p.maximum c.minimum then
      .error (.invalidStyle ("classes " ++ toString (index - 1) ++ " and " ++ toString index ++
        " have a gap or overlap"))
    else validateBreaks (index + 1) (some c) rest

def validate (s : EvidenceMapStyle) : Except StyleError Unit := do
  if Text.isBlank s.field || Text.isBlank s.valueUnit || Text.isBlank s.legend.title ||
      s.legend.unit ≠ s.valueUnit || s.breaks.isEmpty then
    throw (.invalidStyle "field, unit, matching legend unit, title, and breaks are required")
  validateBreaks 0 none s.breaks
  if s.labels.any fun labels => !validLabels labels then
    throw (.invalidStyle "labels require field, font identity, 4-96 px size, and color")

end EvidenceMapStyle
end GeneGIS
