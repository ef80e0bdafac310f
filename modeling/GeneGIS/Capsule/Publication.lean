/-
Two pages show the result of a capsule, next to a copy of it.  The verifier checks the listed
files, the digest of the publication and the identities of capsule and result.
-/
import GeneGIS.Capsule.Approval

namespace GeneGIS

structure PublicationPolicy where
  includeCapsuleDownload : Bool
  rejectLocalPaths : Bool
  includedFieldClasses : List String
  redactedFieldClasses : List String

structure PublicationAttribution where
  title : String
  url : String
  license : String

structure PublicationFileEntry where
  path : String
  sha256 : String
  bytes : Nat

structure PortablePublication where
  schemaVersion : String
  title : String
  description : String
  attribution : List PublicationAttribution
  limitations : List String
  crs : Value
  coordinateUnit : String
  trustLevel : Value
  resultDigest : String
  workflowDigest : String
  verificationGraphDigest : String
  verificationPolicyDigest : String
  capsuleDigest : String
  capsuleDownload : Option String
  sharePath : String
  embedPath : String
  policy : PublicationPolicy
  publicationDigest : String
  publicEntries : List PublicationFileEntry

structure PublicationVerification where
  publicationDigest : String
  resultDigest : String
  verifiedPublicEntries : Nat
  verifiedCapsuleEntries : Nat

def PublicationPolicy.toJson (policy : PublicationPolicy) : Json :=
  .obj [("include_capsule_download", .bool policy.includeCapsuleDownload),
    ("reject_local_paths", .bool policy.rejectLocalPaths),
    ("included_field_classes", .arr (policy.includedFieldClasses.map .str)),
    ("redacted_field_classes", .arr (policy.redactedFieldClasses.map .str))]

def PublicationPolicy.toValue (policy : PublicationPolicy) : Value :=
  .object [("include_capsule_download", .bool policy.includeCapsuleDownload),
    ("reject_local_paths", .bool policy.rejectLocalPaths),
    ("included_field_classes", .ofList .str policy.includedFieldClasses),
    ("redacted_field_classes", .ofList .str policy.redactedFieldClasses)]

def PublicationAttribution.toJson (a : PublicationAttribution) : Json :=
  .obj [("title", .str a.title), ("url", .str a.url), ("license", .str a.license)]

def PublicationAttribution.toValue (a : PublicationAttribution) : Value :=
  .object [("title", .str a.title), ("url", .str a.url), ("license", .str a.license)]

def PublicationFileEntry.toJson (e : PublicationFileEntry) : Json :=
  .obj [("path", .str e.path), ("sha256", .str e.sha256), ("bytes", .num (.int e.bytes))]

def PortablePublication.toJson (p : PortablePublication) : Json :=
  .obj [("schema_version", .str p.schemaVersion), ("title", .str p.title),
    ("description", .str p.description),
    ("attribution", .arr (p.attribution.map PublicationAttribution.toJson)),
    ("limitations", .arr (p.limitations.map .str)), ("crs", p.crs.json),
    ("coordinate_unit", .str p.coordinateUnit), ("trust_level", p.trustLevel.json),
    ("result_digest", .str p.resultDigest), ("workflow_digest", .str p.workflowDigest),
    ("verification_graph_digest", .str p.verificationGraphDigest),
    ("verification_policy_digest", .str p.verificationPolicyDigest),
    ("capsule_digest", .str p.capsuleDigest),
    ("capsule_download", (Value.ofOption .str p.capsuleDownload).json),
    ("share_path", .str p.sharePath), ("embed_path", .str p.embedPath),
    ("policy", p.policy.toJson), ("publication_digest", .str p.publicationDigest),
    ("public_entries", .arr (p.publicEntries.map PublicationFileEntry.toJson))]

theorem Json.ordered_get? {j member : Json} {key : String} (h : j.Ordered)
    (hget : j.get? key = some member) : member.Ordered := by
  cases j with
  | obj members =>
    obtain ⟨front, back, hsplit, -⟩ := List.lookup_eq_some_iff.mp hget
    refine (Json.orderedMembers_iff members).mp h.2 (key, member) ?_
    rw [hsplit]
    exact List.mem_append_right _ List.mem_cons_self
  | null | bool | num | str | arr => cases hget

/-- The directory of a name in the directory. -/
def Directory.join (d : Directory) (name : String) : Directory where
  fileType path := d.fileType (name ++ "/" ++ path)
  read path := d.read (name ++ "/" ++ path)

namespace Capsule.Publication

open Fallible

/-- The reader of a publication, and the text of bytes that need not be UTF-8. -/
structure PublicationReaders extends Readers where
  publication : Bytes → Except String PortablePublication
  utf8Lossy : Bytes → String

def publicationPath : String := "publication.json"

def validatePolicy (policy : PublicationPolicy) : Verifying Unit :=
  verifyUnless (!policy.includeCapsuleDownload || !policy.rejectLocalPaths ||
      policy.includedFieldClasses.isEmpty || policy.redactedFieldClasses.isEmpty)
    "publication policy weakens required M5 gates"

def imageMarker : String := "data:image/png;base64,"

/-- The text without embedded images.  An image ends with the next quotation mark. -/
def visible : Bool → List Char → List Char
  | _, [] => []
  | true, c :: rest => visible (c != '"') rest
  | false, c :: rest =>
    if imageMarker.toList.isPrefixOf (c :: rest) then visible true rest else c :: visible false rest

def isBreak (c : Char) : Bool :=
  [' ', '\t', '\r', '\n', '"', '(', '=', '>'].contains c || c.toNat = 39

/-- A letter, a colon and a slash at the start or after a break.  The text before the rest ends
with the given character. -/
def hasDrive : Option Char → List Char → Bool
  | _, [] => false
  | before, c :: rest =>
    (decide ('a' ≤ c ∧ c ≤ 'z') && rest.head? == some ':' &&
      (rest.tail.head? == some '\\' || rest.tail.head? == some '/') && before.all isBreak) ||
    hasDrive (some c) rest

def containsLocalPath (text : String) : Bool :=
  let shown := (Text.toAsciiLowercase (String.ofList (visible false text.toList))).toList
  decide ("file://".toList <:+: shown) || decide ("\\\\?\\".toList <:+: shown) ||
    hasDrive none shown

def escape (value : String) : String := String.ofList (value.toList.flatMap fun c =>
    if c = '&' then "&amp;".toList
    else if c = '<' then "&lt;".toList
    else if c = '>' then "&gt;".toList
    else if c = '"' then "&quot;".toList
    else [c])

def concat (texts : List String) : String := texts.foldr (fun a b => a ++ b) ""

def styleSheet : String :=
  "body\x7bmargin:0;background:#0b151a;color:#e8f2f1;font:15px system-ui,sans-serif\x7d" ++
  "main\x7bmax-width:1000px;margin:auto;padding:20px\x7d" ++
  "img\x7bdisplay:block;width:100%;height:auto;background:#fff;border-radius:8px\x7d" ++
  ".meta\x7bfont-family:ui-monospace,monospace;font-size:12px;overflow-wrap:anywhere;" ++
  "color:#9fc0bd\x7da\x7bcolor:#65e3c2\x7d"

def evidenceHtml (p : PortablePublication) (embed : Bool) : String :=
  if embed then
    "<a href=\"index.html#" ++ p.publicationDigest ++ "\" target=\"_top\">Open verified view</a>"
  else
    "<a href=\"capsule/capsule.json\">Download evidence capsule</a><h2>Attribution</h2><ul>" ++
    concat (p.attribution.map fun item => "<li><a href=\"" ++ escape item.url ++ "\">" ++
      escape item.title ++ "</a> — " ++ escape item.license ++ "</li>") ++
    "</ul><h2>Limitations</h2><ul>" ++
    concat (p.limitations.map fun item => "<li>" ++ escape item ++ "</li>") ++ "</ul>"

variable (lib : Offline)

def renderView (p : PortablePublication) (png : Bytes) (embed : Bool) : String :=
  "<!doctype html><html lang=\"en\"><head><meta charset=\"utf-8\"><meta name=\"viewport\" " ++
  "content=\"width=device-width,initial-scale=1\"><title>" ++ escape p.title ++
  "</title><style>" ++ styleSheet ++ "</style></head><body><main><h1>" ++ escape p.title ++
  "</h1><p>" ++ escape p.description ++ "</p><img alt=\"Verified spatial result\" " ++
  "src=\"data:image/png;base64," ++ lib.encodeBase64 png ++ "\"><p class=\"meta\">Result " ++
  escape p.resultDigest ++ "<br>Workflow " ++ escape p.workflowDigest ++ "<br>Publication " ++
  escape p.publicationDigest ++ "</p>" ++ evidenceHtml p embed ++ "</main></body></html>"

def pagePath (embed : Bool) : String := if embed then "embed.html" else "index.html"

def pageBytes (p : PortablePublication) (png : Bytes) (embed : Bool) : Bytes :=
  Bytes.ofText (renderView lib p png embed)

def semanticDocument (p : PortablePublication) : Value :=
  .object [("schema_version", .str p.schemaVersion), ("title", .str p.title),
    ("description", .str p.description),
    ("attribution", .ofList PublicationAttribution.toValue p.attribution),
    ("limitations", .ofList .str p.limitations), ("crs", p.crs),
    ("coordinate_unit", .str p.coordinateUnit), ("trust_level", p.trustLevel),
    ("result_digest", .str p.resultDigest), ("workflow_digest", .str p.workflowDigest),
    ("verification_graph_digest", .str p.verificationGraphDigest),
    ("verification_policy_digest", .str p.verificationPolicyDigest),
    ("capsule_digest", .str p.capsuleDigest),
    ("capsule_download", .ofOption .str p.capsuleDownload), ("share_path", .str p.sharePath),
    ("embed_path", .str p.embedPath), ("policy", p.policy.toValue)]

def semanticDigest (p : PortablePublication) : String := lib.digestJson (semanticDocument p)

/-! ## Export -/

section

variable (lib : Offline) (readers : PublicationReaders)

def requiredText (value : Json) (key label : String) : Verifying String :=
  required (((value.get? key).bind Json.asStr?).filter fun text => !Text.isBlank text)
    ("publication requires " ++ label)

def requiredTextArray (value : Json) (key label : String) : Verifying (List String) := do
  let items ← required ((value.get? key).bind Json.asArray?) ("publication requires " ++ label)
  let texts := (items.filterMap Json.asStr?).filter fun text => !Text.isBlank text
  verifyUnless texts.isEmpty ("publication requires non-empty " ++ label)
  return texts

def parseCitations : List Json → Verifying (List PublicationAttribution)
  | [] => .ok []
  | citation :: rest => do
    let title ← requiredText citation "title" "citation title"
    let url ← requiredText citation "url" "citation URL"
    let license ← requiredText citation "license" "citation license"
    let others ← parseCitations rest
    return { title := title, url := url, license := license } :: others

def parseAttribution (value : Json) : Verifying (List PublicationAttribution) := do
  let citations ← required ((value.get? "citations").bind Json.asArray?)
    "analysis has no attribution array"
  let attribution ← parseCitations citations
  verifyUnless attribution.isEmpty "publication requires attribution"
  return attribution

def notNull : Value → Bool
  | ⟨.null, _⟩ => false
  | _ => true

def memberOf (value : Value) (key : String) : Option Value :=
  match h : value.json.get? key with
  | some member => some ⟨member, Json.ordered_get? value.ordered h⟩
  | none => none

/-- The publication of a capsule, without the list of its files. -/
def derivePublication (capsule : Directory) (policy : PublicationPolicy) :
    Verifying PortablePublication := do
  validatePolicy policy
  let verified ← verifyNagoyaCapsule lib readers.toReaders capsule none
  let capsuleBytes ← readFile capsule manifestPath
  let _ ← (readers.manifest capsuleBytes).mapError .json
  let analysis ← readJson readers.value capsule analysisPath
  let workflow ← readJson readers.value capsule workflowPath
  let receipt ← readJson readers.value capsule receiptPath
  let policyBytes ← readFile capsule policyPath
  let _ ← readFile capsule pngPath
  let title ← requiredText workflow.json "goal" "workflow goal"
  let attribution ← parseAttribution analysis.json
  let limitations ← requiredTextArray workflow.json "assumptions" "workflow assumptions"
  let workflowDigest ← requiredText receipt.json "workflow_digest" "workflow digest"
  let coordinateUnit ← requiredText receipt.json "coordinate_unit" "coordinate unit"
  let crs ← required ((memberOf receipt "crs").filter notNull) "publication receipt has no CRS"
  let publication : PortablePublication :=
    { schemaVersion := "0.1.0", title := title
      description := "Verified, portable spatial result with downloadable offline evidence."
      attribution := attribution, limitations := limitations, crs := crs
      coordinateUnit := coordinateUnit, trustLevel := .str (levelText verified.trust.level)
      resultDigest := verified.resultDigest, workflowDigest := workflowDigest
      verificationGraphDigest := verified.verificationGraphDigest
      verificationPolicyDigest := lib.digestBytes policyBytes
      capsuleDigest := lib.digestBytes capsuleBytes
      capsuleDownload :=
        if policy.includeCapsuleDownload then some "capsule/capsule.json" else none
      sharePath := pagePath false, embedPath := pagePath true, policy := policy
      publicationDigest := "", publicEntries := [] }
  return { publication with publicationDigest := semanticDigest lib publication }

def fileEntry (path : String) (bytes : Bytes) : PublicationFileEntry :=
  { path := path, sha256 := lib.digestBytes bytes, bytes := bytes.length }

def exportPortablePublication (capsule : Directory) (policy : PublicationPolicy) :
    Verifying (PortablePublication × Bytes × Bytes) := do
  let publication ← derivePublication lib readers capsule policy
  let png ← readFile capsule pngPath
  let index := pageBytes lib publication png false
  let embed := pageBytes lib publication png true
  return ({ publication with
            publicEntries := [fileEntry lib (pagePath false) index,
              fileEntry lib (pagePath true) embed] }, index, embed)

def checkPublicEntries (output : Directory) (policy : PublicationPolicy) :
    List PublicationFileEntry → Verifying Unit
  | [] => .ok ()
  | entry :: rest =>
    if entry.path = publicationPath then checkPublicEntries output policy rest
    else do
      verifyUnless (!PluginManifest.isNormalized entry.path)
        ("non-portable publication path: " ++ entry.path)
      let bytes ← readFile output entry.path
      verifyUnless (entry.sha256 != lib.digestBytes bytes || entry.bytes != bytes.length)
        ("public file changed: " ++ entry.path)
      verifyUnless (policy.rejectLocalPaths && containsLocalPath (readers.utf8Lossy bytes))
        ("public file leaks local path: " ++ entry.path)
      checkPublicEntries output policy rest

def publicJson (p : PortablePublication) : Bytes :=
  Bytes.ofText (String.ofList (p.toJson.compactChars lib.floatText))

def verifyPortablePublication (output : Directory) : Verifying PublicationVerification := do
  let publication ← readJson readers.publication output publicationPath
  validatePolicy publication.policy
  verifyUnless (publication.schemaVersion != "0.1.0" ||
      semanticDigest lib publication != publication.publicationDigest)
    "publication semantic digest mismatch"
  verifyUnless (publication.attribution.isEmpty || publication.limitations.isEmpty)
    "publication lacks attribution or limitations"
  checkPublicEntries lib readers output publication.policy publication.publicEntries
  verifyUnless (publication.policy.rejectLocalPaths &&
      containsLocalPath (readers.utf8Lossy (publicJson lib publication)))
    "publication metadata leaks local path"
  let capsuleManifestBytes ← readFile (output.join "capsule") manifestPath
  verifyUnless (lib.digestBytes capsuleManifestBytes != publication.capsuleDigest)
    "downloadable capsule identity mismatch"
  let capsule ← verifyNagoyaCapsule lib readers.toReaders (output.join "capsule") none
  verifyUnless (capsule.resultDigest != publication.resultDigest)
    "publication and capsule result digests differ"
  return { publicationDigest := publication.publicationDigest
           resultDigest := publication.resultDigest
           verifiedPublicEntries := publication.publicEntries.length
           verifiedCapsuleEntries := capsule.verifiedEntries }

end

end Capsule.Publication
end GeneGIS
