/-
A page is checked against the cursor and the watermark of its request, and the receipt carries
those of the next one.  `parsePage` is the JSON library's reader.
-/
import GeneGIS.Adapter.Admission
import GeneGIS.Runtime

namespace GeneGIS

inductive FeedDomain where
  | weather
  | hazard
  | mobility
  | sensor
  | change

def FeedDomain.name : FeedDomain → String
  | .weather => "weather"
  | .hazard => "hazard"
  | .mobility => "mobility"
  | .sensor => "sensor"
  | .change => "change"

structure FeedFreshnessPolicy where
  maxAgeSeconds : Nat
  allowedLatenessSeconds : Nat
  maxPageSize : Nat
  maxRetainedObservations : Nat
  rejectStale : Bool

def FeedFreshnessPolicy.standard : FeedFreshnessPolicy where
  maxAgeSeconds := 900
  allowedLatenessSeconds := 300
  maxPageSize := 1000
  maxRetainedObservations := 1000
  rejectStale := true

structure LiveFeedRequest where
  domain : FeedDomain
  endpoint : String
  providerId : String
  providerVersion : String
  afterCursor : Nat
  watermark : String
  limit : Nat
  evaluatedAt : String

structure FeedObservation where
  id : String
  sequence : Nat
  observedAt : String
  crs : Crs
  geometry : Value
  values : Value
  sourceRevision : String

structure FeedObservationSnapshot where
  observation : FeedObservation
  snapshotDigest : String

structure ProviderPage where
  nextCursor : Nat
  watermark : String
  observations : List FeedObservation

/-- A response of the transport. -/
structure HttpFetchResult where
  body : String
  contentType : Option String

structure LiveFeedReceipt where
  schemaVersion : String
  admission : AdmissionReport
  domain : FeedDomain
  providerId : String
  providerVersion : String
  requestedCursor : Nat
  nextCursor : Nat
  requestedWatermark : String
  nextWatermark : String
  evaluatedAt : String
  freshnessPolicy : FeedFreshnessPolicy
  fresh : Bool
  lateObservations : Nat
  source : SourceSnapshot
  outputDigest : String

structure LiveFeedResponse where
  snapshots : List FeedObservationSnapshot
  receipt : LiveFeedReceipt

inductive LiveFeedError where
  | request (reason : String)
  | admission (codes : List String)
  | response (reason : String)

structure LiveFeedAdapter where
  manifest : AdapterManifest
  capabilityPolicy : CapabilityPolicy

def FeedObservation.toJson (o : FeedObservation) : Json :=
  .obj [("id", .str o.id), ("sequence", .num (.int o.sequence)),
    ("observed_at", .str o.observedAt), ("crs", o.crs.toJson.json), ("geometry", o.geometry.json),
    ("values", o.values.json), ("source_revision", .str o.sourceRevision)]

def FeedObservationSnapshot.toJson (s : FeedObservationSnapshot) : Json :=
  .obj [("observation", s.observation.toJson), ("snapshot_digest", .str s.snapshotDigest)]

namespace LiveFeed

variable (rt : Runtime)

abbrev Sealing (α : Type) := Except LiveFeedError α

def requestUnless (holds : Bool) (reason : String) : Sealing Unit :=
  if holds then .ok () else .error (.request reason)

def responseUnless (holds : Bool) (reason : String) : Sealing Unit :=
  if holds then .ok () else .error (.response reason)

def timestamp (value label : String) : Sealing DateTime :=
  match rt.parseRfc3339 value with
  | some t => .ok t
  | none => .error (.request ("invalid " ++ label))

def geometryKinds : List String :=
  ["Point", "MultiPoint", "LineString", "MultiLineString", "Polygon", "MultiPolygon"]

def validGeometry (value : Value) : Bool :=
  match value.json.get? "type" with
  | some (.str kind) => geometryKinds.contains kind && (value.json.get? "coordinates").isSome
  | _ => false

def isObject (value : Value) : Bool :=
  match value.json with
  | .obj _ => true
  | _ => false

/-- The whole seconds from one instant to a later one, none if it is not later. -/
def secondsSince (earlier later : DateTime) : Nat :=
  ((later.nanos - earlier.nanos).tdiv 1000000000).toNat

def mediaType (contentType : Option String) : String :=
  Text.toAsciiLowercase (Text.trim (String.ofList
    ((contentType.getD "").toList.takeWhile fun c => c != ';')))

/-- What the loop has seen: the last sequence, the newest time and the late ones. -/
structure Progress where
  previousSequence : Nat
  latest : Option DateTime
  lateObservations : Nat

def newest (latest : Option DateTime) (t : DateTime) : DateTime :=
  match latest with
  | none => t
  | some s => if s.nanos < t.nanos then t else s

def checkObservation (policy : FeedFreshnessPolicy) (evaluatedAt nextWatermark : DateTime)
    (nextCursor previousSequence : Nat) (o : FeedObservation) : Sealing DateTime := do
  let observedAt ← timestamp rt o.observedAt "observation time"
  responseUnless (!(Text.isBlank o.id || Text.isBlank o.sourceRevision ||
      decide (o.sequence ≤ previousSequence) || decide (o.sequence > nextCursor) ||
      decide (observedAt.nanos > evaluatedAt.nanos) || !validGeometry o.geometry ||
      !isObject o.values))
    "observation identity, sequence, time, geometry, or values are invalid"
  responseUnless (decide (secondsSince observedAt nextWatermark ≤ policy.allowedLatenessSeconds))
    ("observation " ++ o.id ++ " exceeds allowed lateness")
  return observedAt

def snapshotOf (o : FeedObservation) : FeedObservationSnapshot :=
  { observation := o, snapshotDigest := rt.digestCompact o.toJson }

def sealObservations (policy : FeedFreshnessPolicy) (evaluatedAt nextWatermark : DateTime)
    (nextCursor : Nat) :
    Progress → List FeedObservation → Sealing (Progress × List FeedObservationSnapshot)
  | progress, [] => .ok (progress, [])
  | progress, o :: rest => do
    let observedAt ← checkObservation rt policy evaluatedAt nextWatermark nextCursor
      progress.previousSequence o
    let late := if secondsSince observedAt nextWatermark > 0 then 1 else 0
    let (done, snapshots) ← sealObservations policy evaluatedAt nextWatermark nextCursor
      { previousSequence := o.sequence, latest := some (newest progress.latest observedAt)
        lateObservations := progress.lateObservations + late } rest
    return (done, snapshotOf rt o :: snapshots)

/-! ## A page -/

def invocation (adapter : LiveFeedAdapter) (domain : FeedDomain) : AdapterInvocation :=
  { adapterId := adapter.manifest.adapterId, adapterVersion := adapter.manifest.adapterVersion
    operationId := "live_feed." ++ domain.name ++ ".read", operationVersion := "1.0.0"
    backend := adapter.manifest.backend, requestedCapabilities := [.networkRead] }

def sourceOf (fetched : HttpFetchResult) (request : LiveFeedRequest) : SourceSnapshot :=
  let digest := "sha256:" ++ rt.sha256 fetched.body.toList
  { SourceMetadata.new request.endpoint with
    datasetId := some (request.providerId ++ ":" ++ request.domain.name)
    sourceVersion := some request.providerVersion
    checksum := some digest, observedChecksum := some digest, checksumStatus := .verified }

def isFresh (policy : FeedFreshnessPolicy) (evaluatedAt : DateTime) (latest : Option DateTime) :
    Bool :=
  match latest with
  | none => false
  | some t => secondsSince t evaluatedAt ≤ policy.maxAgeSeconds

/-- Validate and snapshot one page that was fetched. -/
def sealPage (parsePage : String → Except String ProviderPage) (adapter : LiveFeedAdapter)
    (fetched : HttpFetchResult) (request : LiveFeedRequest) (policy : FeedFreshnessPolicy) :
    Sealing LiveFeedResponse := do
  let requestedWatermark ← timestamp rt request.watermark "request watermark"
  let evaluatedAt ← timestamp rt request.evaluatedAt "evaluation time"
  requestUnless (!(Text.isBlank request.providerId || Text.isBlank request.providerVersion ||
      decide (request.limit = 0) || decide (request.limit > policy.maxPageSize) ||
      decide (request.limit > policy.maxRetainedObservations) ||
      decide (requestedWatermark.nanos > evaluatedAt.nanos)))
    "provider identity, page limit, retention, or request time is invalid"
  let admission := Admission.admitInvocation adapter.manifest (invocation adapter request.domain)
    adapter.capabilityPolicy
  if !admission.admitted then
    throw (.admission (admission.failures.map AdmissionFailure.code))
  let contentType := mediaType fetched.contentType
  responseUnless (contentType == "application/json" || contentType == "application/geo+json")
    ("unsupported content type \"" ++ contentType ++ "\"")
  let page ← (parsePage fetched.body).mapError .response
  let nextWatermark ← timestamp rt page.watermark "provider watermark"
  responseUnless (!(decide (page.nextCursor < request.afterCursor) ||
      decide (nextWatermark.nanos < requestedWatermark.nanos) ||
      decide (nextWatermark.nanos > evaluatedAt.nanos) ||
      decide (page.observations.length > request.limit)))
    "cursor, watermark, or page limit regressed"
  let (done, snapshots) ← sealObservations rt policy evaluatedAt nextWatermark page.nextCursor
    { previousSequence := request.afterCursor, latest := none, lateObservations := 0 }
    page.observations
  responseUnless (!(!snapshots.isEmpty && done.previousSequence != page.nextCursor))
    "next cursor does not identify the final observation"
  let fresh := isFresh policy evaluatedAt done.latest
  responseUnless (!(policy.rejectStale && !fresh)) "page is empty or newest observation is stale"
  return {
    snapshots := snapshots
    receipt :=
      { schemaVersion := "0.1.0", admission := admission, domain := request.domain
        providerId := request.providerId, providerVersion := request.providerVersion
        requestedCursor := request.afterCursor, nextCursor := page.nextCursor
        requestedWatermark := request.watermark, nextWatermark := page.watermark
        evaluatedAt := request.evaluatedAt, freshnessPolicy := policy, fresh := fresh
        lateObservations := done.lateObservations, source := sourceOf rt fetched request
        outputDigest := rt.digestCompact (.arr (snapshots.map FeedObservationSnapshot.toJson)) } }

def adapterBuildDigest : String :=
  "sha256:30f3b84ce623e454876103d83b2e73e5f12953d7ef40dbfe79bb43ec09f7fe11"

def operation (domain : FeedDomain) : AdapterOperation where
  operationId := "live_feed." ++ domain.name ++ ".read"
  operationVersion := "1.0.0"
  inputs := [GeoContract.new ("live_feed." ++ domain.name ++ ".cursor")]
  outputs := [GeoContract.new ("live_feed." ++ domain.name ++ ".observation_snapshots")]
  capabilities := [.networkRead]
  determinism := .toleranceBounded
  evidenceHooks :=
    [.inputDigests, .outputDigests, .parameters, .componentIdentity, .environmentDigest, .ioMetrics]
  isOpaque := false

def liveFeedManifest : AdapterManifest where
  schemaVersion := Admission.manifestSchemaVersion
  adapterId := "org.genegis.live-feed"
  adapterVersion := "0.1.0"
  backend :=
    { family := .liveFeed, engineVersion := "cursor-watermark-contract-1.0.0"
      buildDigest := adapterBuildDigest, components := [("http-client", "ureq-3")] }
  license := "Apache-2.0 OR MIT"
  operations := [FeedDomain.weather, .hazard, .mobility, .sensor, .change].map operation

def new : LiveFeedAdapter where
  manifest := liveFeedManifest
  capabilityPolicy := .readOnlyNetwork liveFeedManifest.adapterId

end LiveFeed
end GeneGIS
