/-
Endpoints are asked in turn, one that fails is reported, and items are merged under a text made of
collection and identifier.  `fetch` sends a request and reads the response.
-/
import GeneGIS.Data.Binary64
import GeneGIS.Data.Keyed
import Mathlib.Data.List.Nodup
import Std.Data.ExtTreeMap.Lemmas

namespace GeneGIS

open List hiding getElem?_insert map_map

inductive StacAuthentication where
  | anonymous
  | bearerEnv (envVar : String)
  | headerEnv (header envVar : String)
  deriving DecidableEq

structure StacEndpoint where
  id : String
  title : String
  url : String
  authentication : StacAuthentication
  deriving DecidableEq

def StacEndpoint.new (id url : String) : StacEndpoint where
  id := id
  title := id
  url := url
  authentication := .anonymous

/-- West, south, east and north. -/
structure StacBbox where
  west : F64
  south : F64
  east : F64
  north : F64
  deriving DecidableEq

structure StacSearchRequest where
  bbox : Option StacBbox
  datetime : Option String
  collections : List String
  limit : Option Nat

structure StacItem where
  id : String
  collection : Option String
  bbox : StacBbox
  deriving DecidableEq

structure StacItemCollection where
  collectionType : String
  features : List StacItem

structure FederatedStacItem where
  key : String
  sourceEndpoints : List String
  item : StacItem

structure EndpointSearchOutcome where
  endpointId : String
  endpointUrl : String
  matchedItems : Nat
  error : Option String

structure FederatedSearchResult where
  request : StacSearchRequest
  endpoints : List EndpointSearchOutcome
  items : List FederatedStacItem

/-- A registry holds one endpoint of each identifier. -/
structure FederatedCatalog where
  endpoints : List StacEndpoint
  distinct : (endpoints.map StacEndpoint.id).Nodup

namespace FederatedCatalog

def new : FederatedCatalog := ⟨[], nodup_nil⟩

def register (catalog : FederatedCatalog) (endpoint : StacEndpoint) : FederatedCatalog where
  endpoints := catalog.endpoints.filter (fun existing => existing.id != endpoint.id) ++ [endpoint]
  distinct := by
    rw [map_append, map_singleton, nodup_append]
    refine ⟨catalog.distinct.sublist (filter_sublist.map _), nodup_singleton _, ?_⟩
    intro a ha b hb
    obtain ⟨existing, hexisting, rfl⟩ := mem_map.mp ha
    rw [mem_singleton.mp hb]
    exact bne_iff_ne.mp (mem_filter.mp hexisting).2

def bboxIntersects (left right : StacBbox) : Bool :=
  F64.le left.west right.east && F64.le right.west left.east &&
    F64.le left.south right.north && F64.le right.south left.north

def matchesRequest (request : StacSearchRequest) (item : StacItem) : Bool :=
  (match request.bbox with
    | none => true
    | some query => bboxIntersects item.bbox query) &&
  (request.collections.isEmpty || match item.collection with
    | none => false
    | some collection => request.collections.contains collection)

abbrev Fetch := StacEndpoint → StacSearchRequest → Except String StacItemCollection

variable (fetch : Fetch) (request : StacSearchRequest)

def searchEndpoint (endpoint : StacEndpoint) : Except String (List StacItem) := do
  let collection ← fetch endpoint request
  if collection.collectionType != "FeatureCollection" then
    throw ("invalid STAC payload: expected FeatureCollection, got " ++ collection.collectionType)
  return collection.features.filter (matchesRequest request)

def itemKey (item : StacItem) : String :=
  match item.collection with
  | some collection => collection ++ "/" ++ item.id
  | none => item.id

abbrev ItemsByKey := Std.ExtTreeMap String FederatedStacItem

def mergeItem (endpointId : String) (itemsByKey : ItemsByKey) (item : StacItem) : ItemsByKey :=
  let key := itemKey item
  match itemsByKey[key]? with
  | some existing =>
    itemsByKey.insert key
      { existing with sourceEndpoints := existing.sourceEndpoints ++ [endpointId] }
  | none => itemsByKey.insert key { key := key, sourceEndpoints := [endpointId], item := item }

def outcome (endpoint : StacEndpoint) (found : Except String (List StacItem)) :
    EndpointSearchOutcome :=
  { endpointId := endpoint.id, endpointUrl := endpoint.url
    matchedItems := match found with
      | .ok items => items.length
      | .error _ => 0
    error := match found with
      | .ok _ => none
      | .error error => some error }

/-- The loop over the endpoints. -/
def searchAll (itemsByKey : ItemsByKey) :
    List StacEndpoint → List EndpointSearchOutcome × ItemsByKey
  | [] => ([], itemsByKey)
  | endpoint :: rest =>
    let found := searchEndpoint fetch request endpoint
    let merged := match found with
      | .ok items => items.foldl (mergeItem endpoint.id) itemsByKey
      | .error _ => itemsByKey
    let (outcomes, merged) := searchAll merged rest
    (outcome endpoint found :: outcomes, merged)

def limited (limit : Option Nat) (items : List FederatedStacItem) : List FederatedStacItem :=
  match limit with
  | some limit => items.take limit
  | none => items

def search (catalog : FederatedCatalog) : FederatedSearchResult :=
  let (outcomes, itemsByKey) := searchAll fetch request ∅ catalog.endpoints
  { request := request, endpoints := outcomes
    items := limited request.limit (itemsByKey.toList.map Prod.snd) }

end FederatedCatalog
end GeneGIS

/-! ## What federated search merges

A result holds the first returned item of its key, and one entry for every item of the key. -/

namespace GeneGIS.FederatedCatalog

open List hiding getElem?_insert map_map
open Std.ExtTreeMap hiding getElem?_insert map_map

variable {fetch : Fetch} {request : StacSearchRequest} {catalog : FederatedCatalog}
  {r : FederatedStacItem} {k : String} {a b : StacItem}

def identity (item : StacItem) : Option String × String := (item.collection, item.id)

theorem itemKey_congr (h : identity a = identity b) : itemKey a = itemKey b := by
  obtain ⟨hcollection, hid⟩ := Prod.mk.inj h
  rw [itemKey, itemKey, hcollection, hid]

/-- The items of an endpoint, none when it failed. -/
def returned (fetch : Fetch) (request : StacSearchRequest) (endpoint : StacEndpoint) :
    List StacItem :=
  match searchEndpoint fetch request endpoint with
  | .ok items => items
  | .error _ => []

/-- The returned items in their order, each with the endpoint that returned it. -/
def seen (fetch : Fetch) (request : StacSearchRequest) (endpoints : List StacEndpoint) :
    List (String × StacItem) :=
  endpoints.flatMap fun endpoint =>
    (returned fetch request endpoint).map fun item => (endpoint.id, item)

theorem mem_seen {endpoints : List StacEndpoint} {s : String × StacItem} :
    s ∈ seen fetch request endpoints ↔
      ∃ e ∈ endpoints, e.id = s.1 ∧ s.2 ∈ returned fetch request e := by
  rw [seen, mem_flatMap]
  refine exists_congr fun e => and_congr_right' ?_
  rw [mem_map]
  constructor
  · intro h
    obtain ⟨item, hitem, rfl⟩ := h
    exact ⟨rfl, hitem⟩
  · intro h
    exact ⟨s.2, h.2, Prod.ext h.1 rfl⟩

/-! ## The groups -/

def ofKey (k : String) (l : List (String × StacItem)) : List (String × StacItem) :=
  l.filter fun s => itemKey s.2 == k

variable {l : List (String × StacItem)}

theorem mem_ofKey {s : String × StacItem} : s ∈ ofKey k l ↔ s ∈ l ∧ itemKey s.2 = k := by
  rw [ofKey, mem_filter, beq_iff_eq]

/-- The result of a group: its first item with all endpoints. -/
def grouped (k : String) : List (String × StacItem) → Option FederatedStacItem
  | [] => none
  | s :: rest => some { key := k, sourceEndpoints := s.1 :: rest.map Prod.fst, item := s.2 }

def Gathered (l : List (String × StacItem)) (m : ItemsByKey) : Prop :=
  ∀ k, m[k]? = grouped k (ofKey k l)

theorem gathered_empty : Gathered [] ∅ := by
  intro k
  rw [getElem?_empty]
  rfl

theorem gathered_mergeItem {m : ItemsByKey} (id : String) (item : StacItem) (h : Gathered l m) :
    Gathered (l ++ [(id, item)]) (mergeItem id m item) := by
  intro k
  have hsplit : ofKey k (l ++ [(id, item)]) =
      ofKey k l ++ if itemKey item = k then [(id, item)] else [] := by
    rw [ofKey, filter_append, filter_cons, filter_nil, ofKey]
    simp only [beq_iff_eq]
  rw [hsplit, mergeItem, h (itemKey item)]
  by_cases hk : itemKey item = k
  · rw [if_pos hk, hk]
    cases hgroup : ofKey k l with
    | nil =>
      show (m.insert k _)[k]? = _
      rw [getElem?_insert_self]
      rfl
    | cons s rest =>
      show (m.insert k _)[k]? = _
      rw [getElem?_insert_self]
      show _ = some (FederatedStacItem.mk k (s.1 :: (rest ++ [(id, item)]).map Prod.fst) s.2)
      rw [map_append]
      rfl
  · rw [if_neg hk, append_nil, ← h k]
    cases grouped (itemKey item) (ofKey (itemKey item) l) with
    | none => exact Keyed.getElem?_insert_ne (Ne.symm hk)
    | some existing => exact Keyed.getElem?_insert_ne (Ne.symm hk)

theorem gathered_items {m : ItemsByKey} {id : String} {items : List StacItem} (h : Gathered l m) :
    Gathered (l ++ items.map fun item => (id, item)) (items.foldl (mergeItem id) m) := by
  induction items generalizing l m with
  | nil =>
    rw [map_nil, append_nil]
    exact h
  | cons item rest ih =>
    have hrest := ih (gathered_mergeItem id item h)
    rw [append_assoc] at hrest
    exact hrest

theorem gathered_searchAll (fetch : Fetch) (request : StacSearchRequest)
    (endpoints : List StacEndpoint) {m : ItemsByKey}
    (h : Gathered l m) :
    Gathered (l ++ seen fetch request endpoints) (searchAll fetch request m endpoints).2 := by
  induction endpoints generalizing l m with
  | nil =>
    rw [seen, flatMap_nil, append_nil]
    exact h
  | cons endpoint rest ih =>
    rw [seen, flatMap_cons, ← append_assoc]
    apply ih
    unfold returned
    cases searchEndpoint fetch request endpoint with
    | error e =>
      rw [map_nil, append_nil]
      exact h
    | ok items => exact gathered_items h

def mergedItems (fetch : Fetch) (request : StacSearchRequest) (catalog : FederatedCatalog) :
    List FederatedStacItem :=
  (searchAll fetch request ∅ catalog.endpoints).2.toList.map Prod.snd

theorem mem_mergedItems : r ∈ mergedItems fetch request catalog ↔
    grouped r.key (ofKey r.key (seen fetch request catalog.endpoints)) = some r := by
  have hgathered := gathered_searchAll fetch request catalog.endpoints gathered_empty
  rw [nil_append] at hgathered
  rw [mergedItems, mem_map]
  constructor
  · intro h
    obtain ⟨e, he, rfl⟩ := h
    have hbound := mem_toList_iff_getElem?_eq_some.mp he
    rw [hgathered] at hbound
    have hkey : e.2.key = e.1 := by
      cases hgroup : ofKey e.1 (seen fetch request catalog.endpoints) with
      | nil =>
        rw [hgroup] at hbound
        cases hbound
      | cons s rest =>
        rw [hgroup] at hbound
        rw [← Option.some.inj hbound]
    rw [hkey]
    exact hbound
  · intro h
    refine ⟨(r.key, r), ?_, rfl⟩
    rw [mem_toList_iff_getElem?_eq_some, hgathered]
    exact h

theorem sources_of_mem (h : r ∈ mergedItems fetch request catalog) : r.sourceEndpoints =
    (ofKey r.key (seen fetch request catalog.endpoints)).map Prod.fst := by
  have hgroup := mem_mergedItems.mp h
  cases hkey : ofKey r.key (seen fetch request catalog.endpoints) with
  | nil =>
    rw [hkey] at hgroup
    cases hgroup
  | cons s rest =>
    rw [hkey] at hgroup
    rw [← Option.some.inj hgroup]
    rfl

theorem item_of_mem (h : r ∈ mergedItems fetch request catalog) :
    (∃ e ∈ catalog.endpoints, r.item ∈ returned fetch request e) ∧ itemKey r.item = r.key := by
  have hgroup := mem_mergedItems.mp h
  cases hkey : ofKey r.key (seen fetch request catalog.endpoints) with
  | nil =>
    rw [hkey] at hgroup
    cases hgroup
  | cons s rest =>
    have hs : s ∈ ofKey r.key (seen fetch request catalog.endpoints) := by
      rw [hkey]
      exact mem_cons_self
    rw [hkey] at hgroup
    have hitem : r.item = s.2 := by
      rw [← Option.some.inj hgroup]
    obtain ⟨hseen, hsame⟩ := mem_ofKey.mp hs
    obtain ⟨e, he, -, hreturned⟩ := mem_seen.mp hseen
    rw [hitem]
    exact ⟨⟨e, he, hreturned⟩, hsame⟩

theorem lands {e : StacEndpoint} (he : e ∈ catalog.endpoints) (ha : a ∈ returned fetch request e) :
    ∃ r ∈ mergedItems fetch request catalog, r.key = itemKey a := by
  have hmem : (e.id, a) ∈ ofKey (itemKey a) (seen fetch request catalog.endpoints) :=
    mem_ofKey.mpr ⟨mem_seen.mpr ⟨e, he, rfl, ha⟩, rfl⟩
  cases hgroup : ofKey (itemKey a) (seen fetch request catalog.endpoints) with
  | nil =>
    rw [hgroup] at hmem
    cases hmem
  | cons s rest =>
    refine ⟨⟨itemKey a, s.1 :: rest.map Prod.fst, s.2⟩, ?_, rfl⟩
    rw [mem_mergedItems, hgroup]
    rfl

theorem sources_cons {e : StacEndpoint} {rest : List StacEndpoint} :
    (ofKey k (seen fetch request (e :: rest))).map Prod.fst =
      List.replicate ((returned fetch request e).countP fun a => itemKey a == k) e.id ++
        (ofKey k (seen fetch request rest)).map Prod.fst := by
  have hfirst : ((ofKey k ((returned fetch request e).map fun a => (e.id, a))).map Prod.fst) =
      List.replicate ((returned fetch request e).countP fun a => itemKey a == k) e.id := by
    rw [ofKey, List.filter_map, List.map_map, List.countP_eq_length_filter]
    exact map_const'
  rw [seen, flatMap_cons, ofKey, filter_append, map_append, ← hfirst]
  rfl

theorem sources_nodup_iff {endpoints : List StacEndpoint}
    (h : (endpoints.map StacEndpoint.id).Nodup) :
    ((ofKey k (seen fetch request endpoints)).map Prod.fst).Nodup ↔
      ∀ e ∈ endpoints, ((returned fetch request e).countP fun a => itemKey a == k) ≤ 1 := by
  induction endpoints with
  | nil => simp [seen, ofKey]
  | cons e rest ih =>
    rw [map_cons, nodup_cons] at h
    rw [sources_cons, nodup_append, nodup_replicate, ih h.2, forall_mem_cons]
    refine and_congr_right' (and_iff_left ?_)
    intro a ha b hb hab
    obtain ⟨s, hs, rfl⟩ := mem_map.mp hb
    obtain ⟨f, hf, hid, -⟩ := mem_seen.mp (mem_ofKey.mp hs).1
    rw [eq_of_mem_replicate ha] at hab
    exact h.1 (mem_map.mpr ⟨f, hf, hid.trans hab.symm⟩)

/-! ## Correct merges -/

structure MergesCorrectly (fetch : Fetch) (request : StacSearchRequest)
    (catalog : FederatedCatalog) : Prop where
  joined : ∀ e ∈ catalog.endpoints, ∀ a ∈ returned fetch request e,
    ∀ f ∈ catalog.endpoints, ∀ b ∈ returned fetch request f,
    (∃ r ∈ mergedItems fetch request catalog, r.key = itemKey a ∧ r.key = itemKey b) ↔
      identity a = identity b
  kept : ∀ e ∈ catalog.endpoints, ∀ a ∈ returned fetch request e,
    ∃ r ∈ mergedItems fetch request catalog, identity r.item = identity a
  sources : ∀ r ∈ mergedItems fetch request catalog, r.sourceEndpoints.Nodup ∧
    ∀ id, id ∈ r.sourceEndpoints ↔ ∃ e ∈ catalog.endpoints, e.id = id ∧
      ∃ a ∈ returned fetch request e, identity a = identity r.item
  limit : (search fetch request catalog).items =
    limited request.limit (mergedItems fetch request catalog)

/-- The responses that the keys tell apart. -/
structure Separable (fetch : Fetch) (request : StacSearchRequest)
    (catalog : FederatedCatalog) : Prop where
  keys : ∀ e ∈ catalog.endpoints, ∀ a ∈ returned fetch request e,
    ∀ f ∈ catalog.endpoints, ∀ b ∈ returned fetch request f,
    identity a ≠ identity b → itemKey a ≠ itemKey b
  single : ∀ e ∈ catalog.endpoints, ((returned fetch request e).map identity).Nodup

theorem countP_le_one {l : List StacItem} (hkeys : ∀ a ∈ l, ∀ b ∈ l, itemKey a = itemKey b →
    identity a = identity b) (hl : (l.map identity).Nodup) :
    (l.countP fun a => itemKey a == k) ≤ 1 := by
  induction l with
  | nil => exact Nat.zero_le 1
  | cons a rest ih =>
    rw [map_cons, nodup_cons] at hl
    have hrest := ih (fun b hb c hc => hkeys b (.tail a hb) c (.tail a hc)) hl.2
    by_cases ha : itemKey a = k
    · have hnone : (rest.countP fun b => itemKey b == k) = 0 := by
        rw [countP_eq_zero]
        intro b hb hkey
        have hsame := hkeys a mem_cons_self b (.tail a hb) (ha.trans (beq_iff_eq.mp hkey).symm)
        exact hl.1 (mem_map.mpr ⟨b, hb, hsame.symm⟩)
      rw [countP_cons, hnone]
      split <;> omega
    · rw [countP_cons_of_neg (by simpa using ha)]
      exact hrest

theorem nodup_of_countP {l : List StacItem}
    (h : ∀ k, (l.countP fun a => itemKey a == k) ≤ 1) : (l.map identity).Nodup := by
  have hkeys : (l.map itemKey).Nodup := by
    rw [nodup_iff_count_le_one]
    intro k
    rw [List.count, countP_map]
    exact h k
  rw [List.Nodup, pairwise_map] at hkeys ⊢
  exact hkeys.imp fun hne hsame => hne (itemKey_congr hsame)

theorem merges_correctly_of_separable (h : Separable fetch request catalog) :
    MergesCorrectly fetch request catalog := by
  have hinjective : ∀ e ∈ catalog.endpoints, ∀ a ∈ returned fetch request e,
      ∀ f ∈ catalog.endpoints, ∀ b ∈ returned fetch request f,
      itemKey a = itemKey b → identity a = identity b := by
    intro e he a ha f hf b hb hkey
    by_contra hne
    exact h.keys e he a ha f hf b hb hne hkey
  refine ⟨?_, ?_, ?_, rfl⟩
  · intro e he a ha f hf b hb
    constructor
    · intro hr
      obtain ⟨r, -, hra, hrb⟩ := hr
      exact hinjective e he a ha f hf b hb (hra.symm.trans hrb)
    · intro hsame
      obtain ⟨r, hr, hkey⟩ := lands he ha
      exact ⟨r, hr, hkey, hkey.trans (itemKey_congr hsame)⟩
  · intro e he a ha
    obtain ⟨r, hr, hkey⟩ := lands he ha
    obtain ⟨⟨f, hf, hreturned⟩, hitem⟩ := item_of_mem hr
    exact ⟨r, hr, hinjective f hf r.item hreturned e he a ha (hitem.trans hkey)⟩
  · intro r hr
    obtain ⟨⟨f, hf, hreturned⟩, hitem⟩ := item_of_mem hr
    rw [sources_of_mem hr]
    refine ⟨?_, ?_⟩
    · rw [sources_nodup_iff catalog.distinct]
      intro e he
      exact countP_le_one (fun a ha b hb => hinjective e he a ha e he b hb) (h.single e he)
    · intro id
      rw [mem_map]
      constructor
      · intro hs
        obtain ⟨s, hs, rfl⟩ := hs
        obtain ⟨hseen, hkey⟩ := mem_ofKey.mp hs
        obtain ⟨e, he, hid, hsreturned⟩ := mem_seen.mp hseen
        exact ⟨e, he, hid, s.2, hsreturned,
          hinjective e he s.2 hsreturned f hf r.item hreturned (hkey.trans hitem.symm)⟩
      · intro hsource
        obtain ⟨e, he, rfl, a, ha, hsame⟩ := hsource
        refine ⟨(e.id, a), mem_ofKey.mpr ⟨mem_seen.mpr ⟨e, he, rfl, ha⟩, ?_⟩, rfl⟩
        exact (itemKey_congr hsame).trans hitem

/-- Search merges correctly exactly when the returned items can be told apart. -/
theorem merges_correctly_iff (fetch : Fetch) (request : StacSearchRequest)
    (catalog : FederatedCatalog) :
    MergesCorrectly fetch request catalog ↔ Separable fetch request catalog := by
  constructor
  · intro h
    refine ⟨?_, ?_⟩
    · intro e he a ha f hf b hb hne hkey
      obtain ⟨r, hr, hra⟩ := lands he ha
      exact hne ((h.joined e he a ha f hf b hb).mp ⟨r, hr, hra, hra.trans hkey⟩)
    · intro e he
      apply nodup_of_countP
      intro k
      by_cases hk : ∃ a ∈ returned fetch request e, itemKey a = k
      · obtain ⟨a, ha, rfl⟩ := hk
        obtain ⟨r, hr, hkey⟩ := lands he ha
        have hnodup := (h.sources r hr).1
        rw [sources_of_mem hr, hkey, sources_nodup_iff catalog.distinct] at hnodup
        exact hnodup e he
      · have hnone : ((returned fetch request e).countP fun a => itemKey a == k) = 0 := by
          rw [countP_eq_zero]
          intro a ha hkey
          exact hk ⟨a, ha, beq_iff_eq.mp hkey⟩
        omega
  · exact merges_correctly_of_separable

namespace Sample

def item (collection id : String) : StacItem :=
  { id := id, collection := some collection, bbox := ⟨.zero, .zero, .zero, .zero⟩ }

def anything : StacSearchRequest :=
  { bbox := none, datetime := none, collections := [], limit := none }

def mirrored : FederatedCatalog :=
  (FederatedCatalog.new.register (.new "primary" "primary.json")).register
    (.new "mirror" "mirror.json")

/-- The two items have the key `a/b/c`. -/
def respond : Fetch := fun endpoint _ =>
  if endpoint.id = "primary" then .ok ⟨"FeatureCollection", [item "a/b" "c"]⟩
  else .ok ⟨"FeatureCollection", [item "a" "b/c"]⟩

end Sample

theorem different_items_merged :
    ¬ MergesCorrectly Sample.respond Sample.anything Sample.mirrored := by
  intro h
  have hone : (mergedItems Sample.respond Sample.anything Sample.mirrored).map
      (fun r => identity r.item) = [(some "a/b", "c")] := by
    rfl
  obtain ⟨r, hr, hsame⟩ := h.kept (.new "mirror" "mirror.json") (by decide)
    (Sample.item "a" "b/c") (by decide)
  have hmem := mem_map_of_mem (f := fun r => identity r.item) hr
  rw [hone, mem_singleton, hsame] at hmem
  revert hmem
  decide

end GeneGIS.FederatedCatalog
