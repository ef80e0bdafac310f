/-
`Filed` says that the key of an entry can be taken apart, and every run keeps it.  `Keeps` says
that a release never changes and what is revoked stays revoked.
-/
import GeneGIS.Data.Keyed
import GeneGIS.Data.Path
import GeneGIS.Plugin.Registry

namespace GeneGIS.PluginRegistry

open Fallible List Option Std.ExtTreeMap Keyed

variable {rt : Runtime} {ed : Ed25519} {s s' : PluginRegistry}

/-- The signature of a text verifies under a trusted key. -/
def Signed (ed : Ed25519) (policy : PluginRegistryPolicy) (signature : PluginReleaseSignature)
    (payload : List Char) : Prop :=
  ∃ trusted key bytes, policy.trustedSigners[signature.keyId]? = some trusted ∧
    decodeKey ed trusted = .ok key ∧ ed.decode signature.signatureBase64 = some bytes ∧
    ed.verify key payload bytes = true

@[simp] theorem require_ok {holds : Bool} {reason : String} {u : Unit} :
    require holds reason = .ok u ↔ holds = true :=
  except_guard_ok

@[simp] theorem expect_ok {α : Type} {value : Option α} {reason : String} {a : α} :
    expect value reason = .ok a ↔ value = some a := by
  cases value with
  | none => exact iff_of_false nofun nofun
  | some b =>
    show Except.ok b = .ok a ↔ _
    rw [Except.ok.injEq, Option.some.injEq]

theorem verifySignedBytes_signed {policy : PluginRegistryPolicy}
    {signature : PluginReleaseSignature} {payload : List Char} {u : Unit}
    (h : verifySignedBytes ed policy signature payload = .ok u) :
    Signed ed policy signature payload := by
  obtain ⟨_, -, h⟩ := bind_iff.mp h
  obtain ⟨trusted, htrusted, h⟩ := bind_iff.mp h
  obtain ⟨key, hkey, h⟩ := bind_iff.mp h
  obtain ⟨bytes, hbytes, h⟩ := bind_iff.mp h
  obtain ⟨_, -, h⟩ := bind_iff.mp h
  exact ⟨trusted, key, bytes, expect_ok.mp htrusted, hkey, expect_ok.mp hbytes, require_ok.mp h⟩

theorem toList_releaseKey (id version : String) :
    (releaseKey id version).toList = id.toList ++ '@' :: version.toList := by
  rw [releaseKey, String.toList_append, String.toList_append, append_assoc]
  rfl

theorem releaseKey_inj {id version id' version' : String} (hid : '@' ∉ id.toList)
    (hversion : '@' ∉ version.toList) (h : releaseKey id version = releaseKey id' version') :
    id = id' ∧ version = version' := by
  have hchars := congrArg String.toList h
  rw [toList_releaseKey, toList_releaseKey, append_cons_inj_of_notMem hid hversion] at hchars
  exact ⟨String.toList_injective hchars.1, String.toList_injective hchars.2.2⟩

theorem revocationPayload_inj {id version reason at_ id' version' reason' at_' : String}
    (h : revocationPayload rt id version reason at_ =
      revocationPayload rt id' version' reason' at_') : id = id' ∧ version = version' := by
  have htail := (List.cons.inj h).2
  simp only [Json.compactItems, Json.compactChars, Json.commaSeparated, Json.commaTail,
    append_assoc, cons_append] at htail
  obtain ⟨hid, htail⟩ := Json.quote_inj htail
  obtain ⟨hversion, -⟩ := Json.quote_inj (List.cons.inj htail).2
  exact ⟨hid, hversion⟩

/-! ## What a call does -/

/-- An accepted call: an entry under a key that was free, or one that was not revoked and now is. -/
inductive Performed (rt : Runtime) (ed : Ed25519) (s : PluginRegistry) :
    Op → PluginRegistry → Prop
  | published (manifest : PluginManifest) (signature : PluginReleaseSignature)
      (publishedAt : String) (valid : manifest.validate = .ok ())
      (fresh : s.entries[releaseKey manifest.id manifest.version]? = none) :
      Performed rt ed s (.publish manifest signature publishedAt)
        { s with
          entries := s.entries.insert (releaseKey manifest.id manifest.version)
            { manifest := manifest, manifestDigest := rt.digestCompact manifest.toJson
              signature := signature, publishedAt := publishedAt, revocation := none } }
  | revoked (revocation : PluginRevocation) (entry : PluginRegistryEntry)
      (signed : Signed ed s.policy revocation.signature
        (revocationPayload rt revocation.pluginId revocation.version revocation.reason
          revocation.revokedAt))
      (found : s.entries[releaseKey revocation.pluginId revocation.version]? = some entry)
      (active : entry.revocation = none) :
      Performed rt ed s (.revoke revocation)
        { s with
          entries := s.entries.insert (releaseKey revocation.pluginId revocation.version)
            { entry with revocation := some revocation } }

variable {entry : PluginRegistryEntry}

theorem publish_ok {manifest : PluginManifest} {signature : PluginReleaseSignature}
    {publishedAt : String}
    (h : publish rt ed manifest signature publishedAt s = .ok entry s') :
    Performed rt ed s (.publish manifest signature publishedAt) s' := by
  obtain ⟨_, hvalid, h⟩ := lift_bind_ok.mp h
  obtain ⟨_, -, h⟩ := lift_bind_ok.mp h
  replace h := get_bind_ok.mp h
  obtain ⟨_, -, h⟩ := lift_bind_ok.mp h
  obtain ⟨_, _, hcheck, h⟩ := bind_ok.mp h
  obtain ⟨hfresh, rfl⟩ := check_ok.mp hcheck
  obtain ⟨_, _, hset, h⟩ := bind_ok.mp h
  obtain rfl := set_ok.mp hset
  obtain ⟨-, rfl⟩ := pure_ok.mp h
  refine .published manifest signature publishedAt (mapError_iff.mp hvalid) ?_
  have habsent : s.entries.contains (releaseKey manifest.id manifest.version) = false := by
    simpa using hfresh
  exact getElem?_eq_none_of_contains_eq_false habsent

theorem revoke_ok {revocation : PluginRevocation} {u : Unit}
    (h : revoke rt ed revocation s = .ok u s') :
    Performed rt ed s (.revoke revocation) s' := by
  obtain ⟨_, -, h⟩ := lift_bind_ok.mp h
  obtain ⟨_, _, hcheck, h⟩ := bind_ok.mp h
  obtain ⟨-, rfl⟩ := check_ok.mp hcheck
  replace h := get_bind_ok.mp h
  obtain ⟨_, hsigned, h⟩ := lift_bind_ok.mp h
  cases hfound : s.entries[releaseKey revocation.pluginId revocation.version]? with
  | none =>
    rw [hfound] at h
    exact (throw_ok.mp h).elim
  | some entry =>
    rw [hfound] at h
    obtain ⟨_, _, hcheck, h⟩ := bind_ok.mp h
    obtain ⟨hactive, rfl⟩ := check_ok.mp hcheck
    obtain rfl := set_ok.mp h
    exact .revoked revocation entry (verifySignedBytes_signed hsigned) hfound
      (isNone_iff_eq_none.mp hactive)

variable {op : Op}

theorem perform_ok {u : Unit} (h : perform rt ed op s = .ok u s') : Performed rt ed s op s' := by
  cases op with
  | publish manifest signature publishedAt =>
    obtain ⟨_, _, hrun, h⟩ := bind_ok.mp h
    obtain ⟨-, rfl⟩ := pure_ok.mp h
    exact publish_ok hrun
  | revoke revocation => exact revoke_ok h

theorem atomic_publish (manifest : PluginManifest) (signature : PluginReleaseSignature)
    (publishedAt : String) : Atomic (publish rt ed manifest signature publishedAt) := by
  refine (observes_lift _).bind fun _ => (observes_lift _).bind fun _ => ?_
  refine observes_get.bind fun s => (observes_lift _).bind fun _ => ?_
  refine (observes_check _ _).bind fun _ => Total.atomic ?_
  exact (total_set _).bind fun _ => total_pure _

theorem atomic_revoke (revocation : PluginRevocation) : Atomic (revoke rt ed revocation) := by
  refine (observes_lift _).bind fun _ => (observes_check _ _).bind fun _ => ?_
  refine observes_get.bind fun s => (observes_lift _).bind fun _ => ?_
  dsimp only
  cases s.entries[releaseKey revocation.pluginId revocation.version]? with
  | none => exact atomic_throw _
  | some entry => exact (observes_check _ _).bind fun _ => (total_set _).atomic

theorem atomic_perform (op : Op) : Atomic (perform rt ed op) := by
  cases op with
  | publish manifest signature publishedAt =>
    exact (atomic_publish manifest signature publishedAt).bind fun _ => total_pure _
  | revoke revocation => exact atomic_revoke revocation

theorem calls_cases (h : Calls rt ed s op s') : s' = s ∨ Performed rt ed s op s' := by
  cases hrun : perform rt ed op s with
  | ok u t =>
    have hafter : s' = t := h.symm.trans (after_ok hrun)
    rw [hafter]
    exact .inr (perform_ok hrun)
  | error e t =>
    have hafter : s' = t := h.symm.trans (after_error hrun)
    rw [hafter]
    exact .inl (atomic_perform op s e t hrun)

/-- An entry stands under the key of its own manifest, and the manifest is valid. -/
structure Filed (key : String) (entry : PluginRegistryEntry) : Prop where
  key_eq : key = releaseKey entry.manifest.id entry.manifest.version
  valid : entry.manifest.validate = .ok ()

def AllFiled (s : PluginRegistry) : Prop :=
  ∀ (key : String) (entry : PluginRegistryEntry), s.entries[key]? = some entry → Filed key entry

variable {id version : String}

theorem Filed.eq_of_key (h : Filed (releaseKey id version) entry) :
    entry.manifest.id = id ∧ entry.manifest.version = version := by
  obtain ⟨hid, hversion⟩ := PluginManifest.validate_alphabet h.valid
  exact releaseKey_inj hid hversion h.key_eq.symm

theorem new_filed {policy : PluginRegistryPolicy} (h : new ed policy = .ok s) : AllFiled s := by
  obtain ⟨_, -, h⟩ := bind_iff.mp h
  cases h
  intro key entry hentry
  rw [getElem?_empty] at hentry
  cases hentry

theorem Performed.filed (h : Performed rt ed s op s') (hs : AllFiled s) : AllFiled s' := by
  intro key entry hentry
  cases h with
  | published manifest signature publishedAt valid fresh =>
    rcases insert_cases hentry with hnew | hold
    · rw [hnew.1, hnew.2]
      exact ⟨rfl, valid⟩
    · exact hs key entry hold.2
  | revoked revocation old signed found active =>
    rcases insert_cases hentry with hnew | hold
    · have hfiled := hs _ old found
      rw [hnew.1, hnew.2]
      exact ⟨hfiled.key_eq, hfiled.valid⟩
    · exact hs key entry hold.2

theorem calls_filed (hs : AllFiled s) (h : Calls rt ed s op s') : AllFiled s' := by
  rcases calls_cases h with hsame | hperformed
  · rw [hsame]
    exact hs
  · exact hperformed.filed hs

/-- The same release, revoked still if it was revoked. -/
structure SameRelease (entry entry' : PluginRegistryEntry) : Prop where
  manifest : entry'.manifest = entry.manifest
  manifestDigest : entry'.manifestDigest = entry.manifestDigest
  signature : entry'.signature = entry.signature
  revocation : entry.revocation.isSome = true → entry'.revocation = entry.revocation

/-- Every release of the first registry is in the second. -/
def Keeps (s s' : PluginRegistry) : Prop :=
  ∀ (key : String) (entry : PluginRegistryEntry), s.entries[key]? = some entry →
    ∃ entry', s'.entries[key]? = some entry' ∧ SameRelease entry entry'

theorem SameRelease.refl (entry : PluginRegistryEntry) : SameRelease entry entry :=
  ⟨rfl, rfl, rfl, fun _ => rfl⟩

theorem Keeps.refl (s : PluginRegistry) : Keeps s s :=
  fun _ entry hentry => ⟨entry, hentry, SameRelease.refl entry⟩

theorem Keeps.trans {a b c : PluginRegistry} (hab : Keeps a b) (hbc : Keeps b c) : Keeps a c := by
  intro key entry hentry
  obtain ⟨middle, hmiddle, h⟩ := hab key entry hentry
  obtain ⟨last, hlast, h'⟩ := hbc key middle hmiddle
  refine ⟨last, hlast, h'.manifest.trans h.manifest, h'.manifestDigest.trans h.manifestDigest,
    h'.signature.trans h.signature, ?_⟩
  intro hrevoked
  have hsame := h.revocation hrevoked
  rw [← hsame] at hrevoked ⊢
  exact h'.revocation hrevoked

theorem Performed.keeps (h : Performed rt ed s op s') : Keeps s s' := by
  intro key entry hentry
  cases h with
  | published manifest signature publishedAt valid fresh =>
    refine ⟨entry, ?_, SameRelease.refl entry⟩
    by_cases hkey : key = releaseKey manifest.id manifest.version
    · rw [hkey, fresh] at hentry
      cases hentry
    · rw [getElem?_insert_ne hkey]
      exact hentry
  | revoked revocation old signed found active =>
    by_cases hkey : key = releaseKey revocation.pluginId revocation.version
    · rw [hkey, found] at hentry
      obtain rfl := Option.some.inj hentry
      refine ⟨{ old with revocation := some revocation }, ?_, rfl, rfl, rfl, ?_⟩
      · rw [hkey, getElem?_insert_self]
      · intro hrevoked
        rw [active] at hrevoked
        cases hrevoked
    · refine ⟨entry, ?_, SameRelease.refl entry⟩
      rw [getElem?_insert_ne hkey]
      exact hentry

theorem calls_keeps (h : Calls rt ed s op s') : Keeps s s' := by
  rcases calls_cases h with hsame | hperformed
  · rw [hsame]
    exact Keeps.refl s
  · exact hperformed.keeps

/-- The release of an identifier and a version is in the registry and is revoked. -/
def Revoked (s : PluginRegistry) (id version : String) : Prop :=
  ∃ (key : String) (entry : PluginRegistryEntry), s.entries[key]? = some entry ∧
    entry.manifest.id = id ∧ entry.manifest.version = version ∧ entry.revocation.isSome = true

theorem revoke_revoked {revocation : PluginRevocation} (hs : AllFiled s)
    (h : Performed rt ed s (.revoke revocation) s') :
    Revoked s' revocation.pluginId revocation.version := by
  cases h with
  | revoked revocation entry signed found active =>
    obtain ⟨hid, hversion⟩ := (hs _ entry found).eq_of_key
    refine ⟨releaseKey revocation.pluginId revocation.version,
      { entry with revocation := some revocation }, ?_, hid, hversion, rfl⟩
    exact getElem?_insert_self

theorem revoke_only {revocation : PluginRevocation} (hs : AllFiled s)
    (h : Calls rt ed s (.revoke revocation) s') {id version reason revokedAt : String}
    (hpayload : revocationPayload rt revocation.pluginId revocation.version revocation.reason
      revocation.revokedAt = revocationPayload rt id version reason revokedAt)
    {key : String} (hchanged : s'.entries[key]? ≠ s.entries[key]?) :
    Signed ed s.policy revocation.signature (revocationPayload rt id version reason revokedAt) ∧
    ∃ entry, s.entries[key]? = some entry ∧ entry.manifest.id = id ∧
      entry.manifest.version = version ∧
      s'.entries[key]? = some { entry with revocation := some revocation } := by
  rcases calls_cases h with hsame | hperformed
  · rw [hsame] at hchanged
    exact absurd rfl hchanged
  · obtain ⟨hid, hversion⟩ := revocationPayload_inj hpayload
    cases hperformed with
    | revoked revocation entry signed found active =>
      by_cases hkey : key = releaseKey revocation.pluginId revocation.version
      · obtain ⟨hfirst, hsecond⟩ := (hs _ entry found).eq_of_key
        rw [← hpayload, hkey]
        exact ⟨signed, entry, found, hfirst.trans hid, hsecond.trans hversion, getElem?_insert_self⟩
      · rw [getElem?_insert_ne hkey] at hchanged
        exact absurd rfl hchanged

theorem resolve_ok (h : resolve rt ed s id version = .ok entry) :
    s.entries[releaseKey id version]? = some entry ∧ entry.revocation = none ∧
      Signed ed s.policy entry.signature (canonical rt entry.manifest.toJson) := by
  unfold resolve at h
  dsimp only at h
  cases hfound : s.entries[releaseKey id version]? with
  | none =>
    rw [hfound] at h
    cases h
  | some found =>
    rw [hfound] at h
    obtain ⟨_, hactive, h⟩ := bind_iff.mp h
    obtain ⟨_, -, h⟩ := bind_iff.mp h
    obtain ⟨_, hsigned, h⟩ := bind_iff.mp h
    cases h
    exact ⟨rfl, isNone_iff_eq_none.mp (require_ok.mp hactive), verifySignedBytes_signed hsigned⟩

theorem Revoked.not_resolve (hrevoked : Revoked s id version)
    (hs : AllFiled s) (hkeeps : Keeps s s') (entry : PluginRegistryEntry) :
    resolve rt ed s' id version ≠ .ok entry := by
  intro hresolve
  obtain ⟨hfound, hactive, -⟩ := resolve_ok hresolve
  obtain ⟨key, old, hold, hid, hversion, hsome⟩ := hrevoked
  have hkey : key = releaseKey id version := by
    rw [(hs key old hold).key_eq, hid, hversion]
  rw [hkey] at hold
  obtain ⟨entry', hentry', hsame⟩ := hkeeps _ old hold
  rw [hfound] at hentry'
  cases hentry'
  have hkept := hsame.revocation hsome
  rw [← hkept, hactive] at hsome
  cases hsome

/-! ## Runs -/

/-- Over a run from a new registry, a release never changes, a revoked one does not resolve again, a
revocation changes its release only, a release that resolves is the one asked for, with a trusted
signature, and a rejected call changes nothing. -/
theorem run_releases (rt : Runtime) (ed : Ed25519) {policy : PluginRegistryPolicy}
    {first last : PluginRegistry} {trace : List (PluginRegistry × Op)}
    (hnew : new ed policy = .ok first) (path : Path (Calls rt ed) first trace last) :
    (∀ s ∈ Path.visited trace last, ∀ (key : String) entry, s.entries[key]? = some entry →
      ∃ entry', last.entries[key]? = some entry' ∧ entry'.manifest = entry.manifest ∧
        entry'.manifestDigest = entry.manifestDigest ∧ entry'.signature = entry.signature) ∧
    (∀ s ∈ Path.visited trace last, ∀ id version, Revoked s id version →
      ∀ entry, resolve rt ed last id version ≠ .ok entry) ∧
    (∀ s revocation, (s, .revoke revocation) ∈ trace →
      ∀ u s', revoke rt ed revocation s = .ok u s' →
      ∀ entry, resolve rt ed last revocation.pluginId revocation.version ≠ .ok entry) ∧
    (∀ s revocation, (s, .revoke revocation) ∈ trace → ∀ id version reason revokedAt,
      revocationPayload rt revocation.pluginId revocation.version revocation.reason
        revocation.revokedAt = revocationPayload rt id version reason revokedAt →
      ∀ key : String, (after (revoke rt ed revocation) s).entries[key]? ≠ s.entries[key]? →
        Signed ed s.policy revocation.signature (revocationPayload rt id version reason revokedAt) ∧
        ∃ entry, s.entries[key]? = some entry ∧ entry.manifest.id = id ∧
          entry.manifest.version = version ∧
          (after (revoke rt ed revocation) s).entries[key]? =
            some { entry with revocation := some revocation }) ∧
    (∀ id version entry, resolve rt ed last id version = .ok entry →
      entry.manifest.id = id ∧ entry.manifest.version = version ∧
      Signed ed last.policy entry.signature (canonical rt entry.manifest.toJson)) ∧
    ∀ s op, (s, op) ∈ trace → ∀ error s', perform rt ed op s = .error error s' → s' = s := by
  have hfiled : ∀ s ∈ Path.visited trace last, AllFiled s :=
    path.invariant (new_filed hnew) fun _ _ _ => calls_filed
  have hkeeps : ∀ s ∈ Path.visited trace last, Keeps s last :=
    path.related (new_filed hnew) (fun _ _ _ => calls_filed) Keeps.refl
      (fun _ _ _ => Keeps.trans) fun _ _ _ _ => calls_keeps
  refine ⟨?_, ?_, ?_, ?_, ?_, ?_⟩
  · intro s hs key entry hentry
    obtain ⟨entry', hentry', hsame⟩ := hkeeps s hs key entry hentry
    exact ⟨entry', hentry', hsame.manifest, hsame.manifestDigest, hsame.signature⟩
  · intro s hs id version hrevoked
    exact hrevoked.not_resolve (hfiled s hs) (hkeeps s hs)
  · intro s revocation hmem u s' hok
    obtain ⟨hs, q, hq, hcalls⟩ := path.step_of_mem _ hmem
    have hafter : s' = q := (after_ok hok).symm.trans hcalls
    rw [← hafter] at hq
    have hrevoked : Revoked s' revocation.pluginId revocation.version :=
      revoke_revoked (hfiled s hs) (revoke_ok hok)
    exact hrevoked.not_resolve (hfiled s' hq) (hkeeps s' hq)
  · intro s revocation hmem id version reason revokedAt hpayload key hchanged
    obtain ⟨hs, -⟩ := path.step_of_mem _ hmem
    exact revoke_only (hfiled s hs) rfl hpayload hchanged
  · intro id version entry hresolve
    obtain ⟨hfound, -, hsigned⟩ := resolve_ok hresolve
    obtain ⟨hid, hversion⟩ := (hfiled last Path.last_mem_visited _ entry hfound).eq_of_key
    exact ⟨hid, hversion, hsigned⟩
  · intro s op hmem error s' herror
    exact atomic_perform op s error s' herror

namespace Sample

def digit (c : Char) : Nat :=
  let n := c.toNat
  if n < 48 then if n = 43 then 62 else 63
  else if n < 58 then n + 4
  else if n < 91 then n - 65
  else n - 71

/-- The bytes of a base64 text, four digits at a time. -/
def bytes : List Char → List UInt8
  | [a, b, '=', '='] => [.ofNat (digit a * 4 + digit b / 16)]
  | [a, b, c, '='] =>
    [.ofNat (digit a * 4 + digit b / 16), .ofNat (digit b % 16 * 16 + digit c / 4)]
  | a :: b :: c :: d :: rest =>
    .ofNat (digit a * 4 + digit b / 16) :: .ofNat (digit b % 16 * 16 + digit c / 4) ::
      .ofNat (digit c % 4 * 64 + digit d) :: bytes rest
  | _ => []

/-- The key of the seed of thirty-two sevens. -/
def key : String := "6kpsY+KcUgq+9VB7Ey7F+ZVHdq6+vnuSQh7qaRRG0iw="

def manifest : PluginManifest :=
  { id := "demo", name := "", version := "0.1.0", apiVersion := "1.0.0", description := ""
    author := "", capabilities := [.analysisStep]
    artifactDigest := "sha256:336154bf67f765f8f75d16a0accee61b5ee5f6a75b2a2905703df913bd550f3e"
    wasm := none }

def signature (text : String) : PluginReleaseSignature :=
  { keyId := "release", algorithm := "ed25519", signatureBase64 := text }

def released : String :=
  "1BDQRt7ykCyaS/VmY9ITHw7edMaiGb3EbtJV4739aH/rCGVYYJKYStIkgnURLT91A8+fDEVFv4pfl9X8YNU7Bg=="

def withdrawn : String :=
  "p37XR457Z24bQosGyjSP2cJ3BTHliBPXtt+YiAHreTFfgBvIZ+ztNc2KMT9Y3hkKxLbmhsD1lBh37Cke8RAKCw=="

def revocation : PluginRevocation :=
  { pluginId := "demo", version := "0.1.0", reason := "flaw"
    revokedAt := "1970-01-01T00:05:00Z", signature := signature withdrawn
    revocationDigest := "sha256:b07daa7b6fbcdc333357df0638e55e4cc8f367916b4983e72dd88f33b09af0b3" }

def signed : List (List Char × List UInt8) :=
  [(canonical Runtime.reference manifest.toJson, bytes released.toList),
   (revocationPayload Runtime.reference "demo" "0.1.0" "flaw" "1970-01-01T00:05:00Z",
      bytes withdrawn.toList)]

def dalek : Ed25519 :=
  { decode := fun text => some (bytes text.toList)
    isKey := fun k => k = bytes key.toList
    isSignature := fun s => s.length = 64
    verify := fun k payload s => k = bytes key.toList && signed.contains (payload, s)
    sha256 := fun artifact => Sha256.hex (artifact.map fun b => Char.ofNat b.toNat) }

def policy : PluginRegistryPolicy :=
  { schemaVersion := "1.0.0", trustedSigners := .ofList [("release", key)] }

def first : PluginRegistry := { schemaVersion := "1.0.0", policy := policy, entries := ∅ }

def ops : List Op :=
  [.publish manifest (signature released) "1970-01-01T00:00:00Z", .revoke revocation]

variable (ops : List Op)

def trace : List (PluginRegistry × Op) :=
  Path.taken (fun s op => after (perform Runtime.reference dalek op) s) first ops

def last : PluginRegistry :=
  ops.foldl (fun s op => after (perform Runtime.reference dalek op) s) first

theorem new_policy : new dalek policy = .ok first := by
  rfl

theorem path : Path (Calls Runtime.reference dalek) first (trace ops) (last ops) :=
  Path.of_taken _ first ops

end Sample

/-- A release that was published and revoked. -/
theorem run_releases_sample : Revoked (Sample.last Sample.ops) "demo" "0.1.0" ∧
    ∀ entry, resolve Runtime.reference Sample.dalek (Sample.last Sample.ops) "demo" "0.1.0" ≠
      .ok entry := by
  have htest : ((Sample.last Sample.ops).entries["demo@0.1.0"]?.any fun entry =>
      decide (entry.manifest = Sample.manifest) && entry.revocation.isSome) = true := by
    decide +kernel
  obtain ⟨entry, hentry, hfields⟩ := (any_eq_true _ _).mp htest
  rw [Bool.and_eq_true, decide_eq_true_eq] at hfields
  have hrevoked : Revoked (Sample.last Sample.ops) "demo" "0.1.0" := by
    refine ⟨_, entry, hentry, ?_, ?_, hfields.2⟩
    · rw [hfields.1]
      rfl
    · rw [hfields.1]
      rfl
  have hrun := run_releases Runtime.reference Sample.dalek Sample.new_policy
    (Sample.path Sample.ops)
  exact ⟨hrevoked, hrun.2.1 (Sample.last Sample.ops) Path.last_mem_visited "demo" "0.1.0" hrevoked⟩

end GeneGIS.PluginRegistry
