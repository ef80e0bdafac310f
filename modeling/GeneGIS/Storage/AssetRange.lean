/-
A range is read from a local file, or asked for over HTTP from a host that the policy admits; a
server may answer with the whole object.
-/
import GeneGIS.Data.Bytes
import GeneGIS.Data.Fallible
import GeneGIS.Data.Text

namespace GeneGIS.Storage

open List Fallible

inductive StorageError where
  | unsupportedScheme (reason : String)
  | local (reason : String)
  | http (reason : String)
  | invalidRange (reason : String)
  deriving DecidableEq

/-- Both bounds are inclusive; `last` is `end`. -/
structure ByteRange where
  start : Nat
  last : Nat
  ordered : start ≤ last
  bounded : last < 2 ^ 64

variable (range : ByteRange)

def ByteRange.len : Nat := (range.last - range.start + 1) % 2 ^ 64

def ByteRange.headerValue : String := "bytes=" ++ toString range.start ++ "-" ++ toString range.last

/-! ## Policies -/

structure RemoteAccessPolicy where
  allowedHosts : List String
  allowLoopback : Bool
  maxResponseBytes : Nat
  timeoutMs : Nat
  maxRedirects : Nat

/-- What a URL is made of. -/
structure Url where
  scheme : String
  username : String
  password : Option String
  host : Option String

structure HttpResponse where
  status : Nat
  contentRange : Option String
  contentType : Option String
  body : Bytes

/-- The world around: files, URLs, loopback addresses, debug texts, and an agent that sends a
`Range` and reads a body up to a limit. -/
structure Platform where
  file : String → Except String Bytes
  parseUrl : String → Except String Url
  isLoopbackAddress : String → Bool
  debug : String → String
  get : RemoteAccessPolicy → String → String → Except String HttpResponse
  readToVec : Nat → HttpResponse → Except String Bytes
  readToString : Nat → HttpResponse → Option String

def remoteAllowedHostsEnv : String := "GENEGIS_REMOTE_ALLOWED_HOSTS"

/-- `from_env`, given the value of the variable. -/
def RemoteAccessPolicy.fromEnv (setting : Option String) : RemoteAccessPolicy where
  allowedHosts := ((((setting.getD "").toList.splitOn ',').map fun host =>
    Text.trim (String.ofList host)).filter fun host => !host.isEmpty).map Text.toAsciiLowercase
  allowLoopback := true
  maxResponseBytes := 8 * 1024 * 1024
  timeoutMs := 15000
  maxRedirects := 0

section Read

variable (platform : Platform)

def remoteUrlHost (value : String) : Except StorageError String := do
  let url ← (platform.parseUrl value).mapError fun error =>
    .unsupportedScheme (platform.debug value ++ ": " ++ error)
  if url.scheme ≠ "http" ∧ url.scheme ≠ "https" then
    throw (.unsupportedScheme url.scheme)
  if ¬ url.username.isEmpty ∨ url.password.isSome then
    throw (.http "remote URL credentials are not permitted")
  match url.host with
  | some host => return Text.toAsciiLowercase host
  | none => throw (.http "remote URL has no host")

def isLoopbackHost (host : String) : Bool := host == "localhost" || platform.isLoopbackAddress host

def hostMatches (host allowed : String) : Bool :=
  let allowed := Text.toAsciiLowercase (Text.trim allowed)
  match Text.withoutPrefix "*." allowed with
  | some suffix => host != suffix && ("." ++ suffix).toList.isSuffixOf host.toList
  | none => host == allowed

def RemoteAccessPolicy.validateUrl (policy : RemoteAccessPolicy) (value : String) :
    Except StorageError Unit := do
  let host ← remoteUrlHost platform value
  if policy.allowLoopback && isLoopbackHost platform host then
    return ()
  else if policy.allowedHosts.any (hostMatches host) then
    return ()
  else
    throw (.http ("remote host " ++ platform.debug host ++ " is not allowlisted; set " ++
      remoteAllowedHostsEnv))

structure HttpFetchResult where
  status : Nat
  bytes : Bytes
  contentRange : Option String
  contentType : Option String

def fetchHttpRangeWithPolicy (url : String) (range : ByteRange) (policy : RemoteAccessPolicy) :
    Except StorageError HttpFetchResult := do
  policy.validateUrl platform url
  if policy.maxResponseBytes < range.len then
    throw (.http ("requested range exceeds configured limit of " ++
      toString policy.maxResponseBytes ++ " bytes"))
  let response ← (platform.get policy url range.headerValue).mapError .http
  if response.status ≠ 206 ∧ response.status ≠ 200 then
    throw (.http ("HTTP " ++ toString response.status ++ ": " ++
      (platform.readToString policy.maxResponseBytes response).getD ""))
  let bytes ← (platform.readToVec policy.maxResponseBytes response).mapError .http
  if response.status = 206 ∧ bytes.length ≠ range.len then
    throw (.http ("range response length mismatch: expected " ++ toString range.len ++ ", got " ++
      toString bytes.length))
  return ⟨response.status, bytes, response.contentRange, response.contentType⟩

def isRemoteUri (uri : String) : Bool :=
  "http://".toList.isPrefixOf uri.toList || "https://".toList.isPrefixOf uri.toList

/-- Seeking is possible beyond the end, and then nothing is left to read. -/
def readLocalRange (path : String) (range : ByteRange) : Except StorageError Bytes := do
  let content ← (platform.file path).mapError .local
  let rest := content.drop range.start
  if rest.length < range.len then
    throw (.local "failed to fill whole buffer")
  return rest.take range.len

def readAssetRangeWithPolicy (uri : String) (range : ByteRange) (policy : RemoteAccessPolicy) :
    Except StorageError Bytes :=
  if isRemoteUri uri then
    (fetchHttpRangeWithPolicy platform uri range policy).map HttpFetchResult.bytes
  else readLocalRange platform uri range

/-- `read_asset_range`, given the value of the variable. -/
def readAssetRange (setting : Option String) (uri : String) (range : ByteRange) :
    Except StorageError Bytes :=
  readAssetRangeWithPolicy platform uri range (.fromEnv setting)

end Read

/-! ## Exact ranges -/

/-- The bytes of the range, all of which the object has. -/
def IsRange (object : Bytes) (range : ByteRange) (bytes : Bytes) : Prop :=
  range.last < object.length ∧ bytes = (object.drop range.start).take (range.last + 1 - range.start)

/-- An answer to a range request: the range as far as the object goes, or the whole object. -/
structure Conforms (object : Bytes) (range : ByteRange) (response : HttpResponse) : Prop where
  partly : response.status = 206 → range.start < object.length ∧
    response.body = (object.drop range.start).take (range.last + 1 - range.start)
  wholly : response.status = 200 → response.body = object

/-- A URI under which the object is found, as a file or behind a conformant server. -/
structure Serves (platform : Platform) (uri : String) (object : Bytes) : Prop where
  file : ∀ content, platform.file uri = .ok content → content = object
  get : ∀ policy range response, platform.get policy uri range.headerValue = .ok response →
    Conforms object range response
  whole : ∀ limit response bytes, platform.readToVec limit response = .ok bytes →
    bytes = response.body

theorem isRange_self {object : Bytes} {range : ByteRange} :
    IsRange object range object ↔ range.start = 0 ∧ range.last + 1 = object.length := by
  have hordered := range.ordered
  constructor
  · intro h
    obtain ⟨hin, heq⟩ := h
    have hlength := congrArg List.length heq
    rw [length_take, length_drop] at hlength
    omega
  · intro h
    obtain ⟨hstart, hlast⟩ := h
    refine ⟨by omega, ?_⟩
    rw [hstart, hlast, drop_zero, Nat.sub_zero, take_length]

theorem isRange_unique {object a b : Bytes} {range : ByteRange} (ha : IsRange object range a)
    (hb : IsRange object range b) : a = b := ha.2.trans hb.2.symm

theorem len_cases : (range.start = 0 ∧ range.last = 2 ^ 64 - 1 ∧ range.len = 0) ∨
      (¬ (range.start = 0 ∧ range.last = 2 ^ 64 - 1) ∧ 0 < range.len ∧
        range.len = range.last + 1 - range.start) := by
  have hordered := range.ordered
  have hbounded := range.bounded
  rw [ByteRange.len]
  omega

section Exact

variable {platform : Platform} {uri : String} {object : Bytes} (h : Serves platform uri object)
  (range : ByteRange) (policy : RemoteAccessPolicy)

/-- A body that is read in answer to the request. -/
structure Answered (platform : Platform) (uri : String) (range : ByteRange)
    (policy : RemoteAccessPolicy) (response : HttpResponse) (bytes : Bytes) : Prop where
  admitted : policy.validateUrl platform uri = .ok ()
  within : range.len ≤ policy.maxResponseBytes
  answer : platform.get policy uri range.headerValue = .ok response
  body : platform.readToVec policy.maxResponseBytes response = .ok bytes

theorem fetch_ok {bytes : Bytes} :
    (fetchHttpRangeWithPolicy platform uri range policy).map HttpFetchResult.bytes = .ok bytes ↔
      ∃ response, Answered platform uri range policy response bytes ∧
        (response.status = 200 ∨ response.status = 206 ∧ bytes.length = range.len) := by
  constructor
  · intro hmap
    cases hfetch : fetchHttpRangeWithPolicy platform uri range policy with
    | error e =>
      rw [hfetch] at hmap
      cases hmap
    | ok result =>
      rw [hfetch] at hmap
      rw [fetchHttpRangeWithPolicy] at hfetch
      obtain ⟨_, hvalid, hfetch⟩ := bind_iff.mp hfetch
      dsimp only at hfetch
      split_ifs at hfetch with hmax
      · cases hfetch
      obtain ⟨response, hget, hfetch⟩ := bind_iff.mp hfetch
      split_ifs at hfetch with hstatus
      · cases hfetch
      obtain ⟨body, hbody, hfetch⟩ := bind_iff.mp hfetch
      split_ifs at hfetch with hlength
      · cases hfetch
      cases hfetch
      cases hmap
      refine ⟨response, ⟨hvalid, by omega, mapError_iff.mp hget, mapError_iff.mp hbody⟩, ?_⟩
      show response.status = 200 ∨ response.status = 206 ∧ body.length = range.len
      omega
  · intro h
    obtain ⟨response, hanswered, hstatus⟩ := h
    have hmax : ¬ policy.maxResponseBytes < range.len := Nat.not_lt.mpr hanswered.within
    have hknown : ¬ (response.status ≠ 206 ∧ response.status ≠ 200) := by omega
    have hlength : ¬ (response.status = 206 ∧ bytes.length ≠ range.len) := by omega
    have hget := mapError_iff (f := StorageError.http).mpr hanswered.answer
    have hbody := mapError_iff (f := StorageError.http).mpr hanswered.body
    rw [fetchHttpRangeWithPolicy, hanswered.admitted, except_bind_of_ok rfl]
    dsimp only
    rw [if_neg hmax, except_bind_of_ok hget, if_neg hknown, except_bind_of_ok hbody, if_neg hlength]
    rfl

theorem readLocal_ok {bytes : Bytes} : readLocalRange platform uri range = .ok bytes ↔
    ∃ content, platform.file uri = .ok content ∧ range.len ≤ (content.drop range.start).length ∧
      bytes = (content.drop range.start).take range.len := by
  constructor
  · intro hread
    rw [readLocalRange] at hread
    obtain ⟨content, hfile, hread⟩ := bind_iff.mp hread
    dsimp only at hread
    split_ifs at hread with hshort
    · cases hread
    · exact ⟨content, mapError_iff.mp hfile, Nat.not_lt.mp hshort, (Except.ok.inj hread).symm⟩
  · intro h
    obtain ⟨content, hfile, hlong, rfl⟩ := h
    have hopened := mapError_iff (f := StorageError.local).mpr hfile
    rw [readLocalRange, except_bind_of_ok hopened]
    dsimp only
    rw [if_neg (Nat.not_lt.mpr hlong)]
    rfl

include h

theorem remote_exact : (∀ bytes,
      (fetchHttpRangeWithPolicy platform uri range policy).map HttpFetchResult.bytes = .ok bytes →
        IsRange object range bytes) ↔
    ∀ response bytes, Answered platform uri range policy response bytes →
      response.status = 200 → range.start = 0 ∧ range.last + 1 = object.length := by
  constructor
  · intro hexact response bytes hanswered hstatus
    have hrange := hexact bytes ((fetch_ok range policy).mpr ⟨response, hanswered, Or.inl hstatus⟩)
    have hbody := h.whole _ _ _ hanswered.body
    rw [hbody, (h.get _ _ _ hanswered.answer).wholly hstatus] at hrange
    exact isRange_self.mp hrange
  · intro hwhole bytes hread
    obtain ⟨response, hanswered, hcase⟩ := (fetch_ok range policy).mp hread
    have hbody := h.whole _ _ _ hanswered.body
    rcases hcase with hstatus | ⟨hstatus, hlength⟩
    · rw [hbody, (h.get _ _ _ hanswered.answer).wholly hstatus]
      exact isRange_self.mpr (hwhole response bytes hanswered hstatus)
    · obtain ⟨hstart, hpart⟩ := (h.get _ _ _ hanswered.answer).partly hstatus
      have hbytes := hbody.trans hpart
      have hlen := len_cases range
      have hordered := range.ordered
      have htaken := hlength
      rw [hbytes, length_take, length_drop] at htaken
      exact ⟨by omega, hbytes⟩

theorem local_exact : (∀ bytes, readLocalRange platform uri range = .ok bytes →
      IsRange object range bytes) ↔
    ∀ content, platform.file uri = .ok content → ¬ (range.start = 0 ∧ range.last = 2 ^ 64 - 1) := by
  constructor
  · intro hexact content hfile hall
    have hlen := len_cases range
    have hempty : range.len = 0 := by omega
    have hrange := hexact [] ((readLocal_ok range).mpr ⟨content, hfile, by omega, by
      rw [hempty, take_zero]⟩)
    obtain ⟨hin, hbytes⟩ := hrange
    have hlength := congrArg List.length hbytes
    rw [length_nil, length_take, length_drop] at hlength
    omega
  · intro hsome bytes hread
    obtain ⟨content, hfile, hlong, rfl⟩ := (readLocal_ok range).mp hread
    have hlen := len_cases range
    have hcase := hsome content hfile
    have hexact : range.len = range.last + 1 - range.start := by omega
    have hordered := range.ordered
    rw [h.file content hfile, length_drop] at hlong
    rw [h.file content hfile, hexact]
    exact ⟨by omega, rfl⟩

end Exact

/-- No whole object is taken for a part of it, and the range is not that of all offsets. -/
def Faithful (platform : Platform) (policy : RemoteAccessPolicy) (uri : String) (object : Bytes)
    (range : ByteRange) : Prop :=
  if isRemoteUri uri then
    ∀ response bytes, Answered platform uri range policy response bytes →
      response.status = 200 → range.start = 0 ∧ range.last + 1 = object.length
  else ∀ content, platform.file uri = .ok content → ¬ (range.start = 0 ∧ range.last = 2 ^ 64 - 1)

theorem exact_iff {platform : Platform} {uri : String} {object : Bytes}
    (h : Serves platform uri object) (setting : Option String) (range : ByteRange) :
    (∀ bytes, readAssetRange platform setting uri range = .ok bytes → IsRange object range bytes) ↔
    Faithful platform (.fromEnv setting) uri object range := by
  rw [Faithful]
  unfold readAssetRange readAssetRangeWithPolicy
  by_cases hremote : isRemoteUri uri = true
  · rw [if_pos hremote, if_pos hremote]
    exact remote_exact h range _
  · rw [if_neg hremote, if_neg hremote]
    exact local_exact h range

/-- What is read is the range of the object exactly where that is so, from a URL as from a path. -/
theorem readAssetRange_exact {platform : Platform} {uri : String} {object : Bytes}
    (h : Serves platform uri object) (setting : Option String) (range : ByteRange) :
    ((∀ bytes, readAssetRange platform setting uri range = .ok bytes → IsRange object range bytes) ↔
      Faithful platform (.fromEnv setting) uri object range) ∧
    ∀ other, Serves platform other object → Faithful platform (.fromEnv setting) uri object range →
      Faithful platform (.fromEnv setting) other object range →
      ∀ a b, readAssetRange platform setting uri range = .ok a →
        readAssetRange platform setting other range = .ok b → a = b := by
  refine ⟨exact_iff h setting range, fun other hother hfaithful hfaithful' a b ha hb => ?_⟩
  exact isRange_unique ((exact_iff h setting range).mpr hfaithful a ha)
    ((exact_iff hother setting range).mpr hfaithful' b hb)

/-- A server on this machine that always answers with the whole object. -/
def plainServer (object : Bytes) : Platform where
  file _ := .error "No such file or directory (os error 2)"
  parseUrl _ := .ok ⟨"http", "", none, some "localhost"⟩
  isLoopbackAddress _ := false
  debug text := text
  get _ _ _ := .ok ⟨200, none, none, object⟩
  readToVec limit response :=
    if limit < response.body.length then .error "the response body is larger than request limit"
    else .ok response.body
  readToString _ _ := none

theorem serves_plainServer (uri : String) (object : Bytes) :
    Serves (plainServer object) uri object where
  file content hfile := (by cases hfile)
  get policy range response hget := by
    cases hget
    exact ⟨fun hstatus => absurd (show 200 = 206 from hstatus) (by decide), fun _ => rfl⟩
  whole limit response bytes hread := by
    have hread : (if limit < response.body.length then
        Except.error "the response body is larger than request limit"
        else Except.ok response.body) = .ok bytes := hread
    split_ifs at hread
    exact (Except.ok.inj hread).symm

def allThree : ByteRange := ⟨0, 2, by decide, by decide⟩

def onlySecond : ByteRange := ⟨1, 1, by decide, by decide⟩

theorem readAssetRange_exact_all :
    readAssetRange (plainServer [1, 2, 3]) none "http://localhost/a" allThree = .ok [1, 2, 3] ∧
      IsRange [1, 2, 3] allThree [1, 2, 3] := by
  have hread : readAssetRange (plainServer [1, 2, 3]) none "http://localhost/a" allThree =
      .ok [1, 2, 3] := by decide +kernel
  refine ⟨hread, (readAssetRange_exact (serves_plainServer _ _) none allThree).1.mpr ?_ _ hread⟩
  rw [Faithful, if_pos (by decide)]
  intro response bytes _ _
  exact ⟨rfl, rfl⟩

/-- The whole object is returned for its second byte. -/
theorem readAssetRange_whole : Serves (plainServer [1, 2, 3]) "http://localhost/a" [1, 2, 3] ∧
    readAssetRange (plainServer [1, 2, 3]) none "http://localhost/a" onlySecond = .ok [1, 2, 3] ∧
    ¬ IsRange [1, 2, 3] onlySecond [1, 2, 3] := by
  refine ⟨serves_plainServer _ _, by decide +kernel, fun h => ?_⟩
  have hwrong := (isRange_self.mp h).1
  cases hwrong

end GeneGIS.Storage
