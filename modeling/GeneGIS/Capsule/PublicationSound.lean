/-
What an accepted publication shows.

It is sound exactly when its entries list the rendered pages and its digest is that of the derived
fields; the verifier asks for neither.
-/
import GeneGIS.Capsule.Publication

namespace GeneGIS.Capsule.Publication

open Fallible List Json Value
open Bool hiding and_false not_or or_false

section

variable (lib : Offline) (readers : PublicationReaders)

/-! ## What a publication shows -/

variable (output : Directory) (publication : PortablePublication)

/-- The entries list the page, and the entry has the size and the digest of the file. -/
def Covered (embed : Bool) : Prop :=
  ∃ entry ∈ publication.publicEntries, entry.path = pagePath embed ∧
    ∃ bytes, output.read (pagePath embed) = .ok bytes ∧ entry.sha256 = lib.digestBytes bytes ∧
      entry.bytes = bytes.length

/-- The publication with what the exporter derives from the capsule. -/
def rederived (publication exported : PortablePublication) : PortablePublication :=
  { publication with
    title := exported.title, attribution := exported.attribution
    limitations := exported.limitations, crs := exported.crs
    coordinateUnit := exported.coordinateUnit, trustLevel := exported.trustLevel
    resultDigest := exported.resultDigest, workflowDigest := exported.workflowDigest
    verificationGraphDigest := exported.verificationGraphDigest
    verificationPolicyDigest := exported.verificationPolicyDigest
    capsuleDigest := exported.capsuleDigest }

structure Sound (output : Directory) (publication : PortablePublication) : Prop where
  covered : ∀ embed, Covered lib output publication embed
  rendered : ∃ png, (output.join "capsule").read pngPath = .ok png ∧
    ∀ embed, output.read (pagePath embed) = .ok (pageBytes lib publication png embed)
  derived : ∃ exported,
    derivePublication lib readers (output.join "capsule") publication.policy = .ok exported ∧
      publication = rederived publication exported

/-- What is not verified: both pages are listed with their digests, and the digest of the
publication is that of the derived fields. -/
structure Listing (output : Directory) (publication : PortablePublication) : Prop where
  pages : ∃ png, (output.join "capsule").read pngPath = .ok png ∧
    ∀ embed, ∃ entry ∈ publication.publicEntries, entry.path = pagePath embed ∧
      entry.sha256 = lib.digestBytes (pageBytes lib publication png embed)
  fields : ∃ exported,
    derivePublication lib readers (output.join "capsule") publication.policy = .ok exported ∧
      publication.publicationDigest = semanticDigest lib (rederived publication exported)

/-- No page has the digest of the rendered page and other bytes. -/
def PagesDiffer : Prop := ∀ png embed bytes, (output.join "capsule").read pngPath = .ok png →
    output.read (pagePath embed) = .ok bytes →
      lib.digestBytes bytes = lib.digestBytes (pageBytes lib publication png embed) →
        bytes = pageBytes lib publication png embed

/-- No other fields have the digest of the derived ones. -/
def FieldsDiffer : Prop := ∀ exported,
    derivePublication lib readers (output.join "capsule") publication.policy = .ok exported →
      semanticDigest lib publication = semanticDigest lib (rederived publication exported) →
        semanticDocument publication = semanticDocument (rederived publication exported)

end

section

variable {lib : Offline} {readers : PublicationReaders} {output : Directory}
  {publication : PortablePublication}

theorem checkPublicEntries_ok {policy : PublicationPolicy} {u : Unit} :
    ∀ {entries : List PublicationFileEntry},
      checkPublicEntries lib readers output policy entries = .ok u →
        ∀ entry ∈ entries, entry.path ≠ publicationPath →
          ∃ bytes, output.read entry.path = .ok bytes ∧ entry.sha256 = lib.digestBytes bytes ∧
            entry.bytes = bytes.length
  | [], _, entry, hentry, _ => by cases hentry
  | first :: rest, h, entry, hentry, hpath => by
    rw [checkPublicEntries] at h
    by_cases hfirst : first.path = publicationPath
    · rw [if_pos hfirst] at h
      rcases mem_cons.mp hentry with hsame | hentry
      · rw [hsame] at hpath
        exact absurd hfirst hpath
      · exact checkPublicEntries_ok h entry hentry hpath
    · rw [if_neg hfirst] at h
      obtain ⟨_, -, h⟩ := bind_iff.mp h
      obtain ⟨bytes, hread, h⟩ := bind_iff.mp h
      obtain ⟨_, hsame, h⟩ := bind_iff.mp h
      obtain ⟨_, -, h⟩ := bind_iff.mp h
      rcases mem_cons.mp hentry with heq | hentry
      · rw [verifyUnless_ok, or_eq_false_iff, bne_eq_false_iff_eq, bne_eq_false_iff_eq] at hsame
        rw [heq]
        exact ⟨bytes, readFile_ok.mp hread, hsame.1, hsame.2⟩
      · exact checkPublicEntries_ok h entry hentry hpath

theorem verifyPortablePublication_ok {v : PublicationVerification}
    (h : verifyPortablePublication lib readers output = .ok v)
    (hread : readJson readers.publication output publicationPath = .ok publication) :
    semanticDigest lib publication = publication.publicationDigest ∧
      ∀ entry ∈ publication.publicEntries, entry.path ≠ publicationPath →
        ∃ bytes, output.read entry.path = .ok bytes ∧ entry.sha256 = lib.digestBytes bytes ∧
          entry.bytes = bytes.length := by
  obtain ⟨read, hsame, h⟩ := bind_iff.mp h
  rw [hread, Except.ok.injEq] at hsame
  rw [← hsame] at h
  obtain ⟨_, -, h⟩ := bind_iff.mp h
  obtain ⟨_, hdigest, h⟩ := bind_iff.mp h
  obtain ⟨_, -, h⟩ := bind_iff.mp h
  obtain ⟨_, hentries, -⟩ := bind_iff.mp h
  rw [verifyUnless_ok, or_eq_false_iff, bne_eq_false_iff_eq, bne_eq_false_iff_eq] at hdigest
  exact ⟨hdigest.2, checkPublicEntries_ok hentries⟩

theorem toValue_inj {a b : PublicationAttribution} (h : a.toValue.json = b.toValue.json) :
    a = b := by
  have hmember : ∀ key, a.toValue.json.get? key = b.toValue.json.get? key := fun key => by rw [h]
  simp only [PublicationAttribution.toValue] at hmember
  have hkeys : ∀ c : PublicationAttribution, ([("title", Value.str c.title), ("url", .str c.url),
      ("license", .str c.license)].map Prod.fst).Nodup := fun c => by
    simp
  have htitle := hmember "title"
  have hurl := hmember "url"
  have hlicense := hmember "license"
  rw [get?_object (hkeys a), get?_object (hkeys b)] at htitle hurl hlicense
  cases a
  cases b
  rw [PublicationAttribution.mk.injEq]
  exact ⟨str.inj (Option.some.inj htitle), str.inj (Option.some.inj hurl),
    str.inj (Option.some.inj hlicense)⟩

theorem rederived_of_document {exported : PortablePublication}
    (h : semanticDocument publication = semanticDocument (rederived publication exported)) :
    publication = rederived publication exported := by
  have hmember : ∀ key, (semanticDocument publication).json.get? key =
      (semanticDocument (rederived publication exported)).json.get? key := fun key => by rw [← h]
  have hget : ∀ (p : PortablePublication) (key : String), (semanticDocument p).json.get? key = _ :=
    fun p key => get?_object (by simp)
  simp only [hget] at hmember
  have hstr : ∀ {a b : String}, some (Value.str a).json = some (Value.str b).json → a = b :=
    fun h => str.inj (Option.some.inj h)
  have htexts : ∀ {a b : List String},
      some (ofList .str a).json = some (ofList .str b).json → a = b := fun h =>
    map_injective_iff.mpr (fun _ _ => str.inj) (arr.inj (Option.some.inj h))
  have hattribution : publication.attribution = exported.attribution :=
    map_injective_iff.mpr (fun _ _ => toValue_inj)
      (arr.inj (Option.some.inj (hmember "attribution")))
  have hcrs : publication.crs = exported.crs := Value.ext (Option.some.inj (hmember "crs"))
  have htrust : publication.trustLevel = exported.trustLevel :=
    Value.ext (Option.some.inj (hmember "trust_level"))
  have htitle := hstr (hmember "title")
  have hlimitations := htexts (hmember "limitations")
  have hunit := hstr (hmember "coordinate_unit")
  have hresult := hstr (hmember "result_digest")
  have hworkflow := hstr (hmember "workflow_digest")
  have hgraph := hstr (hmember "verification_graph_digest")
  have hpolicy := hstr (hmember "verification_policy_digest")
  have hcapsule := hstr (hmember "capsule_digest")
  cases publication
  simp only [rederived, PortablePublication.mk.injEq] at *
  exact ⟨trivial, htitle, trivial, hattribution, hlimitations, hcrs, hunit, htrust, hresult,
    hworkflow, hgraph, hpolicy, hcapsule, by simp⟩

theorem pagePath_ne (embed : Bool) : pagePath embed ≠ publicationPath := by
  cases embed <;> decide

theorem publication_sound_iff (lib : Offline) (readers : PublicationReaders) (output : Directory)
    (v : PublicationVerification) (publication : PortablePublication)
    (hverified : verifyPortablePublication lib readers output = .ok v)
    (hread : readJson readers.publication output publicationPath = .ok publication)
    (hpages : PagesDiffer lib output publication)
    (hfields : FieldsDiffer lib readers output publication) :
    Sound lib readers output publication ↔ Listing lib readers output publication := by
  obtain ⟨hdigest, hentries⟩ := verifyPortablePublication_ok hverified hread
  constructor
  · intro h
    obtain ⟨png, hpng, hrendered⟩ := h.rendered
    obtain ⟨exported, hexported, hsame⟩ := h.derived
    refine ⟨⟨png, hpng, fun embed => ?_⟩, exported, hexported, ?_⟩
    · obtain ⟨entry, hentry, hpath, bytes, hbytes, hsha, -⟩ := h.covered embed
      rw [hrendered embed, Except.ok.injEq] at hbytes
      rw [← hbytes] at hsha
      exact ⟨entry, hentry, hpath, hsha⟩
    · rw [← hsame, hdigest]
  · intro h
    obtain ⟨png, hpng, hlisted⟩ := h.pages
    obtain ⟨exported, hexported, hsame⟩ := h.fields
    have hfile : ∀ embed, output.read (pagePath embed) = .ok (pageBytes lib publication png embed) ∧
        Covered lib output publication embed := by
      intro embed
      obtain ⟨entry, hentry, hpath, hsha⟩ := hlisted embed
      obtain ⟨bytes, hbytes, hfound, hsize⟩ := hentries entry hentry (by
        rw [hpath]
        exact pagePath_ne embed)
      rw [hpath] at hbytes
      have hpage := hpages png embed bytes hpng hbytes (hfound.symm.trans hsha)
      refine ⟨?_, entry, hentry, hpath, bytes, hbytes, hfound, hsize⟩
      rw [hbytes, hpage]
    refine ⟨fun embed => (hfile embed).2, ⟨png, hpng, fun embed => (hfile embed).1⟩,
      exported, hexported, ?_⟩
    exact rederived_of_document (hfields exported hexported (hdigest.trans hsame))

end

/-! ## Texts without a local path -/

def lower (l : List Char) : List Char :=
  l.map fun c => if 'A' ≤ c && c ≤ 'Z' then Char.ofNat (c.toNat + 32) else c

/-- No image, no path and no drive, whatever stands before. -/
structure Free (l : List Char) : Prop where
  image : ¬ imageMarker.toList <:+: l
  file : ¬ "file://".toList <:+: lower l
  device : ¬ "\\\\?\\".toList <:+: lower l
  drive : ∀ before, hasDrive before (lower l) = false

theorem infix_of_join {α : Type} {p a b : List α} {c : α} (hc : c ∉ p)
    (h : p <:+: a ++ c :: b) : p <:+: a ∨ p <:+: b := by
  induction a with
  | nil =>
    rcases infix_cons_iff.mp h with h | h
    · cases p with
      | nil => exact .inl nil_infix
      | cons d p =>
        rw [(cons_prefix_cons.mp h).1] at hc
        exact absurd mem_cons_self hc
    · exact .inr h
  | cons d a ih =>
    rcases infix_cons_iff.mp h with h | h
    · refine .inl (IsPrefix.isInfix ?_)
      by_cases hlength : p.length ≤ (d :: a).length
      · exact prefix_of_prefix_length_le h (prefix_append _ _) hlength
      · have hjoin : (d :: a) ++ [c] <+: p := by
          refine prefix_of_prefix_length_le ?_ h ?_
          · exact ⟨b, by simp⟩
          · rw [length_append, length_singleton]
            omega
        exact absurd (hjoin.subset (by simp)) hc
    · rcases ih h with h | h
      · exact .inl (h.trans (suffix_cons d a).isInfix)
      · exact .inr h

theorem hasDrive_join (b : List Char) : ∀ (a : List Char) (before : Option Char),
    hasDrive before a = false → hasDrive (some '"') b = false →
      hasDrive before (a ++ '"' :: b) = false
  | [], before, _, hb => by
    rw [nil_append, hasDrive, hb]
    rfl
  | [c], before, ha, hb => by
    have hrest := hasDrive_join b [] (some c) rfl hb
    rw [nil_append] at hrest
    rw [singleton_append, hasDrive, hrest]
    simp
  | [c, d], before, ha, hb => by
    rw [hasDrive, or_eq_false_iff] at ha
    rw [cons_append, hasDrive, hasDrive_join b [d] (some c) ha.2 hb]
    simp
  | c :: d :: e :: a, before, ha, hb => by
    rw [hasDrive, or_eq_false_iff] at ha
    rw [cons_append, hasDrive, hasDrive_join b (d :: e :: a) (some c) ha.2 hb, Bool.or_false]
    exact ha.1

theorem lower_append (a b : List Char) : lower (a ++ b) = lower a ++ lower b := map_append

theorem Free.join {a b : List Char} (ha : Free a) (hb : Free b) : Free (a ++ '"' :: b) := by
  have hlower : lower (a ++ '"' :: b) = lower a ++ '"' :: lower b := lower_append a _
  refine ⟨fun h => ?_, fun h => ?_, fun h => ?_, fun before => ?_⟩
  · exact (infix_of_join (by decide) h).elim ha.image hb.image
  · rw [hlower] at h
    exact (infix_of_join (by decide) h).elim ha.file hb.file
  · rw [hlower] at h
    exact (infix_of_join (by decide) h).elim ha.device hb.device
  · rw [hlower]
    exact hasDrive_join _ _ _ (ha.drive before) (hb.drive _)

theorem Free.nil : Free [] := ⟨by decide, by decide, by decide, fun _ => rfl⟩

/-- The characters between the strings of a document. -/
def isPunctuation (c : Char) : Bool := ['\x7b', '\x7d', '[', ']', ',', ':'].contains c

theorem Free.cons {c : Char} {l : List Char} (h : Free l) (hc : isPunctuation c = true) :
    Free (c :: l) := by
  have hcases : c = '\x7b' ∨ c = '\x7d' ∨ c = '[' ∨ c = ']' ∨ c = ',' ∨ c = ':' := by
    simpa [isPunctuation] using hc
  have hlower : lower (c :: l) = c :: lower l := by
    rcases hcases with rfl | rfl | rfl | rfl | rfl | rfl <;> rfl
  have hne : ∀ d ∈ ['d', 'f', '\\'], d ≠ c := by
    rcases hcases with rfl | rfl | rfl | rfl | rfl | rfl <;> decide
  have hletter : ¬ ('a' ≤ c ∧ c ≤ 'z') := by
    rcases hcases with rfl | rfl | rfl | rfl | rfl | rfl <;> decide
  have hnowhere : ∀ {d : Char} {p m : List Char}, d ≠ c → ¬ d :: p <:+: m →
      ¬ d :: p <:+: c :: m := by
    intro d p m hd hm h
    rcases infix_cons_iff.mp h with h | h
    · exact hd (cons_prefix_cons.mp h).1
    · exact hm h
  refine ⟨hnowhere (hne 'd' (by simp)) h.image, ?_, ?_, ?_⟩
  · rw [hlower]
    exact hnowhere (hne 'f' (by simp)) h.file
  · rw [hlower]
    exact hnowhere (hne '\\' (by simp)) h.device
  · intro before
    rw [hlower, hasDrive, h.drive, decide_eq_false hletter]
    rfl

theorem Free.quote {s : String} {l : List Char} (hs : Free (s.toList.flatMap escapeChar))
    (h : Free l) : Free (quote s ++ l) := by
  have hquote : Json.quote s ++ l =
      [] ++ '"' :: (s.toList.flatMap Json.escapeChar ++ '"' :: l) := by
    rw [Json.quote]
    simp
  rw [hquote]
  exact Free.nil.join (hs.join h)

theorem visible_free : ∀ {l : List Char}, ¬ imageMarker.toList <:+: l → visible false l = l
  | [], _ => rfl
  | c :: l, h => by
    have hlead : imageMarker.toList.isPrefixOf (c :: l) = false := by
      rw [eq_false_iff, ne_eq, isPrefixOf_iff_prefix]
      exact fun hp => h hp.isInfix
    have hrest : ¬ imageMarker.toList <:+: l := fun hp =>
      h (hp.trans (suffix_cons c l).isInfix)
    rw [visible, if_neg (by rw [hlead]; exact false_ne_true), visible_free hrest]

theorem containsLocalPath_free {text : String} (h : Free text.toList) :
    containsLocalPath text = false := by
  have hlower : (Text.toAsciiLowercase (String.ofList (visible false text.toList))).toList =
      lower text.toList := by
    rw [visible_free h.image, Text.toAsciiLowercase, String.toList_ofList, String.toList_ofList]
    rfl
  unfold containsLocalPath
  simp only [hlower, or_eq_false_iff, decide_eq_false_iff_not]
  exact ⟨⟨h.file, h.device⟩, h.drive none⟩

theorem slash_of_lower {l : List Char} {c : Char} (hc : c = '/' ∨ c = '\\') (h : c ∈ lower l) :
    c ∈ l := by
  obtain ⟨d, hd, hsame⟩ := mem_map.mp h
  by_cases hupper : ('A' ≤ d && d ≤ 'Z') = true
  · have hletters : ∀ n, n < 91 → 65 ≤ n → Char.ofNat (n + 32) ≠ '/' ∧
        Char.ofNat (n + 32) ≠ '\\' := by decide
    rw [if_pos hupper] at hsame
    rw [and_eq_true, decide_eq_true_eq, decide_eq_true_eq] at hupper
    have hlow : 65 ≤ d.toNat := hupper.1
    have hhigh : d.toNat ≤ 90 := hupper.2
    have hne := hletters d.toNat (by omega) hlow
    rw [hsame] at hne
    exact absurd hc (by simp [hne.1, hne.2])
  · rw [if_neg hupper] at hsame
    rw [← hsame]
    exact hd

theorem hasDrive_noSlash : ∀ {l : List Char} (before : Option Char), '/' ∉ l → '\\' ∉ l →
    hasDrive before l = false
  | [], _, _, _ => rfl
  | c :: l, before, hslash, hback => by
    rw [mem_cons, not_or] at hslash hback
    have hnext : ∀ {d : Char}, d ∉ l → (l.tail.head? == some d) = false := by
      intro d hd
      rw [beq_eq_false_iff_ne]
      intro h
      exact hd (mem_of_mem_tail (mem_of_mem_head? h))
    rw [hasDrive, hnext hslash.2, hnext hback.2, hasDrive_noSlash _ hslash.2 hback.2]
    simp

theorem free_noSlash {l : List Char} (hslash : '/' ∉ l) (hback : '\\' ∉ l) : Free l := by
  have hlower : '/' ∉ lower l := fun h => hslash (slash_of_lower (.inl rfl) h)
  have hlowerBack : '\\' ∉ lower l := fun h => hback (slash_of_lower (.inr rfl) h)
  refine ⟨fun h => ?_, fun h => ?_, fun h => ?_, fun before => ?_⟩
  · exact hslash (h.subset (by decide))
  · exact hlower (h.subset (by decide))
  · exact hlowerBack (h.subset (by decide))
  · exact hasDrive_noSlash before hlower hlowerBack

def hasSlash (l : List Char) : Bool := l.contains '/' || l.contains '\\'

theorem hexDigit_noSlash {c : Char} (h : Text.isHexDigit c = true) :
    hasSlash (escapeChar c) = false := by
  have hrange : 48 ≤ c.toNat ∧ c.toNat ≤ 102 ∧ c.toNat ≠ 92 := by
    simp only [Text.isHexDigit, or_eq_true, and_eq_true, decide_eq_true_eq] at h
    have hle : ∀ {d e : Char}, d ≤ e → d.toNat ≤ e.toNat := fun h => h
    rcases h with (h | h) | h
    · have hlow : 48 ≤ c.toNat := hle h.1
      have hhigh : c.toNat ≤ 57 := hle h.2
      omega
    · have hlow : 97 ≤ c.toNat := hle h.1
      have hhigh : c.toNat ≤ 102 := hle h.2
      omega
    · have hlow : 65 ≤ c.toNat := hle h.1
      have hhigh : c.toNat ≤ 70 := hle h.2
      omega
  have hne : ∀ d : Char, d.toNat < 48 ∨ d.toNat = 92 → c ≠ d := by
    intro d hd heq
    rw [heq] at hrange
    omega
  have hplain : escapeChar c = [c] := by
    rw [escapeChar, if_neg (hne '"' (by decide)), if_neg (hne '\\' (by decide)),
      if_neg (hne '\n' (by decide)), if_neg (hne '\r' (by decide)), if_neg (hne '\t' (by decide)),
      if_neg (by omega), if_neg (by omega), if_neg (by omega)]
  simp only [hplain, hasSlash, or_eq_false_iff, contains_eq_mem, decide_eq_false_iff_not,
    mem_singleton]
  exact ⟨fun h => hne '/' (by decide) h.symm, fun h => hne '\\' (by decide) h.symm⟩

theorem free_digest {s : String} (h : Text.isSha256 s = true) :
    Free (s.toList.flatMap escapeChar) := by
  rw [Text.isSha256] at h
  cases hhex : Text.withoutPrefix "sha256:" s with
  | none =>
    rw [hhex] at h
    cases h
  | some hex =>
    rw [hhex] at h
    simp only [and_eq_true, all_eq_true] at h
    have hplain : ∀ c ∈ s.toList, hasSlash (escapeChar c) = false := by
      have hlead : ∀ c ∈ "sha256:".toList, hasSlash (escapeChar c) = false := by
        decide
      intro c hc
      rw [Text.withoutPrefix_iff.mp hhex, String.toList_append, mem_append] at hc
      exact hc.elim (hlead c) fun hc => hexDigit_noSlash (h.2 c hc)
    have hmember : ∀ c ∈ s.toList, '/' ∉ escapeChar c ∧ '\\' ∉ escapeChar c := by
      intro c hc
      have hsafe := hplain c hc
      simpa [hasSlash] using hsafe
    refine free_noSlash ?_ ?_
    · intro hmem
      obtain ⟨c, hc, hslash⟩ := mem_flatMap.mp hmem
      exact (hmember c hc).1 hslash
    · intro hmem
      obtain ⟨c, hc, hslash⟩ := mem_flatMap.mp hmem
      exact (hmember c hc).2 hslash

namespace Sample

open Capsule.Sample

/-! A publication next to its capsule, without the two pages. -/

def publicationPolicy : PublicationPolicy :=
  { includeCapsuleDownload := true, rejectLocalPaths := true
    includedFieldClasses := ["title_and_description", "attribution_and_license", "limitations",
      "verification_state", "crs_and_units", "content_digests", "portable_artifact_paths"]
    redactedFieldClasses := ["local_filesystem_paths", "credentials_and_environment",
      "reviewer_identities_and_comments", "prompt_and_arbitrary_provenance_details"] }

def attribution : PublicationAttribution :=
  { title := "Wards", url := "https://example.org/wards", license := "CC BY 4.0" }

variable (level : String)

def unsealed : PortablePublication :=
  { schemaVersion := "0.1.0", title := workflow.goal
    description := "Verified, portable spatial result with downloadable offline evidence."
    attribution := [attribution], limitations := workflow.assumptions, crs := .str "EPSG:6668"
    coordinateUnit := "degrees", trustLevel := .str level, resultDigest := resultDigest
    workflowDigest := workflowDigest, verificationGraphDigest := graphDigest
    verificationPolicyDigest := library.digestBytes (write policyDocument)
    capsuleDigest := library.digestBytes (manifestText (manifest wards))
    capsuleDownload := some "capsule/capsule.json", sharePath := "index.html"
    embedPath := "embed.html", policy := publicationPolicy, publicationDigest := ""
    publicEntries := [] }

def publication : PortablePublication :=
  { unsealed level with publicationDigest := semanticDigest library (unsealed level) }

def derivedLevel : String := levelText (policy.assess rt trustEvidence).level

def readOutput (level path : String) : Except String Bytes :=
  if path = publicationPath then .ok (publicJson library (publication level))
  else
    match Text.withoutPrefix "capsule/" path with
    | some rest => (capsule wards).read rest
    | none => .error "No such file or directory (os error 2)"

def output : Directory where
  fileType path := (readOutput level path).map fun _ => .file
  read := readOutput level

def readers : PublicationReaders :=
  { serde with
    publication := reading (publicJson library (publication level)) (publication level)
    utf8Lossy := fun bytes => (Bytes.toText? bytes).getD "" }

variable {level : String}

theorem readOutput_join (path : String) :
    readOutput level ("capsule" ++ "/" ++ path) = (capsule wards).read path := by
  have hne : "capsule" ++ "/" ++ path ≠ publicationPath := by
    intro h
    have hlists := congrArg String.toList h
    rw [String.toList_append, String.toList_append] at hlists
    have hhead : some 'c' = some 'p' := congrArg head? hlists
    cases hhead
  have hrest : Text.withoutPrefix "capsule/" ("capsule" ++ "/" ++ path) = some path :=
    Text.withoutPrefix_iff.mpr rfl
  rw [readOutput, if_neg hne, hrest]

theorem output_join : (output level).join "capsule" = capsule wards := by
  rw [Directory.join, output, capsule, directoryOf, Directory.mk.injEq]
  have hread : ∀ path, readOutput level ("capsule" ++ "/" ++ path) =
      readFrom (contents wards) path := fun path => readOutput_join path
  exact ⟨funext fun path => congrArg (Except.map fun _ => FileType.file) (hread path),
    funext hread⟩

theorem readJson_publication : Capsule.readJson (readers level).publication (output level)
    publicationPath = .ok (publication level) := by
  refine readJson_reading _ ?_
  show readOutput level publicationPath = _
  rw [readOutput, if_pos rfl]

theorem free_true {l : List Char} (h : Free (',' :: l)) :
    Free ('t' :: 'r' :: 'u' :: 'e' :: ',' :: l) := by
  have hlower : lower ('t' :: 'r' :: 'u' :: 'e' :: ',' :: l) =
      't' :: 'r' :: 'u' :: 'e' :: lower (',' :: l) := rfl
  have hnowhere : ∀ {d : Char} {p m : List Char}, d ∉ ['t', 'r', 'u', 'e'] → ¬ d :: p <:+: m →
      ¬ d :: p <:+: 't' :: 'r' :: 'u' :: 'e' :: m := by
    intro d p m hd hm
    simp only [infix_cons_iff, cons_prefix_cons]
    simp_all
  refine ⟨hnowhere (by decide) h.image, ?_, ?_, ?_⟩
  · rw [hlower]
    exact hnowhere (by decide) h.file
  · rw [hlower]
    exact hnowhere (by decide) h.device
  · intro before
    have hrest : hasDrive (some 'e') (lower (',' :: l)) = false := h.drive _
    rw [hlower, hasDrive, hasDrive, hasDrive, hasDrive, hrest]
    rfl

theorem free_url : Free ("https://example.org/wards".toList.flatMap escapeChar) :=
  ⟨by decide, by decide, by decide, fun _ => rfl⟩

theorem free_download : Free ("capsule/capsule.json".toList.flatMap escapeChar) :=
  ⟨by decide, by decide, by decide, fun _ => rfl⟩

theorem isSha256_digest (bytes : Bytes) : Text.isSha256 (library.digestBytes bytes) = true :=
  Sha256.isSha256_hexBytes _

theorem free_digestJson (v : Value) : Free ((rt.digestJson v).toList.flatMap escapeChar) :=
  free_digest (Sha256.isSha256_hexBytes _)

theorem free_publication (hlevel : Free (level.toList.flatMap escapeChar)) :
    Free ((publication level).toJson.compactChars library.floatText) := by
  have htext : ∀ {s : String}, hasSlash (s.toList.flatMap escapeChar) = false →
      Free (s.toList.flatMap escapeChar) := by
    intro s hs
    simp only [hasSlash, or_eq_false_iff, contains_eq_mem, decide_eq_false_iff_not] at hs
    exact free_noSlash hs.1 hs.2
  have hresult : Free (resultDigest.toList.flatMap escapeChar) :=
    free_digest (Sha256.isSha256_hexBytes _)
  have hworkflow : Free (workflowDigest.toList.flatMap escapeChar) := free_digestJson _
  have hgraph : Free (graphDigest.toList.flatMap escapeChar) := free_digestJson _
  have hpolicy := free_digest (isSha256_digest (write policyDocument))
  have hcapsule := free_digest (isSha256_digest (manifestText (manifest wards)))
  have hsealed : Free ((semanticDigest library (unsealed level)).toList.flatMap escapeChar) :=
    free_digestJson _
  rw [publication]
  generalize semanticDigest library (unsealed level) = digestText at *
  simp only [unsealed, PortablePublication.toJson, PublicationPolicy.toJson,
    PublicationAttribution.toJson, attribution, publicationPolicy, Value.str, Value.ofOption,
    map_cons, map_nil, workflow,
    compactChars, compactMembers, compactItems, commaSeparated,
    commaTail, memberChars, append_assoc, cons_append, nil_append]
  generalize resultDigest = result at *
  generalize workflowDigest = workflowText at *
  generalize graphDigest = graphText at *
  generalize library.digestBytes (write policyDocument) = policyText at *
  generalize library.digestBytes (manifestText (manifest wards)) = capsuleText at *
  repeat with_reducible first
    | exact Free.nil
    | refine Free.cons ?_ (by decide)
    | refine free_true ?_
    | refine Free.quote (by assumption) ?_
    | refine Free.quote free_url ?_
    | refine Free.quote free_download ?_
    | refine Free.quote (htext (by decide)) ?_

theorem accepts (hlevel : Free (level.toList.flatMap escapeChar)) :
    verifyPortablePublication library (readers level) (output level) =
      .ok { publicationDigest := (publication level).publicationDigest
            resultDigest := resultDigest, verifiedPublicEntries := 0
            verifiedCapsuleEntries := (manifest wards).entries.length } := by
  have htext : (readers level).utf8Lossy (publicJson library (publication level)) =
      String.ofList ((publication level).toJson.compactChars library.floatText) := by
    rw [readers, publicJson]
    simp only [Bytes.toText?_ofText, Option.getD_some]
  have hlocal : containsLocalPath
      ((readers level).utf8Lossy (publicJson library (publication level))) = false := by
    rw [htext]
    refine containsLocalPath_free ?_
    rw [String.toList_ofList]
    exact free_publication hlevel
  refine bind_iff.mpr ⟨_, readJson_publication, ?_⟩
  refine bind_iff.mpr ⟨(), rfl, ?_⟩
  refine verify_then ?_ ?_
  · exact or_eq_false_iff.mpr ⟨rfl, bne_self_eq_false _⟩
  refine bind_iff.mpr ⟨(), rfl, ?_⟩
  refine bind_iff.mpr ⟨(), rfl, ?_⟩
  refine verify_then ?_ ?_
  · rw [hlocal, Bool.and_false]
  rw [output_join]
  refine bind_iff.mpr ⟨_, readFile_ok.mpr (read_of_lookup lookup_manifest), ?_⟩
  refine verify_then (bne_self_eq_false _) ?_
  refine bind_iff.mpr ⟨_, accepted mem_cons_self, ?_⟩
  exact verify_then (bne_self_eq_false _) rfl

theorem read_document {path role mediaType : String} {v : Value}
    (h : (path, role, mediaType, write v) ∈ files wards) (hv : v ∈ documents) :
    Capsule.readJson serde.value (capsule wards) path = .ok v := by
  have hvalue : serde.value = parse write documents := by
    rw [serde]
  refine readJson_ok.mpr ⟨_, read_file h, ?_⟩
  rw [hvalue]
  exact parse_of_mem write_inj hv

theorem requiredText_ok {value : Json} {key label text : String}
    (h : value.get? key = some (.str text)) (hblank : Text.isBlank text = false) :
    requiredText value key label = .ok text := by
  rw [requiredText, h]
  refine required_ok.mpr ?_
  show (some text).filter _ = some text
  rw [Option.filter_some, hblank]
  rfl

theorem memberOf_ok {value member : Value} {key : String}
    (h : value.json.get? key = some member.json) : memberOf value key = some member := by
  rw [memberOf]
  split
  · rename_i json hget
    rw [h, Option.some.injEq] at hget
    rw [Option.some.injEq]
    exact Value.ext hget.symm
  · rename_i hget
    rw [h] at hget
    cases hget

theorem get_workflow (key : String) : workflow.toJson.json.get? key =
    ([("id", .str workflow.id.toText), ("goal", .str workflow.goal),
      ("assumptions", .ofList .str workflow.assumptions),
      ("inputs", .ofList (fun v => v) workflow.inputs),
      ("input_contracts", .ofList WorkflowInputContract.toJson workflow.inputContracts),
      ("steps", .ofList WorkflowStep.toJson workflow.steps),
      ("outputs", .ofList (fun v => v) workflow.outputs),
      ("output_refs", .ofList WorkflowDataRef.toJson workflow.outputRefs),
      ("citations", .ofList Citation.toJson workflow.citations),
      ("review_status", .str workflow.reviewStatus.asStr)].lookup key).map json := by
  rw [GeoWorkflow.toJson]
  refine get?_object ?_
  simp

theorem digest_not_blank (v : Value) : Text.isBlank (rt.digestJson v) = false := by
  refine Text.isBlank_false_of_mem (c := 's') ?_ (by decide)
  rw [Runtime.digestJson, String.toList_append]
  exact mem_append_left _ (by decide)

theorem parseAttribution_analysis : parseAttribution analysisDocument.json = .ok [attribution] := by
  have hcitations : analysisDocument.json.get? "citations" =
      some (ofList id analysis.citations).json := by
    rw [analysisDocument, get?_object (by simp)]
    rfl
  have hcitation : ∀ key, (object [("title", .str "Wards"),
      ("url", .str "https://example.org/wards"), ("license", .str "CC BY 4.0")]).json.get? key =
      ([("title", Value.str "Wards"), ("url", .str "https://example.org/wards"),
        ("license", .str "CC BY 4.0")].lookup key).map Value.json := by
    intro key
    exact Value.get?_object (by simp)
  rw [parseAttribution, hcitations]
  refine then_ok rfl ?_
  refine bind_iff.mpr ⟨[attribution], ?_, rfl⟩
  show parseCitations [(object [("title", .str "Wards"),
    ("url", .str "https://example.org/wards"), ("license", .str "CC BY 4.0")]).json] = _
  refine then_ok (requiredText_ok (hcitation _) (by decide)) ?_
  refine bind_iff.mpr ⟨"https://example.org/wards", requiredText_ok (hcitation _) (by decide), ?_⟩
  exact bind_iff.mpr ⟨"CC BY 4.0", requiredText_ok (hcitation _) (by decide), rfl⟩

theorem requiredTextArray_workflow : requiredTextArray workflow.toJson.json "assumptions"
    "workflow assumptions" = .ok workflow.assumptions := by
  rw [requiredTextArray, get_workflow]
  refine bind_iff.mpr ⟨_, rfl, ?_⟩
  exact verify_then (by decide) rfl

theorem derives : derivePublication library (readers level) (capsule wards) publicationPolicy =
    .ok (publication derivedLevel) := by
  have hreceipt : receiptDocument.json.get? "workflow_digest" = some (.str workflowDigest) ∧
      receiptDocument.json.get? "coordinate_unit" = some (.str "degrees") ∧
      receiptDocument.json.get? "crs" = some (Value.str "EPSG:6668").json := by
    rw [receiptDocument]
    refine ⟨?_, ?_, ?_⟩
    · rw [get?_object (by simp)]
      rfl
    · rw [get?_object (by simp)]
      rfl
    · rw [get?_object (by simp)]
      rfl
  obtain ⟨hdigest, hunit, hcrs⟩ := hreceipt
  refine then_ok rfl ?_
  refine then_ok (accepted mem_cons_self) ?_
  refine then_ok (readFile_ok.mpr (read_of_lookup lookup_manifest)) ?_
  refine then_ok (mapError_iff.mpr (parse_manifest mem_cons_self)) ?_
  refine then_ok (read_document analysis_mem (.head _)) ?_
  refine then_ok (read_document workflow_mem
    (.tail _ (.tail _ (.tail _ (.tail _ (.tail _ (.head _))))))) ?_
  refine then_ok (read_document receipt_mem (.tail _ (.tail _ (.head _)))) ?_
  refine then_ok (readFile_ok.mpr (read_file policy_mem)) ?_
  refine then_ok (readFile_ok.mpr (read_file png_mem)) ?_
  refine then_ok (requiredText_ok (get_workflow _) (by decide)) ?_
  refine then_ok parseAttribution_analysis ?_
  refine then_ok requiredTextArray_workflow ?_
  refine then_ok (requiredText_ok hdigest (digest_not_blank _)) ?_
  refine then_ok (requiredText_ok hunit (by decide)) ?_
  refine bind_iff.mpr ⟨.str "EPSG:6668", ?_, rfl⟩
  rw [memberOf_ok hcrs]
  rfl

theorem no_page (embed : Bool) (bytes : Bytes) :
    (output level).read (pagePath embed) ≠ .ok bytes := by
  have hrest : ∀ embed, Text.withoutPrefix "capsule/" (pagePath embed) = none := by
    decide
  show readOutput level (pagePath embed) ≠ .ok bytes
  rw [readOutput, if_neg (pagePath_ne embed), hrest]
  nofun

theorem free_level (trust : TrustLevel) :
    Free ((levelText trust).toList.flatMap escapeChar) := by
  cases trust <;> exact free_noSlash (by decide) (by decide)

/-- The publication that the exporter derives, without its pages. -/
theorem derived_listing :
    Sound library (readers derivedLevel) (output derivedLevel) (publication derivedLevel) ↔
      Listing library (readers derivedLevel) (output derivedLevel) (publication derivedLevel) := by
  refine publication_sound_iff library (readers derivedLevel) (output derivedLevel) _
    (publication derivedLevel) (accepts (free_level _)) readJson_publication ?_ ?_
  · intro png embed bytes _ hread
    exact absurd hread (no_page embed bytes)
  · intro exported hexported _
    rw [output_join] at hexported
    have hsame : publication derivedLevel = exported := Except.ok.inj (derives.symm.trans hexported)
    rw [← hsame]
    rfl

/-- A publication without pages that claims an attested result is accepted. -/
theorem forged_publication_accepted :
    verifyPortablePublication library (readers "attested") (output "attested") =
        .ok { publicationDigest := (publication "attested").publicationDigest
              resultDigest := resultDigest, verifiedPublicEntries := 0
              verifiedCapsuleEntries := (manifest wards).entries.length } ∧
      Capsule.readJson (readers "attested").publication (output "attested") publicationPath =
        .ok (publication "attested") ∧
      (∀ embed, ¬ Covered library (output "attested") (publication "attested") embed) ∧
      derivePublication library (readers "attested") ((output "attested").join "capsule")
        (publication "attested").policy = .ok (publication derivedLevel) ∧
      (publication "attested").trustLevel ≠ (publication derivedLevel).trustLevel := by
  refine ⟨accepts (free_level .attested), readJson_publication, ?_, ?_, ?_⟩
  · intro embed h
    obtain ⟨entry, hentry, -⟩ := h
    cases hentry
  · rw [output_join]
    exact derives
  · intro h
    have htext : levelText .attested = derivedLevel := Json.str.inj (congrArg Value.json h)
    have hlow := assess_level
    rw [derivedLevel] at htext
    cases hlevel : (policy.assess rt trustEvidence).level with
    | attested =>
      rw [hlevel] at hlow
      cases hlow
    | exploratory | replayable | verified =>
      rw [hlevel] at htext
      revert htext
      decide

end Sample

end GeneGIS.Capsule.Publication
