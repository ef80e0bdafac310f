/-
A push sends a copy in a new document, so a merge leaves one of two comment maps, into which the
comments of the session text are then written.  What the client sends is kept, what the server had
not always.
-/
import GeneGIS.Collab.Reference
import GeneGIS.Data.Path

namespace GeneGIS.Collab

open OpSet Fallible List Except

variable {α ι : Type} [LinearOrder α]

structure System (lib : CollabLibrary α) (ι : Type) where
  server : lib.Doc
  clients : ι → Option lib.Doc

/-- What a client does, with the authors drawn and the outcomes of the file system. -/
inductive Event (α ι : Type) where
  | pull (i : ι) (actors : PullActors α)
  | comment (i : ι) (c : MapComment)
  | push (i : ι) (actor : α) (actors : UploadActors α) (disk : Disk)

variable (lib : CollabLibrary α)

/-- The document has no operation of that author. -/
def Unknown (actor : α) (d : lib.Doc) : Prop := ∀ o ∈ ops lib d, o.stamp.author ≠ actor

inductive Step [DecidableEq ι] (lib : CollabLibrary α) (main : ProjectBranch)
    (s : System lib ι) : Event α ι → System lib ι → Prop
  | pull (i : ι) (actors : PullActors α) (d : lib.Doc)
      (pulled : pullSession lib main actors s.server = .ok d) :
      Step lib main s (.pull i actors) { s with clients := Function.update s.clients i (some d) }
  | comment (i : ι) (c : MapComment) (d d' : lib.Doc) (held : s.clients i = some d)
      (added : addComment lib c d = .ok () d') :
      Step lib main s (.comment i c) { s with clients := Function.update s.clients i (some d') }
  | push (i : ι) (actor : α) (actors : UploadActors α) (disk : Disk) (d server : lib.Doc)
      (upload : CollabUpload lib) (held : s.clients i = some d) (drawn : Unknown lib actor s.server)
      (sent : pushUpload lib main actor d = .ok upload)
      (merged : (∃ answer, mergeUpload lib main actors disk upload s.server = .ok answer server) ∨
        ∃ e, mergeUpload lib main actors disk upload s.server = .error e server) :
      Step lib main s (.push i actor actors disk) { s with server := server }

/-- A session the server may be opened with. -/
inductive Opened (lib : CollabLibrary α) : lib.Doc → Prop
  | document (actor : α) (doc : lib.Document) (d : lib.Doc)
      (made : fromDocument lib actor doc = .ok d) : Opened lib d
  | comment (c : MapComment) (d d' : lib.Doc) (opened : Opened lib d)
      (added : addComment lib c d = .ok () d') : Opened lib d'
  | snapshot (actor : α) (d d' : lib.Doc) (opened : Opened lib d)
      (loaded : lib.automerge.load actor (lib.automerge.save d) = .ok d') : Opened lib d'

/-- The server accepted the upload a client sent for its session. -/
structure Accepted (lib : CollabLibrary α) (main : ProjectBranch) (s : System lib ι) (i : ι)
    (actor : α) (actors : UploadActors α) (disk : Disk) (client session server : lib.Doc) :
    Prop where
  held : s.clients i = some client
  cloned : cloneSession lib main actor client = .ok session
  merged : ∃ upload answer, pushUpload lib main actor client = .ok upload ∧
    mergeUpload lib main actors disk upload s.server = .ok answer server

/-- An accepted push loses no comment, neither of the server nor of the client. -/
def NothingLost (main : ProjectBranch) (s : System lib ι) : Event α ι → Prop
  | .push i actor actors disk => ∀ client session server,
      Accepted lib main s i actor actors disk client session server →
      ∃ after, comments lib main server = .ok after ∧
        (∀ before, comments lib main s.server = .ok before → ∀ c ∈ before, c ∈ after) ∧
        ∀ sent, comments lib main client = .ok sent → ∀ c ∈ sent, c ∈ after
  | _ => True

/-- The comment map of the first document was made later. -/
def Outranks (d u : lib.Doc) : Prop := ∃ w v, winner (ops lib d) .root "comments" = some w ∧
    winner (ops lib u) .root "comments" = some v ∧ v.stamp ≤ w.stamp

/-- Of an accepted push: each comment of the server is sent along, or its map outranks the map sent,
in which no identifier of its is found. -/
def Safe (main : ProjectBranch) (s : System lib ι) : Event α ι → Prop
  | .push i actor actors disk => ∀ client session server,
      Accepted lib main s i actor actors disk client session server →
      ∀ before sent, comments lib main s.server = .ok before →
        comments lib main client = .ok sent → ∀ c ∈ before,
          c ∈ sent ∨ Outranks lib s.server session ∧ ∀ p ∈ sent, p.id ≠ c.id
  | _ => True

variable {lib : CollabLibrary α} {main : ProjectBranch} {d u m : lib.Doc}

theorem commentMap_union (hm : IsUnion (ops lib m) (ops lib d) (ops lib u)) (hd : Tidy lib d)
    (hu : Tidy lib u) (hind : Independent (ops lib d) (ops lib u)) :
    (∃ place, OpSet.get (ops lib m) .root "comments" = some (.map place)) ∧
    (Outranks lib d u → ∀ k, entry (ops lib m) "comments" k = entry (ops lib d) "comments" k) ∧
    (¬Outranks lib d u → ∀ k, entry (ops lib m) "comments" k = entry (ops lib u) "comments" k) := by
  obtain ⟨dPlace, hdPlace⟩ := hd.map
  obtain ⟨uPlace, huPlace⟩ := hu.map
  obtain ⟨w, hw, hwmap, rfl⟩ := inside_of_get hdPlace
  obtain ⟨v, hv, hvmap, rfl⟩ := inside_of_get huPlace
  have hwinner := winner_union hm (wellFormed m) (wellFormed d) (wellFormed u) hind hw hv
  have hitem : ∀ x : Op α String (Scalar lib.Text), x.content = .map →
      winner (ops lib m) .root "comments" = some x →
      OpSet.get (ops lib m) .root "comments" = some (.map (.inside x.stamp)) := by
    intro x hx hwin
    rw [OpSet.get, hwin, Option.map_some, Op.item, hx]
  by_cases hle : v.stamp ≤ w.stamp
  · rw [if_pos hle] at hwinner
    have hmap := hitem w hwmap hwinner
    have houtranks : Outranks lib d u := ⟨w, v, hw, hv, hle⟩
    refine ⟨⟨_, hmap⟩, fun _ k => ?_, fun hnot => absurd houtranks hnot⟩
    have hwd := (mem_shown.mp (winner_mem hw)).1
    rw [entry_of_get hmap, entry_of_get hdPlace,
      get_union_inside hm (wellFormed m) (wellFormed d) (wellFormed u) hind hwd]
  · rw [if_neg hle] at hwinner
    have hmap := hitem v hvmap hwinner
    have hnot : ¬Outranks lib d u := by
      intro h
      obtain ⟨w', v', hw', hv', hle'⟩ := h
      rw [hw] at hw'
      rw [hv] at hv'
      rw [← Option.some.inj hw', ← Option.some.inj hv'] at hle'
      exact hle hle'
    refine ⟨⟨_, hmap⟩, fun h => absurd h hnot, fun _ k => ?_⟩
    have hvu := (mem_shown.mp (winner_mem hv)).1
    have hind' : Independent (ops lib u) (ops lib d) := fun o ho o' ho' heq =>
      hind o' ho' o ho heq.symm
    rw [entry_of_get hmap, entry_of_get huPlace,
      get_union_inside hm.symm (wellFormed m) (wellFormed u) (wellFormed d) hind' hvu]

theorem tidy_union (hm : IsUnion (ops lib m) (ops lib d) (ops lib u)) (hd : Tidy lib d)
    (hu : Tidy lib u) (hind : Independent (ops lib d) (ops lib u)) : Tidy lib m := by
  obtain ⟨hmap, hserver, hsent⟩ := commentMap_union hm hd hu hind
  refine ⟨hmap, fun key i h => ?_⟩
  by_cases houtranks : Outranks lib d u
  · rw [hserver houtranks] at h
    exact hd.entries key i h
  · rw [hsent houtranks] at h
    exact hu.entries key i h

/-! ## One push -/

variable {actor : α}

theorem cloneSession_ok (h : cloneSession lib main actor d = .ok u) :
    ∃ doc, projectDocument lib main d = .ok doc ∧ Applied lib doc (lib.automerge.new actor) u := by
  obtain ⟨doc, hdoc, hfrom⟩ := bind_iff.mp h
  obtain ⟨u', hu', happlied⟩ := @fromDocument_ok α _ lib actor doc
  rw [hu'] at hfrom
  cases hfrom
  exact ⟨doc, hdoc, happlied⟩

theorem pushUpload_ok {upload : CollabUpload lib} (h : pushUpload lib main actor d = .ok upload) :
    ∃ session doc, cloneSession lib main actor d = .ok session ∧
      projectDocument lib main session = .ok doc ∧
      upload = ⟨lib.documentText doc, some (snapshotBase64 lib session)⟩ := by
  obtain ⟨session, hsession, h⟩ := bind_iff.mp h
  obtain ⟨json, hjson, h⟩ := bind_iff.mp h
  obtain ⟨doc, hdoc, htext⟩ := bind_iff.mp hjson
  cases htext
  exact ⟨session, doc, hsession, hdoc, (ok.inj h).symm⟩

variable {doc : lib.Document}

theorem mergeJson_text (hlib : lib.Lawful)
    (hreadable : lib.Readable doc) (hnone : doc.automergeSnapshot = none)
    {r : EStateM.Result CollabError lib.Doc Unit}
    (hr : mergeJson lib actor (lib.documentText doc) d = r) :
    ∃ l d', Commented lib l d d' ∧ (r = .ok () d' ∧ l = doc.comments ∨ ∃ e, r = .error e d') := by
  have hparse := hlib.document doc hreadable
  have hrun := mergeJson_run actor (lib.documentText doc) d
  rw [hr] at hrun
  cases hrun with
  | unreadable reason parsed => rw [hparse] at parsed; cases parsed
  | refused incoming e parsed snapshot =>
    rw [hparse] at parsed
    rw [← ok.inj parsed, hnone] at snapshot
    cases snapshot
  | invalid incoming d₁ d₂ e parsed snapshot _ _ commented =>
    rw [hparse] at parsed
    rw [← ok.inj parsed, hnone] at snapshot
    cases snapshot
    exact ⟨_, d₂, commented, .inr ⟨e, rfl⟩⟩
  | merged incoming d₁ d₂ parsed snapshot _ _ commented =>
    rw [hparse] at parsed
    cases parsed
    rw [hnone] at snapshot
    cases snapshot
    exact ⟨_, d₂, commented, .inl ⟨rfl, rfl⟩⟩

theorem independent_of_unknown (hunknown : Unknown lib actor d)
    (happlied : Applied lib doc (lib.automerge.new actor) u) :
    Independent (ops lib d) (ops lib u) := by
  intro o ho o' ho' heq
  have hauthor := happlied.authored o' ho'
  rw [← heq] at hauthor
  exact hunknown o ho hauthor

theorem mergeSnapshot_sent (hlib : lib.Lawful)
    (h : mergeSnapshot lib actor (some (snapshotBase64 lib u)) d = .ok () m) :
    IsUnion (ops lib m) (ops lib d) (ops lib u) := by
  obtain ⟨u', hload, hunion, -⟩ := mergeSnapshotBase64_ok h
  rw [← loadSnapshot_snapshotBase64 hlib hload]
  exact hunion

theorem mergeUpload_copy (hlib : lib.Lawful) {actors : UploadActors α} {disk : Disk}
    {session : lib.Doc} (hdoc : projectDocument lib main session = .ok doc)
    {r : EStateM.Result CollabError lib.Doc lib.Doc}
    (hr : mergeUpload lib main actors disk
      ⟨lib.documentText doc, some (snapshotBase64 lib session)⟩ d = r) :
    (∃ e, r = .error e d) ∨ ∃ l m d', IsUnion (ops lib m) (ops lib d) (ops lib session) ∧
      Commented lib l m d' ∧
      ((∃ answer final, r = .ok answer d' ∧ projectDocument lib main d' = .ok final) ∧
        l = doc.comments ∨ ∃ e, r = .error e d') := by
  have hreadable := projectDocument_readable hdoc
  have hnone := (projectDocument_ok hdoc).2.2.2.1
  have hrun := @mergeUpload_run α _ lib main actors disk
    ⟨lib.documentText doc, some (snapshotBase64 lib session)⟩ d
  rw [hr] at hrun
  cases hrun with
  | refused e snapshot => exact .inl ⟨e, rfl⟩
  | session m d₂ e snapshot json =>
    obtain ⟨l, d', hcommented, hend⟩ := mergeJson_text hlib hreadable hnone json
    rcases hend with ⟨hok, -⟩ | ⟨e', herror⟩
    · cases hok
    · cases herror
      exact .inr ⟨l, m, d₂, mergeSnapshot_sent hlib snapshot, hcommented, .inr ⟨e, rfl⟩⟩
  | unsaved m d₂ e snapshot json saved =>
    obtain ⟨l, d', hcommented, hend⟩ := mergeJson_text hlib hreadable hnone json
    rcases hend with ⟨hok, -⟩ | ⟨e', herror⟩
    · cases hok
      exact .inr ⟨l, m, d₂, mergeSnapshot_sent hlib snapshot, hcommented, .inr ⟨e, rfl⟩⟩
    · cases herror
  | accepted m d₂ answer snapshot json saved cloned =>
    obtain ⟨l, d', hcommented, hend⟩ := mergeJson_text hlib hreadable hnone json
    rcases hend with ⟨hok, hl⟩ | ⟨e', herror⟩
    · cases hok
      obtain ⟨final, hfinal, -⟩ := cloneSession_ok cloned
      exact .inr ⟨l, m, d₂, mergeSnapshot_sent hlib snapshot, hcommented,
        .inl ⟨⟨answer, final, rfl, hfinal⟩, hl⟩⟩
    · cases herror

theorem readsAs_text (hlib : lib.Lawful) {p c : MapComment} (hp : ∃ t, lib.parseComment t = .ok p) :
    ReadsAs lib (some (.scalar (.str (lib.commentText p))) : Option (Item α _)) c ↔ c = p := by
  obtain ⟨t, ht⟩ := hp
  have hparse := hlib.comment t p ht
  constructor
  · intro h
    obtain ⟨text, htext, hc⟩ := h
    injection htext with htext
    injection htext with htext
    injection htext with htext
    rw [← htext, hparse] at hc
    exact (ok.inj hc).symm
  · intro h
    rw [h]
    exact ⟨_, rfl, hparse⟩

theorem comments_after (hlib : lib.Lawful) {client session d' : lib.Doc}
    {sent doc : lib.Document} (hd : Tidy lib d) (hunknown : Unknown lib actor d)
    (hclient : projectDocument lib main client = .ok sent)
    (happlied : Applied lib sent (lib.automerge.new actor) session)
    (hdoc : projectDocument lib main session = .ok doc)
    (hunion : IsUnion (ops lib m) (ops lib d) (ops lib session))
    (hcommented : Commented lib doc.comments m d') {after : List MapComment}
    (hafter : readComments lib d' = .ok after) (c : MapComment) :
    c ∈ after ↔ c ∈ sent.comments ∨ Outranks lib d session ∧ (∀ p ∈ sent.comments, p.id ≠ c.id) ∧
      ReadsAs lib (entry (ops lib d) "comments" c.id.toText) c := by
  have hind := independent_of_unknown hunknown happlied
  obtain ⟨-, hserver, hsent⟩ := commentMap_union hunion hd happlied.tidy hind
  have htidy := (tidy_union hunion hd happlied.tidy hind).commented hcommented
  have hcopied := happlied.comments_copied hlib hclient (projectDocument_ok hdoc).2.1
  obtain ⟨hnodup, hread⟩ := readComments_unique (projectDocument_ok hdoc).2.1
  have hkeys : (doc.comments.map fun c => c.id.toText).Nodup := by
    have hmap := hnodup.map fun _ _ heq => Uuid.toText_inj heq
    rwa [map_map] at hmap
  rw [htidy.readComments hlib hafter, hcommented.comments]
  simp only [← hcopied]
  by_cases hid : ∃ p ∈ doc.comments, p.id = c.id
  · obtain ⟨p, hp, hpid⟩ := hid
    have hentry : withComments lib doc.comments (entry (ops lib m) "comments") p.id.toText =
        some (.scalar (.str (lib.commentText p))) :=
      overlay_of_mem hkeys hp
    rw [← hpid, hentry, readsAs_text hlib (hread p hp)]
    constructor
    · intro h
      rw [h]
      exact .inl hp
    · intro h
      rcases h with h | h
      · exact inj_on_of_nodup_map hnodup h hp hpid.symm
      · exact absurd rfl (h.2.1 p hp)
  · have hnone : ∀ p ∈ doc.comments, p.id ≠ c.id := fun p hp heq => hid ⟨p, hp, heq⟩
    have hentry : withComments lib doc.comments (entry (ops lib m) "comments") c.id.toText =
        entry (ops lib m) "comments" c.id.toText :=
      overlay_of_not_mem fun p hp heq => hnone p hp (Uuid.toText_inj heq)
    have hnot : c ∉ doc.comments := fun h => hnone c h rfl
    rw [hentry]
    by_cases houtranks : Outranks lib d session
    · rw [hserver houtranks]
      constructor
      · exact fun h => .inr ⟨houtranks, hnone, h⟩
      · intro h
        rcases h with h | h
        · exact absurd h hnot
        · exact h.2.2
    · rw [hsent houtranks]
      constructor
      · intro h
        exact .inl ((happlied.tidy.readComments hlib (projectDocument_ok hdoc).2.1 c).mpr h)
      · intro h
        rcases h with h | h
        · exact absurd h hnot
        · exact absurd h.1 houtranks

theorem Step.tidy [DecidableEq ι] (hlib : lib.Lawful) {s s' : System lib ι} {e : Event α ι}
    (hs : Tidy lib s.server) (h : Step lib main s e s') : Tidy lib s'.server := by
  cases h with
  | pull i actors d pulled => exact hs
  | comment i c d d' held added => exact hs
  | push i actor actors disk client server upload held drawn sent merged =>
    obtain ⟨session, doc, hsession, hdoc, rfl⟩ := pushUpload_ok sent
    obtain ⟨sentDoc, -, happlied⟩ := cloneSession_ok hsession
    have hind := independent_of_unknown drawn happlied
    have hkept : ∀ l m, IsUnion (ops lib m) (ops lib s.server) (ops lib session) →
        Commented lib l m server → Tidy lib server := fun l m hunion hcommented =>
      (tidy_union hunion hs happlied.tidy hind).commented hcommented
    show Tidy lib server
    rcases merged with ⟨answer, hmerge⟩ | ⟨e, hmerge⟩
    · rcases mergeUpload_copy hlib hdoc hmerge with ⟨e, herror⟩ | ⟨l, m, d', hunion, hcommented, hend⟩
      · cases herror
      · rcases hend with ⟨⟨answer', final, hok, -⟩, -⟩ | ⟨e, herror⟩
        · cases hok
          exact hkept l m hunion hcommented
        · cases herror
    · rcases mergeUpload_copy hlib hdoc hmerge with ⟨e, herror⟩ | ⟨l, m, d', hunion, hcommented, hend⟩
      · cases herror
        exact hs
      · rcases hend with ⟨⟨answer', final, hok, -⟩, -⟩ | ⟨e, herror⟩
        · cases hok
        · cases herror
          exact hkept l m hunion hcommented

theorem Opened.tidy (h : Opened lib d) : Tidy lib d := by
  induction h with
  | document actor doc d made =>
    obtain ⟨d', hd', happlied⟩ := fromDocument_ok actor doc
    rw [made] at hd'
    rw [ok.inj hd']
    exact happlied.tidy
  | comment c d d' _ added ih =>
    cases hvalid : c.validate with
    | error e =>
      rw [addComment_invalid hvalid] at added
      cases added
    | ok v =>
      obtain ⟨-, d₁, hadd, hcommented, -⟩ := addComment_ok hvalid d
      rw [hadd] at added
      cases added
      exact ih.commented hcommented
  | snapshot actor d d' _ loaded ih =>
    obtain ⟨d₁, hd₁, hops⟩ := lib.automerge.load_save actor d
    rw [loaded] at hd₁
    rw [← ok.inj hd₁] at hops
    exact ih.congr hops

theorem nothingLost_iff (hlib : lib.Lawful) {s : System lib ι} (hs : Tidy lib s.server)
    {e : Event α ι}
    (hdrawn : ∀ i actor actors disk, e = .push i actor actors disk → Unknown lib actor s.server) :
    NothingLost lib main s e ↔ Safe lib main s e := by
  cases e with
  | pull i actors => exact Iff.rfl
  | comment i c => exact Iff.rfl
  | push i actor actors disk =>
    refine forall_congr' fun client => forall_congr' fun session => forall_congr' fun server => ?_
    refine forall_congr' fun haccepted => ?_
    obtain ⟨upload, answer, hsent, hmerge⟩ := haccepted.merged
    obtain ⟨session', doc, hsession, hdoc, rfl⟩ := pushUpload_ok hsent
    obtain rfl : session' = session := ok.inj (hsession.symm.trans haccepted.cloned)
    obtain ⟨sent, hclient, happlied⟩ := cloneSession_ok hsession
    rcases mergeUpload_copy hlib hdoc hmerge with ⟨e, herror⟩ | ⟨l, m, d', hunion, hcommented, hend⟩
    · cases herror
    rcases hend with ⟨⟨answer', final, hok, hfinal⟩, rfl⟩ | ⟨e, herror⟩
    swap
    · cases herror
    cases hok
    have hafter := comments_after hlib hs (hdrawn i actor actors disk rfl) hclient happlied hdoc
      hunion hcommented (projectDocument_ok hfinal).2.1
    have hbefore : ∀ before, comments lib main s.server = .ok before → ∀ c, c ∈ before ↔
        ReadsAs lib (entry (ops lib s.server) "comments" c.id.toText) c := by
      intro before h c
      obtain ⟨serverDoc, hserverDoc, rfl⟩ := comments_ok.mp h
      exact hs.readComments hlib (projectDocument_ok hserverDoc).2.1 c
    have hsentDoc : ∀ cs, comments lib main client = .ok cs → cs = sent.comments := by
      intro cs h
      obtain ⟨clientDoc, hclientDoc, rfl⟩ := comments_ok.mp h
      rw [hclient] at hclientDoc
      rw [ok.inj hclientDoc]
    constructor
    · intro hlost before cs hb hcs c hc
      obtain ⟨after, ha, hkept, -⟩ := hlost
      obtain ⟨final', hfinal', rfl⟩ := comments_ok.mp ha
      rw [hfinal] at hfinal'
      cases hfinal'
      rw [hsentDoc cs hcs]
      rcases (hafter c).mp (hkept before hb c hc) with h | h
      · exact .inl h
      · exact .inr ⟨h.1, h.2.1⟩
    · intro hsafe
      refine ⟨final.comments, comments_ok.mpr ⟨final, hfinal, rfl⟩, ?_, ?_⟩
      · intro before hb c hc
        refine (hafter c).mpr ?_
        rcases hsafe before sent.comments hb (comments_ok.mpr ⟨sent, hclient, rfl⟩) c hc with h | h
        · exact .inl h
        · exact .inr ⟨h.1, h.2, (hbefore before hb c).mp hc⟩
      · intro cs hcs c hc
        rw [hsentDoc cs hcs] at hc
        exact (hafter c).mpr (.inl hc)

/-- In every run, no accepted push loses a comment exactly when all are safe. -/
theorem run_nothingLost_iff [DecidableEq ι] (lib : CollabLibrary α) (hlib : lib.Lawful)
    (main : ProjectBranch) {first last : System lib ι} {trace : List (System lib ι × Event α ι)}
    (hopened : Opened lib first.server) (path : Path (Step lib main) first trace last) :
    (∀ x ∈ trace, NothingLost lib main x.1 x.2) ↔ ∀ x ∈ trace, Safe lib main x.1 x.2 := by
  have htidy := path.invariant (P := fun s => Tidy lib s.server) hopened.tidy
    fun s e s' hs hstep => hstep.tidy hlib hs
  refine forall_congr' fun x => forall_congr' fun hx => ?_
  have hserver := htidy x.1 (mem_append_left _ (mem_map_of_mem hx))
  refine nothingLost_iff hlib hserver ?_
  intro i actor actors disk heq
  obtain ⟨-, s', -, hstep⟩ := path.step_of_mem x hx
  rw [heq] at hstep
  cases hstep with
  | push _ _ _ _ _ _ _ _ drawn _ _ => exact drawn

/-! ## A push that hides the server's comments -/

section Hidden

open Reference

def reviewNote : MapComment := note 1 "reviewer" "Verify ward boundary alignment"

def clientNote : MapComment := note 2 "cli" "Server merge smoke"

/-- The server has one comment and a client, who never pulled, another. -/
noncomputable def strangers : System (library Nat) Unit where
  server := session 0 [reviewNote]
  clients := fun _ => some (session 1 [clientNote])

theorem projectDocument_client :
    projectDocument (library Nat) mainBranch (session 1 [clientNote]) =
      .ok (document Nat [clientNote]) := by
  rfl

theorem cloneSession_client :
    cloneSession (library Nat) mainBranch 2 (session 1 [clientNote]) =
      .ok (session 2 [clientNote]) :=
  then_ok projectDocument_client (session_made 2 [clientNote])

noncomputable def clientUpload : CollabUpload (library Nat) where
  session := document Nat [clientNote]
  automergeSnapshot := some (session 2 [clientNote]).toBytes

theorem pushUpload_client :
    pushUpload (library Nat) mainBranch 2 (session 1 [clientNote]) =
      .ok clientUpload := by
  have hdoc : projectDocument (library Nat) mainBranch (session 2 [clientNote]) =
      .ok (document Nat [clientNote]) := by
    rfl
  refine then_ok cloneSession_client ?_
  exact then_ok (then_ok hdoc rfl) rfl

theorem agree_strangers :
    Agree (session 0 [reviewNote]).ops (session 2 [clientNote]).ops := by
  intro o ho o' ho' heq
  have hserver := session_authored 0 _ o ho
  rw [heq, session_authored 2 _ o' ho'] at hserver
  cases hserver

noncomputable def mergedStrangers : Doc Nat where
  ops := (session 0 [reviewNote]).ops ++ (session 2 [clientNote]).ops
  wellFormed := wellFormed_union (isUnion_append _ _) (session 0 [reviewNote]).wellFormed
    (session 2 [clientNote]).wellFormed agree_strangers
  actor := 0

def draws : UploadActors Nat := ⟨3, 4, 5⟩

def working : Disk := ⟨.ok (), .ok (), .ok ()⟩

theorem mergeSnapshot_strangers : mergeSnapshot (library Nat) 3 clientUpload.automergeSnapshot
      (session 0 [reviewNote]) = .ok () mergedStrangers := by
  have hload : loadSnapshot (library Nat) 3 (session 2 [clientNote]).toBytes =
      .ok { (session 2 [clientNote]).toBytes with actor := 3 } :=
    then_ok rfl rfl
  refine bind_ok.mpr ⟨_, _, lift_ok.mpr ⟨hload, rfl⟩, ?_⟩
  refine bind_ok.mpr ⟨_, _, get_ok.mpr ⟨rfl, rfl⟩, ?_⟩
  refine bind_ok.mpr ⟨mergedStrangers, _, lift_ok.mpr ⟨?_, rfl⟩, rfl⟩
  exact mapError_iff.mpr (dif_pos agree_strangers)

theorem mergeUpload_strangers : ∃ answer server,
    mergeUpload (library Nat) mainBranch draws working clientUpload
      (session 0 [reviewNote]) = .ok answer server ∧
    comments (library Nat) mainBranch server = .ok [clientNote] := by
  have hjson : ∃ server, mergeJson (library Nat) 4 clientUpload.session mergedStrangers =
      .ok () server ∧ comments (library Nat) mainBranch server = .ok [clientNote] := by
    have hrun : (match mergeJson (library Nat) 4 clientUpload.session mergedStrangers with
        | .ok _ server => decide (comments (library Nat) mainBranch server = .ok [clientNote])
        | .error _ _ => false) = true := by
      rfl
    split at hrun
    next v server hok => exact ⟨server, hok, of_decide_eq_true hrun⟩
    next => cases hrun
  obtain ⟨server, hmerged, hcomments⟩ := hjson
  obtain ⟨doc, hdoc, -⟩ := comments_ok.mp hcomments
  have hsaved : persistLocked (library Nat) mainBranch working server = .ok () server := by
    refine bind_ok.mpr ⟨(), server, rfl, bind_ok.mpr ⟨server, server, rfl, ?_⟩⟩
    exact bind_ok.mpr ⟨_, _, lift_ok.mpr ⟨then_ok hdoc rfl, rfl⟩, rfl⟩
  obtain ⟨answer, hanswer⟩ := cloneSession_saved hsaved 5
  refine ⟨answer, server, ?_, hcomments⟩
  rw [mergeUpload_eq]
  refine bind_ok.mpr ⟨(), mergedStrangers, mergeSnapshot_strangers, ?_⟩
  refine bind_ok.mpr ⟨(), server, hmerged, bind_ok.mpr ⟨(), server, hsaved, ?_⟩⟩
  exact bind_ok.mpr ⟨server, server, rfl, lift_ok.mpr ⟨hanswer, rfl⟩⟩

theorem comments_strangers :
    comments (library Nat) mainBranch strangers.server = .ok [reviewNote] := by
  rfl

theorem opened_server : Opened (library Nat) (session 0 [reviewNote]) := by
  have hmade := session_made 0 [reviewNote]
  have hopened := @Opened.document Nat _ (library Nat) 0 (document Nat [reviewNote])
    (session 0 [reviewNote])
  exact hopened hmade

theorem unknown_server : Unknown (library Nat) 2 (session 0 [reviewNote]) := by
  intro o ho heq
  rw [ops_library] at ho
  have hserver := session_authored 0 [reviewNote] o ho
  rw [heq] at hserver
  exact absurd hserver (by decide)

theorem path_strangers : ∃ last server,
    Path (Step (library Nat) mainBranch) strangers [(strangers, .push () 2 draws working)] last ∧
    Accepted (library Nat) mainBranch strangers () 2 draws working
      (session 1 [clientNote]) (session 2 [clientNote]) server ∧
    comments (library Nat) mainBranch server = .ok [clientNote] := by
  obtain ⟨answer, server, hmerge, hcomments⟩ := mergeUpload_strangers
  have hheld : strangers.clients () = some (session 1 [clientNote]) := rfl
  have hstep := @Step.push Nat Unit _ _ (library Nat) mainBranch strangers () 2 draws working
    (session 1 [clientNote]) server clientUpload hheld unknown_server pushUpload_client
    (.inl ⟨answer, hmerge⟩)
  exact ⟨_, server, Path.nil.snoc hstep,
    ⟨hheld, cloneSession_client, clientUpload, answer, pushUpload_client, hmerge⟩, hcomments⟩

/-- The server loses its comment in one accepted push. -/
theorem push_hides_comments : ∃ last trace, Opened (library Nat) strangers.server ∧
      Path (Step (library Nat) mainBranch) strangers trace last ∧
      ¬∀ x ∈ trace, NothingLost (library Nat) mainBranch x.1 x.2 := by
  obtain ⟨last, server, hpath, haccepted, hcomments⟩ := path_strangers
  refine ⟨last, _, opened_server, hpath, ?_⟩
  intro hkept
  have hpush : NothingLost (library Nat) mainBranch strangers (.push () 2 draws working) :=
    hkept (strangers, .push () 2 draws working) (mem_singleton_self _)
  obtain ⟨after, hafter, hbefore, -⟩ := hpush _ _ _ haccepted
  have hmem := hbefore _ comments_strangers reviewNote mem_cons_self
  rw [← ok.inj (hcomments.symm.trans hafter), mem_singleton] at hmem
  exact absurd hmem (by decide)

/-- The push loses a comment because it is not safe. -/
theorem run_nothingLost_strangers :
    NothingLost (library Nat) mainBranch strangers (.push () 2 draws working) ↔
      Safe (library Nat) mainBranch strangers (.push () 2 draws working) := by
  obtain ⟨last, server, hpath, -⟩ := path_strangers
  have hrun := run_nothingLost_iff (library Nat) (library_lawful Nat) mainBranch opened_server hpath
  rwa [forall_mem_singleton, forall_mem_singleton] at hrun

end Hidden

end GeneGIS.Collab
