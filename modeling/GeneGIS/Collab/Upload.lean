/-
What one upload does to the document of the server.

It is merged in stages; `JsonMerge` and `UploadMerge` list every way they end, with the document
that is left.
-/
import GeneGIS.Collab.Reading

namespace GeneGIS.Collab

open OpSet Fallible

variable {α : Type} [LinearOrder α] {lib : CollabLibrary α} {main : ProjectBranch}
  {d d' u : lib.Doc}

theorem mergeSnapshotBase64_ok {actor : α} {encoded : lib.Encoded} {v : Unit}
    (h : mergeSnapshotBase64 lib actor encoded d = .ok v d') :
    ∃ u, loadSnapshot lib actor encoded = .ok u ∧ IsUnion (ops lib d') (ops lib d) (ops lib u) ∧
      lib.automerge.actor d' = lib.automerge.actor d := by
  rw [mergeSnapshotBase64, bind_ok] at h
  obtain ⟨u, s, hload, hmerge⟩ := h
  obtain ⟨hloaded, rfl⟩ := lift_ok.mp hload
  exact ⟨u, hloaded, merge_ok hmerge⟩

variable (actor : α)

theorem atomic_mergeSnapshotBase64 (encoded : lib.Encoded) :
    Atomic (mergeSnapshotBase64 lib actor encoded) := by
  refine (observes_lift _).bind fun u => ?_
  refine observes_get.bind fun doc => ?_
  exact (observes_lift _).bind fun merged => Total.atomic fun s e s' h => by cases h

def mergeSnapshot (lib : CollabLibrary α) (actor : α) : Option lib.Encoded → Crdt lib Unit
  | some snapshot => mergeSnapshotBase64 lib actor snapshot
  | none => pure ()

theorem atomic_mergeSnapshot (snapshot : Option lib.Encoded) :
    Atomic (mergeSnapshot lib actor snapshot) := by
  cases snapshot with
  | none => exact (total_pure ()).atomic
  | some encoded => exact atomic_mergeSnapshotBase64 actor encoded

theorem loadSnapshot_snapshotBase64 (hlib : lib.Lawful) {actor : α}
    (h : loadSnapshot lib actor (snapshotBase64 lib u) = .ok d) : ops lib d = ops lib u := by
  rw [loadSnapshot, bind_iff] at h
  obtain ⟨bytes, hdecode, hload⟩ := h
  have hbytes := mapError_iff.mp hdecode
  rw [snapshotBase64, hlib.decode_encode] at hbytes
  rw [← Except.ok.inj hbytes] at hload
  obtain ⟨u', hu', hops⟩ := lib.automerge.load_save actor u
  have hsame := (mapError_iff.mp hload).symm.trans hu'
  rw [Except.ok.inj hsame]
  exact hops

/-- How the merge of a session text ends. -/
inductive JsonMerge (lib : CollabLibrary α) (actor : α) (json : lib.Export) (d : lib.Doc) :
    EStateM.Result CollabError lib.Doc Unit → Prop
  | unreadable (reason : String) (parsed : lib.parseDocument json = .error reason) :
      JsonMerge lib actor json d (.error (.json reason) d)
  | refused (incoming : lib.Document) (e : CollabError)
      (parsed : lib.parseDocument json = .ok incoming)
      (snapshot : mergeSnapshot lib actor incoming.automergeSnapshot d = .error e d) :
      JsonMerge lib actor json d (.error e d)
  | invalid (incoming : lib.Document) (d₁ d₂ : lib.Doc) (e : CollabError)
      (parsed : lib.parseDocument json = .ok incoming)
      (snapshot : mergeSnapshot lib actor incoming.automergeSnapshot d = .ok () d₁)
      (some : validPrefix incoming.comments ≠ incoming.comments)
      (written : forEach lib (addComment lib) (validPrefix incoming.comments) d₁ = .ok () d₂)
      (commented : Commented lib (validPrefix incoming.comments) d₁ d₂) :
      JsonMerge lib actor json d (.error e d₂)
  | merged (incoming : lib.Document) (d₁ d₂ : lib.Doc)
      (parsed : lib.parseDocument json = .ok incoming)
      (snapshot : mergeSnapshot lib actor incoming.automergeSnapshot d = .ok () d₁)
      (all : validPrefix incoming.comments = incoming.comments)
      (written : forEach lib (addComment lib) (validPrefix incoming.comments) d₁ = .ok () d₂)
      (commented : Commented lib incoming.comments d₁ d₂) :
      JsonMerge lib actor json d (.ok () d₂)

theorem mergeJson_eq (json : lib.Export) : mergeJson lib actor json = (do
      let incoming ← lift (jsonResult (lib.parseDocument json))
      mergeSnapshot lib actor incoming.automergeSnapshot
      forEach lib (addComment lib) incoming.comments) := by
  refine congrArg (lift (jsonResult (lib.parseDocument json)) >>= ·) (funext fun incoming => ?_)
  show _ = mergeSnapshot lib actor incoming.automergeSnapshot >>= _
  cases incoming.automergeSnapshot <;> rfl

theorem mergeJson_run (json : lib.Export) (d : lib.Doc) :
    JsonMerge lib actor json d (mergeJson lib actor json d) := by
  rw [mergeJson_eq, bind_apply]
  cases hparse : lib.parseDocument json with
  | error reason => exact .unreadable reason hparse
  | ok incoming =>
    show JsonMerge lib actor json d
      ((mergeSnapshot lib actor incoming.automergeSnapshot >>= fun _ =>
        forEach lib (addComment lib) incoming.comments) d)
    rw [bind_apply]
    cases hsnapshot : mergeSnapshot lib actor incoming.automergeSnapshot d with
    | error e d₁ =>
      obtain rfl := atomic_mergeSnapshot actor _ d e d₁ hsnapshot
      exact .refused incoming e hparse hsnapshot
    | ok v d₁ =>
      obtain ⟨d₂, hcommented, hwritten, hrun⟩ := addComments_run incoming.comments d₁
      show JsonMerge lib actor json d (forEach lib (addComment lib) incoming.comments d₁)
      rcases hrun with hall | ⟨hsome, e, hrun⟩
      · have hrun : forEach lib (addComment lib) incoming.comments d₁ = .ok () d₂ := by
          rw [← hall]
          exact hwritten
        rw [hrun]
        rw [hall] at hcommented
        exact .merged incoming d₁ d₂ hparse hsnapshot hall hwritten hcommented
      · rw [hrun]
        exact .invalid incoming d₁ d₂ e hparse hsnapshot hsome hwritten hcommented

/-! ## The upload -/

theorem observes_persistLocked (disk : Disk) : Observes (persistLocked lib main disk) := by
  constructor
  · refine (observes_lift _).bind fun _ => observes_get.bind fun session => ?_
    refine (observes_lift _).bind fun _ => ?_
    exact (observes_lift _).bind fun _ => (observes_lift _).1
  · intro s v s' h
    simp only [persistLocked, bind_ok, get_ok, lift_ok] at h
    obtain ⟨_, _, ⟨-, rfl⟩, _, _, ⟨-, rfl⟩, _, _, ⟨-, rfl⟩, _, _, ⟨-, rfl⟩, -, rfl⟩ := h
    rfl

/-- How the merge of an upload ends. -/
inductive UploadMerge (lib : CollabLibrary α) (main : ProjectBranch) (actors : UploadActors α)
    (disk : Disk) (upload : CollabUpload lib) (d : lib.Doc) :
    EStateM.Result CollabError lib.Doc lib.Doc → Prop
  | refused (e : CollabError)
      (snapshot : mergeSnapshot lib actors.snapshot upload.automergeSnapshot d = .error e d) :
      UploadMerge lib main actors disk upload d (.error e d)
  | session (d₁ d₂ : lib.Doc) (e : CollabError)
      (snapshot : mergeSnapshot lib actors.snapshot upload.automergeSnapshot d = .ok () d₁)
      (json : mergeJson lib actors.nested upload.session d₁ = .error e d₂) :
      UploadMerge lib main actors disk upload d (.error e d₂)
  | unsaved (d₁ d₂ : lib.Doc) (e : CollabError)
      (snapshot : mergeSnapshot lib actors.snapshot upload.automergeSnapshot d = .ok () d₁)
      (json : mergeJson lib actors.nested upload.session d₁ = .ok () d₂)
      (saved : persistLocked lib main disk d₂ = .error e d₂) :
      UploadMerge lib main actors disk upload d (.error e d₂)
  | accepted (d₁ d₂ answer : lib.Doc)
      (snapshot : mergeSnapshot lib actors.snapshot upload.automergeSnapshot d = .ok () d₁)
      (json : mergeJson lib actors.nested upload.session d₁ = .ok () d₂)
      (saved : persistLocked lib main disk d₂ = .ok () d₂)
      (cloned : cloneSession lib main actors.clone d₂ = .ok answer) :
      UploadMerge lib main actors disk upload d (.ok answer d₂)

theorem mergeUpload_eq (actors : UploadActors α) (disk : Disk) (upload : CollabUpload lib) :
    mergeUpload lib main actors disk upload = (do
      mergeSnapshot lib actors.snapshot upload.automergeSnapshot
      mergeJson lib actors.nested upload.session
      persistLocked lib main disk
      let session ← get
      lift (cloneSession lib main actors.clone session)) := by
  rw [mergeUpload]
  cases upload.automergeSnapshot <;> rfl

theorem cloneSession_saved {disk : Disk} {v : Unit}
    (h : persistLocked lib main disk d = .ok v d') (actor : α) :
    ∃ u, cloneSession lib main actor d = .ok u := by
  simp only [persistLocked, bind_ok, get_ok, lift_ok] at h
  obtain ⟨_, _, ⟨-, rfl⟩, _, _, ⟨rfl, rfl⟩, _, _, ⟨hexport, rfl⟩, -⟩ := h
  obtain ⟨doc, hdoc, -⟩ := bind_iff.mp hexport
  obtain ⟨u, hu, -⟩ := fromDocument_ok actor doc
  exact ⟨u, then_ok hdoc hu⟩

theorem mergeUpload_run (actors : UploadActors α) (disk : Disk) (upload : CollabUpload lib)
    (d : lib.Doc) :
    UploadMerge lib main actors disk upload d (mergeUpload lib main actors disk upload d) := by
  rw [mergeUpload_eq, bind_apply]
  cases hsnapshot : mergeSnapshot lib actors.snapshot upload.automergeSnapshot d with
  | error e d₁ =>
    obtain rfl := atomic_mergeSnapshot _ _ d e d₁ hsnapshot
    exact .refused e hsnapshot
  | ok v d₁ =>
    dsimp only
    rw [bind_apply]
    cases hjson : mergeJson lib actors.nested upload.session d₁ with
    | error e d₂ => exact .session d₁ d₂ e hsnapshot hjson
    | ok v d₂ =>
      dsimp only
      rw [bind_apply]
      cases hsaved : persistLocked lib main disk d₂ with
      | error e d₃ =>
        obtain rfl := (observes_persistLocked disk).1 d₂ e d₃ hsaved
        exact .unsaved d₁ d₃ e hsnapshot hjson hsaved
      | ok v d₃ =>
        obtain rfl := (observes_persistLocked disk).2 d₂ v d₃ hsaved
        obtain ⟨answer, hanswer⟩ := cloneSession_saved hsaved actors.clone
        have hrun : (get >>= fun session =>
            lift (cloneSession lib main actors.clone session) : Crdt lib lib.Doc) d₃ =
              .ok answer d₃ := by
          rw [bind_ok]
          exact ⟨d₃, d₃, rfl, lift_ok.mpr ⟨hanswer, rfl⟩⟩
        dsimp only
        rw [hrun]
        exact .accepted d₁ d₃ answer hsnapshot hjson hsaved hanswer

end GeneGIS.Collab
