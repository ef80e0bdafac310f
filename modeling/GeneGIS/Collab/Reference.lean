/-
A library that keeps operations and values as they are.

Nothing is encoded.  `session` and `note` make the documents and comments that examples are about.
-/
import GeneGIS.Collab.Upload

namespace GeneGIS.Reference

open OpSet Except

inductive Token where
  | plain (s : String)
  | comment (c : MapComment)
  | branch (b : ProjectBranch)
  | project (p : Project)

variable {α : Type} [LinearOrder α]

structure Bytes (α : Type) [LinearOrder α] where
  ops : List (Op α String (Scalar Token))
  wellFormed : WellFormed ops

structure Doc (α : Type) [LinearOrder α] extends Bytes α where
  actor : α

/-- Equal texts; a project is written again even where it is equal. -/
def Token.same : Token → Token → Bool
  | .plain s, .plain s' => decide (s = s')
  | .comment c, .comment c' => decide (c = c')
  | .branch b, .branch b' => decide (b = b')
  | _, _ => false

def sameScalar : Scalar Token → Scalar Token → Bool
  | .str t, .str t' => t.same t'
  | .int n, .int n' => decide (n = n')
  | _, _ => false

theorem eq_of_same {v v' : Scalar Token} (h : sameScalar v v' = true) : v = v' := by
  cases v <;> cases v' <;> simp only [sameScalar, decide_eq_true_eq, Bool.false_eq_true] at h
  case int.int n n' => rw [h]
  case str.str t t' =>
    cases t <;> cases t' <;>
      simp only [Token.same, decide_eq_true_eq, Bool.false_eq_true] at h <;> rw [h]

/-- The key shows that value and nothing else. -/
def shows (d : List (Op α String (Scalar Token))) (p : Place α) (k : String)
    (v : Scalar Token) : Bool :=
  match shown d p k with
  | [o] =>
    match o.content with
    | .scalar v' => sameScalar v' v
    | _ => false
  | _ => false

theorem get_of_shows {d : List (Op α String (Scalar Token))} {p : Place α} {k : String}
    {v : Scalar Token} (h : shows d p k v = true) : OpSet.get d p k = some (.scalar v) := by
  rw [shows] at h
  split at h
  next o ho =>
    split at h
    next v' hv =>
      rw [OpSet.get, winner, ho, List.argmax_singleton, ← eq_of_same h]
      show some o.item = _
      rw [Op.item, hv]
    next => cases h
  next => cases h

def isMapContent {ν : Type} : Content ν → Bool
  | .map => true
  | _ => false

theorem isMapContent_eq {ν : Type} (c : Content ν) : isMapContent c = true ↔ c = .map := by
  cases c <;> simp [isMapContent]

instance (d : List (Op α String (Scalar Token))) (p : Place α) : Decidable (IsMap d p) :=
  match p with
  | .root => isTrue trivial
  | .inside s =>
    decidable_of_iff (∃ o ∈ d, o.stamp = s ∧ isMapContent o.content = true) (by
      simp only [isMapContent_eq]
      exact Iff.rfl)

def Doc.write (d : Doc α) (p : Place α) (k : String) (c : Content (Scalar Token))
    (h : IsMap d.ops p) : Doc α where
  ops := OpSet.write (next d.actor d.ops) p k c d.ops
  wellFormed := d.wellFormed.write (new_next d.actor d.ops) h
  actor := d.actor

def put (d : Doc α) (p : Place α) (k : String) (v : Scalar Token) : Except String (Doc α) :=
  if h : IsMap d.ops p then
    if shows d.ops p k v then .ok d else .ok (d.write p k (.scalar v) h)
  else .error "invalid object id"

def putMap (d : Doc α) (p : Place α) (k : String) : Except String (Doc α × Place α) :=
  if h : IsMap d.ops p then
    .ok (d.write p k .map h, .inside (next d.actor d.ops))
  else .error "invalid object id"

/-- No stamp stands for two operations. -/
def Agree (d u : List (Op α String (Scalar Token))) : Prop :=
  ∀ o ∈ d, ∀ o' ∈ u, o.stamp = o'.stamp → o = o'

omit [LinearOrder α] in
theorem isUnion_append (d u : List (Op α String (Scalar Token))) : IsUnion (d ++ u) d u :=
  fun _ => List.mem_append

open Classical in
noncomputable def merge (d u : Doc α) : Except String (Doc α) :=
  if h : Agree d.ops u.ops then
    .ok { ops := d.ops ++ u.ops
          wellFormed := wellFormed_union (isUnion_append _ _) d.wellFormed u.wellFormed h
          actor := d.actor }
  else .error "duplicate seq number found for actor"

theorem merge_agree {d u : Doc α} (h : Agree d.ops u.ops) :
    ∃ m, merge d u = .ok m ∧ m.ops = d.ops ++ u.ops ∧ m.actor = d.actor := by
  rw [merge, dif_pos h]
  exact ⟨_, rfl, rfl, rfl⟩

theorem ok_of_merge {d u m : Doc α} (h : merge d u = .ok m) :
    m.ops = d.ops ++ u.ops ∧ m.actor = d.actor := by
  rw [merge] at h
  split at h
  next =>
    cases h
    exact ⟨rfl, rfl⟩
  next => cases h

omit [LinearOrder α] in
theorem next_author (a : α) (d : List (Op α String (Scalar Token))) : (next a d).author = a := rfl

variable (α)

noncomputable def automerge : Automerge α Token where
  Doc := Doc α
  Bytes := Bytes α
  new a := { ops := [], actor := a, wellFormed := ⟨by simp, by simp, by simp⟩ }
  load a b := .ok { b with actor := a }
  save d := d.toBytes
  merge := merge
  get d p k := .ok (OpSet.get d.ops p k)
  keys d p := OpSet.keys d.ops p
  put := put
  putMap := putMap
  ops d := d.ops
  actor d := d.actor
  wellFormed d := d.wellFormed
  ops_new _ := rfl
  actor_new _ := rfl
  load_save a d := ⟨{ d with actor := a }, rfl, rfl⟩
  load_actor a b d h := by
    cases h
    rfl
  load_ops a a' b d d' h h' := by
    cases h
    cases h'
    rfl
  merge_ops d u m h := by
    rw [(ok_of_merge h).1]
    exact isUnion_append d.ops u.ops
  merge_actor d u m h := (ok_of_merge h).2
  get_ops _ _ _ _ := rfl
  keys_ops _ _ := rfl
  put_ops d p k v h := by
    rw [put, dif_pos h]
    by_cases hshows : shows d.ops p k v = true
    · rw [if_pos hshows]
      exact ⟨d, rfl, rfl, .inr ⟨get_of_shows hshows, rfl⟩⟩
    · rw [if_neg hshows]
      exact ⟨_, rfl, rfl, .inl ⟨next d.actor d.ops, next_author _ _, new_next _ _, rfl⟩⟩
  putMap_ops d p k h := by
    rw [putMap, dif_pos h]
    exact ⟨_, next d.actor d.ops, rfl, rfl, next_author _ _, new_next _ _, rfl⟩

def asString : Token → String
  | .plain s => s
  | _ => ""

def parseComment : Token → Except String MapComment
  | .comment c => .ok c
  | _ => .error "expected a comment"

def parseBranch : Token → Except String ProjectBranch
  | .branch b => .ok b
  | _ => .error "expected a branch"

def parseProject : Token → Except String Project
  | .project p => .ok p
  | _ => .error "expected a project"

noncomputable def library : CollabLibrary α where
  Text := Token
  Encoded := Bytes α
  Export := CollabDocument (Bytes α)
  ofString := .plain
  asString := asString
  automerge := automerge α
  encode := id
  decode := .ok
  commentText := .comment
  parseComment := parseComment
  branchText := .branch
  parseBranch := parseBranch
  projectText := .project
  parseProject := parseProject
  documentText := id
  parseDocument := .ok

theorem library_lawful : (library α).Lawful where
  asString_ofString _ := rfl
  decode_encode _ := rfl
  comment _ _ _ := rfl
  commentId c c' h := by
    cases h
    rfl
  branch _ := rfl
  project _ _ _ := rfl
  recorded _ _ _ _ := rfl
  document _ _ := rfl

def mainBranch : ProjectBranch where
  id := Uuid.ofNat 0
  name := "main"
  parent := none
  createdAt := ⟨0⟩
  description := "Default project branch"

def note (id : Nat) (author body : String) : MapComment where
  id := Uuid.ofNat id
  threadId := Uuid.ofNat id
  author := author
  body := body
  createdAt := ⟨0⟩
  layerId := none
  mapAnchor := none
  agentRunId := none
  agentStepId := none

def document (cs : List MapComment) : CollabDocument (Bytes α) where
  schemaVersion := 1
  activeBranch := "main"
  project := Project.new (Uuid.ofNat 0) ⟨0⟩ "Nagoya density review"
  comments := cs
  branches := [mainBranch]
  automergeSnapshot := none

variable {α}

noncomputable def session (actor : α) (cs : List MapComment) : Doc α :=
  match Collab.fromDocument (library α) actor (document α cs) with
  | .ok d => d
  | .error _ => (automerge α).new actor

theorem ops_library (d : Doc α) : Collab.ops (library α) d = d.ops := rfl

theorem session_made (actor : α) (cs : List MapComment) :
    Collab.fromDocument (library α) actor (document α cs) = .ok (session actor cs) := by
  obtain ⟨d, hd, -⟩ := @Collab.fromDocument_ok α _ (library α) actor (document α cs)
  rw [session, hd]

theorem session_authored (actor : α) (cs : List MapComment) :
    ∀ o ∈ (session actor cs).ops, o.stamp.author = actor := by
  obtain ⟨d, hd, happlied⟩ := @Collab.fromDocument_ok α _ (library α) actor (document α cs)
  rw [session, hd]
  exact happlied.authored

end GeneGIS.Reference

/-! ## What a refused upload leaves behind

Nothing is taken back when a later stage fails: the snapshots that were merged stay, and so do the
comments before the first invalid one. -/

namespace GeneGIS.Collab

open OpSet Fallible

variable {α : Type} [LinearOrder α] (lib : CollabLibrary α) (main : ProjectBranch)

/-- A failed merge of a session text leaves the document as it was. -/
def JsonUnchanged (actor : α) (json : lib.Export) (d : lib.Doc) : Prop :=
  ∀ e d', mergeJson lib actor json d = .error e d' →
    projectDocument lib main d' = projectDocument lib main d

/-- A failed upload leaves the document as it was, whatever the files do. -/
def UploadUnchanged (actors : UploadActors α) (upload : CollabUpload lib) (d : lib.Doc) : Prop :=
  ∀ disk e d', mergeUpload lib main actors disk upload d = .error e d' →
    projectDocument lib main d' = projectDocument lib main d

/-- With those comments the second document shows what the first does. -/
def ShowsNoMore (d d₁ : lib.Doc) (l : List MapComment) : Prop :=
  ∀ d₂, forEach lib (addComment lib) l d₁ = .ok () d₂ →
    projectDocument lib main d₂ = projectDocument lib main d

/-- Where a comment is invalid, the snapshot and the comments before it show nothing
new. -/
def JsonHarmless (actor : α) (json : lib.Export) (d : lib.Doc) : Prop :=
  ∀ incoming d₁, lib.parseDocument json = .ok incoming →
    mergeSnapshot lib actor incoming.automergeSnapshot d = .ok () d₁ →
    (∃ c ∈ incoming.comments, c.validate ≠ .ok ()) →
    ShowsNoMore lib main d d₁ (validPrefix incoming.comments)

/-- The snapshots and the comments before the first invalid one show nothing new, as
far as the upload gets. -/
def UploadHarmless (actors : UploadActors α) (upload : CollabUpload lib) (d : lib.Doc) : Prop :=
  ∀ d₁, mergeSnapshot lib actors.snapshot upload.automergeSnapshot d = .ok () d₁ →
    match lib.parseDocument upload.session with
    | .error _ => projectDocument lib main d₁ = projectDocument lib main d
    | .ok incoming =>
      match mergeSnapshot lib actors.nested incoming.automergeSnapshot d₁ with
      | .error _ _ => projectDocument lib main d₁ = projectDocument lib main d
      | .ok _ d₂ => ShowsNoMore lib main d d₂ (validPrefix incoming.comments)

variable {lib : CollabLibrary α} {main : ProjectBranch} {d : lib.Doc}

theorem exists_invalid {l : List MapComment} :
    validPrefix l ≠ l ↔ ∃ c ∈ l, c.validate ≠ .ok () := by
  rw [Ne, validPrefix_eq]
  simp only [not_forall, exists_prop]

theorem jsonUnchanged_iff (actor : α) (json : lib.Export) :
    JsonUnchanged lib main actor json d ↔ JsonHarmless lib main actor json d := by
  have hrun := mergeJson_run actor json d
  constructor
  · intro h incoming d₁ hparse hsnapshot hinvalid d₂ hwritten
    have hsome := exists_invalid.mpr hinvalid
    generalize hr : mergeJson lib actor json d = r at hrun
    cases hrun with
    | unreadable reason parsed => rw [hparse] at parsed; cases parsed
    | refused incoming' e parsed snapshot =>
      cases hparse.symm.trans parsed
      rw [hsnapshot] at snapshot
      cases snapshot
    | invalid incoming' d₁' d₂' e parsed snapshot _ written _ =>
      cases hparse.symm.trans parsed
      obtain rfl := (EStateM.Result.ok.inj (hsnapshot.symm.trans snapshot)).2
      obtain rfl := (EStateM.Result.ok.inj (hwritten.symm.trans written)).2
      exact h e d₂ hr
    | merged incoming' d₁' d₂' parsed snapshot all _ _ =>
      cases hparse.symm.trans parsed
      exact absurd all hsome
  · intro h e d' hr
    rw [hr] at hrun
    cases hrun with
    | unreadable reason parsed => rfl
    | refused incoming e parsed snapshot => rfl
    | invalid incoming d₁ d₂ e parsed snapshot some written _ =>
      exact h incoming d₁ parsed snapshot (exists_invalid.mp some) d' written

/-! ## Uploads -/

def fullDisk : Disk := ⟨.error "no space left on device", .ok (), .ok ()⟩

theorem mergeUpload_fullDisk {actors : UploadActors α} {upload : CollabUpload lib} {d₁ : lib.Doc}
    (hsnapshot : mergeSnapshot lib actors.snapshot upload.automergeSnapshot d = .ok () d₁) :
    ∃ e, mergeUpload lib main actors fullDisk upload d =
      .error e (after (mergeJson lib actors.nested upload.session) d₁) := by
  rw [mergeUpload_eq, bind_apply, hsnapshot]
  dsimp only
  rw [bind_apply, after]
  cases mergeJson lib actors.nested upload.session d₁ with
  | error e d₂ => exact ⟨e, rfl⟩
  | ok v d₂ => exact ⟨_, rfl⟩

theorem after_mergeJson {actor : α} {json : lib.Export} {d₁ : lib.Doc} :
    projectDocument lib main (after (mergeJson lib actor json) d₁) = projectDocument lib main d ↔
      match lib.parseDocument json with
      | .error _ => projectDocument lib main d₁ = projectDocument lib main d
      | .ok incoming =>
        match mergeSnapshot lib actor incoming.automergeSnapshot d₁ with
        | .error _ _ => projectDocument lib main d₁ = projectDocument lib main d
        | .ok _ d₂ => ShowsNoMore lib main d d₂ (validPrefix incoming.comments) := by
  have hrun := mergeJson_run actor json d₁
  have hshows : ∀ l d₂ d₃, forEach lib (addComment lib) l d₂ = .ok () d₃ →
      (projectDocument lib main d₃ = projectDocument lib main d ↔ ShowsNoMore lib main d d₂ l) := by
    intro l d₂ d₃ hwritten
    constructor
    · intro h d₃' hwritten'
      obtain rfl := (EStateM.Result.ok.inj (hwritten.symm.trans hwritten')).2
      exact h
    · intro h
      exact h d₃ hwritten
  generalize hr : mergeJson lib actor json d₁ = r at hrun
  cases hrun with
  | unreadable reason parsed => rw [after_error hr, parsed]
  | refused incoming e parsed snapshot =>
    rw [after_error hr, parsed]
    dsimp only
    rw [snapshot]
  | invalid incoming d₂ d₃ e parsed snapshot _ written _ =>
    rw [after_error hr, parsed]
    dsimp only
    rw [snapshot]
    exact hshows _ d₂ d₃ written
  | merged incoming d₂ d₃ parsed snapshot _ written _ =>
    rw [after_ok hr, parsed]
    dsimp only
    rw [snapshot]
    exact hshows _ d₂ d₃ written

theorem unchanged_text {actors : UploadActors α} {json : lib.Export}
    (h : UploadUnchanged lib main actors ⟨json, none⟩ d) :
    JsonUnchanged lib main actors.nested json d := by
  intro e d' herror
  obtain ⟨e', hfailed⟩ := @mergeUpload_fullDisk α _ lib main d actors ⟨json, none⟩ d rfl
  rw [after_error herror] at hfailed
  exact h fullDisk e' d' hfailed

theorem uploadUnchanged_iff (actors : UploadActors α) (upload : CollabUpload lib) :
    UploadUnchanged lib main actors upload d ↔ UploadHarmless lib main actors upload d := by
  constructor
  · intro h d₁ hsnapshot
    obtain ⟨e, hfailed⟩ := @mergeUpload_fullDisk α _ lib main d actors upload d₁ hsnapshot
    exact after_mergeJson.mp (h fullDisk e _ hfailed)
  · intro h disk e d' hr
    have hrun := @mergeUpload_run α _ lib main actors disk upload d
    rw [hr] at hrun
    cases hrun with
    | refused e snapshot => rfl
    | session d₁ d₂ e snapshot json =>
      rw [← after_error json]
      exact after_mergeJson.mpr (h d₁ snapshot)
    | unsaved d₁ d₂ e snapshot json saved =>
      rw [← after_ok json]
      exact after_mergeJson.mpr (h d₁ snapshot)

section Kept

open Reference

def validNote : MapComment := note 1 "cli" "Verify density legend"

def blankNote : MapComment := note 2 "cli" " "

theorem comments_congr {d' : lib.Doc}
    (h : projectDocument lib main d' = projectDocument lib main d) :
    comments lib main d' = comments lib main d := by
  rw [comments, comments, h]

theorem comments_empty : comments (library Nat) mainBranch (Reference.session 0 []) = .ok [] := by
  rfl

theorem mergeJson_blank : ∃ e d',
    mergeJson (library Nat) 1 (document Nat [validNote, blankNote]) (Reference.session 0 []) =
      .error e d' ∧ comments (library Nat) mainBranch d' = .ok [validNote] := by
  have hrun : (match mergeJson (library Nat) 1 (document Nat [validNote, blankNote])
        (Reference.session 0 []) with
      | .ok _ _ => false
      | .error _ d' => decide (comments (library Nat) mainBranch d' = .ok [validNote])) = true := by
    rfl
  split at hrun
  next => cases hrun
  next e d' herror => exact ⟨e, d', herror, of_decide_eq_true hrun⟩

end Kept

end GeneGIS.Collab
