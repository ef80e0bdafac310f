/-
The project is one text under one key, so the merged document shows the text of one copy and the
runs of the other are lost.
-/
import GeneGIS.Collab.Legible
import GeneGIS.Collab.Reference

namespace GeneGIS.Collab

open OpSet Fallible List

variable {α : Type} [LinearOrder α]

/-- Record runs one after the other, with the entries of the calls that succeeded. -/
def recordAll (lib : CollabLibrary α) (main : ProjectBranch) :
    List AgentRun → lib.Doc → lib.Doc × List ProvenanceEntry
  | [], d => (d, [])
  | r :: rest, d =>
    match recordAgentRunProvenance lib main r d with
    | .ok _ d' =>
      let (last, entries) := recordAll lib main rest d'
      (last, AgentRun.entry r :: entries)
    | .error _ d' => recordAll lib main rest d'

/-- The project of a document lists that entry. -/
def Lists (lib : CollabLibrary α) (main : ProjectBranch) (d : lib.Doc) (e : ProvenanceEntry) :
    Prop :=
  ∃ doc, projectDocument lib main d = .ok doc ∧ e ∈ doc.project.workspace.provenance.entries

variable {lib : CollabLibrary α} {main : ProjectBranch} {d d' : lib.Doc} {doc : lib.Document}

theorem provenance_recordAgentRun (r : AgentRun) (p : Project) :
    (p.recordAgentRun r).workspace.provenance.entries =
      p.workspace.provenance.entries ++ [AgentRun.entry r] := rfl

/-! ## One copy -/

theorem recordAgentRunProvenance_ok (hlib : lib.Lawful)
    (hdoc : projectDocument lib main d = .ok doc) (r : AgentRun) :
    ∃ d' doc', recordAgentRunProvenance lib main r d = .ok () d' ∧ Extended lib d d' ∧
      projectDocument lib main d' = .ok doc' ∧ doc'.project = doc.project.recordAgentRun r := by
  obtain ⟨⟨text, -, hparse⟩, -⟩ := projectDocument_ok hdoc
  obtain ⟨d', happly, happlied⟩ :=
    applyDocument_ok { doc with project := doc.project.recordAgentRun r } d
  obtain ⟨doc', hdoc', hproject⟩ := happlied.reads hlib hdoc (hlib.recorded text _ r hparse)
  refine ⟨d', doc', ?_, happlied.extended, hdoc', hproject⟩
  refine bind_ok.mpr ⟨d, d, rfl, bind_ok.mpr ⟨doc, d, lift_ok.mpr ⟨hdoc, rfl⟩, ?_⟩⟩
  exact happly

theorem recordAgentRunProvenance_unreadable {e : CollabError}
    (hdoc : projectDocument lib main d = .error e) (r : AgentRun) :
    recordAgentRunProvenance lib main r d = .error e d := by
  rw [recordAgentRunProvenance, bind_apply]
  show (lift (projectDocument lib main d) >>= _) d = _
  rw [bind_apply, hdoc]
  rfl

theorem recordAll_ok (hlib : lib.Lawful) (hdoc : projectDocument lib main d = .ok doc)
    (runs : List AgentRun) :
    ∃ doc', Extended lib d (recordAll lib main runs d).1 ∧
      (recordAll lib main runs d).2 = runs.map AgentRun.entry ∧
      projectDocument lib main (recordAll lib main runs d).1 = .ok doc' ∧
      doc'.project.workspace.provenance.entries =
        doc.project.workspace.provenance.entries ++ runs.map AgentRun.entry := by
  induction runs generalizing d doc with
  | nil => exact ⟨doc, .refl d, rfl, hdoc, (append_nil _).symm⟩
  | cons r rest ih =>
    obtain ⟨d₁, doc₁, hrun, hextended, hdoc₁, hproject⟩ := recordAgentRunProvenance_ok hlib hdoc r
    obtain ⟨doc₂, hextended', hentries, hdoc₂, hlist⟩ := ih hdoc₁
    rw [recordAll, hrun]
    refine ⟨doc₂, hextended.trans hextended', ?_, hdoc₂, ?_⟩
    · rw [map_cons, ← hentries]
    · rw [hlist, hproject, provenance_recordAgentRun, map_cons, append_assoc]
      rfl

theorem recordAll_unreadable {e : CollabError} (hdoc : projectDocument lib main d = .error e)
    (runs : List AgentRun) : recordAll lib main runs d = (d, []) := by
  induction runs with
  | nil => rfl
  | cons r rest ih =>
    rw [recordAll, recordAgentRunProvenance_unreadable hdoc]
    exact ih

def projectItem (lib : CollabLibrary α) (d : lib.Doc) : Option (Item α (Scalar lib.Text)) :=
  OpSet.get (ops lib d) .root "project_json"

theorem project_of_item {doc' : lib.Document} (hdoc : projectDocument lib main d = .ok doc)
    (hdoc' : projectDocument lib main d' = .ok doc') (h : projectItem lib d' = projectItem lib d) :
    doc'.project = doc.project := by
  obtain ⟨⟨text, htext, hparse⟩, -⟩ := projectDocument_ok hdoc
  obtain ⟨⟨text', htext', hparse'⟩, -⟩ := projectDocument_ok hdoc'
  have hroot : IsMap (ops lib d) .root := trivial
  have hroot' : IsMap (ops lib d') .root := trivial
  have hread := (readString_ok hroot).mp htext
  have hread' := (readString_ok hroot').mp htext'
  change OpSet.get (ops lib d') .root "project_json" = OpSet.get (ops lib d) .root "project_json" at h
  rw [h] at hread'
  cases hget : OpSet.get (ops lib d) .root "project_json" with
  | none =>
    rw [hget] at hread
    cases hread
  | some i =>
    rw [hget] at hread hread'
    obtain ⟨t, ht, heq⟩ := hread
    obtain ⟨t', ht', heq'⟩ := hread'
    have hsame : text' = text := by
      rw [ht] at ht'
      rw [Option.some.inj heq, Option.some.inj heq', Option.some.inj ht']
    rw [hsame, hparse] at hparse'
    exact (Except.ok.inj hparse').symm

theorem recordAll_written (hlib : lib.Lawful) (hdoc : projectDocument lib main d = .ok doc)
    {runs : List AgentRun} (hruns : runs ≠ []) :
    ∃ w, w ∉ ops lib d ∧
      ∀ o, o ∈ shown (ops lib (recordAll lib main runs d).1) .root "project_json" ↔ o = w := by
  obtain ⟨doc', hextended, -, hdoc', hentries⟩ := recordAll_ok hlib hdoc runs
  cases hextended.grown.keyState (wellFormed d) .root "project_json" with
  | written w hnew honly _ => exact ⟨w, hnew, honly⟩
  | kept hsame =>
    -- Shown as before, the text would list no new entry.
    have hitem : projectItem lib (recordAll lib main runs d).1 = projectItem lib d := by
      rw [projectItem, projectItem, OpSet.get, OpSet.get,
        (wellFormed _).winner_congr (wellFormed d) hsame]
    rw [project_of_item hdoc hdoc' hitem] at hentries
    have hlength := congrArg List.length hentries
    rw [length_append, length_map] at hlength
    have hpos := length_pos_of_ne_nil hruns
    omega

/-! ## Two copies -/

/-- Two documents loaded from the same bytes, each under an author they do not have. -/
structure Copies (lib : CollabLibrary α) (x y : α) (a b : lib.Doc) : Prop where
  loaded : ∃ bytes, lib.automerge.load x bytes = .ok a ∧ lib.automerge.load y bytes = .ok b
  distinct : x ≠ y
  leftNew : ∀ o ∈ ops lib a, o.stamp.author ≠ x
  rightNew : ∀ o ∈ ops lib a, o.stamp.author ≠ y

/-- The identifiers drawn on both sides are new. -/
structure Drawn (lib : CollabLibrary α) (main : ProjectBranch) (base : lib.Doc)
    (left right : List AgentRun) : Prop where
  apart : ∀ r ∈ left, ∀ r' ∈ right, r.id ≠ r'.id
  unlisted : ∀ doc, projectDocument lib main base = .ok doc →
    ∀ e ∈ doc.project.workspace.provenance.entries, ∀ r ∈ left ++ right, e.id ≠ r.id

variable {x y : α} {a b m : lib.Doc} {left right : List AgentRun}

theorem Copies.ops_eq (h : Copies lib x y a b) : ops lib b = ops lib a := by
  obtain ⟨bytes, ha, hb⟩ := h.loaded
  exact lib.automerge.load_ops _ _ _ _ _ hb ha

theorem Copies.symm (h : Copies lib x y a b) : Copies lib y x b a := by
  obtain ⟨bytes, ha, hb⟩ := h.loaded
  refine ⟨⟨bytes, hb, ha⟩, h.distinct.symm, ?_, ?_⟩
  · rw [h.ops_eq]
    exact h.rightNew
  · rw [h.ops_eq]
    exact h.leftNew

theorem Copies.projectDocument_eq (h : Copies lib x y a b) :
    projectDocument lib main b = projectDocument lib main a := by
  refine projectDocument_congr (fun o => ?_) main
  rw [h.ops_eq]

theorem Drawn.symm (hcopies : Copies lib x y a b) (h : Drawn lib main a left right) :
    Drawn lib main b right left := by
  refine ⟨fun r hr r' hr' heq => h.apart r' hr' r hr heq.symm, ?_⟩
  intro doc hdoc e he r hr
  rw [hcopies.projectDocument_eq] at hdoc
  exact h.unlisted doc hdoc e he r (mem_append.mpr (mem_append.mp hr).symm)

theorem Copies.apart (h : Copies lib x y a b) {a' b' : lib.Doc} (ha : Extended lib a a')
    (hb : Extended lib b b') : Apart (ops lib a) (ops lib a') (ops lib b') x y := by
  obtain ⟨bytes, hloaded, hloaded'⟩ := h.loaded
  have hleft := ha.grown
  have hright := hb.grown
  rw [lib.automerge.load_actor _ _ _ hloaded] at hleft
  rw [lib.automerge.load_actor _ _ _ hloaded', h.ops_eq] at hright
  exact ⟨wellFormed a, hleft, hright, h.distinct, h.leftNew, h.rightNew⟩

theorem Drawn.not_listed (hlib : lib.Lawful) (h : Drawn lib main a left right)
    (hdoc : projectDocument lib main a = .ok doc) {r : AgentRun} (hr : r ∈ right)
    {merged : lib.Document} (hmerged : projectDocument lib main m = .ok merged)
    (hitem : projectItem lib m = projectItem lib (recordAll lib main left a).1) :
    AgentRun.entry r ∉ merged.project.workspace.provenance.entries := by
  obtain ⟨doc', -, -, hdoc', hentries⟩ := recordAll_ok hlib hdoc left
  rw [project_of_item hdoc' hmerged hitem, hentries]
  intro hmem
  rcases mem_append.mp hmem with hmem | hmem
  · exact h.unlisted doc hdoc _ hmem r (mem_append_right _ hr) rfl
  · obtain ⟨r', hr', heq⟩ := mem_map.mp hmem
    exact h.apart r' hr' r hr (congrArg ProvenanceEntry.id heq)

theorem Copies.merged_alone (hlib : lib.Lawful) (h : Copies lib x y a b)
    (hunion : IsUnion (ops lib m) (ops lib (recordAll lib main left a).1) (ops lib b)) :
    ∀ e ∈ (recordAll lib main left a).2, Lists lib main m e := by
  intro e he
  cases hdoc : projectDocument lib main a with
  | error reason =>
    rw [recordAll_unreadable hdoc] at he
    cases he
  | ok doc =>
    obtain ⟨doc', hextended, hrecorded, hdoc', hentries⟩ := recordAll_ok hlib hdoc left
    refine ⟨doc', ?_, ?_⟩
    · rw [← hdoc']
      refine projectDocument_congr (fun o => ?_) main
      rw [hunion o, h.ops_eq]
      exact or_iff_left_of_imp (hextended.grown.mono o)
    · rw [hentries, ← hrecorded]
      exact mem_append_right _ he

theorem Copies.merged_both (hlib : lib.Lawful) (h : Copies lib x y a b)
    (hdrawn : Drawn lib main a left right) (hdoc : projectDocument lib main a = .ok doc)
    (hleft : left ≠ []) (hright : right ≠ [])
    (hunion : IsUnion (ops lib m) (ops lib (recordAll lib main left a).1)
      (ops lib (recordAll lib main right b).1)) :
    ¬((∀ r ∈ left, Lists lib main m (AgentRun.entry r)) ∧
      ∀ r ∈ right, Lists lib main m (AgentRun.entry r)) := by
  intro hlisted
  have hdocb : projectDocument lib main b = .ok doc := by rw [h.projectDocument_eq, hdoc]
  obtain ⟨-, hextended, -⟩ := recordAll_ok hlib hdoc left
  obtain ⟨-, hextended', -⟩ := recordAll_ok hlib hdocb right
  obtain ⟨w, hw, honly⟩ := recordAll_written hlib hdoc hleft
  obtain ⟨v, -, honly'⟩ := recordAll_written hlib hdocb hright
  have hapart := h.apart hextended hextended'
  rcases hapart.get_either hunion honly hw honly' with hitem | hitem
  · obtain ⟨r, hr⟩ := exists_mem_of_ne_nil right hright
    obtain ⟨merged, hmerged, hmem⟩ := hlisted.2 r hr
    exact hdrawn.not_listed hlib hdoc hr hmerged hitem hmem
  · obtain ⟨r, hr⟩ := exists_mem_of_ne_nil left hleft
    obtain ⟨merged, hmerged, hmem⟩ := hlisted.1 r hr
    exact (hdrawn.symm h).not_listed hlib hdocb hr hmerged hitem hmem

theorem ops_merges {uploads : List lib.Doc} (h : uploads.forM (merge lib) d = .ok () m)
    (o : Op α String (Scalar lib.Text)) :
    o ∈ ops lib m ↔ ∃ u ∈ d :: uploads, o ∈ ops lib u := by
  induction uploads generalizing d with
  | nil =>
    obtain rfl := (EStateM.Result.ok.inj h).2
    simp
  | cons u rest ih =>
    obtain ⟨_, next, hmerge, h⟩ := bind_ok.mp h
    rw [ih h, exists_mem_cons_iff, (merge_ok hmerge).1 o, exists_mem_cons_iff,
      exists_mem_cons_iff, or_assoc]

/-- Every recorded run is in the merged session exactly when one side recorded none. -/
theorem merged_provenance_iff (hlib : lib.Lawful)
    (hcopies : Copies lib x y a b) (hdrawn : Drawn lib main a left right)
    (hmerge : merge lib (recordAll lib main right b).1 (recordAll lib main left a).1 = .ok () m ∨
      merge lib (recordAll lib main left a).1 (recordAll lib main right b).1 = .ok () m) :
    (∀ e ∈ (recordAll lib main left a).2 ++ (recordAll lib main right b).2, Lists lib main m e) ↔
      left = [] ∨ right = [] ∨ ∀ doc, projectDocument lib main a ≠ .ok doc := by
  have hunion : IsUnion (ops lib m) (ops lib (recordAll lib main left a).1)
      (ops lib (recordAll lib main right b).1) := by
    rcases hmerge with hmerge | hmerge
    · exact (merge_ok hmerge).1
    · exact (merge_ok hmerge).1.symm
  rw [forall_mem_append]
  constructor
  · intro hlisted
    by_contra hnot
    rw [not_or, not_or] at hnot
    obtain ⟨hleft, hright, hread⟩ := hnot
    cases hdoc : projectDocument lib main a with
    | error e => exact hread fun doc heq => by rw [hdoc] at heq; cases heq
    | ok doc =>
      have hdocb : projectDocument lib main b = .ok doc := by rw [hcopies.projectDocument_eq, hdoc]
      obtain ⟨-, -, hrecorded, -⟩ := recordAll_ok hlib hdoc left
      obtain ⟨-, -, hrecorded', -⟩ := recordAll_ok hlib hdocb right
      rw [hrecorded, hrecorded', forall_mem_map, forall_mem_map] at hlisted
      exact hcopies.merged_both hlib hdrawn hdoc hleft hright hunion hlisted
  · intro hcase
    rcases hcase with rfl | rfl | hread
    · exact ⟨fun e he => absurd he not_mem_nil, hcopies.symm.merged_alone hlib hunion.symm⟩
    · exact ⟨hcopies.merged_alone hlib hunion, fun e he => absurd he not_mem_nil⟩
    · cases hdoc : projectDocument lib main a with
      | ok doc => exact absurd hdoc (hread doc)
      | error e =>
        have hdocb : projectDocument lib main b = .error e := by
          rw [hcopies.projectDocument_eq, hdoc]
        rw [recordAll_unreadable hdoc, recordAll_unreadable hdocb]
        exact ⟨fun e he => absurd he not_mem_nil, fun e he => absurd he not_mem_nil⟩

section Lost

open Reference

/-- A copy of one empty session under an author. -/
noncomputable def copyFor (actor : Nat) : Doc Nat :=
  { (session 0 []).toBytes with actor := actor }

def agentRun (id : Nat) : AgentRun where
  id := Uuid.ofNat id
  now := ⟨0⟩
  runId := Uuid.ofNat id
  workflowId := some "density"
  plannerMode := "rule"
  planOnly := false
  verificationPassed := true
  verifyAttempts := 1
  prompt := "Verify ward density"

theorem copies_bytes {β : Type} [LinearOrder β] {x y : β} (bytes : Reference.Bytes β)
    (hxy : x ≠ y) (hx : ∀ o ∈ bytes.ops, o.stamp.author ≠ x)
    (hy : ∀ o ∈ bytes.ops, o.stamp.author ≠ y) :
    Copies (library β) x y ({ bytes with actor := x } : Doc β)
      ({ bytes with actor := y } : Doc β) :=
  ⟨⟨bytes, rfl, rfl⟩, hxy, hx, hy⟩

theorem copies_copyFor : Copies (library Nat) 1 2 (copyFor 1) (copyFor 2) := by
  have hauthor : ∀ n, n ≠ 0 → ∀ o ∈ (session 0 []).ops, o.stamp.author ≠ n := by
    intro n hn o ho heq
    have hzero := session_authored 0 [] o ho
    exact hn (heq.symm.trans hzero)
  have hcopies := @copies_bytes Nat _ 1 2 (session 0 []).toBytes (by decide)
    (hauthor 1 (by decide)) (hauthor 2 (by decide))
  exact hcopies

theorem projectDocument_copyFor :
    projectDocument (library Nat) mainBranch (copyFor 1) = .ok (document Nat []) := by
  rfl

theorem drawn_copyFor : Drawn (library Nat) mainBranch (copyFor 1) [agentRun 1] [agentRun 2] := by
  constructor
  · decide
  · intro doc hdoc e he
    rw [projectDocument_copyFor] at hdoc
    rw [← Except.ok.inj hdoc] at he
    cases he

theorem merge_of_agree {d u : Doc Nat} (h : Agree d.ops u.ops) :
    ∃ m, merge (library Nat) u d = .ok () m := by
  obtain ⟨m, hm, -⟩ := merge_agree h
  refine ⟨m, bind_ok.mpr ⟨d, d, rfl, bind_ok.mpr ⟨m, d, lift_ok.mpr ⟨?_, rfl⟩, rfl⟩⟩⟩
  exact mapError_iff.mpr hm

theorem agree_copyFor : Agree (recordAll (library Nat) mainBranch [agentRun 1] (copyFor 1)).1.ops
    (recordAll (library Nat) mainBranch [agentRun 2] (copyFor 2)).1.ops := by
  have hdocb : projectDocument (library Nat) mainBranch (copyFor 2) = .ok (document Nat []) :=
    copies_copyFor.projectDocument_eq.trans projectDocument_copyFor
  obtain ⟨-, hleft, -⟩ := recordAll_ok (library_lawful Nat) projectDocument_copyFor [agentRun 1]
  obtain ⟨-, hright, -⟩ := recordAll_ok (library_lawful Nat) hdocb [agentRun 2]
  exact (copies_copyFor.apart hleft hright).same

theorem merge_copyFor : ∃ m,
    merge (library Nat) (recordAll (library Nat) mainBranch [agentRun 2] (copyFor 2)).1
      (recordAll (library Nat) mainBranch [agentRun 1] (copyFor 1)).1 = .ok () m :=
  merge_of_agree agree_copyFor

/-- Of two runs recorded apart one is lost. -/
theorem merge_loses_run : ∃ m,
    merge (library Nat) (recordAll (library Nat) mainBranch [agentRun 2] (copyFor 2)).1
      (recordAll (library Nat) mainBranch [agentRun 1] (copyFor 1)).1 = .ok () m ∧
    Copies (library Nat) 1 2 (copyFor 1) (copyFor 2) ∧
    Drawn (library Nat) mainBranch (copyFor 1) [agentRun 1] [agentRun 2] ∧
    ¬∀ e ∈ (recordAll (library Nat) mainBranch [agentRun 1] (copyFor 1)).2 ++
      (recordAll (library Nat) mainBranch [agentRun 2] (copyFor 2)).2,
      Lists (library Nat) mainBranch m e := by
  obtain ⟨m, hm⟩ := merge_copyFor
  refine ⟨m, hm, copies_copyFor, drawn_copyFor, ?_⟩
  have hdocb : projectDocument (library Nat) mainBranch (copyFor 2) = .ok (document Nat []) :=
    copies_copyFor.projectDocument_eq.trans projectDocument_copyFor
  obtain ⟨-, -, hleft, -⟩ := recordAll_ok (library_lawful Nat) projectDocument_copyFor [agentRun 1]
  obtain ⟨-, -, hright, -⟩ := recordAll_ok (library_lawful Nat) hdocb [agentRun 2]
  rw [hleft, hright, forall_mem_append, forall_mem_map, forall_mem_map]
  exact copies_copyFor.merged_both (library_lawful Nat) drawn_copyFor projectDocument_copyFor
    (cons_ne_nil _ _) (cons_ne_nil _ _) (merge_ok hm).1

/-- One run is lost because both sides recorded one. -/
theorem merged_provenance_copyFor : ∃ m,
    (∀ e ∈ (recordAll (library Nat) mainBranch [agentRun 1] (copyFor 1)).2 ++
      (recordAll (library Nat) mainBranch [agentRun 2] (copyFor 2)).2,
      Lists (library Nat) mainBranch m e) ↔
    [agentRun 1] = [] ∨ [agentRun 2] = [] ∨
      ∀ doc, projectDocument (library Nat) mainBranch (copyFor 1) ≠ .ok doc := by
  obtain ⟨m, hm⟩ := merge_copyFor
  exact ⟨m, merged_provenance_iff (library_lawful Nat) copies_copyFor drawn_copyFor (.inl hm)⟩

noncomputable def recorded (actor : Nat) : Doc Nat :=
  (recordAll (library Nat) mainBranch [agentRun actor] (copyFor actor)).1

end Lost

end GeneGIS.Collab
