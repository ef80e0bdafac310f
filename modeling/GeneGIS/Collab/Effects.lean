/-
What the collaboration programs write.

Every program adds operations of the document's author and nothing else, so it is described by what
it does to the root scalars and the two maps.
-/
import GeneGIS.Collab.Crdt

namespace GeneGIS.Collab

open OpSet Fallible List

variable {α : Type} [LinearOrder α] {lib : CollabLibrary α}

abbrev ops (lib : CollabLibrary α) (d : lib.Doc) : List (Op α String (Scalar lib.Text)) :=
  lib.automerge.ops d

/-- The value under a key of the map a root key shows. -/
def entry {τ : Type} (d : List (Op α String (Scalar τ))) (name key : String) :
    Option (Item α (Scalar τ)) :=
  match get d .root name with
  | some (.map place) => get d place key
  | _ => none

structure Extended (lib : CollabLibrary α) (d d' : lib.Doc) : Prop where
  actor : lib.automerge.actor d' = lib.automerge.actor d
  grown : Grown (lib.automerge.actor d) (ops lib d) (ops lib d')

theorem Extended.refl (d : lib.Doc) : Extended lib d d := ⟨rfl, .refl⟩

theorem Extended.trans {d d' d'' : lib.Doc} (h : Extended lib d d') (h' : Extended lib d' d'') :
    Extended lib d d'' := by
  have hgrown := h'.grown
  rw [h.actor] at hgrown
  exact ⟨h'.actor.trans h.actor, h.grown.trans hgrown⟩

theorem wellFormed (d : lib.Doc) : WellFormed (ops lib d) := lib.automerge.wellFormed d

variable {place : Place α} {name : String}

theorem entry_of_get {d : List (Op α String (Scalar lib.Text))}
    (h : get d .root name = some (.map place)) (key : String) :
    entry d name key = get d place key := by
  rw [entry, h]

theorem entry_congr {d d' : List (Op α String (Scalar lib.Text))}
    (hroot : get d' .root name = get d .root name)
    (hinside : ∀ place, get d .root name = some (.map place) →
      ∀ key, get d' place key = get d place key) (key : String) :
    entry d' name key = entry d name key := by
  rw [entry, entry, hroot]
  cases hget : get d .root name with
  | none => rfl
  | some item =>
    cases item with
    | scalar value => rfl
    | sequence => rfl
    | map place => exact hinside place hget key

/-! ## One write -/

variable {d : lib.Doc}

theorem put_ok (hp : IsMap (ops lib d) place) (key : String) (value : Scalar lib.Text) :
    ∃ d', put lib place key value d = .ok () d' ∧ Extended lib d d' ∧
      ∀ p k, get (ops lib d') p k =
        if p = place ∧ k = key then some (.scalar value) else get (ops lib d) p k := by
  obtain ⟨d', hput, hactor, hops⟩ := lib.automerge.put_ops d place key value hp
  have hrun : put lib place key value d = .ok () d' := by
    simp only [put, bind_ok, get_ok, lift_ok]
    refine ⟨d, d, ⟨rfl, rfl⟩, d', d, ⟨?_, rfl⟩, rfl⟩
    rw [hput]
    rfl
  refine ⟨d', hrun, ?_⟩
  rcases hops with ⟨s, hauthor, hnew, hwrite⟩ | ⟨hget, hsame⟩
  · change ops lib d' = _ at hwrite
    refine ⟨⟨hactor, ?_⟩, ?_⟩
    · rw [hwrite]
      exact .write _ s place key _ .refl hauthor hnew hp
    · intro p k
      rw [hwrite, (wellFormed d).get_write hnew hp]
      rfl
  · change ops lib d' = ops lib d at hsame
    refine ⟨⟨hactor, ?_⟩, ?_⟩
    · rw [hsame]
      exact .refl
    · intro p k
      rw [hsame]
      by_cases hkey : p = place ∧ k = key
      · rw [if_pos hkey, hkey.1, hkey.2, hget]
      · rw [if_neg hkey]

theorem ensureMap_ok (name : String) (d : lib.Doc) :
    ∃ place d', ensureMap lib name d = .ok place d' ∧ Extended lib d d' ∧
      get (ops lib d') .root name = some (.map place) ∧
      (∀ k, k ≠ name → get (ops lib d') .root k = get (ops lib d) .root k) ∧
      ∀ k key, entry (ops lib d') k key = entry (ops lib d) k key := by
  have hget := lib.automerge.get_ops d .root name trivial
  by_cases hshown : ∃ place, get (ops lib d) .root name = some (.map place)
  · obtain ⟨place, hplace⟩ := hshown
    refine ⟨place, d, ?_, .refl d, hplace, fun _ _ => rfl, fun _ _ => rfl⟩
    simp only [ensureMap, bind_ok, get_ok, lift_ok]
    refine ⟨d, d, ⟨rfl, rfl⟩, some (.map place), d, ⟨?_, rfl⟩, rfl⟩
    rw [hget, ← hplace]
    rfl
  · obtain ⟨d', s, hput, hactor, hauthor, hnew, hwrite⟩ :=
      lib.automerge.putMap_ops d .root name trivial
    change ops lib d' = _ at hwrite
    have hroot : IsMap (ops lib d) .root := trivial
    have hafter : ∀ p k, get (ops lib d') p k =
        if p = .root ∧ k = name then some (.map (.inside s)) else get (ops lib d) p k := by
      intro p k
      rw [hwrite, (wellFormed d).get_write hnew hroot]
      rfl
    have hmap : get (ops lib d') .root name = some (.map (.inside s)) := by
      rw [hafter, if_pos ⟨rfl, rfl⟩]
    have hinside : ∀ t key, get (ops lib d') (.inside t) key =
        get (ops lib d) (.inside t) key := by
      intro t key
      rw [hafter, if_neg]
      intro h
      cases h.1
    refine ⟨.inside s, d', ?_, ⟨hactor, ?_⟩, hmap, ?_, ?_⟩
    · simp only [ensureMap, bind_ok, get_ok, lift_ok]
      refine ⟨d, d, ⟨rfl, rfl⟩, get (ops lib d) .root name, d, ⟨?_, rfl⟩, ?_⟩
      · rw [hget]
        rfl
      · cases hitem : get (ops lib d) .root name with
        | none =>
          rw [bind_ok]
          refine ⟨(d', .inside s), d, ?_, rfl⟩
          rw [hput]
          rfl
        | some item =>
          cases item with
          | map place => exact absurd ⟨place, hitem⟩ hshown
          | scalar value =>
            rw [bind_ok]
            refine ⟨(d', .inside s), d, ?_, rfl⟩
            rw [hput]
            rfl
          | sequence =>
            rw [bind_ok]
            refine ⟨(d', .inside s), d, ?_, rfl⟩
            rw [hput]
            rfl
    · rw [hwrite]
      exact .write _ s .root name _ .refl hauthor hnew trivial
    · intro k hk
      rw [hafter, if_neg]
      intro h
      exact hk h.2
    · intro k key
      by_cases hk : k = name
      · -- The map is new and empty, and there was none before.
        rw [hk, entry_of_get hmap, hinside, (wellFormed d).get_unmade fun o ho => hnew.ne ho, entry]
        cases hitem : get (ops lib d) .root name with
        | none => rfl
        | some item =>
          cases item with
          | map place => exact absurd ⟨place, hitem⟩ hshown
          | scalar value => rfl
          | sequence => rfl
      · refine entry_congr ?_ ?_ key
        · rw [hafter, if_neg]
          intro h
          exact hk h.2
        · intro place hplace key
          obtain ⟨w, -, -, rfl⟩ := inside_of_get hplace
          exact hinside w.stamp key

/-! ## Writing the entries of a map -/

variable {β τ : Type} (keyOf : β → String) (textOf : β → τ)

/-- Entries with texts written over them, the later over the earlier. -/
def overlay (l : List β)
    (base : String → Option (Item α (Scalar τ))) : String → Option (Item α (Scalar τ)) :=
  l.foldl (fun shown b key => if key = keyOf b then some (.scalar (.str (textOf b))) else shown key)
    base

omit [LinearOrder α] in
theorem overlay_nil
    (base : String → Option (Item α (Scalar τ))) : overlay keyOf textOf [] base = base := rfl

omit [LinearOrder α] in
theorem overlay_cons (b : β) (l : List β) (base : String → Option (Item α (Scalar τ))) :
    overlay keyOf textOf (b :: l) base = overlay keyOf textOf l
      (fun key => if key = keyOf b then some (.scalar (.str (textOf b))) else base key) := rfl

omit [LinearOrder α] in
theorem overlay_append (l l' : List β) (base : String → Option (Item α (Scalar τ))) :
    overlay keyOf textOf (l ++ l') base = overlay keyOf textOf l' (overlay keyOf textOf l base) := by
  rw [overlay, foldl_append]
  rfl

variable {keyOf : β → String} {textOf : β → τ}

omit [LinearOrder α] in
theorem overlay_of_not_mem {l : List β}
    {base : String → Option (Item α (Scalar τ))} {key : String} (h : ∀ b ∈ l, keyOf b ≠ key) :
    overlay keyOf textOf l base key = base key := by
  induction l generalizing base with
  | nil => rfl
  | cons b rest ih =>
    rw [forall_mem_cons] at h
    rw [overlay_cons, ih h.2, if_neg (Ne.symm h.1)]

omit [LinearOrder α] in
theorem overlay_of_mem {l : List β}
    {base : String → Option (Item α (Scalar τ))} {b : β} (hnodup : (l.map keyOf).Nodup)
    (hb : b ∈ l) : overlay keyOf textOf l base (keyOf b) = some (.scalar (.str (textOf b))) := by
  induction l generalizing base with
  | nil => cases hb
  | cons b' rest ih =>
    rw [map_cons, nodup_cons] at hnodup
    rw [overlay_cons]
    rcases mem_cons.mp hb with rfl | hb
    · rw [overlay_of_not_mem, if_pos rfl]
      intro b' hb' heq
      exact hnodup.1 (mem_map.mpr ⟨b', hb', heq⟩)
    · exact ih hnodup.2 hb

omit [LinearOrder α] in
theorem overlay_cases {l : List β}
    {base : String → Option (Item α (Scalar τ))} {key : String} {i : Item α (Scalar τ)}
    (h : overlay keyOf textOf l base key = some i) :
    base key = some i ∨ ∃ b ∈ l, key = keyOf b ∧ i = .scalar (.str (textOf b)) := by
  induction l generalizing base with
  | nil => exact .inl h
  | cons b rest ih =>
    rw [overlay_cons] at h
    rcases ih h with hbase | ⟨b', hb', hkey⟩
    · by_cases hkey : key = keyOf b
      · rw [if_pos hkey] at hbase
        exact .inr ⟨b, mem_cons_self, hkey, (Option.some.inj hbase).symm⟩
      · rw [if_neg hkey] at hbase
        exact .inl hbase
    · exact .inr ⟨b', mem_cons_of_mem b hb', hkey⟩

theorem put_entry (hplace : get (ops lib d) .root name = some (.map place)) (key : String)
    (value : Scalar lib.Text) :
    ∃ d', put lib place key value d = .ok () d' ∧ Extended lib d d' ∧
      (∀ k, get (ops lib d') .root k = get (ops lib d) .root k) ∧
      (∀ k, entry (ops lib d') name k =
        if k = key then some (.scalar value) else entry (ops lib d) name k) ∧
      ∀ other, other ≠ name → ∀ k, entry (ops lib d') other k = entry (ops lib d) other k := by
  obtain ⟨d', hput, hextended, hget⟩ := put_ok (isMap_of_get hplace) key value
  obtain ⟨w, -, -, hinside⟩ := inside_of_get hplace
  have hroot : ∀ k, get (ops lib d') .root k = get (ops lib d) .root k := by
    intro k
    rw [hget, if_neg]
    intro h
    rw [hinside] at h
    cases h.1
  refine ⟨d', hput, hextended, hroot, ?_, ?_⟩
  · intro k
    rw [entry_of_get ((hroot name).trans hplace), entry_of_get hplace, hget]
    simp only [true_and]
  · intro other hother k
    refine entry_congr (hroot other) ?_ k
    intro q hq k
    rw [hget, if_neg]
    intro h
    rw [h.1] at hq
    exact hother ((wellFormed d).key_unique hq hplace).2

theorem forEach_put_ok {β : Type} (keyOf : β → String) (textOf : β → lib.Text) (l : List β)
    (hplace : get (ops lib d) .root name = some (.map place)) :
    ∃ d', forEach lib (fun b => put lib place (keyOf b) (.str (textOf b))) l d = .ok () d' ∧
      Extended lib d d' ∧
      (∀ k, get (ops lib d') .root k = get (ops lib d) .root k) ∧
      (∀ k, entry (ops lib d') name k = overlay keyOf textOf l (entry (ops lib d) name) k) ∧
      ∀ other, other ≠ name → ∀ k, entry (ops lib d') other k = entry (ops lib d) other k := by
  induction l generalizing d with
  | nil => exact ⟨d, rfl, .refl d, fun _ => rfl, fun _ => rfl, fun _ _ _ => rfl⟩
  | cons b rest ih =>
    obtain ⟨d₁, hput, hextended, hroot, hentry, hother⟩ :=
      put_entry hplace (keyOf b) (.str (textOf b))
    obtain ⟨d₂, hrest, hextended', hroot', hentry', hother'⟩ := ih ((hroot name).trans hplace)
    refine ⟨d₂, ?_, hextended.trans hextended', fun k => (hroot' k).trans (hroot k), ?_, ?_⟩
    · rw [forEach, bind_ok]
      exact ⟨(), d₁, hput, hrest⟩
    · intro k
      have hbase : entry (ops lib d₁) name = fun k =>
          if k = keyOf b then some (.scalar (.str (textOf b))) else entry (ops lib d) name k :=
        funext hentry
      rw [hentry', hbase, overlay_cons]
    · intro other hne k
      rw [hother' other hne, hother other hne]

/-! ## Comments -/

/-- Comments written over the entries of the comment map. -/
abbrev withComments (lib : CollabLibrary α) (l : List MapComment)
    (base : String → Option (Item α (Scalar lib.Text))) :
    String → Option (Item α (Scalar lib.Text)) :=
  overlay (fun c => c.id.toText) lib.commentText l base

/-- Comments were written and nothing else changed. -/
structure Commented (lib : CollabLibrary α) (l : List MapComment) (d d' : lib.Doc) : Prop where
  extended : Extended lib d d'
  root : ∀ k, k ≠ "comments" → get (ops lib d') .root k = get (ops lib d) .root k
  map : (∃ place, get (ops lib d) .root "comments" = some (.map place)) →
    ∃ place, get (ops lib d') .root "comments" = some (.map place)
  comments : ∀ k, entry (ops lib d') "comments" k =
    withComments lib l (entry (ops lib d) "comments") k
  others : ∀ name, name ≠ "comments" →
    ∀ k, entry (ops lib d') name k = entry (ops lib d) name k

theorem Commented.refl (d : lib.Doc) : Commented lib [] d d :=
  ⟨.refl d, fun _ _ => rfl, id, fun _ => rfl, fun _ _ _ => rfl⟩

theorem Commented.trans {l l' : List MapComment} {d d' d'' : lib.Doc} (h : Commented lib l d d')
    (h' : Commented lib l' d' d'') : Commented lib (l ++ l') d d'' where
  extended := h.extended.trans h'.extended
  root := fun k hk => (h'.root k hk).trans (h.root k hk)
  map := fun hshown => h'.map (h.map hshown)
  comments := by
    intro k
    have hbase : entry (ops lib d') "comments" =
        withComments lib l (entry (ops lib d) "comments") := funext h.comments
    rw [h'.comments, hbase, withComments, withComments, withComments, overlay_append]
  others := fun name hname k => (h'.others name hname k).trans (h.others name hname k)

theorem addComment_ok {c : MapComment} (hvalid : c.validate = .ok ()) (d : lib.Doc) :
    ∃ place d', addComment lib c d = .ok () d' ∧ Commented lib [c] d d' ∧
      get (ops lib d') .root "comments" = some (.map place) := by
  obtain ⟨place, d₁, hensure, hextended, hplace, hroot, hentry⟩ := ensureMap_ok "comments" d
  obtain ⟨d₂, hput, hextended', hroot', hentry', hother⟩ :=
    put_entry hplace c.id.toText (.str (lib.commentText c))
  have hmap := (hroot' _).trans hplace
  refine ⟨place, d₂, ?_, ⟨hextended.trans hextended', ?_, fun _ => ⟨place, hmap⟩, ?_, ?_⟩, hmap⟩
  · simp only [addComment, bind_ok, lift_ok]
    exact ⟨(), d, ⟨hvalid, rfl⟩, place, d₁, hensure, hput⟩
  · intro k hk
    rw [hroot', hroot k hk]
  · intro k
    rw [hentry', hentry, withComments, overlay_cons, overlay_nil]
  · intro name hname k
    rw [hother name hname, hentry]

theorem addComment_invalid {c : MapComment} {e : CollabError} (hinvalid : c.validate = .error e)
    (d : lib.Doc) : addComment lib c d = .error e d := by
  rw [addComment, bind_apply, hinvalid]
  rfl

/-- The comments before the first that is refused. -/
def validPrefix (l : List MapComment) : List MapComment := l.takeWhile fun c => c.validate.isOk

theorem validPrefix_eq {l : List MapComment} :
    validPrefix l = l ↔ ∀ c ∈ l, c.validate = .ok () := by
  rw [validPrefix, takeWhile_eq_self_iff]
  refine forall_congr' fun c => forall_congr' fun _ => ?_
  cases c.validate with
  | ok v => exact iff_of_true rfl rfl
  | error e => exact iff_of_false Bool.false_ne_true (by simp)

theorem addComments_run (l : List MapComment) (d : lib.Doc) :
    ∃ d', Commented lib (validPrefix l) d d' ∧
      forEach lib (addComment lib) (validPrefix l) d = .ok () d' ∧
      (validPrefix l = l ∨
        validPrefix l ≠ l ∧ ∃ e, forEach lib (addComment lib) l d = .error e d') := by
  induction l generalizing d with
  | nil => exact ⟨d, .refl d, rfl, .inl rfl⟩
  | cons c rest ih =>
    cases hvalid : c.validate with
    | error e =>
      have hnone : validPrefix (c :: rest) = [] := by
        rw [validPrefix, takeWhile_cons_of_neg]
        rw [hvalid]
        exact Bool.false_ne_true
      rw [hnone]
      refine ⟨d, .refl d, rfl, .inr ⟨?_, e, ?_⟩⟩
      · exact (cons_ne_nil c rest).symm
      · rw [forEach, bind_apply, addComment_invalid hvalid]
    | ok v =>
      have hcons : validPrefix (c :: rest) = c :: validPrefix rest := by
        rw [validPrefix, takeWhile_cons_of_pos]
        · rfl
        · rw [hvalid]
          rfl
      obtain ⟨-, d₁, hadd, hone, -⟩ := addComment_ok hvalid d
      obtain ⟨d₂, hmany, hwritten, hrest⟩ := ih d₁
      rw [hcons]
      refine ⟨d₂, hone.trans hmany, ?_, ?_⟩
      · rw [forEach, bind_ok]
        exact ⟨(), d₁, hadd, hwritten⟩
      · rcases hrest with hall | ⟨hnot, e, herror⟩
        · exact .inl (by rw [hall])
        · refine .inr ⟨fun heq => hnot (List.cons.inj heq).2, e, ?_⟩
          rw [forEach, bind_apply, hadd]
          exact herror

/-! ## Whole documents -/

/-- What a document holds after another was written into it. -/
structure Applied (lib : CollabLibrary α) (doc : lib.Document) (d d' : lib.Doc) : Prop where
  extended : Extended lib d d'
  schema : get (ops lib d') .root "schema_version" = some (.scalar (.int doc.schemaVersion))
  active : get (ops lib d') .root "active_branch" =
    some (.scalar (.str (lib.ofString doc.activeBranch)))
  project : get (ops lib d') .root "project_json" =
    some (.scalar (.str (lib.projectText doc.project)))
  commentMap : ∃ place, get (ops lib d') .root "comments" = some (.map place)
  comments : ∀ k, entry (ops lib d') "comments" k =
    withComments lib doc.comments (entry (ops lib d) "comments") k
  branchMap : ∃ place, get (ops lib d') .root "branches" = some (.map place)
  branches : ∀ k, entry (ops lib d') "branches" k =
    overlay ProjectBranch.name lib.branchText doc.branches (entry (ops lib d) "branches") k

theorem put_root (key : String) (value : Scalar lib.Text) :
    ∃ d', put lib .root key value d = .ok () d' ∧ Extended lib d d' ∧
      get (ops lib d') .root key = some (.scalar value) ∧
      (∀ k, k ≠ key → get (ops lib d') .root k = get (ops lib d) .root k) ∧
      ∀ name, name ≠ key → ∀ k, entry (ops lib d') name k = entry (ops lib d) name k := by
  have hroot : IsMap (ops lib d) .root := trivial
  obtain ⟨d', hput, hextended, hget⟩ := put_ok hroot key value
  refine ⟨d', hput, hextended, ?_, ?_, ?_⟩
  · rw [hget, if_pos ⟨rfl, rfl⟩]
  · intro k hk
    rw [hget, if_neg]
    intro h
    exact hk h.2
  · intro name hname k
    refine entry_congr ?_ ?_ k
    · rw [hget, if_neg]
      intro h
      exact hname h.2
    · intro place hplace k
      obtain ⟨w, -, -, rfl⟩ := inside_of_get hplace
      rw [hget, if_neg]
      intro h
      cases h.1

theorem applyDocument_ok (doc : lib.Document) (d : lib.Doc) :
    ∃ d', applyDocument lib doc d = .ok () d' ∧ Applied lib doc d d' := by
  obtain ⟨d₁, h₁, hext₁, hkey₁, -, hentry₁⟩ :=
    put_root (d := d) "schema_version" (.int doc.schemaVersion)
  obtain ⟨d₂, h₂, hext₂, hkey₂, hroot₂, hentry₂⟩ :=
    put_root (d := d₁) "active_branch" (.str (lib.ofString doc.activeBranch))
  obtain ⟨d₃, h₃, hext₃, hkey₃, hroot₃, hentry₃⟩ :=
    put_root (d := d₂) "project_json" (.str (lib.projectText doc.project))
  obtain ⟨comments, d₄, h₄, hext₄, hplace₄, hroot₄, hentry₄⟩ := ensureMap_ok "comments" d₃
  obtain ⟨d₅, h₅, hext₅, hroot₅, hentry₅, hother₅⟩ :=
    forEach_put_ok (fun c : MapComment => c.id.toText) lib.commentText doc.comments hplace₄
  obtain ⟨branches, d₆, h₆, hext₆, hplace₆, hroot₆, hentry₆⟩ := ensureMap_ok "branches" d₅
  obtain ⟨d₇, h₇, hext₇, hroot₇, hentry₇, hother₇⟩ :=
    forEach_put_ok ProjectBranch.name lib.branchText doc.branches hplace₆
  have hbefore : ∀ name, name ≠ "schema_version" → name ≠ "active_branch" →
      name ≠ "project_json" → ∀ k, entry (ops lib d₄) name k = entry (ops lib d) name k := by
    intro name hschema hactive hproject k
    rw [hentry₄, hentry₃ name hproject, hentry₂ name hactive, hentry₁ name hschema]
  have hroot : ∀ k, k ≠ "comments" → k ≠ "branches" →
      get (ops lib d₇) .root k = get (ops lib d₃) .root k := by
    intro k hcomments hbranches
    rw [hroot₇, hroot₆ k hbranches, hroot₅, hroot₄ k hcomments]
  refine ⟨d₇, ?_, ?_, ?_, ?_, ?_, ⟨comments, ?_⟩, ?_, ⟨branches, ?_⟩, ?_⟩
  · simp only [applyDocument, bind_ok]
    exact ⟨(), d₁, h₁, (), d₂, h₂, (), d₃, h₃, comments, d₄, h₄, (), d₅, h₅, branches, d₆, h₆, h₇⟩
  · exact hext₁.trans (hext₂.trans (hext₃.trans (hext₄.trans (hext₅.trans (hext₆.trans hext₇)))))
  · rw [hroot _ (by decide) (by decide), hroot₃ _ (by decide), hroot₂ _ (by decide), hkey₁]
  · rw [hroot _ (by decide) (by decide), hroot₃ _ (by decide), hkey₂]
  · rw [hroot _ (by decide) (by decide), hkey₃]
  · rw [hroot₇, hroot₆ _ (by decide), hroot₅, hplace₄]
  · intro k
    have hbase : entry (ops lib d₄) "comments" = entry (ops lib d) "comments" :=
      funext (hbefore "comments" (by decide) (by decide) (by decide))
    rw [hother₇ _ (by decide), hentry₆, hentry₅, hbase]
  · rw [hroot₇, hplace₆]
  · intro k
    have hbase : entry (ops lib d₆) "branches" = entry (ops lib d) "branches" := by
      funext k
      rw [hentry₆, hother₅ _ (by decide), hbefore _ (by decide) (by decide) (by decide)]
    rw [hentry₇, hbase]

theorem entry_nil (name key : String) :
    entry ([] : List (Op α String (Scalar lib.Text))) name key = none := rfl

theorem fromDocument_ok (actor : α) (doc : lib.Document) :
    ∃ d, fromDocument lib actor doc = .ok d ∧ Applied lib doc (lib.automerge.new actor) d := by
  obtain ⟨d, happly, happlied⟩ := applyDocument_ok doc (lib.automerge.new actor)
  exact ⟨d, by rw [fromDocument, happly], happlied⟩

theorem Applied.authored {actor : α} {doc : lib.Document}
    (h : Applied lib doc (lib.automerge.new actor) d) :
    ∀ o ∈ ops lib d, o.stamp.author = actor := by
  intro o ho
  rcases h.extended.grown.authored o ho with hold | hauthor
  · rw [ops, lib.automerge.ops_new] at hold
    cases hold
  · rw [hauthor, lib.automerge.actor_new]

theorem merge_ok {d u d' : lib.Doc} {v : Unit} (h : merge lib u d = .ok v d') :
    IsUnion (ops lib d') (ops lib d) (ops lib u) ∧
      lib.automerge.actor d' = lib.automerge.actor d := by
  simp only [merge, bind_ok, get_ok, lift_ok] at h
  obtain ⟨_, _, ⟨rfl, rfl⟩, m, _, ⟨hmerge, rfl⟩, hset⟩ := h
  have hm := mapError_iff.mp hmerge
  obtain rfl : m = d' := (EStateM.Result.ok.inj hset).2
  exact ⟨lib.automerge.merge_ops _ _ _ hm, lib.automerge.merge_actor _ _ _ hm⟩

end GeneGIS.Collab
