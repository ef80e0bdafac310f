/-
When a collaboration document can be read.

Its scalars and every entry of its two maps must parse.  A document that was read and written back
reads again.
-/
import GeneGIS.Collab.Reading

namespace GeneGIS.Collab

open OpSet Fallible Except Std List Nat

variable {α : Type} [LinearOrder α] {lib : CollabLibrary α} {d d' : lib.Doc} {place : Place α}

def textOf (lib : CollabLibrary α) : Item α (Scalar lib.Text) → Option lib.Text
  | .scalar (.str text) => some text
  | .scalar (.int n) => some (lib.ofString (toString n))
  | _ => none

def Legible (lib : CollabLibrary α) {β : Type} (parse : lib.Text → Except String β)
    (shown : String → Option (Item α (Scalar lib.Text))) : Prop :=
  ∀ key i, shown key = some i → ∃ text b, textOf lib i = some text ∧ parse text = .ok b

theorem readString_ok {key : String} {r : Option lib.Text} (hp : IsMap (ops lib d) place) :
    readString lib d place key = .ok r ↔ match OpSet.get (ops lib d) place key with
      | none => r = none
      | some i => ∃ text, textOf lib i = some text ∧ r = some text := by
  rw [readString, lib.automerge.get_ops d place key hp]
  show (Except.ok (OpSet.get (ops lib d) place key) >>= _) = _ ↔ _
  cases OpSet.get (ops lib d) place key with
  | none =>
    show Except.ok none = Except.ok r ↔ r = none
    rw [Except.ok.injEq, eq_comm]
  | some i =>
    cases i with
    | map q => exact iff_of_false (fun h => by cases h) (by simp [textOf])
    | sequence => exact iff_of_false (fun h => by cases h) (by simp [textOf])
    | scalar value =>
      cases value with
      | other => exact iff_of_false (fun h => by cases h) (by simp [textOf])
      | str text =>
        show Except.ok (some text) = Except.ok r ↔ _
        simp [textOf, eq_comm]
      | int n =>
        show Except.ok (some (lib.ofString (toString n))) = Except.ok r ↔ _
        simp [textOf, eq_comm]

theorem readEntries_legible {β κ : Type} [Ord κ] [TransOrd κ]
    {parse : lib.Text → Except String β} {id : β → κ} (hp : IsMap (ops lib d) place)
    {keys : List String} {m : ExtTreeMap κ β} :
    (∃ m', readEntries lib parse id d place keys m = .ok m') ↔
      ∀ key ∈ keys, ∀ i, OpSet.get (ops lib d) place key = some i →
        ∃ text b, textOf lib i = some text ∧ parse text = .ok b := by
  induction keys generalizing m with
  | nil => exact iff_of_true ⟨m, rfl⟩ (by simp)
  | cons key rest ih =>
    rw [forall_mem_cons, readEntries]
    constructor
    · intro h
      obtain ⟨m', h⟩ := h
      obtain ⟨r, hr, h⟩ := bind_iff.mp h
      have hread := (readString_ok hp).mp hr
      cases hget : OpSet.get (ops lib d) place key with
      | none =>
        rw [hget] at hread
        rw [hread] at h
        refine ⟨fun i hi => ?_, ih.mp ⟨m', h⟩⟩
        cases hi
      | some i =>
        rw [hget] at hread
        obtain ⟨text, htext, rfl⟩ := hread
        obtain ⟨b, hb, h⟩ := bind_iff.mp h
        refine ⟨fun i' hi' => ?_, ih.mp ⟨m', h⟩⟩
        cases hi'
        exact ⟨text, b, htext, mapError_iff.mp hb⟩
    · intro h
      obtain ⟨hkey, hrest⟩ := h
      cases hget : OpSet.get (ops lib d) place key with
      | none =>
        have hr : readString lib d place key = .ok none := by
          rw [readString_ok hp, hget]
        obtain ⟨m', hm'⟩ := ih.mpr hrest
        exact ⟨m', then_ok hr hm'⟩
      | some i =>
        obtain ⟨text, b, htext, hb⟩ := hkey i hget
        have hr : readString lib d place key = .ok (some text) := by
          rw [readString_ok hp, hget]
          exact ⟨text, htext, rfl⟩
        obtain ⟨m', hm'⟩ := ih.mpr hrest
        refine ⟨m', then_ok hr ?_⟩
        exact then_ok (mapError_iff.mpr hb) hm'

theorem readMap_legible {β κ : Type} [Ord κ] [TransOrd κ]
    {parse : lib.Text → Except String β} {id : β → κ} {name : String} {m : ExtTreeMap κ β}
    (hplace : OpSet.get (ops lib d) .root name = some (.map place)) :
    (∃ m', readEntries lib parse id d place (lib.automerge.keys d place) m = .ok m') ↔
      Legible lib parse (entry (ops lib d) name) := by
  rw [readEntries_legible (isMap_of_get hplace)]
  constructor
  · intro h key i hi
    rw [entry_of_get hplace] at hi
    refine h key ?_ i hi
    rw [lib.automerge.keys_ops, OpSet.mem_keys]
    exact ⟨i, hi⟩
  · intro h key _ i hi
    refine h key i ?_
    rw [entry_of_get hplace]
    exact hi

theorem childMap_ok {name : String} {r : Option (Place α)} (h : childMap lib d name = .ok r) :
    OpSet.get (ops lib d) .root name = r.map .map := by
  rw [childMap, lib.automerge.get_ops d .root name trivial] at h
  obtain ⟨value, hvalue, h⟩ := bind_iff.mp h
  change Except.ok (OpSet.get (ops lib d) .root name) = .ok value at hvalue
  rw [ok.inj hvalue]
  cases value with
  | none =>
    cases h
    rfl
  | some i =>
    cases i with
    | map q =>
      cases h
      rfl
    | scalar v => cases h
    | sequence => cases h

theorem legible_of_get_none {β : Type} {parse : lib.Text → Except String β} {name : String}
    (h : OpSet.get (ops lib d) .root name = none) :
    Legible lib parse (entry (ops lib d) name) := by
  intro key i hi
  rw [entry, h] at hi
  cases hi

theorem legible_comments {cs : List MapComment} (h : readComments lib d = .ok cs) :
    Legible lib lib.parseComment (entry (ops lib d) "comments") := by
  obtain ⟨child, hchild, h⟩ := bind_iff.mp h
  have hget := childMap_ok hchild
  cases child with
  | none => exact legible_of_get_none hget
  | some place =>
    obtain ⟨m, hm, -⟩ := bind_iff.mp h
    exact (readMap_legible hget).mp ⟨m, hm⟩

variable {main : ProjectBranch}

theorem legible_branches {bs : List ProjectBranch} (h : readBranches lib main d = .ok bs) :
    Legible lib lib.parseBranch (entry (ops lib d) "branches") := by
  obtain ⟨child, hchild, h⟩ := bind_iff.mp h
  have hget := childMap_ok hchild
  cases child with
  | none => exact legible_of_get_none hget
  | some place =>
    obtain ⟨m, hm, -⟩ := bind_iff.mp h
    exact (readMap_legible hget).mp ⟨m, hm⟩

theorem readComments_legible
    (hmap : ∃ place, OpSet.get (ops lib d) .root "comments" = some (.map place))
    (h : Legible lib lib.parseComment (entry (ops lib d) "comments")) :
    ∃ cs, readComments lib d = .ok cs := by
  obtain ⟨place, hplace⟩ := hmap
  have hread : ∃ m, readEntries lib lib.parseComment MapComment.id d place
      (lib.automerge.keys d place) ∅ = .ok m := (readMap_legible hplace).mpr h
  obtain ⟨m, hm⟩ := hread
  refine ⟨m.toList.map Prod.snd, then_ok (childMap_place hplace) ?_⟩
  exact then_ok hm rfl

theorem readBranches_legible
    (hmap : ∃ place, OpSet.get (ops lib d) .root "branches" = some (.map place))
    (h : Legible lib lib.parseBranch (entry (ops lib d) "branches")) :
    ∃ bs, readBranches lib main d = .ok bs := by
  obtain ⟨place, hplace⟩ := hmap
  have hread : ∃ m, readEntries lib lib.parseBranch ProjectBranch.name d place
      (lib.automerge.keys d place) ∅ = .ok m := (readMap_legible hplace).mpr h
  obtain ⟨m, hm⟩ := hread
  exact ⟨_, then_ok (childMap_place hplace) (then_ok hm rfl)⟩

theorem legible_overlay {β γ : Type} {parse : lib.Text → Except String γ} {keyOf : β → String}
    {text : β → lib.Text} {l : List β} {base : String → Option (Item α (Scalar lib.Text))}
    (hbase : Legible lib parse base) (hl : ∀ b ∈ l, ∃ c, parse (text b) = .ok c) :
    Legible lib parse (overlay keyOf text l base) := by
  intro key i hi
  rcases overlay_cases hi with hi | ⟨b, hb, -, rfl⟩
  · exact hbase key i hi
  · obtain ⟨c, hc⟩ := hl b hb
    exact ⟨text b, c, rfl, hc⟩

/-! ## Reading a document again -/

theorem parseU64_toString {n : Nat} (h : n < 2 ^ 64) : parseU64 (toString (n : Int)) = .ok n := by
  have hchars : (toString (n : Int)).toList = toDigits 10 n := toList_repr
  have hdigits : ∀ c ∈ toDigits 10 n, c.isDigit = true := fun c hc =>
    isDigit_of_mem_toDigits (by decide) (by decide) hc
  have hvalue : ofDigitChars 10 (toDigits 10 n) 0 = n :=
    ofDigitChars_toDigits (by decide) (by decide)
  rw [parseU64, hchars]
  cases hlist : toDigits 10 n with
  | nil => exact absurd hlist toDigits_ne_nil
  | cons c rest =>
    rw [hlist] at hdigits hvalue
    have hplus : c ≠ '+' := by
      intro hc
      have hdigit := hdigits c mem_cons_self
      rw [hc] at hdigit
      exact absurd hdigit (by decide)
    have hall : (c :: rest).all Char.isDigit = true := all_eq_true.mpr hdigits
    have hunsigned : unsigned (c :: rest) = c :: rest := by
      rw [unsigned]
      intro rest' heq
      exact absurd (cons.inj heq).1 hplus
    dsimp only
    rw [hunsigned, hall]
    show (if ofDigitChars 10 (c :: rest) 0 < 2 ^ 64 then _ else _) = _
    rw [hvalue, if_pos h]
    exact congrArg Except.ok hvalue

theorem Applied.reads (hlib : lib.Lawful) {doc : lib.Document}
    {project : Project} (hdoc : projectDocument lib main d = .ok doc)
    (h : Applied lib { doc with project := project } d d')
    (hproject : lib.parseProject (lib.projectText project) = .ok project) :
    ∃ doc', projectDocument lib main d' = .ok doc' ∧ doc'.project = project := by
  obtain ⟨-, hcomments, hbranches, -, hlt⟩ := projectDocument_ok hdoc
  have hroot : IsMap (ops lib d') .root := trivial
  have hschema : readString lib d' .root "schema_version" =
      .ok (some (lib.ofString (toString (doc.schemaVersion : Int)))) := by
    rw [readString_ok hroot, h.schema]
    exact ⟨_, rfl, rfl⟩
  have hversion : readU64 lib d' .root "schema_version" = .ok (some doc.schemaVersion) := by
    refine then_ok hschema ?_
    refine bind_iff.mpr ⟨doc.schemaVersion, ?_, rfl⟩
    rw [hlib.asString_ofString, parseU64_toString (by omega)]
    rfl
  have hactive := readString_text hroot h.active
  have htext := readString_text hroot h.project
  obtain ⟨cs, hcs⟩ := readComments_legible h.commentMap (by
    rw [funext h.comments]
    refine legible_overlay (legible_comments hcomments) fun c hc => ?_
    obtain ⟨t, ht⟩ := (readComments_unique hcomments).2 c hc
    exact ⟨c, hlib.comment t c ht⟩)
  obtain ⟨bs, hbs⟩ := @readBranches_legible α _ lib d' main h.branchMap (by
    rw [funext h.branches]
    exact legible_overlay (legible_branches hbranches) fun b _ => ⟨b, hlib.branch b⟩)
  refine ⟨_, then_ok hversion (then_ok hactive (then_ok htext (bind_iff.mpr ⟨project, ?_, then_ok hcs (then_ok hbs rfl)⟩))), rfl⟩
  exact mapError_iff.mpr hproject

section Congruence

variable (h : ∀ o, o ∈ ops lib d' ↔ o ∈ ops lib d)
include h

theorem readString_congr (hp : IsMap (ops lib d) place) (key : String) :
    readString lib d' place key = readString lib d place key := by
  have hp' : IsMap (ops lib d') place := hp.mono fun o ho => (h o).mpr ho
  rw [readString, readString, lib.automerge.get_ops d place key hp,
    lib.automerge.get_ops d' place key hp']
  rw [(wellFormed d).get_congr (wellFormed d') h]

theorem childMap_congr (name : String) : childMap lib d' name = childMap lib d name := by
  rw [childMap, childMap, lib.automerge.get_ops d .root name trivial,
    lib.automerge.get_ops d' .root name trivial, (wellFormed d).get_congr (wellFormed d') h]

theorem readEntries_congr {β κ : Type} [Ord κ] [TransOrd κ]
    (parse : lib.Text → Except String β) (id : β → κ) (hp : IsMap (ops lib d) place)
    (keys : List String) (m : ExtTreeMap κ β) :
    readEntries lib parse id d' place keys m = readEntries lib parse id d place keys m := by
  induction keys generalizing m with
  | nil => rfl
  | cons key rest ih =>
    rw [readEntries, readEntries, readString_congr h hp]
    simp only [ih]

theorem childMap_bind_congr {β : Type} {name : String}
    {f f' : Option (Place α) → Except CollabError β} (hnone : f' none = f none)
    (hsome : ∀ place, IsMap (ops lib d) place → f' (some place) = f (some place)) :
    (childMap lib d' name >>= f') = (childMap lib d name >>= f) := by
  rw [childMap_congr h]
  cases hchild : childMap lib d name with
  | error e => rfl
  | ok r =>
    cases r with
    | none => exact hnone
    | some place => exact hsome place (isMap_of_get (childMap_ok hchild))

theorem keys_congr (place : Place α) :
    lib.automerge.keys d' place = lib.automerge.keys d place := by
  rw [lib.automerge.keys_ops, lib.automerge.keys_ops, (wellFormed d).keys_congr (wellFormed d') h]

theorem readComments_congr : readComments lib d' = readComments lib d := by
  refine childMap_bind_congr h rfl fun place hp => ?_
  dsimp only
  rw [readEntries_congr h lib.parseComment MapComment.id hp, keys_congr h]

theorem readBranches_congr (main : ProjectBranch) :
    readBranches lib main d' = readBranches lib main d := by
  refine childMap_bind_congr h rfl fun place hp => ?_
  dsimp only
  rw [readEntries_congr h lib.parseBranch ProjectBranch.name hp, keys_congr h]

theorem projectDocument_congr (main : ProjectBranch) :
    projectDocument lib main d' = projectDocument lib main d := by
  have hroot : IsMap (ops lib d) .root := trivial
  rw [projectDocument, projectDocument, readU64, readU64, readString_congr h hroot,
    readString_congr h hroot, readString_congr h hroot, readComments_congr h,
    readBranches_congr h]

end Congruence

end GeneGIS.Collab
