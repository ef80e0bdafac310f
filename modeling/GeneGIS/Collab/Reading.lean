/-
Where every entry of the comment map is a comment under its own identifier, the comments read are
exactly the entries.
-/
import GeneGIS.Data.Keyed
import GeneGIS.Collab.Effects

namespace GeneGIS.Collab

open OpSet Fallible Except
open List hiding map_map
open Std.ExtTreeMap hiding map_map

variable {α : Type} [LinearOrder α] {lib : CollabLibrary α} {d : lib.Doc} {place : Place α}

theorem readString_text {key : String} {text : lib.Text} (hp : IsMap (ops lib d) place)
    (h : get (ops lib d) place key = some (.scalar (.str text))) :
    readString lib d place key = .ok (some text) := by
  rw [readString, lib.automerge.get_ops d place key hp, h]
  rfl

theorem childMap_place {name : String} (h : get (ops lib d) .root name = some (.map place)) :
    childMap lib d name = .ok (some place) := by
  rw [childMap, lib.automerge.get_ops d .root name trivial, h]
  rfl

def ReadsAs (lib : CollabLibrary α) (i : Option (Item α (Scalar lib.Text))) (c : MapComment) :
    Prop :=
  ∃ text, i = some (.scalar (.str text)) ∧ lib.parseComment text = .ok c

theorem readEntries_indexed {keys : List String} {m m' : Std.ExtTreeMap Uuid MapComment}
    (h : readEntries lib lib.parseComment MapComment.id d place keys m = .ok m')
    (hm : ∀ i c, m[i]? = some c → c.id = i ∧ ∃ t, lib.parseComment t = .ok c) :
    ∀ i c, m'[i]? = some c → c.id = i ∧ ∃ t, lib.parseComment t = .ok c := by
  induction keys generalizing m with
  | nil =>
    obtain rfl : m = m' := ok.inj h
    exact hm
  | cons key rest ih =>
    rw [readEntries, bind_iff] at h
    obtain ⟨text, -, h⟩ := h
    cases text with
    | none => exact ih h hm
    | some text =>
      obtain ⟨c, hc, h⟩ := bind_iff.mp h
      have hparse := mapError_iff.mp hc
      refine ih h ?_
      intro i c' hget
      rcases Keyed.insert_cases hget with hnew | hold
      · rw [hnew.1, hnew.2]
        exact ⟨rfl, text, hparse⟩
      · exact hm i c' hold.2

theorem readEntries_tidy (hp : IsMap (ops lib d) place) {keys : List String}
    {m m' : Std.ExtTreeMap Uuid MapComment}
    (htidy : ∀ key ∈ keys, ∃ text, get (ops lib d) place key = some (.scalar (.str text)) ∧
      ∀ c, lib.parseComment text = .ok c → key = c.id.toText)
    (h : readEntries lib lib.parseComment MapComment.id d place keys m = .ok m') (c : MapComment) :
    m'[c.id]? = some c ↔
      (c.id.toText ∈ keys ∧ ReadsAs lib (get (ops lib d) place c.id.toText) c) ∨
        (m[c.id]? = some c ∧ c.id.toText ∉ keys) := by
  induction keys generalizing m with
  | nil =>
    obtain rfl : m = m' := ok.inj h
    simp
  | cons key rest ih =>
    rw [forall_mem_cons] at htidy
    obtain ⟨⟨text, hget, hkey⟩, hrest⟩ := htidy
    rw [readEntries, readString_text hp hget, bind_iff] at h
    obtain ⟨_, hsome, h⟩ := h
    cases hsome
    obtain ⟨c₀, hc₀, h⟩ := bind_iff.mp h
    have hparse := mapError_iff.mp hc₀
    have hkey₀ := hkey c₀ hparse
    rw [ih hrest h]
    by_cases hid : c.id = c₀.id
    · have htext : c.id.toText = key := by rw [hid, hkey₀]
      have hreads : ReadsAs lib (get (ops lib d) place c.id.toText) c ↔ c = c₀ := by
        rw [htext, hget]
        constructor
        · intro hread
          obtain ⟨t, ht, hc⟩ := hread
          obtain rfl : text = t := by
            injection ht with ht
            injection ht with ht
            injection ht
          exact ok.inj (hc.symm.trans hparse)
        · intro heq
          rw [heq]
          exact ⟨text, rfl, hparse⟩
      have hinsert : (m.insert c₀.id c₀)[c.id]? = some c ↔ c = c₀ := by
        rw [hid, getElem?_insert_self]
        exact ⟨fun h => (Option.some.inj h).symm, fun h => by rw [h]⟩
      rw [hinsert, hreads]
      have hmem : c.id.toText ∈ key :: rest := by
        rw [htext]
        exact mem_cons_self
      constructor
      · intro hcase
        rcases hcase with hcase | hcase
        · exact .inl ⟨hmem, hcase.2⟩
        · exact .inl ⟨hmem, hcase.1⟩
      · intro hcase
        rcases hcase with hcase | hcase
        · by_cases hin : c.id.toText ∈ rest
          · exact .inl ⟨hin, hcase.2⟩
          · exact .inr ⟨hcase.2, hin⟩
        · exact absurd hmem hcase.2
    · have htext : c.id.toText ≠ key := by
        intro heq
        rw [hkey₀] at heq
        exact hid (Uuid.toText_inj heq)
      have hinsert : (m.insert c₀.id c₀)[c.id]? = m[c.id]? := Keyed.getElem?_insert_ne hid
      rw [hinsert, mem_cons]
      simp only [htext, false_or]

/-! ## Tidy documents -/

/-- Every entry of the comment map is the text of a comment under its identifier. -/
structure Tidy (lib : CollabLibrary α) (d : lib.Doc) : Prop where
  map : ∃ place, get (ops lib d) .root "comments" = some (.map place)
  entries : ∀ key i, entry (ops lib d) "comments" key = some i →
    ∃ c : MapComment, i = .scalar (.str (lib.commentText c)) ∧ key = c.id.toText

theorem tidy_of_comments {l : List MapComment} {base : String → Option (Item α (Scalar lib.Text))}
    (hmap : ∃ place, get (ops lib d) .root "comments" = some (.map place))
    (hentries : ∀ key, entry (ops lib d) "comments" key = withComments lib l base key)
    (hbase : ∀ key i, base key = some i →
      ∃ c : MapComment, i = .scalar (.str (lib.commentText c)) ∧ key = c.id.toText) :
    Tidy lib d where
  map := hmap
  entries := by
    intro key i h
    rw [hentries] at h
    rcases overlay_cases h with h | ⟨c, -, hkey, hitem⟩
    · exact hbase key i h
    · exact ⟨c, hitem, hkey⟩

theorem Tidy.commented {l : List MapComment} {d' : lib.Doc} (h : Tidy lib d)
    (hcommented : Commented lib l d d') : Tidy lib d' :=
  tidy_of_comments (hcommented.map h.map) hcommented.comments h.entries

theorem Tidy.congr {d' : lib.Doc} (h : Tidy lib d) (hops : ops lib d' = ops lib d) :
    Tidy lib d' := by
  constructor
  · rw [hops]
    exact h.map
  · rw [hops]
    exact h.entries

variable {doc : lib.Document}

theorem Applied.tidy {actor : α}
    (h : Applied lib doc (lib.automerge.new actor) d) : Tidy lib d := by
  refine tidy_of_comments h.commentMap h.comments fun key i hi => ?_
  rw [ops, lib.automerge.ops_new, entry_nil] at hi
  cases hi

variable {cs : List MapComment}

theorem readComments_unique (h : readComments lib d = .ok cs) :
    (cs.map MapComment.id).Nodup ∧ ∀ c ∈ cs, ∃ t, lib.parseComment t = .ok c := by
  rw [readComments, bind_iff] at h
  obtain ⟨child, -, h⟩ := h
  cases child with
  | none =>
    obtain rfl : [] = cs := ok.inj h
    simp
  | some place =>
    obtain ⟨m, hm, h⟩ := bind_iff.mp h
    obtain rfl : m.toList.map Prod.snd = cs := ok.inj h
    have hindexed := readEntries_indexed hm (by intro i c hc; simp at hc)
    constructor
    · have hids : (m.toList.map Prod.snd).map MapComment.id = m.keys := by
        rw [List.map_map, ← map_fst_toList_eq_keys]
        refine map_congr_left fun e he => ?_
        have hget := mem_toList_iff_getElem?_eq_some.mp he
        exact (hindexed _ _ hget).1
      rw [hids]
      exact nodup_keys
    · intro c hc
      obtain ⟨e, he, rfl⟩ := mem_map.mp hc
      have hget := mem_toList_iff_getElem?_eq_some.mp he
      exact (hindexed _ _ hget).2

theorem Tidy.readComments (hlib : lib.Lawful) (htidy : Tidy lib d)
    (h : readComments lib d = .ok cs) (c : MapComment) :
    c ∈ cs ↔ ReadsAs lib (entry (ops lib d) "comments" c.id.toText) c := by
  obtain ⟨place, hplace⟩ := htidy.map
  rw [Collab.readComments, childMap_place hplace, bind_iff] at h
  obtain ⟨_, hsome, h⟩ := h
  cases hsome
  obtain ⟨m, hm, h⟩ := bind_iff.mp h
  obtain rfl : m.toList.map Prod.snd = cs := ok.inj h
  have hindexed := readEntries_indexed hm (by intro i c hc; simp at hc)
  have hkeys : ∀ key, key ∈ lib.automerge.keys d place ↔
      ∃ i, entry (ops lib d) "comments" key = some i := by
    intro key
    rw [lib.automerge.keys_ops, OpSet.mem_keys, entry_of_get hplace]
  have hread := readEntries_tidy (isMap_of_get hplace) (fun key hkey => by
    obtain ⟨i, hi⟩ := (hkeys key).mp hkey
    obtain ⟨c₀, rfl, rfl⟩ := htidy.entries key i hi
    rw [entry_of_get hplace] at hi
    refine ⟨_, hi, fun c' hc' => ?_⟩
    rw [hlib.commentId c₀ c' hc']) hm c
  rw [entry_of_get hplace]
  constructor
  · intro hmem
    obtain ⟨e, he, rfl⟩ := mem_map.mp hmem
    have hget := mem_toList_iff_getElem?_eq_some.mp he
    rw [← (hindexed _ _ hget).1] at hget
    rcases hread.mp hget with hcase | hcase
    · exact hcase.2
    · simp at hcase
  · intro hreads
    have hmem : c.id.toText ∈ lib.automerge.keys d place := by
      obtain ⟨t, ht, -⟩ := hreads
      refine (hkeys _).mpr ⟨.scalar (.str t), ?_⟩
      rw [entry_of_get hplace]
      exact ht
    have hget := hread.mpr (.inl ⟨hmem, hreads⟩)
    exact mem_map.mpr ⟨(c.id, c), mem_toList_iff_getElem?_eq_some.mpr hget, rfl⟩

variable {main : ProjectBranch}

theorem projectDocument_ok (h : projectDocument lib main d = .ok doc) :
    (∃ text, readString lib d .root "project_json" = .ok (some text) ∧
      lib.parseProject text = .ok doc.project) ∧
    readComments lib d = .ok doc.comments ∧ readBranches lib main d = .ok doc.branches ∧
    doc.automergeSnapshot = none ∧ doc.schemaVersion < 2 ^ 32 := by
  rw [projectDocument, bind_iff] at h
  obtain ⟨schemaVersion, -, h⟩ := h
  obtain ⟨activeBranch, -, h⟩ := bind_iff.mp h
  obtain ⟨text, htext, h⟩ := bind_iff.mp h
  cases text with
  | none => cases h
  | some text =>
    obtain ⟨project, hproject, h⟩ := bind_iff.mp h
    obtain ⟨comments, hcomments, h⟩ := bind_iff.mp h
    obtain ⟨branches, hbranches, h⟩ := bind_iff.mp h
    cases h
    exact ⟨⟨text, htext, mapError_iff.mp hproject⟩, hcomments, hbranches, rfl,
      Nat.mod_lt _ (by decide)⟩

theorem projectDocument_readable (h : projectDocument lib main d = .ok doc) : lib.Readable doc := by
  obtain ⟨⟨text, -, hproject⟩, hcomments, -, -⟩ := projectDocument_ok h
  exact ⟨⟨text, hproject⟩, (readComments_unique hcomments).2⟩

theorem comments_ok : comments lib main d = .ok cs ↔
      ∃ doc, projectDocument lib main d = .ok doc ∧ doc.comments = cs := by
  rw [comments, bind_iff]
  refine exists_congr fun doc => and_congr_right fun _ => ?_
  exact ⟨Except.ok.inj, congrArg Except.ok⟩

theorem Applied.comments_copied (hlib : lib.Lawful) {actor : α}
    {original : lib.Doc} (horiginal : projectDocument lib main original = .ok doc)
    (h : Applied lib doc (lib.automerge.new actor) d)
    (hcs : readComments lib d = .ok cs) (c : MapComment) : c ∈ cs ↔ c ∈ doc.comments := by
  obtain ⟨hnodup, hread⟩ := readComments_unique (projectDocument_ok horiginal).2.1
  have hkeys : (doc.comments.map fun c => c.id.toText).Nodup := by
    have hmap := hnodup.map fun _ _ heq => Uuid.toText_inj heq
    rwa [List.map_map] at hmap
  rw [h.tidy.readComments hlib hcs, h.comments]
  constructor
  · intro hreads
    obtain ⟨text, htext, hparse⟩ := hreads
    rcases overlay_cases htext with hnone | ⟨c', hc', hkey, htext⟩
    · rw [ops, lib.automerge.ops_new, entry_nil] at hnone
      cases hnone
    · injection htext with htext
      injection htext with htext
      obtain ⟨t, ht⟩ := hread c' hc'
      rw [htext, hlib.comment t c' ht] at hparse
      rw [← ok.inj hparse]
      exact hc'
  · intro hc
    obtain ⟨t, ht⟩ := hread c hc
    exact ⟨lib.commentText c, overlay_of_mem hkeys hc, hlib.comment t c ht⟩

end GeneGIS.Collab
