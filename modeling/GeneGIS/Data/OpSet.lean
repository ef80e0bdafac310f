/-
An operation writes one key of one map and names the operations it overwrites; a key shows its
greatest operation that none overwrites.  Documents merge by taking their operations together, so
of two values one is left.  Only membership matters.
-/
import Mathlib.Data.List.MinMax
import Mathlib.Data.Prod.Lex
import Std.Data.ExtTreeSet.Lemmas

namespace GeneGIS.OpSet

open List hiding contains_iff_mem

/-- Name of an operation: a counter, and the author where counters are equal. -/
abbrev Stamp (α : Type) := Nat ×ₗ α

def Stamp.counter {α : Type} (s : Stamp α) : Nat := (ofLex s).1

def Stamp.author {α : Type} (s : Stamp α) : α := (ofLex s).2

inductive Place (α : Type) where
  | root
  | inside (made : Stamp α)
  deriving DecidableEq

inductive Content (ν : Type) where
  | scalar (value : ν)
  | map
  | sequence
  deriving DecidableEq

structure Op (α κ ν : Type) where
  stamp : Stamp α
  place : Place α
  key : κ
  content : Content ν
  overwrites : List (Stamp α)
  deriving DecidableEq

/-- What a key shows. -/
inductive Item (α ν : Type) where
  | scalar (value : ν)
  | map (place : Place α)
  | sequence

def Op.item {α κ ν : Type} (o : Op α κ ν) : Item α ν :=
  match o.content with
  | .scalar value => .scalar value
  | .map => .map (.inside o.stamp)
  | .sequence => .sequence

section Definitions

variable {α κ ν : Type} [LinearOrder α] [DecidableEq κ] (d : List (Op α κ ν))

def live : List (Op α κ ν) := d.filter fun o => !d.any fun o' => decide (o.stamp ∈ o'.overwrites)

def shown (p : Place α) (k : κ) : List (Op α κ ν) :=
  (live d).filter fun o => decide (o.place = p) && decide (o.key = k)

def winner (p : Place α) (k : κ) : Option (Op α κ ν) := (shown d p k).argmax Op.stamp

def get (p : Place α) (k : κ) : Option (Item α ν) := (winner d p k).map Op.item

def keys [Ord κ] [Std.TransOrd κ] (d : List (Op α κ ν)) (p : Place α) : List κ :=
  (Std.ExtTreeSet.ofList (((live d).filter fun o => decide (o.place = p)).map Op.key)).toList

/-- The operation that writes a key and overwrites all the key shows. -/
def writing (s : Stamp α) (p : Place α) (k : κ) (c : Content ν) (d : List (Op α κ ν)) : Op α κ ν :=
  { stamp := s, place := p, key := k, content := c, overwrites := (shown d p k).map Op.stamp }

def write (s : Stamp α) (p : Place α) (k : κ) (c : Content ν) (d : List (Op α κ ν)) :
    List (Op α κ ν) :=
  d ++ [writing s p k c d]

def next (author : α) (d : List (Op α κ ν)) : Stamp α :=
  toLex ((d.map fun o => o.stamp.counter).foldr max 0 + 1, author)

def IsMap : Place α → Prop
  | .root => True
  | .inside s => ∃ o ∈ d, o.stamp = s ∧ o.content = .map

/-- A stamp names one operation, and what an operation mentions is there. -/
structure WellFormed (d : List (Op α κ ν)) : Prop where
  unique : ∀ o ∈ d, ∀ o' ∈ d, o.stamp = o'.stamp → o = o'
  closed : ∀ o ∈ d, ∀ s ∈ o.overwrites, ∃ o' ∈ d, o'.stamp = s
  nested : ∀ o ∈ d, IsMap d o.place

def New (s : Stamp α) (d : List (Op α κ ν)) : Prop := ∀ o ∈ d, o.stamp.counter < s.counter

/-- No stamp is in both. -/
def Independent (d u : List (Op α κ ν)) : Prop := ∀ o ∈ d, ∀ o' ∈ u, o.stamp ≠ o'.stamp

def IsUnion (m d u : List (Op α κ ν)) : Prop := ∀ o, o ∈ m ↔ o ∈ d ∨ o ∈ u

end Definitions

variable {α κ ν : Type} [LinearOrder α] [DecidableEq κ] {d d' u m : List (Op α κ ν)}
  {p : Place α} {k : κ} {o w : Op α κ ν} {s : Stamp α} {c : Content ν}

omit [DecidableEq κ] in
theorem mem_live : o ∈ live d ↔ o ∈ d ∧ ∀ o' ∈ d, o.stamp ∉ o'.overwrites := by
  simp [live]

theorem mem_shown :
    o ∈ shown d p k ↔ o ∈ d ∧ (∀ o' ∈ d, o.stamp ∉ o'.overwrites) ∧ o.place = p ∧ o.key = k := by
  simp only [shown, mem_filter, mem_live, Bool.and_eq_true, decide_eq_true_eq, and_assoc]

theorem winner_eq_none : winner d p k = none ↔ ∀ o, o ∉ shown d p k := by
  rw [winner, argmax_eq_none, eq_nil_iff_forall_not_mem]

theorem winner_mem (h : winner d p k = some w) : w ∈ shown d p k := argmax_mem h

theorem le_winner (h : winner d p k = some w) (ho : o ∈ shown d p k) : o.stamp ≤ w.stamp :=
  le_of_mem_argmax ho h

theorem exists_winner (ho : o ∈ shown d p k) : ∃ w, winner d p k = some w := by
  cases hw : winner d p k with
  | none => exact absurd ho (winner_eq_none.mp hw o)
  | some w => exact ⟨w, rfl⟩

theorem WellFormed.winner_eq (hd : WellFormed d) :
    winner d p k = some w ↔ w ∈ shown d p k ∧ ∀ o ∈ shown d p k, o.stamp ≤ w.stamp := by
  constructor
  · intro h
    exact ⟨winner_mem h, fun o ho => le_winner h ho⟩
  · intro h
    obtain ⟨v, hv⟩ := exists_winner h.1
    have hle := h.2 v (winner_mem hv)
    have hge := le_winner hv h.1
    have heq : v = w := hd.unique v (mem_shown.mp (winner_mem hv)).1 w (mem_shown.mp h.1).1
      (le_antisymm hle hge)
    rw [hv, heq]

variable {p' : Place α} {k' : κ}

theorem WellFormed.winner_congr (hd : WellFormed d) (hd' : WellFormed d')
    (h : ∀ o, o ∈ shown d p k ↔ o ∈ shown d' p' k') : winner d p k = winner d' p' k' := by
  refine Option.ext fun w => ?_
  rw [hd.winner_eq, hd'.winner_eq]
  simp only [h]

theorem get_eq_some {i : Item α ν} :
    get d p k = some i ↔ ∃ w, winner d p k = some w ∧ w.item = i := by
  rw [get, Option.map_eq_some_iff]

theorem get_eq_none : get d p k = none ↔ ∀ o, o ∉ shown d p k := by
  rw [get, Option.map_eq_none_iff, winner_eq_none]

theorem mem_keys [Ord κ] [Std.TransOrd κ] [Std.LawfulEqOrd κ] :
    k ∈ keys d p ↔ ∃ i, get d p k = some i := by
  rw [keys, Std.ExtTreeSet.mem_toList, Std.ExtTreeSet.mem_ofList, List.contains_iff_mem,
    List.mem_map]
  constructor
  · intro h
    obtain ⟨o, ho, hk⟩ := h
    rw [mem_filter, mem_live, decide_eq_true_eq] at ho
    obtain ⟨w, hw⟩ := exists_winner (mem_shown.mpr ⟨ho.1.1, ho.1.2, ho.2, hk⟩)
    exact ⟨w.item, get_eq_some.mpr ⟨w, hw, rfl⟩⟩
  · intro h
    obtain ⟨i, hi⟩ := h
    obtain ⟨w, hw, -⟩ := get_eq_some.mp hi
    obtain ⟨hmem, hlive, hp, hk⟩ := mem_shown.mp (winner_mem hw)
    refine ⟨w, ?_, hk⟩
    rw [mem_filter, mem_live, decide_eq_true_eq]
    exact ⟨⟨hmem, hlive⟩, hp⟩

/-! What a key shows depends on the operations only. -/

theorem WellFormed.get_congr (hd : WellFormed d) (hd' : WellFormed d')
    (h : ∀ o, o ∈ d' ↔ o ∈ d) : get d' p k = get d p k := by
  rw [get, get, hd'.winner_congr hd]
  intro o
  simp only [mem_shown, h]

theorem WellFormed.keys_congr [Ord κ] [Std.TransOrd κ] [Std.LawfulEqOrd κ] (hd : WellFormed d)
    (hd' : WellFormed d') (h : ∀ o, o ∈ d' ↔ o ∈ d) : keys d' p = keys d p := by
  have hmem : ∀ k, k ∈ keys d' p ↔ k ∈ keys d p := by
    intro k
    rw [mem_keys, mem_keys, hd.get_congr hd' h]
  simp only [keys, Std.ExtTreeSet.mem_toList] at hmem
  rw [keys, keys, Std.ExtTreeSet.ext_mem hmem]

theorem inside_of_get {q : Place α} (h : get d p k = some (.map q)) :
    ∃ w, winner d p k = some w ∧ w.content = .map ∧ q = .inside w.stamp := by
  obtain ⟨w, hw, hitem⟩ := get_eq_some.mp h
  refine ⟨w, hw, ?_⟩
  rw [Op.item] at hitem
  cases hc : w.content with
  | scalar value =>
    rw [hc] at hitem
    cases hitem
  | sequence =>
    rw [hc] at hitem
    cases hitem
  | map =>
    rw [hc] at hitem
    injection hitem with hq
    exact ⟨rfl, hq.symm⟩

theorem isMap_of_get {q : Place α} (h : get d p k = some (.map q)) : IsMap d q := by
  obtain ⟨w, hw, hc, rfl⟩ := inside_of_get h
  exact ⟨w, (mem_shown.mp (winner_mem hw)).1, rfl, hc⟩

theorem WellFormed.key_unique (hd : WellFormed d) {p' q : Place α}
    (h : get d p k = some (.map q)) (h' : get d p' k' = some (.map q)) : p = p' ∧ k = k' := by
  obtain ⟨w, hw, -, hq⟩ := inside_of_get h
  obtain ⟨v, hv, -, hq'⟩ := inside_of_get h'
  obtain ⟨hwd, -, hwp, hwk⟩ := mem_shown.mp (winner_mem hw)
  obtain ⟨hvd, -, hvp, hvk⟩ := mem_shown.mp (winner_mem hv)
  have hstamp : w.stamp = v.stamp := by
    rw [hq] at hq'
    injection hq'
  rw [hd.unique w hwd v hvd hstamp] at hwp hwk
  exact ⟨hwp.symm.trans hvp, hwk.symm.trans hvk⟩

/-! ## Writing a key -/

omit [LinearOrder α] [DecidableEq κ] in
theorem IsMap.mono (h : IsMap d p) (hsub : ∀ o ∈ d, o ∈ d') : IsMap d' p := by
  cases p with
  | root => trivial
  | inside s =>
    obtain ⟨o, ho, hstamp, hmap⟩ := h
    exact ⟨o, hsub o ho, hstamp, hmap⟩

omit [LinearOrder α] [DecidableEq κ] in
theorem New.ne (h : New s d) (ho : o ∈ d) : o.stamp ≠ s := by
  intro heq
  have hlt := h o ho
  rw [heq] at hlt
  exact Nat.lt_irrefl _ hlt

omit [LinearOrder α] [DecidableEq κ] in
theorem new_next (author : α) (d : List (Op α κ ν)) : New (next author d) d := by
  have hmax : ∀ l : List Nat, ∀ n ∈ l, n ≤ l.foldr max 0 := by
    intro l
    induction l with
    | nil => simp
    | cons a rest ih =>
      intro n hn
      rw [foldr_cons]
      rcases mem_cons.mp hn with rfl | hn
      · exact Nat.le_max_left _ _
      · exact (ih n hn).trans (Nat.le_max_right _ _)
  intro o ho
  exact Nat.lt_succ_of_le (hmax _ _ (mem_map_of_mem ho))

theorem mem_write : o ∈ write s p k c d ↔ o ∈ d ∨ o = writing s p k c d := by
  rw [write, mem_append, mem_singleton]

theorem WellFormed.write (hd : WellFormed d) (hnew : New s d) (hp : IsMap d p) :
    WellFormed (write s p k c d) where
  unique := by
    intro o ho o' ho' hstamp
    rcases mem_write.mp ho with ho | rfl
    · rcases mem_write.mp ho' with ho' | rfl
      · exact hd.unique o ho o' ho' hstamp
      · exact absurd hstamp (hnew.ne ho)
    · rcases mem_write.mp ho' with ho' | rfl
      · exact absurd hstamp.symm (hnew.ne ho')
      · rfl
  closed := by
    intro o ho s' hs'
    rcases mem_write.mp ho with ho | rfl
    · obtain ⟨o', ho', hstamp⟩ := hd.closed o ho s' hs'
      exact ⟨o', mem_write.mpr (.inl ho'), hstamp⟩
    · obtain ⟨o', ho', hstamp⟩ := List.mem_map.mp hs'
      exact ⟨o', mem_write.mpr (.inl (mem_shown.mp ho').1), hstamp⟩
  nested := by
    intro o ho
    have hsub : ∀ o ∈ d, o ∈ OpSet.write s p k c d := fun o ho => mem_write.mpr (.inl ho)
    rcases mem_write.mp ho with ho | rfl
    · exact (hd.nested o ho).mono hsub
    · exact hp.mono hsub

theorem WellFormed.mem_shown_write (hd : WellFormed d) (hnew : New s d) :
    o ∈ shown (OpSet.write s p k c d) p' k' ↔
      if p' = p ∧ k' = k then o = writing s p k c d else o ∈ shown d p' k' := by
  have hfresh : ∀ o ∈ d, s ∉ o.overwrites := by
    intro o ho hs
    obtain ⟨o', ho', hstamp⟩ := hd.closed o ho s hs
    exact hnew.ne ho' hstamp
  have hown : s ∉ (writing s p k c d).overwrites := by
    intro hs
    obtain ⟨o, ho, hstamp⟩ := List.mem_map.mp hs
    exact hnew.ne (mem_shown.mp ho).1 hstamp
  by_cases hkey : p' = p ∧ k' = k
  · rw [if_pos hkey, mem_shown, hkey.1, hkey.2]
    constructor
    · intro h
      rcases mem_write.mp h.1 with ho | ho
      · -- An operation the key showed is overwritten now.
        have hold : o ∈ shown d p k :=
          mem_shown.mpr ⟨ho, fun o' ho' => h.2.1 o' (mem_write.mpr (.inl ho')), h.2.2⟩
        exact absurd (mem_map_of_mem hold) (h.2.1 _ (mem_write.mpr (.inr rfl)))
      · exact ho
    · intro h
      rw [h]
      refine ⟨mem_write.mpr (.inr rfl), ?_, rfl, rfl⟩
      intro o' ho'
      rcases mem_write.mp ho' with ho' | rfl
      · exact hfresh o' ho'
      · exact hown
  · rw [if_neg hkey, mem_shown, mem_shown]
    constructor
    · intro h
      rcases mem_write.mp h.1 with ho | rfl
      · exact ⟨ho, fun o' ho' => h.2.1 o' (mem_write.mpr (.inl ho')), h.2.2⟩
      · exact absurd ⟨h.2.2.1.symm, h.2.2.2.symm⟩ hkey
    · intro h
      refine ⟨mem_write.mpr (.inl h.1), ?_, h.2.2⟩
      intro o' ho'
      rcases mem_write.mp ho' with ho' | rfl
      · exact h.2.1 o' ho'
      · intro hover
        obtain ⟨v, hv, hstamp⟩ := List.mem_map.mp hover
        obtain ⟨hvd, -, hvp, hvk⟩ := mem_shown.mp hv
        have heq := hd.unique v hvd o h.1 hstamp
        rw [heq] at hvp hvk
        exact hkey ⟨h.2.2.1.symm.trans hvp, h.2.2.2.symm.trans hvk⟩

theorem WellFormed.winner_write (hd : WellFormed d) (hnew : New s d) (hp : IsMap d p) :
    winner (OpSet.write s p k c d) p' k' =
      if p' = p ∧ k' = k then some (writing s p k c d) else winner d p' k' := by
  have hd' := hd.write (k := k) (c := c) hnew hp
  by_cases hkey : p' = p ∧ k' = k
  · rw [if_pos hkey, hd'.winner_eq]
    constructor
    · rw [hd.mem_shown_write hnew, if_pos hkey]
    · intro o ho
      rw [hd.mem_shown_write hnew, if_pos hkey] at ho
      rw [ho]
  · rw [if_neg hkey]
    refine hd'.winner_congr hd fun o => ?_
    rw [hd.mem_shown_write hnew, if_neg hkey]

theorem WellFormed.get_write (hd : WellFormed d) (hnew : New s d) (hp : IsMap d p) :
    get (OpSet.write s p k c d) p' k' =
      if p' = p ∧ k' = k then some (writing s p k c d).item else get d p' k' := by
  rw [get, hd.winner_write hnew hp]
  by_cases hkey : p' = p ∧ k' = k
  · rw [if_pos hkey, if_pos hkey]
    rfl
  · rw [if_neg hkey, if_neg hkey, get]

theorem WellFormed.get_unmade (hd : WellFormed d) (hs : ∀ o ∈ d, o.stamp ≠ s) :
    get d (.inside s) k = none := by
  refine get_eq_none.mpr fun o ho => ?_
  obtain ⟨hmem, -, hp, -⟩ := mem_shown.mp ho
  have hnested := hd.nested o hmem
  rw [hp] at hnested
  obtain ⟨o', ho', hstamp, -⟩ := hnested
  exact hs o' ho' hstamp

omit [LinearOrder α] [DecidableEq κ] in
theorem IsUnion.symm (h : IsUnion m d u) : IsUnion m u d := fun o => (h o).trans or_comm

theorem mem_shown_union (h : IsUnion m d u) (hd : WellFormed d) (hu : WellFormed u)
    (hind : Independent d u) : o ∈ shown m p k ↔ o ∈ shown d p k ∨ o ∈ shown u p k := by
  simp only [mem_shown, h o]
  constructor
  · intro ho
    rcases ho.1 with hmem | hmem
    · exact .inl ⟨hmem, fun o' ho' => ho.2.1 o' ((h o').mpr (.inl ho')), ho.2.2⟩
    · exact .inr ⟨hmem, fun o' ho' => ho.2.1 o' ((h o').mpr (.inr ho')), ho.2.2⟩
  · intro ho
    rcases ho with ho | ho
    · refine ⟨.inl ho.1, ?_, ho.2.2⟩
      intro o' ho' hover
      rcases (h o').mp ho' with ho' | ho'
      · exact ho.2.1 o' ho' hover
      · obtain ⟨v, hv, hstamp⟩ := hu.closed o' ho' _ hover
        exact hind o ho.1 v hv hstamp.symm
    · refine ⟨.inr ho.1, ?_, ho.2.2⟩
      intro o' ho' hover
      rcases (h o').mp ho' with ho' | ho'
      · obtain ⟨v, hv, hstamp⟩ := hd.closed o' ho' _ hover
        exact hind v hv o ho.1 hstamp
      · exact ho.2.1 o' ho' hover

theorem winner_union (h : IsUnion m d u) (hm : WellFormed m) (hd : WellFormed d)
    (hu : WellFormed u) (hind : Independent d u) {v : Op α κ ν} (hw : winner d p k = some w)
    (hv : winner u p k = some v) :
    winner m p k = if v.stamp ≤ w.stamp then some w else some v := by
  by_cases hle : v.stamp ≤ w.stamp
  · rw [if_pos hle, hm.winner_eq]
    refine ⟨(mem_shown_union h hd hu hind).mpr (.inl (winner_mem hw)), ?_⟩
    intro o ho
    rcases (mem_shown_union h hd hu hind).mp ho with ho | ho
    · exact le_winner hw ho
    · exact (le_winner hv ho).trans hle
  · rw [if_neg hle, hm.winner_eq]
    refine ⟨(mem_shown_union h hd hu hind).mpr (.inr (winner_mem hv)), ?_⟩
    intro o ho
    rcases (mem_shown_union h hd hu hind).mp ho with ho | ho
    · exact (le_winner hw ho).trans (le_of_not_ge hle)
    · exact le_winner hv ho

theorem get_union_inside (h : IsUnion m d u) (hm : WellFormed m) (hd : WellFormed d)
    (hu : WellFormed u) (hind : Independent d u) (hw : w ∈ d) :
    get m (.inside w.stamp) k = get d (.inside w.stamp) k := by
  have hnone : get u (.inside w.stamp) k = none :=
    hu.get_unmade fun o ho heq => hind w hw o ho heq.symm
  rw [get, get, hm.winner_congr hd]
  intro o
  rw [mem_shown_union h hd hu hind]
  exact or_iff_left (get_eq_none.mp hnone o)

omit [LinearOrder α] [DecidableEq κ] in
theorem wellFormed_union (h : IsUnion m d u) (hd : WellFormed d) (hu : WellFormed u)
    (hsame : ∀ o ∈ d, ∀ o' ∈ u, o.stamp = o'.stamp → o = o') : WellFormed m where
  unique := by
    intro o ho o' ho' hstamp
    rcases (h o).mp ho with ho | ho
    · rcases (h o').mp ho' with ho' | ho'
      · exact hd.unique o ho o' ho' hstamp
      · exact hsame o ho o' ho' hstamp
    · rcases (h o').mp ho' with ho' | ho'
      · exact (hsame o' ho' o ho hstamp.symm).symm
      · exact hu.unique o ho o' ho' hstamp
  closed := by
    intro o ho s hs
    rcases (h o).mp ho with ho | ho
    · obtain ⟨o', ho', hstamp⟩ := hd.closed o ho s hs
      exact ⟨o', (h o').mpr (.inl ho'), hstamp⟩
    · obtain ⟨o', ho', hstamp⟩ := hu.closed o ho s hs
      exact ⟨o', (h o').mpr (.inr ho'), hstamp⟩
  nested := by
    intro o ho
    rcases (h o).mp ho with ho | ho
    · exact (hd.nested o ho).mono fun o' ho' => (h o').mpr (.inl ho')
    · exact (hu.nested o ho).mono fun o' ho' => (h o').mpr (.inr ho')

/-! ## One author at work -/

/-- The second document is the first with further writes of one author. -/
inductive Grown (author : α) (d : List (Op α κ ν)) : List (Op α κ ν) → Prop
  | refl : Grown author d d
  | write (d' : List (Op α κ ν)) (s : Stamp α) (p : Place α) (k : κ) (c : Content ν)
      (grown : Grown author d d') (own : s.author = author) (new : New s d') (map : IsMap d' p) :
      Grown author d (OpSet.write s p k c d')

namespace Grown

variable {author : α}

theorem trans {d'' : List (Op α κ ν)} (h : Grown author d d') (h' : Grown author d' d'') :
    Grown author d d'' := by
  induction h' with
  | refl => exact h
  | write e s p k c _ hown hnew hmap ih => exact .write e s p k c ih hown hnew hmap

theorem mono (h : Grown author d d') : ∀ o ∈ d, o ∈ d' := by
  induction h with
  | refl => exact fun o ho => ho
  | write e s p k c _ _ _ _ ih => exact fun o ho => mem_write.mpr (.inl (ih o ho))

theorem authored (h : Grown author d d') : ∀ o ∈ d', o ∈ d ∨ o.stamp.author = author := by
  induction h with
  | refl => exact fun o ho => .inl ho
  | write e s p k c _ hown _ _ ih =>
    intro o ho
    rcases mem_write.mp ho with ho | rfl
    · exact ih o ho
    · exact .inr hown

theorem wellFormed (h : Grown author d d') (hd : WellFormed d) : WellFormed d' := by
  induction h with
  | refl => exact hd
  | write e s p k c _ _ hnew hmap ih => exact ih.write hnew hmap

end Grown

/-- What became of one key: it shows what it showed, or one new operation that took
the place of all it showed. -/
inductive KeyState (d d' : List (Op α κ ν)) (p : Place α) (k : κ) : Prop
  | kept (same : ∀ o, o ∈ shown d' p k ↔ o ∈ shown d p k) : KeyState d d' p k
  | written (w : Op α κ ν) (new : w ∉ d) (only : ∀ o, o ∈ shown d' p k ↔ o = w)
      (overwrites : ∀ o ∈ shown d p k, ∃ o' ∈ d', o.stamp ∈ o'.overwrites) : KeyState d d' p k

theorem Grown.keyState {author : α} (h : Grown author d d') (hd : WellFormed d) (p : Place α)
    (k : κ) : KeyState d d' p k := by
  induction h with
  | refl => exact .kept fun o => Iff.rfl
  | write e s p' k' c hgrown _ hnew hmap ih =>
    have he := hgrown.wellFormed hd
    by_cases hkey : p = p' ∧ k = k'
    · obtain ⟨rfl, rfl⟩ := hkey
      refine .written (writing s p k c e) ?_ ?_ ?_
      · intro hmem
        exact hnew.ne (hgrown.mono _ hmem) rfl
      · intro o
        rw [he.mem_shown_write hnew, if_pos ⟨rfl, rfl⟩]
      · intro o ho
        cases ih with
        | kept hsame =>
          exact ⟨writing s p k c e, mem_write.mpr (.inr rfl), mem_map_of_mem ((hsame o).mpr ho)⟩
        | written w _ _ hover =>
          obtain ⟨o', ho', hin⟩ := hover o ho
          exact ⟨o', mem_write.mpr (.inl ho'), hin⟩
    · have hshown : ∀ o, o ∈ shown (OpSet.write s p' k' c e) p k ↔ o ∈ shown e p k := by
        intro o
        rw [he.mem_shown_write hnew, if_neg hkey]
      cases ih with
      | kept hsame => exact .kept fun o => (hshown o).trans (hsame o)
      | written w hw honly hover =>
        refine .written w hw (fun o => (hshown o).trans (honly o)) ?_
        intro o ho
        obtain ⟨o', ho', hin⟩ := hover o ho
        exact ⟨o', mem_write.mpr (.inl ho'), hin⟩

section Apart

variable {base a b : List (Op α κ ν)} {x y : α}

/-- Two documents grew from one, by different authors of whom it had nothing. -/
structure Apart (base a b : List (Op α κ ν)) (x y : α) : Prop where
  origin : WellFormed base
  left : Grown x base a
  right : Grown y base b
  distinct : x ≠ y
  leftNew : ∀ o ∈ base, o.stamp.author ≠ x
  rightNew : ∀ o ∈ base, o.stamp.author ≠ y

theorem Apart.foreign (h : Apart base a b x y) (ho : o ∈ a) (hnew : o ∉ base) :
    ∀ o' ∈ b, o'.stamp ≠ o.stamp := by
  intro o' ho' hstamp
  have hx : o.stamp.author = x := by
    rcases h.left.authored o ho with hbase | hx
    · exact absurd hbase hnew
    · exact hx
  rcases h.right.authored o' ho' with hbase | hy
  · exact h.leftNew o' hbase (by rw [hstamp, hx])
  · rw [hstamp, hx] at hy
    exact h.distinct hy

theorem Apart.same (h : Apart base a b x y) : ∀ o ∈ a, ∀ o' ∈ b, o.stamp = o'.stamp → o = o' := by
  intro o ho o' ho' hstamp
  by_cases hbase : o ∈ base
  · exact (h.right.wellFormed h.origin).unique o (h.right.mono o hbase) o' ho' hstamp
  · exact absurd hstamp.symm (h.foreign ho hbase o' ho')

theorem Apart.shown_written (h : Apart base a b x y) (hm : IsUnion m a b) (hw : w ∈ shown a p k)
    (hnew : w ∉ base) : w ∈ shown m p k := by
  obtain ⟨hmem, hlive, hkey⟩ := mem_shown.mp hw
  refine mem_shown.mpr ⟨(hm w).mpr (.inl hmem), ?_, hkey⟩
  intro o' ho' hover
  rcases (hm o').mp ho' with ho' | ho'
  · exact hlive o' ho' hover
  · obtain ⟨v, hv, hstamp⟩ := (h.right.wellFormed h.origin).closed o' ho' _ hover
    exact h.foreign hmem hnew v hv hstamp

theorem shown_union_cases (hm : IsUnion m a b) (ho : o ∈ shown m p k) :
    o ∈ shown a p k ∨ o ∈ shown b p k := by
  obtain ⟨hmem, hlive, hkey⟩ := mem_shown.mp ho
  rcases (hm o).mp hmem with ho' | ho'
  · exact .inl (mem_shown.mpr ⟨ho', fun v hv => hlive v ((hm v).mpr (.inl hv)), hkey⟩)
  · exact .inr (mem_shown.mpr ⟨ho', fun v hv => hlive v ((hm v).mpr (.inr hv)), hkey⟩)

theorem Apart.get_either (h : Apart base a b x y) (hm : IsUnion m a b)
    {w v : Op α κ ν} (hw : ∀ o, o ∈ shown a p k ↔ o = w) (hwnew : w ∉ base)
    (hv : ∀ o, o ∈ shown b p k ↔ o = v) : get m p k = get a p k ∨ get m p k = get b p k := by
  have ha := h.left.wellFormed h.origin
  have hb := h.right.wellFormed h.origin
  have hwa : winner a p k = some w :=
    ha.winner_eq.mpr ⟨(hw w).mpr rfl, fun o ho => by rw [(hw o).mp ho]⟩
  have hvb : winner b p k = some v :=
    hb.winner_eq.mpr ⟨(hv v).mpr rfl, fun o ho => by rw [(hv o).mp ho]⟩
  obtain ⟨z, hz⟩ := exists_winner (h.shown_written hm ((hw w).mpr rfl) hwnew)
  rcases shown_union_cases hm (winner_mem hz) with hside | hside
  · rw [(hw z).mp hside] at hz
    exact .inl (by rw [get, get, hz, hwa])
  · rw [(hv z).mp hside] at hz
    exact .inr (by rw [get, get, hz, hvb])

end Apart

end GeneGIS.OpSet
