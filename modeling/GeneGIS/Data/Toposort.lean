/-
A list that takes the least ready node at every place is the lexicographically least order, and if
no node is ready while some are left, there is a cycle.
-/
import Mathlib.Data.Fintype.Card
import Mathlib.Order.WellFounded

namespace GeneGIS.Toposort

open List Relation

variable {α : Type} {nodes : List α} {Dep : α → α → Prop} {l m : List α} {a b : α}

/-- Every node comes after what it depends on. -/
def Respects (Dep : α → α → Prop) (l : List α) : Prop :=
  ∀ before b after, l = before ++ b :: after → ∀ a, Dep b a → a ∈ before

structure IsOrder (nodes : List α) (Dep : α → α → Prop) (l : List α) : Prop where
  perm : l.Perm nodes
  respects : Respects Dep l

structure Ready (nodes : List α) (Dep : α → α → Prop) (done : List α) (b : α) : Prop where
  node : b ∈ nodes
  fresh : b ∉ done
  deps : ∀ a, Dep b a → a ∈ done

theorem snoc_split {before after : List α} {x y : α} (h : l ++ [x] = before ++ y :: after) :
    (before = l ∧ y = x ∧ after = []) ∨ ∃ rest, after = rest ++ [x] ∧ l = before ++ y :: rest := by
  rcases eq_nil_or_concat after with rfl | ⟨rest, z, rfl⟩
  · obtain ⟨hl, hx⟩ := append_inj' h rfl
    exact .inl ⟨hl.symm, (cons.inj hx).1.symm, rfl⟩
  · rw [concat_eq_append, ← cons_append, ← append_assoc] at h
    obtain ⟨hl, hx⟩ := append_inj' h rfl
    exact .inr ⟨rest, by rw [concat_eq_append, (cons.inj hx).1], hl⟩

/-! ## The greedy order -/

variable [LinearOrder α]

/-- At every place stands the least node that is ready there. -/
def Greedy (nodes : List α) (Dep : α → α → Prop) (l : List α) : Prop :=
  ∀ before b after, l = before ++ b :: after →
    Ready nodes Dep before b ∧ ∀ c, Ready nodes Dep before c → b ≤ c

theorem greedy_nil : Greedy nodes Dep [] := by
  intro before b after h
  simp at h

theorem Greedy.congr_nodes {nodes' : List α} (hl : Greedy nodes Dep l)
    (h : ∀ b, b ∈ nodes ↔ b ∈ nodes') : Greedy nodes' Dep l := by
  have hready : ∀ done b, Ready nodes Dep done b ↔ Ready nodes' Dep done b := fun done b =>
    ⟨fun hb => ⟨(h b).mp hb.node, hb.fresh, hb.deps⟩,
      fun hb => ⟨(h b).mpr hb.node, hb.fresh, hb.deps⟩⟩
  intro before b after hsplit
  obtain ⟨hb, hleast⟩ := hl before b after hsplit
  exact ⟨(hready before b).mp hb, fun c hc => hleast c ((hready before c).mpr hc)⟩

theorem Greedy.snoc (hl : Greedy nodes Dep l) (hb : Ready nodes Dep l b)
    (hleast : ∀ c, Ready nodes Dep l c → b ≤ c) : Greedy nodes Dep (l ++ [b]) := by
  intro before c after h
  rcases snoc_split h with ⟨rfl, rfl, -⟩ | ⟨rest, -, hsplit⟩
  · exact ⟨hb, hleast⟩
  · exact hl before c rest hsplit

theorem Greedy.respects (hl : Greedy nodes Dep l) : Respects Dep l := by
  intro before b after h
  exact (hl before b after h).1.deps

theorem Greedy.subset (hl : Greedy nodes Dep l) : ∀ b ∈ l, b ∈ nodes := by
  intro b hb
  obtain ⟨before, after, h⟩ := append_of_mem hb
  exact (hl before b after h).1.node

theorem Greedy.nodup (hl : Greedy nodes Dep l) : l.Nodup := by
  induction l using reverseRecOn with
  | nil => exact nodup_nil
  | append_singleton l b ih =>
    have hshorter : Greedy nodes Dep l := by
      intro before c after h
      refine hl before c (after ++ [b]) ?_
      rw [h, append_assoc]
      rfl
    have hb := (hl l b [] rfl).1.fresh
    rw [nodup_append]
    refine ⟨ih hshorter, nodup_singleton b, ?_⟩
    intro c hc d hd heq
    rw [heq, mem_singleton.mp hd] at hc
    exact hb hc

theorem parting (h : l.length = m.length) :
    l = m ∨ ∃ before x y l' m', l = before ++ x :: l' ∧ m = before ++ y :: m' ∧ x ≠ y := by
  induction l generalizing m with
  | nil =>
    cases m with
    | nil => exact .inl rfl
    | cons y m => simp at h
  | cons x l ih =>
    cases m with
    | nil => simp at h
    | cons y m =>
      by_cases hxy : x = y
      · rcases ih (by simpa using h) with rfl | ⟨before, x', y', l', m', rfl, rfl, hne⟩
        · exact .inl (by rw [hxy])
        · exact .inr ⟨x :: before, x', y', l', m', rfl, by rw [hxy]; rfl, hne⟩
      · exact .inr ⟨[], x, y, l, m, rfl, rfl, hxy⟩

theorem lex_append {before l m : List α} {x y : α} (h : x < y) :
    Lex (· < ·) (before ++ x :: l) (before ++ y :: m) := by
  induction before with
  | nil => exact .rel h
  | cons z rest ih => exact .cons ih

theorem Greedy.least (hl : Greedy nodes Dep l) (hperm : l.Perm nodes)
    (hm : IsOrder nodes Dep m) : l = m ∨ Lex (· < ·) l m := by
  have hlength : l.length = m.length := (hperm.trans hm.perm.symm).length_eq
  rcases parting hlength with heq | ⟨before, x, y, l', m', rfl, rfl, hne⟩
  · exact .inl heq
  · -- What the other order has at the place is ready there too.
    have hnodup : (before ++ y :: m').Nodup := (hperm.trans hm.perm.symm).nodup_iff.mp hl.nodup
    have hready : Ready nodes Dep before y := by
      refine ⟨hm.perm.mem_iff.mp (by simp), ?_, hm.respects before y m' rfl⟩
      intro hy
      exact (nodup_append.mp hnodup).2.2 y hy y mem_cons_self rfl
    have hle := (hl before x l' rfl).2 y hready
    exact .inr (lex_append (lt_of_le_of_ne hle hne))

theorem Greedy.unique (hl : Greedy nodes Dep l) (hperm : l.Perm nodes)
    (hm : Greedy nodes Dep m) (hperm' : m.Perm nodes) : l = m := by
  rcases parting (hperm.trans hperm'.symm).length_eq with heq | ⟨before, x, y, l', m', rfl, rfl, hne⟩
  · exact heq
  · obtain ⟨hx, hxleast⟩ := hl before x l' rfl
    obtain ⟨hy, hyleast⟩ := hm before y m' rfl
    exact absurd (le_antisymm (hxleast y hy) (hyleast x hx)) hne

omit [LinearOrder α] in
theorem IsOrder.chain (hl : IsOrder nodes Dep l) (h : TransGen Dep b a)
    {before after : List α} (hsplit : l = before ++ b :: after) : a ∈ before := by
  induction h generalizing before after with
  | single hba => exact hl.respects before b after hsplit _ hba
  | @tail c a _ hca ih =>
    have hc := ih hsplit
    obtain ⟨first, second, hfirst⟩ := append_of_mem hc
    have ha := hl.respects first c (second ++ b :: after)
      (by rw [hsplit, hfirst, append_assoc, cons_append]) a hca
    rw [hfirst]
    exact mem_append_left _ ha

omit [LinearOrder α] in
theorem IsOrder.acyclic (hl : IsOrder nodes Dep l) (hnodup : nodes.Nodup)
    (hDep : ∀ b a, Dep b a → b ∈ nodes) : ¬ TransGen Dep a a := by
  intro hcycle
  have ha : a ∈ nodes := by
    obtain ⟨c, hac, -⟩ := TransGen.head'_iff.mp hcycle
    exact hDep a c hac
  obtain ⟨before, after, hsplit⟩ := append_of_mem (hl.perm.mem_iff.mpr ha)
  have hbefore := hl.chain hcycle hsplit
  have hl' : l.Nodup := hl.perm.nodup_iff.mpr hnodup
  rw [hsplit] at hl'
  exact (nodup_append.mp hl').2.2 a hbefore a mem_cons_self rfl

omit [LinearOrder α] in
theorem cycle_of_waiting {left : Set α} (hfinite : left.Finite) (hb : b ∈ left)
    (h : ∀ b ∈ left, ∃ a ∈ left, Dep b a) : ∃ a, TransGen Dep a a := by
  by_contra hacyclic
  rw [not_exists] at hacyclic
  have : Finite left := hfinite
  let r : left → left → Prop := fun x y => TransGen Dep y x
  have htrans : IsTrans left r := ⟨fun _ _ _ hxy hyz => hyz.trans hxy⟩
  have hirrefl : Std.Irrefl r := ⟨fun x => hacyclic x⟩
  have hwf : WellFounded r := Finite.wellFounded_of_trans_of_irrefl r
  obtain ⟨m, -, hmin⟩ := hwf.has_min Set.univ ⟨⟨b, hb⟩, trivial⟩
  obtain ⟨a, ha, hma⟩ := h m m.2
  exact hmin ⟨a, ha⟩ trivial (TransGen.single hma)

end GeneGIS.Toposort
