/-
Each entry names the digest of the entry before it.  Where no two entries share a digest, the last
digest determines the chain.
-/
import Mathlib.Data.List.Induction

namespace GeneGIS.HashChain

open List

variable {ε δ : Type} {previous : ε → Option δ} {digest : ε → δ}

/-- The digest of the last entry, if there is one. -/
def tip (digest : ε → δ) (l : List ε) : Option δ := l.getLast?.map digest

/-- Every entry names the digest before it, the first one `before`. -/
def Linked (previous : ε → Option δ) (digest : ε → δ) : Option δ → List ε → Prop
  | _, [] => True
  | before, e :: rest => previous e = before ∧ Linked previous digest (some (digest e)) rest

theorem tip_snoc (l : List ε) (e : ε) : tip digest (l ++ [e]) = some (digest e) := by
  rw [tip, getLast?_concat, Option.map_some]

theorem tip_cons (e : ε) (l : List ε) :
    tip digest (e :: l) = some ((tip digest l).getD (digest e)) := by
  cases l using reverseRecOn with
  | nil => rfl
  | append_singleton l e' =>
    rw [tip_snoc, ← cons_append, tip_snoc]
    rfl

theorem linked_snoc {before : Option δ} {l : List ε} {e : ε} :
    Linked previous digest before (l ++ [e]) ↔
      Linked previous digest before l ∧ previous e = (tip digest l).or before := by
  induction l generalizing before with
  | nil =>
    show previous e = before ∧ True ↔ True ∧ previous e = before
    rw [and_true, true_and]
  | cons e' rest ih =>
    rw [cons_append, Linked, ih, Linked, and_assoc, tip_cons]
    cases tip digest rest <;> rfl

theorem linked_unique {l m : List ε} (hdigest : ∀ e ∈ l, ∀ e' ∈ m, digest e = digest e' → e = e')
    (hl : Linked previous digest none l) (hm : Linked previous digest none m)
    (htip : tip digest l = tip digest m) : l = m := by
  induction l using reverseRecOn generalizing m with
  | nil =>
    cases m using reverseRecOn with
    | nil => rfl
    | append_singleton m e' =>
      rw [tip_snoc] at htip
      cases htip
  | append_singleton l e ih =>
    cases m using reverseRecOn with
    | nil =>
      rw [tip_snoc] at htip
      cases htip
    | append_singleton m e' =>
      rw [tip_snoc, tip_snoc, Option.some.injEq] at htip
      have heq : e = e' := hdigest e (by simp) e' (by simp) htip
      rw [linked_snoc, Option.or_none] at hl hm
      have hbefore : tip digest l = tip digest m := by
        rw [← hl.2, ← hm.2, heq]
      have hrest : l = m := by
        refine ih ?_ hl.1 hm.1 hbefore
        intro x hx y hy
        exact hdigest x (mem_append_left _ hx) y (mem_append_left _ hy)
      rw [hrest, heq]

end GeneGIS.HashChain
