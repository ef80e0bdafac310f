/-
A point of one chain between its ends lies strictly to the left of every edge of the other chain.
-/
import GeneGIS.Network.Isochrone

namespace GeneGIS.Network.Hull

open Planar List Option

variable {K : Type}

/-! ## Around the polygon -/

/-- Every vertex with the next one, and the last with the first. -/
def boundary (hull : List (K × K)) : List (K × K) := hull ++ hull.take 1

theorem pair_infix_append {a b y : K × K} : ∀ {xs ys : List (K × K)},
    [a, b] <:+: xs ++ y :: ys → [a, b] <:+: xs ++ [y] ∨ [a, b] <:+: y :: ys
  | [], ys, h => .inr h
  | x :: xs, ys, h => by
    rcases infix_cons_iff.mp h with hprefix | hinfix
    · refine .inl (IsPrefix.isInfix ?_)
      obtain ⟨tail, htail⟩ := hprefix
      cases xs with
      | nil =>
        simp only [cons_append, nil_append, cons.injEq] at htail
        obtain ⟨rfl, rfl, -⟩ := htail
        exact ⟨[], rfl⟩
      | cons x' xs =>
        simp only [cons_append, nil_append, cons.injEq] at htail
        obtain ⟨rfl, rfl, -⟩ := htail
        exact ⟨xs ++ [y], rfl⟩
    · rcases pair_infix_append hinfix with h | h
      · exact .inl (h.trans (suffix_cons x _).isInfix)
      · exact .inr h

theorem exists_neighbours {v : K × K} {chain : List (K × K)} (h : v ∈ chain)
    (hhead : chain.head? ≠ some v) (hlast : chain.getLast? ≠ some v) :
    ∃ c d, [d, v, c] <:+: chain := by
  obtain ⟨before, after, rfl⟩ := append_of_mem h
  cases after with
  | nil => exact absurd getLast?_concat hlast
  | cons c after =>
    rcases eq_nil_or_concat before with rfl | ⟨front, d, rfl⟩
    · exact absurd rfl hhead
    · exact ⟨c, d, front, after, by simp⟩

variable [Field K] [LinearOrder K] {D D' : K × K → Prop} {points points' lower upper : List (K × K)}
  {a b c d v q : K × K}

theorem turn_pos_of_mem (h : ConvexChain D lower) (hedge : [b, a] <:+: lower) (hv : v ∈ lower)
    (ha : v ≠ a) (hb : v ≠ b) : 0 < turn a b v := by
  obtain ⟨before, after, rfl⟩ := hedge
  rw [append_assoc, mem_append] at hv
  rcases hv with hv | hv
  · refine h.turns a b v ?_
    have hsub : [v].Sublist before := singleton_sublist.mpr hv
    exact (hsub.append (Sublist.refl [b, a])).trans (sublist_append_left _ _)
  · have hv' : v ∈ after := by
      simp only [cons_append, nil_append, mem_cons] at hv
      exact (hv.resolve_left hb).resolve_left ha
    rw [← turn_rotate]
    refine h.turns v a b ?_
    have hsub : [v].Sublist after := singleton_sublist.mpr hv'
    rw [append_assoc]
    exact ((Sublist.refl [b, a]).append hsub).trans (sublist_append_right _ _)

variable [IsStrictOrderedRing K]

/-- The two chains of the same points. -/
structure Around (D D' : K × K → Prop) (points lower upper : List (K × K)) : Prop where
  forward : Forward D
  opposite : ∀ u, D' u ↔ D (-u)
  lower : Spanning D points lower
  upper : Spanning D' points.reverse upper

omit [IsStrictOrderedRing K] in
theorem Around.swap (h : Around D D' points lower upper) :
    Around D' D points.reverse upper lower where
  forward := by
    have hsame : D' = fun u => D (-u) := funext fun u => propext (h.opposite u)
    rw [hsame]
    exact h.forward.opposite
  opposite := fun u => by rw [h.opposite, neg_neg]
  lower := h.upper
  upper := by
    rw [reverse_reverse]
    exact h.lower

theorem Around.turn_pos (h : Around D D' points lower upper) (hedge : [b, a] <:+: lower)
    (hv : [d, v, c] <:+: upper) : 0 < turn a b v := by
  have hsorted := h.lower.convex.sorted.sublist hedge.sublist
  have hab : D (b - a) := (pairwise_cons.mp hsorted).1 a (by simp)
  have hsorted' := pairwise_cons.mp (h.upper.convex.sorted.sublist hv.sublist)
  have hdv := (h.opposite _).mp (hsorted'.1 v (by simp))
  have hvc := (h.opposite _).mp ((pairwise_cons.mp hsorted'.2).1 c (by simp))
  rw [neg_sub] at hdv hvc
  have hpoint : ∀ x ∈ [d, v, c], 0 ≤ turn a b x := fun x hx =>
    h.lower.left x (mem_reverse.mp (h.upper.members x (hv.subset hx))) a b hedge
  exact turn_pos_opposite h.forward hab hvc hdv (h.upper.convex.turns c v d hv.sublist)
    (hpoint c (by simp)) (hpoint d (by simp))

omit [IsStrictOrderedRing K] in
theorem Spanning.nodup (h : Spanning D points lower) (hD : Forward D) : lower.Nodup := by
  refine Pairwise.imp ?_ h.convex.sorted
  intro b a hab heq
  rw [heq, sub_self] at hab
  exact hD.zero hab

/-! ## The polygon -/

/-- The chains of at least two points, without the first point of each list. -/
structure Closed (D D' : K × K → Prop) (points : List (K × K)) (first last : K × K)
    (lows ups : List (K × K)) : Prop where
  around : Around D D' points (last :: lows) (first :: ups)
  lowEnd : lows.getLast? = some first
  upEnd : ups.getLast? = some last

omit [IsStrictOrderedRing K] in
theorem Around.closed (h : Around D D' points lower upper)
    (hsorted : points.Pairwise fun a b => D (b - a)) (htwo : 2 ≤ points.length) :
    ∃ first last, points.head? = some first ∧ points.getLast? = some last ∧
      lower.head? = some last ∧ upper.head? = some first ∧
      Closed D D' points first last lower.tail upper.tail := by
  obtain ⟨first, second, rest, rfl⟩ : ∃ first second rest, points = first :: second :: rest := by
    match points, htwo with
    | first :: second :: rest, _ => exact ⟨first, second, rest, rfl⟩
  obtain ⟨last, hlast⟩ : ∃ last, (second :: rest).getLast? = some last :=
    ⟨_, getLast?_eq_some_getLast (cons_ne_nil _ _)⟩
  have hlast' : (first :: second :: rest).getLast? = some last := by
    rw [getLast?_cons_cons, hlast]
  have hne : last ≠ first := by
    intro heq
    have hmem : last ∈ second :: rest := mem_of_getLast? hlast
    have hforward := (pairwise_cons.mp hsorted).1 last hmem
    rw [heq, sub_self] at hforward
    exact h.forward.zero hforward
  have hlower := h.lower.last
  have hlower' := h.lower.first
  have hupper := h.upper.last
  have hupper' := h.upper.first
  rw [hlast'] at hlower
  rw [getLast?_reverse] at hupper
  rw [head?_reverse, hlast'] at hupper'
  refine ⟨first, last, rfl, hlast', hlower, hupper, ?_⟩
  cases lower with
  | nil => cases hlower
  | cons low lows =>
    cases hlower
    cases upper with
    | nil => cases hupper
    | cons up ups =>
      cases hupper
      refine ⟨h, ?_, ?_⟩
      · cases lows with
        | nil => exact absurd (some.inj hlower') hne
        | cons => exact hlower'
      · cases ups with
        | nil => exact absurd (some.inj hupper').symm hne
        | cons => exact hupper'

section Polygon

variable {first last : K × K} {lows ups : List (K × K)} (h : Closed D D' points first last lows ups)

include h

omit [IsStrictOrderedRing K] in
theorem Closed.swap : Closed D' D points.reverse last first ups lows :=
  ⟨h.around.swap, h.upEnd, h.lowEnd⟩

omit [IsStrictOrderedRing K] in
theorem Closed.boundary_eq :
    boundary (lows.reverse ++ ups.reverse) = lows.reverse ++ (first :: ups).reverse := by
  obtain ⟨front, rfl⟩ := getLast?_eq_some_iff.mp h.lowEnd
  rw [boundary, reverse_append, reverse_cons]
  simp

omit [IsStrictOrderedRing K] in
theorem Closed.edge_cases (hedge : [a, b] <:+: boundary (lows.reverse ++ ups.reverse)) :
    [b, a] <:+: last :: lows ∨ [b, a] <:+: first :: ups := by
  obtain ⟨front, hfront⟩ := getLast?_eq_some_iff.mp h.upEnd
  rw [h.boundary_eq] at hedge
  have hups : (first :: ups).reverse = last :: (front.reverse ++ [first]) := by
    rw [reverse_cons, hfront]
    simp
  rw [hups] at hedge
  rcases pair_infix_append hedge with hlow | hup
  · rw [← reverse_cons] at hlow
    exact .inl <| reverse_infix.mp hlow
  · rw [← hups] at hup
    exact .inr <| reverse_infix.mp hup

omit [IsStrictOrderedRing K] in
theorem Closed.left (hedge : [a, b] <:+: boundary (lows.reverse ++ ups.reverse))
    (hq : q ∈ points) : 0 ≤ turn a b q := by
  rcases h.edge_cases hedge with hlow | hup
  · exact h.around.lower.left q hq a b hlow
  · exact h.around.upper.left q (mem_reverse.mpr hq) a b hup

omit [IsStrictOrderedRing K] in
theorem Closed.ends_mem : first ∈ last :: lows ∧ last ∈ first :: ups :=
  ⟨mem_cons_of_mem _ (mem_of_getLast? h.lowEnd), mem_cons_of_mem _ (mem_of_getLast? h.upEnd)⟩

omit [IsStrictOrderedRing K] in
theorem Closed.upper_cases (hv : v ∈ first :: ups) (hfirst : v ≠ first) (hlast : v ≠ last) :
    ∃ c d, [d, v, c] <:+: first :: ups := by
  refine exists_neighbours hv (fun heq => hfirst (some.inj heq).symm) fun heq => hlast ?_
  cases ups with
  | nil => exact absurd h.upEnd (by simp)
  | cons up ups =>
    rw [getLast?_cons_cons, h.upEnd] at heq
    exact (some.inj heq).symm

theorem Closed.turn_pos_lower (hedge : [b, a] <:+: last :: lows)
    (hv : v ∈ last :: lows ∨ v ∈ first :: ups) (ha : v ≠ a) (hb : v ≠ b) : 0 < turn a b v := by
  by_cases hlow : v ∈ last :: lows
  · exact turn_pos_of_mem h.around.lower.convex hedge hlow ha hb
  · have hup := hv.resolve_left hlow
    obtain ⟨c, d, hinfix⟩ := h.upper_cases hup
      (fun heq => hlow (heq ▸ h.ends_mem.1)) fun heq => hlow (heq ▸ mem_cons_self)
    exact h.around.turn_pos hedge hinfix

/-- The polygon turns to the left at each vertex, and sees every other vertex strictly on the
left of each edge. -/
theorem Closed.convex (hedge : [a, b] <:+: boundary (lows.reverse ++ ups.reverse))
    (hv : v ∈ lows.reverse ++ ups.reverse) (ha : v ≠ a) (hb : v ≠ b) : 0 < turn a b v := by
  have hmem : v ∈ last :: lows ∨ v ∈ first :: ups := by
    rcases mem_append.mp hv with hv | hv
    · exact .inl (mem_cons_of_mem _ (mem_reverse.mp hv))
    · exact .inr (mem_cons_of_mem _ (mem_reverse.mp hv))
  rcases h.edge_cases hedge with hlow | hup
  · exact h.turn_pos_lower hlow hmem ha hb
  · exact h.swap.turn_pos_lower hup hmem.symm ha hb

theorem Closed.nodup : (lows.reverse ++ ups.reverse).Nodup := by
  have hlows := h.around.lower.nodup h.around.forward
  have hups := h.around.upper.nodup h.around.swap.forward
  obtain ⟨hlast, hlows⟩ := nodup_cons.mp hlows
  obtain ⟨hfirst, hups⟩ := nodup_cons.mp hups
  refine nodup_append.mpr ⟨nodup_reverse.mpr hlows, nodup_reverse.mpr hups, ?_⟩
  intro x hx y hy heq
  subst heq
  have hx := mem_reverse.mp hx
  have hy := mem_reverse.mp hy
  -- a common point would be between the ends of both chains
  have hxfirst : x ≠ first := fun heq => hfirst (heq ▸ hy)
  have hxlast : x ≠ last := fun heq => hlast (heq ▸ hx)
  obtain ⟨c, d, hlow⟩ := h.swap.upper_cases (mem_cons_of_mem _ hx) hxlast hxfirst
  obtain ⟨c', d', hup⟩ := h.upper_cases (mem_cons_of_mem _ hy) hxfirst hxlast
  have hpair : [x, c] <:+: last :: lows := IsInfix.trans ⟨[d], [], rfl⟩ hlow
  have hpos := h.around.turn_pos hpair hup
  rw [turn_right] at hpos
  exact lt_irrefl _ hpos

end Polygon

end GeneGIS.Network.Hull
