/-
The polygon is strictly convex, counter-clockwise and has every point inside, so isochrones grow
with their threshold.
-/
import GeneGIS.Network.HullPolygon
import GeneGIS.Network.TravelTimes

namespace GeneGIS.Network.Hull

open Planar
open List hiding isEmpty_iff

variable {K : Type} [Field K] [LinearOrder K] [IsStrictOrderedRing K]
  {points points' hull : List (K × K)} {a b q v : K × K}

/-- The vertices of a strictly convex polygon around the points, counter-clockwise. -/
structure IsHull (points hull : List (K × K)) : Prop where
  nodup : hull.Nodup
  subperm : hull.Subperm points
  left : ∀ a b, [a, b] <:+: boundary hull → ∀ q ∈ points, 0 ≤ turn a b q
  convex : ∀ a b, [a, b] <:+: boundary hull → ∀ v ∈ hull, v ≠ a → v ≠ b → 0 < turn a b v
  covers : ∀ q ∈ points, q ∈ enclosed hull

omit [LinearOrder K] [IsStrictOrderedRing K] in
theorem turn_of_short (hshort : points.length < 3) (ha : a ∈ points) (hb : b ∈ points)
    (hq : q ∈ points) : turn a b q = 0 := by
  match points, hshort with
  | [], _ => cases ha
  | [x], _ =>
    rw [mem_singleton.mp ha, mem_singleton.mp hb]
    exact turn_start _ _
  | [x, y], _ =>
    simp only [mem_cons, not_mem_nil, or_false] at ha hb hq
    rcases ha with rfl | rfl
    · rcases hb with rfl | rfl
      · exact turn_start _ _
      · rcases hq with rfl | rfl
        · exact turn_left _ _
        · exact turn_right _ _
    · rcases hb with rfl | rfl
      · rcases hq with rfl | rfl
        · exact turn_right _ _
        · exact turn_left _ _
      · exact turn_start _ _

omit [Field K] [LinearOrder K] [IsStrictOrderedRing K] in
theorem mem_boundary (h : v ∈ boundary hull) : v ∈ hull := by
  rcases mem_append.mp h with h | h
  · exact h
  · exact mem_of_mem_take h

omit [IsStrictOrderedRing K] in
theorem isHull_short (hnodup : hull.Nodup) (hmem : ∀ q, q ∈ hull ↔ q ∈ points)
    (hshort : hull.length < 3) : IsHull points hull := by
  have hedge : ∀ a b, [a, b] <:+: boundary hull → a ∈ hull ∧ b ∈ hull := fun a b h =>
    ⟨mem_boundary (h.subset (by simp)), mem_boundary (h.subset (by simp))⟩
  refine ⟨hnodup, List.subperm_of_subset hnodup fun q hq => (hmem q).mp hq, fun a b h q hq => ?_,
    fun a b h v hv ha hb => ?_, fun q hq => mem_enclosed ((hmem q).mpr hq)⟩
  · obtain ⟨hamem, hbmem⟩ := hedge a b h
    exact (turn_of_short hshort hamem hbmem ((hmem q).mpr hq)).ge
  · match hull, hshort with
    | [], _ => cases hv
    | [x], _ =>
      obtain ⟨hamem, -⟩ := hedge a b h
      rw [mem_singleton] at hv hamem
      exact absurd (hv.trans hamem.symm) ha
    | [x, y], _ =>
      have hcases : a = x ∧ b = y ∨ a = y ∧ b = x := by
        have hpair : [a, b] <:+: [x] ++ y :: [x] := h
        rcases pair_infix_append hpair with hxy | hyx
        · have hsame : [a, b] = [x, y] := hxy.eq_of_length rfl
          simp only [cons.injEq] at hsame
          exact .inl ⟨hsame.1, hsame.2.1⟩
        · have hsame : [a, b] = [y, x] := hyx.eq_of_length rfl
          simp only [cons.injEq] at hsame
          exact .inr ⟨hsame.1, hsame.2.1⟩
      simp only [mem_cons, not_mem_nil, or_false] at hv
      rcases hcases with ⟨rfl, rfl⟩ | ⟨rfl, rfl⟩
      · exact absurd hv (not_or.mpr ⟨ha, hb⟩)
      · exact absurd hv (not_or.mpr ⟨hb, ha⟩)

/-! ## Three points or more -/

section Covers

variable {D D' : K × K → Prop} {first last : K × K} {lows ups : List (K × K)}
  (h : Closed D D' points first last lows ups)

include h

omit [IsStrictOrderedRing K] in
theorem Closed.lows_ne : lows ≠ [] := by
  intro hnil
  have hend := h.lowEnd
  rw [hnil] at hend
  cases hend

theorem Closed.covers_pair {o a : K × K} (hpair : lows.reverse ++ ups.reverse = [o, a])
    (hfirst : q = first ∨ D (q - first)) (hlast : q = last ∨ D (last - q)) (hq : q ∈ points) :
    q ∈ enclosed [o, a] := by
  have hlength := congrArg List.length hpair
  rw [length_append, length_reverse, length_reverse, length_cons, length_singleton] at hlength
  have hlow : 0 < lows.length := length_pos_iff.mpr h.lows_ne
  have hup : 0 < ups.length := length_pos_iff.mpr h.swap.lows_ne
  obtain ⟨low, hlow⟩ := length_eq_one_iff.mp (show lows.length = 1 by omega)
  obtain ⟨up, hup⟩ := length_eq_one_iff.mp (show ups.length = 1 by omega)
  have hlowEnd := h.lowEnd
  have hupEnd := h.upEnd
  rw [hlow, getLast?_singleton, Option.some.injEq] at hlowEnd
  rw [hup, getLast?_singleton, Option.some.injEq] at hupEnd
  have hends : o = first ∧ a = last := by
    rw [hlow, hup, hlowEnd, hupEnd] at hpair
    obtain ⟨ho, hrest⟩ := cons.inj hpair
    exact ⟨ho.symm, (cons.inj hrest).1.symm⟩
  have hleft : 0 ≤ turn o a q := h.left (by rw [hpair]; exact ⟨[], [o], rfl⟩) hq
  have hright : 0 ≤ turn a o q := h.left (by rw [hpair]; exact ⟨[o], [], rfl⟩) hq
  have hline : turn o a q = 0 := by
    rw [turn_rotate, turn_swap] at hright
    exact le_antisymm (neg_nonneg.mp hright) hleft
  rw [hends.1, hends.2] at hline ⊢
  rw [enclosed_pair]
  exact mem_segment_of_turn h.around.forward hfirst hlast hline

theorem Closed.covers (hsorted : points.Pairwise fun a b => D (b - a))
    (hhead : points.head? = some first) (hlast : points.getLast? = some last) (hq : q ∈ points) :
    q ∈ enclosed (lows.reverse ++ ups.reverse) := by
  have hfirst : q = first ∨ D (q - first) := by
    obtain ⟨rest, hrest⟩ := head?_eq_some_iff.mp hhead
    rw [hrest] at hq hsorted
    exact (mem_cons.mp hq).imp id fun hq => (pairwise_cons.mp hsorted).1 q hq
  have hlast' : q = last ∨ D (last - q) := by
    obtain ⟨front, hfront⟩ := getLast?_eq_some_iff.mp hlast
    rw [hfront] at hq hsorted
    rcases mem_append.mp hq with hq | hq
    · exact .inr ((pairwise_append.mp hsorted).2.2 q hq last (mem_singleton_self _))
    · exact .inl (mem_singleton.mp hq)
  have hlow : 0 < lows.length := length_pos_iff.mpr h.lows_ne
  have hup : 0 < ups.length := length_pos_iff.mpr h.swap.lows_ne
  have hlength : (lows.reverse ++ ups.reverse).length = lows.length + ups.length := by simp
  have hleft := fun x y (hxy : [x, y] <:+: boundary (lows.reverse ++ ups.reverse)) => h.left hxy hq
  have hconvex := fun x y v (hxy : [x, y] <:+: boundary (lows.reverse ++ ups.reverse)) =>
    h.convex hxy (v := v)
  have hnodup := h.nodup
  have hpair := fun o a hpair => h.covers_pair (o := o) (a := a) hpair hfirst hlast' hq
  generalize lows.reverse ++ ups.reverse = hull at *
  match hull with
  | [] => simp only [length_nil] at hlength; omega
  | [o] => simp only [length_singleton] at hlength; omega
  | [o, a] => exact hpair o a rfl
  | o :: a :: b :: rest =>
    obtain ⟨ho, -⟩ := nodup_cons.mp hnodup
    refine mem_fan (convex_enclosed _) (mem_enclosed mem_cons_self) a (b :: rest)
      (cons_ne_nil _ _) (fun v hv => mem_enclosed (mem_cons_of_mem _ hv))
      (fun x y hxy => ?_) (hleft o a ⟨[], b :: rest ++ [o], rfl⟩) fun l hl => ?_
    · have hedge : [x, y] <:+: boundary (o :: a :: b :: rest) :=
        (hxy.trans (suffix_cons o _).isInfix).trans (prefix_append _ _).isInfix
      have hne : ∀ z ∈ [x, y], o ≠ z := fun z hz heq => ho (heq ▸ hxy.subset hz)
      rw [turn_rotate]
      exact ⟨hconvex x y o hedge mem_cons_self (hne x (by simp)) (hne y (by simp)), hleft x y hedge⟩
    · obtain ⟨front, hfront⟩ := getLast?_eq_some_iff.mp hl
      have hedge : [l, o] <:+: boundary (o :: a :: b :: rest) := by
        refine ⟨o :: front, [], ?_⟩
        rw [boundary, hfront]
        simp
      have hnonneg := hleft l o hedge
      rw [turn_rotate, turn_swap] at hnonneg
      exact neg_nonneg.mp hnonneg

end Covers

/-! ## The hull -/

theorem nodup_dedup (h : points.Pairwise fun a b => rightward (b - a)) : points.Nodup := by
  refine Pairwise.imp ?_ h
  intro a b hab heq
  rw [heq, sub_self] at hab
  exact forward_rightward.zero hab

theorem convexHull_cases (points : List (K × K)) :
    ((dedup (sortPoints points)).length < 3 ∧ convexHull points = dedup (sortPoints points)) ∨
      3 ≤ (dedup (sortPoints points)).length ∧ ∃ first last lows ups,
        Closed rightward (fun u => rightward (-u)) (dedup (sortPoints points)) first last lows ups ∧
        (dedup (sortPoints points)).head? = some first ∧
        (dedup (sortPoints points)).getLast? = some last ∧
        convexHull points = lows.reverse ++ ups.reverse := by
  obtain ⟨hsorted, -⟩ := dedup_spec points
  rw [convexHull]
  by_cases hshort : (dedup (sortPoints points)).length < 3
  · exact .inl ⟨hshort, if_pos hshort⟩
  · have hreverse : (dedup (sortPoints points)).reverse.Pairwise
        fun a b => rightward (-(b - a)) := by
      rw [pairwise_reverse]
      refine Pairwise.imp ?_ hsorted
      intro a b hab
      rw [neg_sub]
      exact hab
    have haround : Around rightward (fun u => rightward (-u)) (dedup (sortPoints points))
        (monotoneChain (dedup (sortPoints points)))
        (monotoneChain (dedup (sortPoints points)).reverse) :=
      ⟨forward_rightward, fun u => Iff.rfl, spanning_monotoneChain forward_rightward hsorted,
        spanning_monotoneChain forward_rightward.opposite hreverse⟩
    obtain ⟨first, last, hhead, hlast, -, -, hclosed⟩ := haround.closed hsorted (by omega)
    exact .inr ⟨not_lt.mp hshort, first, last, _, _, hclosed, hhead, hlast, if_neg hshort⟩

theorem isHull_convexHull (points : List (K × K)) : IsHull points (convexHull points) := by
  obtain ⟨hsorted, hmem⟩ := dedup_spec points
  rcases convexHull_cases points with ⟨hshort, heq⟩ | ⟨-, first, last, lows, ups, hclosed, hcase⟩
  · rw [heq]
    exact isHull_short (nodup_dedup hsorted) hmem hshort
  · obtain ⟨hhead, hlast, heq⟩ := hcase
    rw [heq]
    have hvertex : ∀ v ∈ lows.reverse ++ ups.reverse, v ∈ points := by
      intro v hv
      rcases mem_append.mp hv with hv | hv
      · exact (hmem v).mp (hclosed.around.lower.members v (mem_cons_of_mem _ (mem_reverse.mp hv)))
      · exact (hmem v).mp (mem_reverse.mp (hclosed.around.upper.members v
          (mem_cons_of_mem _ (mem_reverse.mp hv))))
    exact ⟨hclosed.nodup, List.subperm_of_subset hclosed.nodup hvertex,
      fun a b hab q hq => hclosed.left hab ((hmem q).mpr hq),
      fun a b hab v hv ha hb => hclosed.convex hab hv ha hb,
      fun q hq => hclosed.covers hsorted hhead hlast ((hmem q).mpr hq)⟩

omit [IsStrictOrderedRing K] in
theorem IsHull.mono {hull' : List (K × K)} (h : IsHull points hull) (h' : IsHull points' hull')
    (hsub : ∀ q ∈ points, q ∈ points') : enclosed hull ⊆ enclosed hull' :=
  enclosed_subset fun v hv => h'.covers v (hsub v (h.subperm.subset hv))

theorem IsHull.collinear (h : IsHull points hull) (htwo : 2 ≤ points.dedup.length)
    (hline : ∀ p ∈ points, ∀ q ∈ points, ∀ r ∈ points, turn p q r = 0) :
    ∃ a b, hull = [a, b] ∧ ∀ q ∈ points, q ∈ segment K a b := by
  match hull, h with
  | [], h =>
    have hnil : points.dedup = [] := by
      refine eq_nil_iff_forall_not_mem.mpr fun q hq => ?_
      have hinside := h.covers q (mem_dedup.mp hq)
      rw [enclosed_nil] at hinside
      exact hinside
    rw [hnil] at htwo
    cases htwo
  | [a], h =>
    have hone : ∀ q ∈ points.dedup, q ∈ [a] := by
      intro q hq
      have hinside := h.covers q (mem_dedup.mp hq)
      rw [enclosed_singleton] at hinside
      exact mem_singleton.mpr hinside
    have hle := (List.subperm_of_subset (List.nodup_dedup points) hone).length_le
    exact absurd (htwo.trans hle) (by simp)
  | [a, b], h =>
    refine ⟨a, b, rfl, fun q hq => ?_⟩
    have hinside := h.covers q hq
    rw [enclosed_pair] at hinside
    exact hinside
  | a :: b :: c :: rest, h =>
    have hmem : ∀ v ∈ a :: b :: c :: rest, v ∈ points := fun v hv => h.subperm.subset hv
    obtain ⟨ha, hrest⟩ := nodup_cons.mp h.nodup
    obtain ⟨hb, -⟩ := nodup_cons.mp hrest
    have hturn := h.convex a b ⟨[], c :: rest ++ [a], rfl⟩ c (by simp)
      (fun heq => ha (by rw [← heq]; simp)) fun heq => hb (by rw [← heq]; simp)
    rw [hline a (hmem a (by simp)) b (hmem b (by simp)) c (hmem c (by simp))] at hturn
    exact absurd hturn (lt_irrefl _)

theorem perm_of_short (hshort : points.dedup.length < 3) :
    (convexHull points).Perm points.dedup := by
  obtain ⟨hsorted, hmem⟩ := dedup_spec points
  have hperm : (dedup (sortPoints points)).Perm points.dedup :=
    (List.perm_ext_iff_of_nodup (nodup_dedup hsorted) (List.nodup_dedup points)).mpr fun q =>
      (hmem q).trans mem_dedup.symm
  rw [convexHull, if_pos (hperm.length_eq ▸ hshort)]
  exact hperm

/-! ## Isochrones -/

section Isochrones

variable {graph : WalkGraph K} {origin : Nat} {t₁ t₂ : K}

omit [IsStrictOrderedRing K] in
theorem within_mono (hle : t₁ ≤ t₂) {cost : Option K} (h : WalkGraph.within t₁ cost = true) :
    WalkGraph.within t₂ cost = true := by
  cases cost with
  | none => cases h
  | some minutes =>
    have hminutes : minutes ≤ t₁ := of_decide_eq_true h
    exact decide_eq_true (hminutes.trans hle)

omit [IsStrictOrderedRing K] in
theorem reachable_mono (hle : t₁ ≤ t₂) {q : K × K} (h : q ∈ graph.reachable origin t₁) :
    q ∈ graph.reachable origin t₂ := by
  rw [WalkGraph.reachable, mem_filterMap] at h ⊢
  obtain ⟨entry, hentry, hq⟩ := h
  refine ⟨entry, hentry, ?_⟩
  by_cases hwithin : WalkGraph.within t₁ entry.1 = true
  · rw [if_pos hwithin] at hq
    rw [if_pos (within_mono hle hwithin)]
    exact hq
  · rw [if_neg hwithin] at hq
    cases hq

omit [IsStrictOrderedRing K] in
theorem isochrone_ok {cosine : K → K} {t : K} {i : Isochrone K} :
    graph.isochrone cosine origin t = .ok i ↔ 0 < t ∧ graph.reachable origin t ≠ [] ∧
      i = { origin := origin
            thresholdMinutes := t
            vertices := convexHull (graph.reachable origin t)
            reachableNodes := (graph.travelTimesFrom origin).countP (WalkGraph.within t)
            areaM2 := polygonAreaM2 cosine (convexHull (graph.reachable origin t)) } := by
  have hpositive : (!(Quantity.isFinite t && Quantity.lt (Quantity.ofNat 0) t)) = true ↔ ¬ 0 < t := by
    have hzero : Quantity.lt (Quantity.ofNat 0) t = decide (0 < t) := by
      rw [ofNat_zero]
      rfl
    rw [hzero, Bool.not_eq_true', show Quantity.isFinite t = true from rfl, Bool.true_and,
      decide_eq_false_iff_not]
  rw [WalkGraph.isochrone]
  by_cases ht : 0 < t
  · rw [if_neg fun h => hpositive.mp h ht]
    by_cases hempty : graph.reachable origin t = []
    · simp [hempty]
    · have hnot : ¬ (graph.reachable origin t).isEmpty = true := by
        rw [List.isEmpty_iff]
        exact hempty
      dsimp only
      rw [if_neg hnot, Except.ok.injEq]
      exact ⟨fun h => ⟨ht, hempty, h.symm⟩, fun h => h.2.2.symm⟩
  · rw [if_pos (hpositive.mpr ht)]
    exact ⟨fun h => (by cases h), fun h => absurd h.1 ht⟩

theorem isochrone_mono {cosine : K → K} {i₁ : Isochrone K} (hle : t₁ ≤ t₂)
    (h : graph.isochrone cosine origin t₁ = .ok i₁) :
    ∃ i₂, graph.isochrone cosine origin t₂ = .ok i₂ ∧
      enclosed i₁.vertices ⊆ enclosed i₂.vertices := by
  obtain ⟨hpos, hne, rfl⟩ := isochrone_ok.mp h
  have hmono : ∀ q ∈ graph.reachable origin t₁, q ∈ graph.reachable origin t₂ := fun q hq =>
    reachable_mono hle hq
  obtain ⟨q, hq⟩ := exists_mem_of_ne_nil _ hne
  exact ⟨_, isochrone_ok.mpr ⟨hpos.trans_le hle, ne_nil_of_mem (hmono q hq), rfl⟩,
    (isHull_convexHull _).mono (isHull_convexHull _) hmono⟩

end Isochrones

/-- The vertices are a strictly convex polygon around all points, and larger isochrones contain
smaller ones. -/
theorem convexHull_encloses (points : List (K × K)) : IsHull points (convexHull points) ∧
      (2 ≤ points.dedup.length → (∀ p ∈ points, ∀ q ∈ points, ∀ r ∈ points, turn p q r = 0) →
          ∃ a b, convexHull points = [a, b] ∧ ∀ q ∈ points, q ∈ segment K a b) ∧
      (points.dedup.length < 3 → (convexHull points).Perm points.dedup) ∧
      ∀ (cosine : K → K) (graph : WalkGraph K) (origin : Nat) (t₁ t₂ : K) (i₁ : Isochrone K),
        t₁ ≤ t₂ → graph.isochrone cosine origin t₁ = .ok i₁ →
          ∃ i₂, graph.isochrone cosine origin t₂ = .ok i₂ ∧
            enclosed i₁.vertices ⊆ enclosed i₂.vertices :=
  ⟨isHull_convexHull points, (isHull_convexHull points).collinear, perm_of_short,
    fun _ _ _ _ _ _ hle h => isochrone_mono hle h⟩

/-- Three points on a line, one point alone, and two isochrones of the corners. -/
theorem convexHull_encloses_line :
    (∃ a b, convexHull [((2 : ℚ), (2 : ℚ)), (0, 0), (1, 1)] = [a, b]) ∧
      (convexHull [((1 : ℚ), (1 : ℚ))]).Perm [(1, 1)] ∧
      ∃ i₁ i₂, WalkGraph.corners.isochrone (fun _ => 1) 0 1 = .ok i₁ ∧
        WalkGraph.corners.isochrone (fun _ => 1) 0 3 = .ok i₂ ∧
        enclosed i₁.vertices ⊆ enclosed i₂.vertices := by
  obtain ⟨-, hline, -, hmono⟩ := convexHull_encloses [((2 : ℚ), (2 : ℚ)), (0, 0), (1, 1)]
  obtain ⟨-, -, hshort, -⟩ := convexHull_encloses [((1 : ℚ), (1 : ℚ))]
  obtain ⟨a, b, hpair, -⟩ := hline (by decide +kernel) (by decide +kernel)
  have hne : WalkGraph.corners.reachable 0 1 ≠ [] := by decide +kernel
  have hsmall : ∃ i₁, WalkGraph.corners.isochrone (fun _ => 1) 0 1 = .ok i₁ :=
    ⟨_, isochrone_ok.mpr ⟨by norm_num, hne, rfl⟩⟩
  obtain ⟨i₁, hsmall⟩ := hsmall
  obtain ⟨i₂, hlarge, hsub⟩ := hmono (fun _ => 1) WalkGraph.corners 0 1 3 i₁ (by norm_num) hsmall
  exact ⟨⟨a, b, hpair⟩, hshort (by decide), i₁, i₂, hsmall, hlarge, hsub⟩

example : convexHull [((0 : ℚ), (0 : ℚ)), (4, 0), (4, 4), (0, 4), (2, 2), (2, 0)] =
    [(0, 0), (4, 0), (4, 4), (0, 4)] := by decide +kernel

end GeneGIS.Network.Hull
