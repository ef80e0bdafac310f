/-
The wedge of two directions is positive when the second is to the left of the first.  Among the
directions of a pointed cone it orders by slope: being to the left is transitive there.
-/
import Mathlib.Analysis.Convex.Combination

namespace GeneGIS.Planar

open Prod

variable {K : Type} [Field K]

def wedge (u v : K × K) : K := u.1 * v.2 - u.2 * v.1

/-- Positive when `o`, `a` and `b` turn to the left. -/
def turn (o a b : K × K) : K := wedge (a - o) (b - o)

variable (u v w o a b : K × K)

theorem wedge_swap : wedge u v = -wedge v u := by
  rw [wedge, wedge]
  ring

@[simp] theorem wedge_self : wedge u u = 0 := by
  rw [wedge]
  ring

@[simp] theorem wedge_zero : wedge u 0 = 0 := by simp [wedge]

theorem wedge_add : wedge u (v + w) = wedge u v + wedge u w := by
  simp only [wedge, Prod.fst_add, snd_add]
  ring

theorem add_wedge : wedge (u + v) w = wedge u w + wedge v w := by
  simp only [wedge, Prod.fst_add, snd_add]
  ring

theorem wedge_smul : wedge u w • v = wedge u v • w + wedge v w • u := by
  refine Prod.ext ?_ ?_
  · simp only [wedge, Prod.smul_fst, Prod.fst_add, smul_eq_mul]
    ring
  · simp only [wedge, smul_snd, snd_add, smul_eq_mul]
    ring

theorem turn_rotate : turn o a b = turn a b o := by
  simp only [turn, wedge, Prod.fst_sub, Prod.snd_sub]
  ring

theorem turn_swap : turn o a b = -turn o b a := wedge_swap _ _

@[simp] theorem turn_left : turn o a o = 0 := by simp [turn]

@[simp] theorem turn_right : turn o a a = 0 := wedge_self _

@[simp] theorem turn_start : turn o o a = 0 := by simp [turn, wedge]

theorem turn_edges : turn o a b = wedge (a - o) (b - a) := by
  simp only [turn, wedge, Prod.fst_sub, Prod.snd_sub]
  ring

theorem turn_split (p : K × K) : turn o a b = turn o a p + turn a b p + turn b o p := by
  simp only [turn, wedge, Prod.fst_sub, Prod.snd_sub]
  ring

theorem turn_smul (p : K × K) :
    turn o a b • p = turn a b p • o + turn b o p • a + turn o a p • b := by
  refine Prod.ext ?_ ?_
  · simp only [turn, wedge, Prod.fst_sub, Prod.snd_sub, Prod.smul_fst, Prod.fst_add, smul_eq_mul]
    ring
  · simp only [turn, wedge, Prod.fst_sub, Prod.snd_sub, smul_snd, snd_add, smul_eq_mul]
    ring

variable [LinearOrder K]

/-- The directions of a pointed cone that lies on one side. -/
structure Forward (D : K × K → Prop) : Prop where
  add : ∀ u v, D u → D v → D (u + v)
  smul : ∀ (c : K) u, 0 < c → D u → D (c • u)
  zero : ¬ D 0
  side : ∃ σ : K, ∀ u, D u → 0 ≤ σ * u.1 ∧ (σ * u.1 = 0 → u.1 = 0)

variable {D : K × K → Prop} {u v w : K × K}

theorem Forward.opposite (hD : Forward D) : Forward fun u => D (-u) where
  add := fun u v hu hv => by
    rw [neg_add]
    exact hD.add _ _ hu hv
  smul := fun c u hc hu => by
    rw [← smul_neg]
    exact hD.smul c _ hc hu
  zero := by
    rw [neg_zero]
    exact hD.zero
  side := by
    obtain ⟨σ, hσ⟩ := hD.side
    refine ⟨-σ, fun u hu => ?_⟩
    obtain ⟨hnonneg, hzero⟩ := hσ _ hu
    rw [fst_neg] at hnonneg hzero
    rw [neg_mul_comm]
    exact ⟨hnonneg, fun h => neg_eq_zero.mp (hzero h)⟩

section Cone

variable (hD : Forward D)

include hD

theorem Forward.not_neg (h : D u) : ¬ D (-u) := fun hneg => hD.zero (by
  have hsum := hD.add u (-u) h hneg
  rwa [add_neg_cancel] at hsum)

theorem Forward.combine {c d : K} (hc : 0 ≤ c) (hd : 0 ≤ d) (hu : D u) (hw : D w) :
    (c = 0 ∧ d = 0) ∨ D (c • w + d • u) := by
  rcases hc.eq_or_lt with rfl | hc
  · rcases hd.eq_or_lt with rfl | hd
    · exact .inl ⟨rfl, rfl⟩
    · rw [zero_smul, zero_add]
      exact .inr (hD.smul d u hd hu)
  · rcases hd.eq_or_lt with rfl | hd
    · rw [zero_smul, add_zero]
      exact .inr (hD.smul c w hc hw)
    · exact .inr (hD.add _ _ (hD.smul c w hc hw) (hD.smul d u hd hu))

variable [IsStrictOrderedRing K]

theorem Forward.pos_of_smul {c : K} (hv : D v) (h : D (c • v)) : 0 < c := by
  by_contra hc
  rcases (not_lt.mp hc).eq_or_lt with rfl | hneg
  · rw [zero_smul] at h
    exact hD.zero h
  · have hback := hD.smul (-c) v (neg_pos.mpr hneg) hv
    rw [neg_smul] at hback
    exact hD.not_neg h hback

theorem Forward.wedge_nonneg (hu : D u) (hv : D v) (hw : D w) (huv : 0 ≤ wedge u v)
    (hvw : 0 ≤ wedge v w) : 0 ≤ wedge u w := by
  have hsum := wedge_smul u v w
  rcases hD.combine huv hvw hu hw with ⟨h1, h2⟩ | h
  · rw [h1, h2, zero_smul, zero_smul, add_zero] at hsum
    by_contra hneg
    have hback := hD.smul (-wedge u w) v (neg_pos.mpr (not_le.mp hneg)) hv
    rw [neg_smul, hsum, neg_zero] at hback
    exact hD.zero hback
  · rw [← hsum] at h
    exact (hD.pos_of_smul hv h).le

theorem Forward.wedge_pos_left (hu : D u) (hv : D v) (hw : D w) (huv : 0 < wedge u v)
    (hvw : 0 ≤ wedge v w) : 0 < wedge u w := by
  have hsum := wedge_smul u v w
  rcases hD.combine huv.le hvw hu hw with ⟨h1, -⟩ | h
  · exact absurd h1 huv.ne'
  · rw [← hsum] at h
    exact hD.pos_of_smul hv h

end Cone

/-- The directions to the right, and straight up. -/
def rightward (u : K × K) : Prop := 0 < u.1 ∨ u.1 = 0 ∧ 0 < u.2

theorem forward_rightward [IsStrictOrderedRing K] : Forward (rightward : K × K → Prop) where
  add := fun u v hu hv => by
    rcases hu with hu | ⟨hu, hu'⟩
    · rcases hv with hv | ⟨hv, -⟩
      · exact .inl (add_pos hu hv)
      · exact .inl (by rw [Prod.fst_add, hv, add_zero]; exact hu)
    · rcases hv with hv | ⟨hv, hv'⟩
      · exact .inl (by rw [Prod.fst_add, hu, zero_add]; exact hv)
      · exact .inr ⟨by rw [Prod.fst_add, hu, hv, add_zero], add_pos hu' hv'⟩
  smul := fun c u hc hu => by
    rcases hu with hu | ⟨hu, hu'⟩
    · exact .inl (mul_pos hc hu)
    · exact .inr ⟨by rw [Prod.smul_fst, hu, smul_zero], mul_pos hc hu'⟩
  zero := by simp [rightward]
  side := by
    refine ⟨1, fun u hu => ?_⟩
    rw [one_mul]
    refine ⟨?_, id⟩
    rcases hu with hu | ⟨hu, -⟩
    · exact hu.le
    · exact hu.ge

end GeneGIS.Planar

/-! ## Convex chains and polygons

A chain lists its points from the last to the first, and turns to the left at every point. -/

namespace GeneGIS.Planar

open List

variable {K : Type} [Field K] [LinearOrder K]

/-- A chain that turns to the left at each of its points. -/
structure ConvexChain (D : K × K → Prop) (chain : List (K × K)) : Prop where
  sorted : chain.Pairwise fun b a => D (b - a)
  turns : ∀ a b c, [c, b, a].Sublist chain → 0 < turn a b c

/-- A point to the left of every edge, or on it. -/
def Supports (chain : List (K × K)) (q : K × K) : Prop := ∀ a b, [b, a] <:+: chain → 0 ≤ turn a b q

variable {D : K × K → Prop} {chain chain' : List (K × K)} {a b c d p q t v : K × K}

theorem ConvexChain.sublist (h : ConvexChain D chain) (hsub : chain'.Sublist chain) :
    ConvexChain D chain' :=
  ⟨h.sorted.sublist hsub, fun a b c h' => h.turns a b c (h'.trans hsub)⟩

theorem convexChain_singleton (p : K × K) : ConvexChain D [p] :=
  ⟨pairwise_singleton _ _, fun a b c h => by
    have hlength := h.length_le
    simp at hlength⟩

theorem Supports.within (h : Supports chain q) (hsub : chain' <:+: chain) : Supports chain' q :=
  fun a b h' => h a b (h'.trans hsub)

theorem supports_cons_cons {rest : List (K × K)} :
    Supports (b :: a :: rest) q ↔ 0 ≤ turn a b q ∧ Supports (a :: rest) q := by
  constructor
  · intro h
    exact ⟨h a b ⟨[], rest, rfl⟩, h.within (suffix_cons b _).isInfix⟩
  · intro h a' b' hinfix
    rcases infix_cons_iff.mp hinfix with hprefix | hinfix
    · obtain ⟨tail, htail⟩ := hprefix
      simp only [cons_append, nil_append, cons.injEq] at htail
      obtain ⟨rfl, rfl, -⟩ := htail
      exact h.1
    · exact h.2 a' b' hinfix

theorem supports_singleton : Supports [p] q := fun a b h => by
  have hlength := h.length_le
  simp at hlength

variable [IsStrictOrderedRing K]

/-! ## Longer chains -/

section Cone

variable (hD : Forward D)

include hD

theorem turn_pos_trans (hab : D (b - a)) (hbc : D (c - b)) (hcd : D (d - c))
    (h : 0 < turn a b c) (h' : 0 < turn b c d) : 0 < turn a c d ∧ 0 < turn a b d := by
  rw [turn_edges] at h h'
  have hskip := hD.wedge_pos_left hab hbc hcd h h'.le
  have hac : c - a = (b - a) + (c - b) := by abel
  have hbd : d - b = (c - b) + (d - c) := by abel
  rw [turn_edges, turn_edges, hac, add_wedge, hbd, wedge_add]
  exact ⟨add_pos hskip h', add_pos h hskip⟩

theorem ConvexChain.extend {rest : List (K × K)} (h : ConvexChain D (t :: rest)) (hp : D (p - t))
    (hturn : ∀ a rest', rest = a :: rest' → 0 < turn a t p) :
    ConvexChain D (p :: t :: rest) := by
  have hsorted := pairwise_cons.mp h.sorted
  -- every earlier point turns to the left at the last one
  have htop : ∀ a ∈ rest, 0 < turn a t p := by
    intro a ha
    cases rest with
    | nil => cases ha
    | cons b rest =>
      have hb := hturn b rest rfl
      rcases mem_cons.mp ha with rfl | ha
      · exact hb
      · have hsub : [t, b, a].Sublist (t :: b :: rest) :=
          ((singleton_sublist.mpr ha).cons_cons b).cons_cons t
        exact (turn_pos_trans hD ((pairwise_cons.mp hsorted.2).1 a ha)
          (hsorted.1 b mem_cons_self) hp (h.turns a b t hsub) hb).1
  refine ⟨pairwise_cons.mpr ⟨fun a ha => ?_, h.sorted⟩, fun a b c hsub => ?_⟩
  · rcases mem_cons.mp ha with rfl | ha
    · exact hp
    · have hsum : p - a = (p - t) + (t - a) := by abel
      rw [hsum]
      exact hD.add _ _ hp (hsorted.1 a ha)
  · cases hsub with
    | cons _ hsub => exact h.turns a b c hsub
    | cons_cons _ hsub =>
      cases hsub with
      | cons _ hsub =>
        have hb : b ∈ rest := hsub.subset (by simp)
        have hab := pairwise_cons.mp ((pairwise_cons.mp h.sorted).2.sublist hsub)
        exact (turn_pos_trans hD (hab.1 a (by simp)) (hsorted.1 b hb) hp
          (h.turns a b t (hsub.cons_cons t)) (htop b hb)).2
      | cons_cons _ hsub => exact htop a (hsub.subset (by simp))

/-- A chain to whose left a further point lies is on the left of that point's edge. -/
theorem turn_nonneg_behind (hat : D (t - a)) (htp : D (p - t)) (hp : 0 ≤ turn a t p)
    (hq : 0 ≤ turn a t q) (hbehind : q = t ∨ D (t - q)) : 0 ≤ turn t p q := by
  rcases hbehind with rfl | hbehind
  · rw [turn_left]
  · rw [turn_edges] at hp hq
    have hback : wedge (t - a) (q - t) = wedge (t - q) (t - a) := by
      simp only [wedge, Prod.fst_sub, Prod.snd_sub]
      ring
    rw [hback] at hq
    have h := hD.wedge_nonneg hbehind hat htp hq hp
    have hturn : turn t p q = wedge (t - q) (p - t) := by
      simp only [turn, wedge, Prod.fst_sub, Prod.snd_sub]
      ring
    rw [hturn]
    exact h

/-- What is to the left of an edge is to the left of every direction on its right. -/
theorem turn_nonneg_ahead (htc : D (c - t)) (htp : D (p - t)) (htq : D (q - t))
    (hp : turn t c p ≤ 0) (hq : 0 ≤ turn t c q) : 0 ≤ turn t p q := by
  have hp' : 0 ≤ turn t p c := by
    rw [turn_swap]
    exact neg_nonneg.mpr hp
  exact hD.wedge_nonneg htp htc htq hp' hq

/-- A point where a chain in the opposite direction turns lies strictly to the left of an edge
that has its neighbours on the left. -/
theorem turn_pos_opposite (hab : D (b - a)) (hdv : D (d - v)) (hvc : D (v - c))
    (hturn : 0 < turn d v c) (hd : 0 ≤ turn a b d) (hc : 0 ≤ turn a b c) : 0 < turn a b v := by
  by_contra hv
  have hv' := not_lt.mp hv
  have hup : 0 ≤ wedge (b - a) (d - v) := by
    have hdiff : wedge (b - a) (d - v) = turn a b d - turn a b v := by
      simp only [turn, wedge, Prod.fst_sub, Prod.snd_sub]
      ring
    rw [hdiff]
    exact sub_nonneg.mpr (hv'.trans hd)
  have hdown : 0 ≤ wedge (v - c) (b - a) := by
    have hdiff : wedge (v - c) (b - a) = turn a b c - turn a b v := by
      simp only [turn, wedge, Prod.fst_sub, Prod.snd_sub]
      ring
    rw [hdiff]
    exact sub_nonneg.mpr (hv'.trans hc)
  have hle := hD.wedge_nonneg hvc hab hdv hdown hup
  have hflip : turn d v c = -wedge (v - c) (d - v) := by
    simp only [turn, wedge, Prod.fst_sub, Prod.snd_sub]
    ring
  rw [hflip] at hturn
  exact absurd hle (not_le.mpr (neg_pos.mp hturn))

omit hD in
theorem exists_smul_of_wedge (hu : p ≠ 0) (h : wedge p q = 0) : ∃ s : K, q = s • p := by
  have hcross : p.1 * q.2 = p.2 * q.1 := sub_eq_zero.mp h
  by_cases h1 : p.1 = 0
  · have h2 : p.2 ≠ 0 := fun h2 => hu (Prod.ext h1 h2)
    have hq : q.1 = 0 := by
      rw [h1, zero_mul] at hcross
      exact (mul_eq_zero.mp hcross.symm).resolve_left h2
    refine ⟨q.2 / p.2, Prod.ext ?_ ?_⟩
    · rw [Prod.smul_fst, h1, hq, smul_zero]
    · rw [Prod.smul_snd, smul_eq_mul, div_mul_cancel₀ _ h2]
  · refine ⟨q.1 / p.1, Prod.ext ?_ ?_⟩
    · rw [Prod.smul_fst, smul_eq_mul, div_mul_cancel₀ _ h1]
    · rw [Prod.smul_snd, smul_eq_mul, div_mul_eq_mul_div, eq_div_iff h1, mul_comm, hcross, mul_comm]

theorem mem_segment_of_turn (hqa : q = a ∨ D (q - a)) (hqb : q = b ∨ D (b - q))
    (h : turn a b q = 0) : q ∈ segment K a b := by
  rcases hqa with rfl | hqa
  · exact left_mem_segment K q b
  rcases hqb with rfl | hqb
  · exact right_mem_segment K a q
  have hab : D (b - a) := by
    have hsum : b - a = (b - q) + (q - a) := by abel
    rw [hsum]
    exact hD.add _ _ hqb hqa
  have hne : b - a ≠ 0 := fun hzero => hD.zero (hzero ▸ hab)
  obtain ⟨s, hs⟩ := exists_smul_of_wedge hne h
  have hpos : 0 < s := hD.pos_of_smul hab (hs ▸ hqa)
  have hrest : b - q = (1 - s) • (b - a) := by
    rw [sub_smul, one_smul, ← hs]
    abel
  have hless : 0 < 1 - s := hD.pos_of_smul hab (hrest ▸ hqb)
  refine ⟨1 - s, s, hless.le, hpos.le, sub_add_cancel 1 s, ?_⟩
  have hq : q = a + s • (b - a) := by
    rw [← hs]
    abel
  rw [hq, sub_smul, one_smul, smul_sub]
  abel

end Cone

theorem mem_triangle {o : K × K} {S : Set (K × K)} (hS : Convex K S) (ho : o ∈ S) (ha : a ∈ S)
    (hb : b ∈ S) (h : 0 < turn o a b) (hoa : 0 ≤ turn o a q) (hab : 0 ≤ turn a b q)
    (hbo : 0 ≤ turn b o q) : q ∈ S := by
  have hweights : turn a b q / turn o a b + turn b o q / turn o a b + turn o a q / turn o a b =
      1 := by
    rw [← add_div, ← add_div, turn_split o a b q, div_eq_one_iff_eq]
    · ring
    · rw [← turn_split]
      exact h.ne'
  have hq : q = (turn a b q / turn o a b) • o + (turn b o q / turn o a b) • a +
      (turn o a q / turn o a b) • b := by
    have hsmul := congrArg ((turn o a b)⁻¹ • ·) (turn_smul o a b q)
    simp only [smul_add, smul_smul, inv_mul_cancel₀ h.ne', one_smul] at hsmul
    rw [div_eq_inv_mul, div_eq_inv_mul, div_eq_inv_mul]
    exact hsmul
  have hsum := hS.sum_mem (t := Finset.univ)
    (w := ![turn a b q / turn o a b, turn b o q / turn o a b, turn o a q / turn o a b])
    (z := ![o, a, b]) ?_ ?_ ?_
  · rw [Fin.sum_univ_three] at hsum
    rw [hq]
    exact hsum
  · intro i _
    fin_cases i
    · exact div_nonneg hab h.le
    · exact div_nonneg hbo h.le
    · exact div_nonneg hoa h.le
  · rw [Fin.sum_univ_three]
    exact hweights
  · intro i _
    fin_cases i
    · exact ho
    · exact ha
    · exact hb

/-- A point to the left of all edges lies in one of the triangles at the first vertex. -/
theorem mem_fan {o : K × K} {S : Set (K × K)} (hS : Convex K S) (ho : o ∈ S) :
    ∀ (a : K × K) (rest : List (K × K)), rest ≠ [] → (∀ v ∈ a :: rest, v ∈ S) →
      (∀ x y, [x, y] <:+: a :: rest → 0 < turn o x y ∧ 0 ≤ turn x y q) →
      0 ≤ turn o a q → (∀ l, (a :: rest).getLast? = some l → turn o l q ≤ 0) → q ∈ S
  | a, [], hne, _, _, _, _ => absurd rfl hne
  | a, b :: rest, _, hmem, hedges, hfirst, hlast => by
    obtain ⟨hturn, hleft⟩ := hedges a b ⟨[], rest, rfl⟩
    by_cases hb : turn o b q ≤ 0
    · have hbo : 0 ≤ turn b o q := by
        rw [turn_rotate, turn_swap]
        exact neg_nonneg.mpr hb
      exact mem_triangle hS ho (hmem a (by simp)) (hmem b (by simp)) hturn hfirst hleft hbo
    · refine mem_fan hS ho b rest ?_ (fun v hv => hmem v (mem_cons_of_mem _ hv))
        (fun x y h => hedges x y (h.trans (suffix_cons a _).isInfix)) (not_le.mp hb).le
        fun l hl => hlast l (by rw [getLast?_cons_cons]; exact hl)
      intro hnil
      subst hnil
      exact hb (hlast b rfl)

/-- The convex hull of the vertices of a polygon. -/
def enclosed (vertices : List (K × K)) : Set (K × K) := convexHull K {v | v ∈ vertices}

section Enclosed

variable {vertices vertices' : List (K × K)}

omit [IsStrictOrderedRing K]

theorem mem_enclosed (h : v ∈ vertices) : v ∈ enclosed vertices := subset_convexHull K _ h

theorem convex_enclosed (vertices : List (K × K)) : Convex K (enclosed vertices) :=
  convex_convexHull K _

theorem enclosed_subset (h : ∀ v ∈ vertices, v ∈ enclosed vertices') :
    enclosed vertices ⊆ enclosed vertices' :=
  convexHull_min h (convex_enclosed vertices')

theorem enclosed_nil : enclosed ([] : List (K × K)) = ∅ := by
  have hempty : {v | v ∈ ([] : List (K × K))} = ∅ := Set.ext fun v => by simp
  rw [enclosed, hempty, convexHull_empty]

theorem enclosed_singleton (a : K × K) [IsStrictOrderedRing K] : enclosed [a] = {a} := by
  have hone : {v | v ∈ [a]} = {a} := Set.ext fun v => by simp
  rw [enclosed, hone, convexHull_singleton]

theorem enclosed_pair (a b : K × K) [IsStrictOrderedRing K] : enclosed [a, b] = segment K a b := by
  have htwo : {v | v ∈ [a, b]} = {a, b} := Set.ext fun v => by simp
  rw [enclosed, htwo, convexHull_pair]

end Enclosed

end GeneGIS.Planar
