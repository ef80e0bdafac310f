/-
Among the paths between the ends of a convex chain that stay on its left, the chain itself sweeps
the most.
-/
import GeneGIS.Data.Planar
import Mathlib.Tactic.Linarith

namespace GeneGIS.Planar

open List Prod

variable {K : Type} [Field K]

/-- Paths list their points from the last to the first. -/
def swept : List (K × K) → K
  | b :: a :: rest => wedge a b + swept (a :: rest)
  | _ => 0

theorem swept_cons_cons (a b : K × K) (rest : List (K × K)) :
    swept (b :: a :: rest) = wedge a b + swept (a :: rest) := rfl

theorem swept_append (a : K × K) : ∀ front rest : List (K × K),
    swept (front ++ a :: rest) = swept (front ++ [a]) + swept (a :: rest)
  | [], rest => (zero_add _).symm
  | [b], rest => by
    show wedge a b + swept (a :: rest) = wedge a b + 0 + swept (a :: rest)
    rw [add_zero]
  | c :: b :: front, rest => by
    have ih : swept (b :: (front ++ a :: rest)) =
        swept (b :: (front ++ [a])) + swept (a :: rest) := swept_append a (b :: front) rest
    show wedge b c + swept (b :: (front ++ a :: rest)) =
      wedge b c + swept (b :: (front ++ [a])) + swept (a :: rest)
    rw [ih, add_assoc]

theorem turn_wedge (o a b : K × K) : turn o a b = wedge o a + wedge a b - wedge o b := by
  simp only [turn, wedge, fst_sub, snd_sub]
  ring

variable [LinearOrder K] {D : K × K → Prop}

/-- Paths that run in the directions of a cone, or stay. -/
def Running (D : K × K → Prop) (path : List (K × K)) : Prop :=
  path.Pairwise fun b a => b = a ∨ D (b - a)

variable [IsStrictOrderedRing K] {a b : K × K}

omit [LinearOrder K] [IsStrictOrderedRing K] in
theorem Running.last_le {path : List (K × K)} (h : Running D path) {v : K × K} (hv : v ∈ path)
    (ha : path.getLast? = some a) : v = a ∨ D (v - a) := by
  obtain ⟨front, rfl⟩ := getLast?_eq_some_iff.mp ha
  rcases mem_append.mp hv with hv | hv
  · exact (pairwise_append.mp h).2.2 v hv a (mem_singleton_self a)
  · exact .inl (mem_singleton.mp hv)

omit [LinearOrder K] [IsStrictOrderedRing K] in
theorem Running.le_head {path : List (K × K)} (h : Running D path) {v : K × K} (hv : v ∈ path)
    (hb : path.head? = some b) : b = v ∨ D (b - v) := by
  obtain ⟨rest, rfl⟩ := head?_eq_some_iff.mp hb
  rcases mem_cons.mp hv with rfl | hv
  · exact .inl rfl
  · exact (pairwise_cons.mp h).1 v hv

omit [LinearOrder K] [IsStrictOrderedRing K] in
theorem swept_of_vertical : ∀ {v : K × K} {rest : List (K × K)},
    (v :: rest).getLast? = some a → (∀ w ∈ v :: rest, w.1 = a.1) → swept (v :: rest) = wedge a v
  | v, [], hlast, _ => by
    rw [getLast?_singleton, Option.some.injEq] at hlast
    rw [hlast, wedge_self]
    rfl
  | w, v :: rest, hlast, hline => by
    rw [getLast?_cons_cons] at hlast
    have ih := swept_of_vertical hlast fun x hx => hline x (mem_cons_of_mem _ hx)
    have hw := hline w (by simp)
    have hv := hline v (by simp)
    rw [swept_cons_cons, ih]
    simp only [wedge, hw, hv]
    ring

/-- The area against the height above the line, weighted by how far the path has come. -/
theorem swept_weighted {σ : K} (hσ : ∀ u, D u → 0 ≤ σ * u.1) :
    ∀ {v : K × K} {rest : List (K × K)}, Running D (v :: rest) →
      (v :: rest).getLast? = some a → (∀ w ∈ v :: rest, 0 ≤ turn a b w) →
      σ * (b - a).1 * (swept (v :: rest) - wedge a v) ≤ σ * (v - a).1 * turn a b v
  | v, [], _, hlast, _ => by
    rw [getLast?_singleton, Option.some.injEq] at hlast
    rw [hlast, wedge_self, sub_self, fst_zero, mul_zero, zero_mul,
      show swept [a] = 0 from rfl, sub_zero, mul_zero]
  | w, v :: rest, hrun, hlast, hleft => by
    obtain ⟨hbefore, hrun'⟩ := pairwise_cons.mp hrun
    rw [getLast?_cons_cons] at hlast
    have ih := swept_weighted hσ hrun' hlast fun x hx => hleft x (mem_cons_of_mem _ hx)
    have hstep : 0 ≤ σ * (w - v).1 := by
      rcases hbefore v mem_cons_self with rfl | hwv
      · rw [sub_self, fst_zero, mul_zero]
      · exact hσ _ hwv
    have hheight : 0 ≤ turn a b w + turn a b v := add_nonneg (hleft w (by simp)) (hleft v (by simp))
    have hgain := mul_nonneg hstep hheight
    have hsplit : σ * (b - a).1 * (swept (w :: v :: rest) - wedge a w) =
        σ * (b - a).1 * (swept (v :: rest) - wedge a v) +
          (σ * (v - a).1 * turn a b w - σ * (w - a).1 * turn a b v) := by
      rw [swept_cons_cons]
      simp only [turn, wedge, fst_sub, snd_sub]
      ring
    have hrest : σ * (w - a).1 * turn a b w -
        (σ * (v - a).1 * turn a b v + (σ * (v - a).1 * turn a b w - σ * (w - a).1 * turn a b v)) =
          σ * (w - v).1 * (turn a b w + turn a b v) := by
      simp only [fst_sub]
      ring
    rw [hsplit]
    linarith

section Cone

variable (hD : Forward D) {path : List (K × K)}

include hD

/-- A path to the left of the line between its ends sweeps at most what the line does. -/
theorem swept_le_wedge (hrun : Running D path) (hhead : path.head? = some b)
    (hlast : path.getLast? = some a) (hleft : ∀ v ∈ path, 0 ≤ turn a b v) :
    swept path ≤ wedge a b := by
  obtain ⟨σ, hσ⟩ := hD.side
  obtain ⟨rest, rfl⟩ := head?_eq_some_iff.mp hhead
  have hweak : ∀ u v : K × K, u = v ∨ D (u - v) → 0 ≤ σ * (u - v).1 := by
    intro u v h
    rcases h with rfl | h
    · rw [sub_self, fst_zero, mul_zero]
    · exact (hσ _ h).1
  have hwidth := hweak b a (hrun.last_le mem_cons_self hlast)
  rcases hwidth.eq_or_lt with hzero | hpos
  · refine (swept_of_vertical hlast fun v hv => ?_).le
    have hva := hrun.last_le hv hlast
    have hbv := hweak b v (hrun.le_head hv rfl)
    have hsum : σ * (b - a).1 = σ * (b - v).1 + σ * (v - a).1 := by
      simp only [fst_sub]
      ring
    have hnone : σ * (v - a).1 = 0 := le_antisymm (by linarith) (hweak v a hva)
    rcases hva with rfl | hva
    · rfl
    · exact sub_eq_zero.mp ((hσ _ hva).2 hnone)
  · have h := swept_weighted (fun u hu => (hσ u hu).1) hrun hlast hleft
    rw [turn_right, mul_zero] at h
    exact sub_nonpos.mp (nonpos_of_mul_nonpos_right h hpos)

omit [IsStrictOrderedRing K] in
theorem exists_passage : ∀ {v : K × K} {rest : List (K × K)} {z : K × K},
    (∀ w ∈ v :: rest, w = a ∨ D (w - a) ∨ D (a - w)) → D (v - a) →
      (v :: rest).getLast? = some z → (z = a ∨ D (a - z)) →
      ∃ front w u low, v :: rest = front ++ w :: u :: low ∧ D (w - a) ∧ (u = a ∨ D (a - u))
  | v, [], z, _, hv, hlast, hz => by
    rw [getLast?_singleton, Option.some.injEq] at hlast
    rw [← hlast] at hz
    rcases hz with hz | hz
    · rw [hz, sub_self] at hv
      exact absurd hv hD.zero
    · rw [← neg_sub] at hz
      exact absurd hz (hD.not_neg hv)
  | v, u :: rest, z, hcompare, hv, hlast, hz => by
    rcases hcompare u (by simp) with hu | hu | hu
    · exact ⟨[], v, u, rest, rfl, hv, .inl hu⟩
    · rw [getLast?_cons_cons] at hlast
      obtain ⟨front, w, x, low, heq, hw, hx⟩ := exists_passage
        (fun w hw => hcompare w (mem_cons_of_mem _ hw)) hu hlast hz
      exact ⟨v :: front, w, x, low, by rw [heq]; rfl, hw, hx⟩
    · exact ⟨[], v, u, rest, rfl, hv, .inr hu⟩

/-- At a point of the chain a path on its left turns to the left, if it takes the point in. -/
theorem turn_nonneg_passage {b z u w : K × K} {rest : List (K × K)}
    (hconvex : ConvexChain D (b :: a :: rest)) (hu : Supports (b :: a :: rest) u)
    (hw : Supports (b :: a :: rest) w) (haw : D (w - a)) (hua : u = a ∨ D (a - u))
    (hend : (a :: rest).getLast? = some z) (hz : u = z ∨ D (u - z)) : 0 ≤ turn u a w := by
  rcases hua with hua | hua
  · rw [hua, turn_start]
  · cases rest with
    | nil =>
      rw [getLast?_singleton, Option.some.injEq] at hend
      rw [← hend] at hz
      rcases hz with hz | hz
      · rw [hz, sub_self] at hua
        exact absurd hua hD.zero
      · rw [← neg_sub] at hz
        exact absurd hz (hD.not_neg hua)
    | cons a' rest =>
      have hsorted := pairwise_cons.mp hconvex.sorted
      have hbelow : D (a - a') := (pairwise_cons.mp hsorted.2).1 a' mem_cons_self
      have habove : D (b - a) := hsorted.1 a mem_cons_self
      have hcorner := hconvex.turns a' a b (sublist_append_left [b, a, a'] rest)
      have hlow := hu a' a ⟨[b], rest, rfl⟩
      have hlow' : turn a' a u = wedge (a - u) (a - a') := by
        simp only [turn, wedge, fst_sub, snd_sub]
        ring
      rw [hlow'] at hlow
      rw [turn_edges] at hcorner ⊢
      exact hD.wedge_nonneg hua habove haw (hD.wedge_nonneg hua hbelow habove hlow hcorner.le)
        (hw a b ⟨[], a' :: rest, rfl⟩)

theorem swept_le : ∀ {b z : K × K} {chain path : List (K × K)}, ConvexChain D (b :: chain) →
    (∀ v ∈ path, Supports (b :: chain) v) → (∀ a ∈ b :: chain, Supports (b :: chain) a) →
    Running D path → (∀ v ∈ path, ∀ a ∈ b :: chain, v = a ∨ D (v - a) ∨ D (a - v)) →
    path.head? = some b → (b :: chain).getLast? = some z → path.getLast? = some z →
    swept path ≤ swept (b :: chain)
  | b, z, [], path, _, _, _, hrun, _, hhead, hend, hlast => by
    rw [getLast?_singleton, Option.some.injEq] at hend
    have hline : ∀ v ∈ path, 0 ≤ turn b b v := fun v _ => (turn_start b v).ge
    have h := swept_le_wedge hD hrun hhead (hend ▸ hlast) hline
    rw [wedge_self] at h
    exact h
  | b, z, a :: rest, path, hconvex, hleft, hself, hrun, hcompare, hhead, hend, hlast => by
    have hab : D (b - a) := (pairwise_cons.mp hconvex.sorted).1 a mem_cons_self
    rw [getLast?_cons_cons] at hend
    have hza : z = a ∨ D (a - z) := by
      obtain ⟨front, hfront⟩ := getLast?_eq_some_iff.mp hend
      have hsorted := (pairwise_cons.mp hconvex.sorted).2
      cases front with
      | nil => exact .inl (cons.inj hfront).1.symm
      | cons x front =>
        obtain ⟨rfl, hrest⟩ := cons.inj hfront
        rw [hrest] at hsorted
        exact .inr ((pairwise_cons.mp hsorted).1 z (by simp))
    obtain ⟨tail, rfl⟩ := head?_eq_some_iff.mp hhead
    obtain ⟨front, w, u, low, hpath, hw, hu⟩ := exists_passage hD
      (fun v hv => hcompare v hv a (by simp)) hab hlast hza
    rw [hpath] at hleft hrun hcompare hlast hhead ⊢
    obtain ⟨hfront, hback, hcross⟩ := pairwise_append.mp hrun
    obtain ⟨hwlow, hlow⟩ := pairwise_cons.mp hback
    have hulow := (pairwise_cons.mp hlow).1
    have hlast' : (u :: low).getLast? = some z := by
      rw [getLast?_append_of_ne_nil _ (cons_ne_nil _ _), getLast?_cons_cons] at hlast
      exact hlast
    -- from the point on: a path to the left of the edge
    have habove : ∀ v ∈ front ++ [w], D (v - a) := by
      intro v hv
      rcases mem_append.mp hv with hv | hv
      · rcases hcross v hv w mem_cons_self with rfl | hvw
        · exact hw
        · have hsum : v - a = (v - w) + (w - a) := by abel
          rw [hsum]
          exact hD.add _ _ hvw hw
      · rw [mem_singleton.mp hv]
        exact hw
    have htop : swept (front ++ [w] ++ [a]) ≤ wedge a b := by
      refine swept_le_wedge hD ?_ ?_ getLast?_concat fun v hv => ?_
      · refine pairwise_append.mpr ⟨?_, pairwise_singleton _ _, fun v hv x hx => ?_⟩
        · have hsub : (front ++ [w]).Sublist (front ++ w :: u :: low) :=
            Sublist.append_left (singleton_sublist.mpr mem_cons_self) front
          exact hrun.sublist hsub
        · rw [mem_singleton.mp hx]
          exact .inr (habove v hv)
      · cases front with
        | nil => exact hhead
        | cons x front => exact hhead
      · rcases mem_append.mp hv with hv | hv
        · have hmem : v ∈ front ++ w :: u :: low := by
            rcases mem_append.mp hv with hv | hv
            · exact mem_append_left _ hv
            · rw [mem_singleton.mp hv]
              exact mem_append_right _ mem_cons_self
          exact hleft v hmem a b ⟨[], rest, rfl⟩
        · rw [mem_singleton.mp hv, turn_left]
    have hbottom : swept (a :: u :: low) ≤ swept (a :: rest) := by
      have hsorted := pairwise_cons.mp (pairwise_cons.mp hconvex.sorted).2
      have hinner : ∀ v, Supports (b :: a :: rest) v → Supports (a :: rest) v := fun v h =>
        h.within (suffix_cons b _).isInfix
      refine swept_le (hconvex.sublist (sublist_cons_self b _)) (fun v hv => ?_)
        (fun v hv => hinner v (hself v (mem_cons_of_mem _ hv))) ?_ (fun v hv x hx => ?_) rfl
        hend (by rw [getLast?_cons_cons]; exact hlast')
      · rcases mem_cons.mp hv with rfl | hv
        · exact hinner _ (hself _ (by simp))
        · exact hinner v (hleft v (mem_append_right _ (mem_cons_of_mem _ hv)))
      · refine pairwise_cons.mpr ⟨fun v hv => ?_, hlow⟩
        rcases mem_cons.mp hv with rfl | hv
        · exact hu.imp Eq.symm id
        · rcases hu with rfl | hu
          · exact hulow v hv
          · rcases hulow v hv with rfl | huv
            · exact .inr hu
            · have hsum : a - v = (a - u) + (u - v) := by abel
              rw [hsum]
              exact .inr (hD.add _ _ hu huv)
      · rcases mem_cons.mp hv with rfl | hv
        · rcases mem_cons.mp hx with rfl | hx
          · exact .inl rfl
          · exact .inr (.inl (hsorted.1 x hx))
        · exact hcompare v (mem_append_right _ (mem_cons_of_mem _ hv)) x (mem_cons_of_mem _ hx)
    have hturn : 0 ≤ turn u a w := turn_nonneg_passage hD hconvex
      (hleft u (by simp)) (hleft w (by simp)) hw hu hend
      (Running.last_le hlow mem_cons_self hlast')
    rw [turn_wedge] at hturn
    rw [swept_append, swept_cons_cons]
    rw [append_assoc, singleton_append, swept_append, swept_cons_cons,
      show swept [a] = 0 from rfl, add_zero] at htop
    rw [swept_cons_cons] at hbottom
    rw [swept_cons_cons]
    linarith

end Cone

end GeneGIS.Planar
