/-
In degrees the hull of more points has no smaller area, but a vertex more can move the mean
latitude, and with it the scale, away from the equator.
-/
import GeneGIS.Data.Swept
import GeneGIS.Network.ConvexHull

namespace GeneGIS.Network.Hull

open Planar List

variable {K : Type} [Field K]

/-! ## Around a polygon -/

/-- Twice the area of a polygon in square degrees. -/
def around (vertices : List (K × K)) : K :=
  ((edges vertices).map fun edge => wedge edge.1 edge.2).sum

theorem sum_zip_eq_swept (y : K × K) : ∀ (x : K × K) (xs : List (K × K)),
    (((x :: xs).zip (xs ++ [y])).map fun edge => wedge edge.1 edge.2).sum =
      swept (x :: xs ++ [y]).reverse
  | x, [] => rfl
  | x, x' :: xs => by
    have ih := sum_zip_eq_swept y x' xs
    have hreverse : (x :: x' :: xs ++ [y]).reverse = (xs ++ [y]).reverse ++ x' :: [x] := by simp
    have hreverse' : (x' :: xs ++ [y]).reverse = (xs ++ [y]).reverse ++ [x'] := by simp
    have hsplit := swept_append x' (xs ++ [y]).reverse [x]
    have hone : swept [x', x] = wedge x x' := add_zero _
    rw [cons_append, zip_cons_cons, map_cons, sum_cons, ih, hreverse, hreverse',
      hsplit, hone, add_comm]

theorem around_eq_swept (vertices : List (K × K)) :
    around vertices = swept (boundary vertices).reverse := by
  cases vertices with
  | nil => rfl
  | cons o rest =>
    have hrotate : (o :: rest).rotate 1 = rest ++ [o] := by
      rw [rotate_cons_succ, rotate_zero]
    rw [around, edges, hrotate, sum_zip_eq_swept]
    rfl

theorem around_short {vertices : List (K × K)} (h : vertices.length < 3) : around vertices = 0 := by
  rw [around_eq_swept]
  match vertices, h with
  | [], _ => rfl
  | [a], _ =>
    show wedge a a + 0 = 0
    rw [wedge_self, add_zero]
  | [a, b], _ =>
    show wedge b a + (wedge a b + 0) = 0
    rw [wedge_swap, add_zero, neg_add_cancel]

variable [LinearOrder K] {D D' : K × K → Prop} {points points' : List (K × K)}
  {first last first' last' v : K × K} {chain lows ups lows' ups' : List (K × K)}

theorem Closed.around_eq (h : Closed D D' points first last lows ups) :
    Hull.around (lows.reverse ++ ups.reverse) = swept (last :: lows) + swept (first :: ups) := by
  obtain ⟨front, rfl⟩ := getLast?_eq_some_iff.mp h.upEnd
  have hreverse : (lows.reverse ++ (first :: (front ++ [last])).reverse).reverse =
      (first :: front) ++ last :: lows := by simp
  rw [around_eq_swept, h.boundary_eq, hreverse, swept_append, add_comm]
  rfl

variable [IsStrictOrderedRing K]

theorem Spanning.swept_le (hD : Forward D) (h : Spanning D points chain)
    (hsorted : points.Pairwise fun a b => D (b - a)) {path : List (K × K)} (hrun : Running D path)
    (hmem : ∀ v ∈ path, v ∈ points) (hhead : path.head? = points.getLast?)
    (hlast : path.getLast? = points.head?) : swept path ≤ swept chain := by
  cases chain with
  | nil =>
    have hnil : path = [] := by
      have hnone := h.last
      rw [← hhead] at hnone
      exact head?_eq_none_iff.mp hnone.symm
    rw [hnil]
  | cons b rest =>
    obtain ⟨z, hz⟩ : ∃ z, (b :: rest).getLast? = some z :=
      ⟨_, getLast?_eq_some_getLast (cons_ne_nil b rest)⟩
    refine Planar.swept_le hD h.convex (fun v hv => h.left v (hmem v hv))
      (fun a ha => h.left a (h.members a ha)) hrun
      (fun v hv a ha => (compare_of_pairwise hsorted (hmem v hv) (h.members a ha)).imp id Or.symm)
      ?_ hz ?_
    · rw [hhead, ← h.last]
      rfl
    · rw [hlast, ← h.first, hz]

omit [LinearOrder K] [IsStrictOrderedRing K] in
theorem swept_extended {l l' f f' : K × K} (hhead : chain.head? = some l)
    (hlast : chain.getLast? = some f) :
    swept (l' :: (chain ++ [f'])) = wedge l l' + swept chain + wedge f' f := by
  obtain ⟨rest, rfl⟩ := head?_eq_some_iff.mp hhead
  obtain ⟨front, hfront⟩ := getLast?_eq_some_iff.mp hlast
  rw [cons_append, swept_cons_cons, ← cons_append, hfront, append_assoc,
    singleton_append, swept_append, swept_cons_cons, show swept [f'] = 0 from rfl, add_zero,
    add_assoc]

/-- The chain of more points sweeps no less than that of fewer, with the ways to its ends. -/
theorem Spanning.swept_mono (hD : Forward D) (h : Spanning D points chain)
    {chain' : List (K × K)} (h' : Spanning D points' chain')
    (hsorted' : points'.Pairwise fun a b => D (b - a)) (hsub : ∀ q ∈ points, q ∈ points')
    (hhead : chain.head? = some last) (hlast : chain.getLast? = some first)
    (hhead' : points'.getLast? = some last') (hlast' : points'.head? = some first') :
    wedge last last' + swept chain + wedge first' first ≤ swept chain' := by
  have hmem : ∀ v ∈ chain, v ∈ points' := fun v hv => hsub v (h.members v hv)
  have hbelow : ∀ v ∈ points', last' = v ∨ D (last' - v) := by
    intro v hv
    obtain ⟨front, hfront⟩ := getLast?_eq_some_iff.mp hhead'
    rw [hfront] at hv hsorted'
    rcases mem_append.mp hv with hv | hv
    · exact .inr ((pairwise_append.mp hsorted').2.2 v hv last' (mem_singleton_self _))
    · exact .inl (mem_singleton.mp hv).symm
  have habove : ∀ v ∈ points', v = first' ∨ D (v - first') := by
    intro v hv
    obtain ⟨rest, hrest⟩ := head?_eq_some_iff.mp hlast'
    rw [hrest] at hv hsorted'
    exact (mem_cons.mp hv).imp id fun hv => (pairwise_cons.mp hsorted').1 v hv
  have hfirst' : first' ∈ points' := mem_of_head? hlast'
  have hlastmem : last' ∈ points' := mem_of_getLast? hhead'
  rw [← swept_extended hhead hlast]
  refine h'.swept_le hD hsorted' ?_ (fun v hv => ?_) hhead'.symm ?_
  · refine pairwise_cons.mpr ⟨fun v hv => ?_, pairwise_append.mpr
      ⟨h.convex.sorted.imp fun h => .inr h, pairwise_singleton _ _, fun v hv x hx => ?_⟩⟩
    · rcases mem_append.mp hv with hv | hv
      · exact hbelow v (hmem v hv)
      · rw [mem_singleton.mp hv]
        exact hbelow first' hfirst'
    · rw [mem_singleton.mp hx]
      exact habove v (hmem v hv)
  · rcases mem_cons.mp hv with rfl | hv
    · exact hlastmem
    · rcases mem_append.mp hv with hv | hv
      · exact hmem v hv
      · rw [mem_singleton.mp hv]
        exact hfirst'
  · rw [hlast', ← cons_append]
    exact getLast?_concat

/-- What belongs to the ends of the points, in either direction. -/
structure Ends (D : K × K → Prop) (points : List (K × K)) (first last : K × K) : Prop where
  sorted : points.Pairwise fun a b => D (b - a)
  head : points.head? = some first
  last : points.getLast? = some last

omit [LinearOrder K] [IsStrictOrderedRing K] in
theorem Ends.swap (h : Ends D points first last) (hopposite : ∀ u, D' u ↔ D (-u)) :
    Ends D' points.reverse last first where
  sorted := by
    rw [pairwise_reverse]
    refine List.Pairwise.imp ?_ h.sorted
    intro a b hab
    rw [hopposite, neg_sub]
    exact hab
  head := by rw [head?_reverse, h.last]
  last := by rw [getLast?_reverse, h.head]

theorem Closed.around_mono (h : Closed D D' points first last lows ups)
    (h' : Closed D D' points' first' last' lows' ups')
    (hends' : Ends D points' first' last') (hsub : ∀ q ∈ points, q ∈ points') :
    Hull.around (lows.reverse ++ ups.reverse) ≤ Hull.around (lows'.reverse ++ ups'.reverse) := by
  have hlowEnd : (last :: lows).getLast? = some first := by
    rw [getLast?_cons_of_ne_nil h.lows_ne, h.lowEnd]
  have hupEnd : (first :: ups).getLast? = some last := by
    rw [getLast?_cons_of_ne_nil h.swap.lows_ne, h.upEnd]
  have hlower := h.around.lower.swept_mono h.around.forward h'.around.lower hends'.sorted hsub
    rfl hlowEnd hends'.last hends'.head
  have hswap := hends'.swap h.around.opposite
  have hupper := h.around.upper.swept_mono h.around.swap.forward h'.around.upper hswap.sorted
    (fun q hq => mem_reverse.mpr (hsub q (mem_reverse.mp hq))) rfl hupEnd
    hswap.last hswap.head
  rw [h.around_eq, h'.around_eq]
  have hcancel := wedge_swap last last'
  have hcancel' := wedge_swap first first'
  linarith

section Area

variable (h : Closed D D' points first last lows ups) (hends : Ends D points first last)

include h hends

theorem Closed.chord : wedge first last ≤ swept (last :: lows) := by
  have hrun : Running D [last, first] := pairwise_pair.mpr
    (Running.le_head (h.around.lower.convex.sorted.imp fun hab => .inr hab) h.ends_mem.1 rfl)
  have hle := h.around.lower.swept_le h.around.forward hends.sorted hrun (fun v hv => ?_)
    hends.last.symm hends.head.symm
  · rw [swept_cons_cons, show swept [first] = 0 from rfl, add_zero] at hle
    exact hle
  · simp only [mem_cons, not_mem_nil, or_false] at hv
    rcases hv with rfl | rfl
    · exact mem_of_getLast? hends.last
    · exact mem_of_head? hends.head

theorem Closed.chord_upper : wedge last first ≤ swept (first :: ups) :=
  h.swap.chord (hends.swap h.around.opposite)

theorem Closed.around_nonneg : 0 ≤ Hull.around (lows.reverse ++ ups.reverse) := by
  have hlower := h.chord hends
  have hupper := h.chord_upper hends
  have hcancel := wedge_swap first last
  rw [h.around_eq]
  linarith

theorem Closed.around_pos_of_low (hlows : 2 ≤ lows.length) :
    0 < Hull.around (lows.reverse ++ ups.reverse) := by
  match lows, hlows with
  | v :: u :: rest, _ =>
    have hfirst : first ∈ u :: rest := by
      have hend := h.lowEnd
      rw [getLast?_cons_cons] at hend
      exact mem_of_getLast? hend
    have hsub : [last, v, first].Sublist (last :: v :: u :: rest) :=
      ((singleton_sublist.mpr hfirst).cons_cons v).cons_cons last
    have hturn := h.around.lower.convex.turns first v last hsub
    have hle := h.around.lower.swept_le h.around.forward hends.sorted
      ((h.around.lower.convex.sorted.sublist hsub).imp fun hab => .inr hab)
      (fun x hx => h.around.lower.members x (hsub.subset hx)) hends.last.symm hends.head.symm
    rw [swept_cons_cons, swept_cons_cons, show swept [first] = 0 from rfl, add_zero] at hle
    have hupper := h.chord_upper hends
    have hcancel := wedge_swap first last
    rw [turn_wedge] at hturn
    rw [h.around_eq]
    linarith

theorem Closed.around_pos (hthree : 3 ≤ (lows.reverse ++ ups.reverse).length) :
    0 < Hull.around (lows.reverse ++ ups.reverse) := by
  rw [length_append, length_reverse, length_reverse] at hthree
  by_cases hlows : 2 ≤ lows.length
  · exact h.around_pos_of_low hends hlows
  · have hpos := h.swap.around_pos_of_low (hends.swap h.around.opposite) (by omega)
    rw [h.swap.around_eq] at hpos
    rw [h.around_eq]
    linarith

end Area

theorem around_nonneg (points : List (K × K)) : 0 ≤ around (convexHull points) := by
  obtain ⟨hsorted, -⟩ := dedup_spec points
  rcases convexHull_cases points with ⟨hshort, heq⟩ | ⟨-, first, last, lows, ups, h, hcase⟩
  · rw [heq, around_short hshort]
  · obtain ⟨hhead, hlast, heq⟩ := hcase
    rw [heq]
    exact h.around_nonneg ⟨hsorted, hhead, hlast⟩

theorem around_pos (hthree : 3 ≤ (convexHull points).length) : 0 < around (convexHull points) := by
  obtain ⟨hsorted, -⟩ := dedup_spec points
  rcases convexHull_cases points with ⟨hshort, heq⟩ | ⟨-, first, last, lows, ups, h, hcase⟩
  · rw [heq] at hthree
    omega
  · obtain ⟨hhead, hlast, heq⟩ := hcase
    rw [heq] at hthree ⊢
    exact h.around_pos ⟨hsorted, hhead, hlast⟩ hthree

theorem around_mono (hsub : ∀ q ∈ points, q ∈ points') :
    around (convexHull points) ≤ around (convexHull points') := by
  obtain ⟨hsorted, hmem⟩ := dedup_spec points
  obtain ⟨hsorted', hmem'⟩ := dedup_spec points'
  have hinside : ∀ q ∈ dedup (sortPoints points), q ∈ dedup (sortPoints points') := fun q hq =>
    (hmem' q).mpr (hsub q ((hmem q).mp hq))
  rcases convexHull_cases points with ⟨hshort, heq⟩ | ⟨hlong, first, last, lows, ups, h, -, -, heq⟩
  · rw [heq, around_short hshort]
    exact around_nonneg points'
  · rcases convexHull_cases points' with ⟨hshort', -⟩ | ⟨-, first', last', lows', ups', h', hcase⟩
    · have hle := (subperm_of_subset (nodup_dedup hsorted) hinside).length_le
      omega
    · obtain ⟨hhead', hlast', heq'⟩ := hcase
      rw [heq, heq']
      exact h.around_mono h' ⟨hsorted', hhead', hlast'⟩ hinside

omit [IsStrictOrderedRing K] in
theorem foldl_edgeTerm (lonScale latScale : K) : ∀ (l : List ((K × K) × (K × K))) (sum : K),
    l.foldl (fun sum edge => Quantity.add sum (edgeTerm lonScale latScale edge.1 edge.2)) sum =
      sum + lonScale * latScale * (l.map fun edge => wedge edge.1 edge.2).sum
  | [], sum => by rw [map_nil, sum_nil, mul_zero, add_zero]; rfl
  | edge :: l, sum => by
    have hterm : edgeTerm lonScale latScale edge.1 edge.2 =
        lonScale * latScale * wedge edge.1 edge.2 := by
      show edge.1.1 * lonScale * (edge.2.2 * latScale) -
        edge.2.1 * lonScale * (edge.1.2 * latScale) = _
      rw [wedge]
      ring
    rw [foldl_cons, foldl_edgeTerm lonScale latScale l, map_cons, sum_cons, hterm]
    show sum + lonScale * latScale * wedge edge.1 edge.2 + _ = _
    ring

/-- Square metres for twice a square degree, at a latitude. -/
def squareMeters (cosine : K → K) (lat : K) : K := 111320 * cosine lat * 111320 / 2

theorem squareMeters_pos {cosine : K → K} {lat : K} (h : 0 < cosine lat) :
    0 < squareMeters cosine lat := by
  rw [squareMeters]
  positivity

theorem polygonAreaM2_eq {cosine : K → K} {vertices : List (K × K)}
    (hpos : 0 < cosine (meanLat vertices)) (harea : 0 ≤ around vertices) :
    polygonAreaM2 cosine vertices = squareMeters cosine (meanLat vertices) * around vertices := by
  have hmeters : (metersPerDegree : K) = 111320 := Nat.cast_ofNat
  rw [polygonAreaM2]
  by_cases hshort : vertices.length < 3
  · rw [if_pos hshort, around_short hshort, mul_zero]
    exact Nat.cast_zero
  · rw [if_neg hshort]
    dsimp only
    rw [foldl_edgeTerm, ← around, ofNat_zero, zero_add, hmeters]
    have htwo : (Quantity.ofNat 2 : K) = 2 := Nat.cast_ofNat
    have hvalue : Quantity.div (Quantity.mul 111320 (cosine (meanLat vertices)) * 111320 *
        around vertices) (Quantity.ofNat 2) =
          squareMeters cosine (meanLat vertices) * around vertices := by
      rw [htwo, squareMeters]
      show 111320 * cosine (meanLat vertices) * 111320 * around vertices / 2 = _
      ring
    have hnonneg := mul_nonneg (squareMeters_pos hpos).le harea
    rw [hvalue]
    exact max_eq_left (by linarith)

/-! ## Larger thresholds -/

/-- A scale of the longitudes that shrinks away from the equator. -/
structure Shrinking (cosine : K → K) : Prop where
  pos : ∀ lat, 0 < cosine lat
  mono : ∀ lat lat', |lat| ≤ |lat'| → cosine lat' ≤ cosine lat
  strict : ∀ lat lat', |lat| < |lat'| → cosine lat' < cosine lat

def dropping (bound ε lat : K) : K :=
  if |lat| ≤ bound then 1 + 1 / (1 + |lat|) else ε / (1 + |lat|)

theorem shrinking_dropping {bound ε : K} (hpos : 0 < ε) (hle : ε ≤ 1) :
    Shrinking (dropping bound ε) := by
  have hone : ∀ lat : K, 0 < 1 + |lat| := fun lat => by positivity
  have hstrict : ∀ lat lat' : K, |lat| < |lat'| → dropping bound ε lat' < dropping bound ε lat := by
    intro lat lat' hlt
    have hfalls : ∀ c : K, 0 < c → c / (1 + |lat'|) < c / (1 + |lat|) := fun c hc =>
      div_lt_div_of_pos_left hc (hone lat) (by linarith)
    rw [dropping, dropping]
    by_cases hnear' : |lat'| ≤ bound
    · rw [if_pos hnear', if_pos (hlt.le.trans hnear')]
      have h := hfalls 1 one_pos
      linarith
    · rw [if_neg hnear']
      by_cases hnear : |lat| ≤ bound
      · rw [if_pos hnear]
        have hsmall : ε / (1 + |lat'|) ≤ 1 := by
          rw [div_le_one (hone lat')]
          have hnonneg := abs_nonneg lat'
          linarith
        have hinverse : 0 < 1 / (1 + |lat|) := one_div_pos.mpr (hone lat)
        linarith
      · rw [if_neg hnear]
        exact hfalls ε hpos
  refine ⟨fun lat => ?_, fun lat lat' hle => ?_, hstrict⟩
  · rw [dropping]
    split_ifs
    · exact add_pos one_pos (one_div_pos.mpr (hone lat))
    · exact div_pos hpos (hone lat)
  · rcases hle.eq_or_lt with heq | hlt
    · rw [dropping, dropping, heq]
    · exact (hstrict lat lat' hlt).le

section Isochrones

variable {graph : WalkGraph K} {origin : Nat} {t₁ t₂ : K}

def hullWithin (graph : WalkGraph K) (origin : Nat) (t : K) : List (K × K) :=
  convexHull (graph.reachable origin t)

theorem isochrone_areaM2 {cosine : K → K} (hcosine : Shrinking cosine) {t : K} {i : Isochrone K}
    (h : graph.isochrone cosine origin t = .ok i) : i.areaM2 =
      squareMeters cosine (meanLat (hullWithin graph origin t)) *
        around (hullWithin graph origin t) := by
  obtain ⟨-, -, rfl⟩ := isochrone_ok.mp h
  exact polygonAreaM2_eq (hcosine.pos _) (around_nonneg _)

theorem around_within (hle : t₁ ≤ t₂) :
    around (hullWithin graph origin t₁) ≤ around (hullWithin graph origin t₂) :=
  around_mono fun _ hq => reachable_mono hle hq

theorem exists_isochrones (hpos : 0 < t₁) (hle : t₁ ≤ t₂)
    (hthree : 3 ≤ (hullWithin graph origin t₁).length) (cosine : K → K) :
    ∃ i₁ i₂, graph.isochrone cosine origin t₁ = .ok i₁ ∧
      graph.isochrone cosine origin t₂ = .ok i₂ := by
  have hne : graph.reachable origin t₁ ≠ [] := by
    intro hnil
    rw [hullWithin, hnil] at hthree
    have hnone : 3 ≤ 0 := hthree
    omega
  have hsmall : graph.isochrone cosine origin t₁ = .ok _ := isochrone_ok.mpr ⟨hpos, hne, rfl⟩
  obtain ⟨i₂, hlarge, -⟩ := isochrone_mono hle hsmall
  exact ⟨_, i₂, hsmall, hlarge⟩

theorem squareMeters_mono {cosine : K → K} {lat lat' : K} (h : cosine lat ≤ cosine lat') :
    squareMeters cosine lat ≤ squareMeters cosine lat' := by
  rw [squareMeters, squareMeters]
  linarith

theorem dropping_outweighs {A B lat lat' : K} (hA : 0 < A) (hB : 0 ≤ B) (h : |lat| < |lat'|) :
    squareMeters (dropping |lat| (A / (A + B))) lat' * B <
      squareMeters (dropping |lat| (A / (A + B))) lat * A := by
  have hsum : 0 < A + B := add_pos_of_pos_of_nonneg hA hB
  have hnear : 1 ≤ dropping |lat| (A / (A + B)) lat := by
    rw [dropping, if_pos (le_refl _)]
    have hinverse : 0 < 1 / (1 + |lat|) := by positivity
    linarith
  have hfar : dropping |lat| (A / (A + B)) lat' ≤ A / (A + B) := by
    rw [dropping, if_neg (not_le.mpr h)]
    exact div_le_self (by positivity) (le_add_of_nonneg_right (abs_nonneg lat'))
  have hless : A / (A + B) * B < A := by
    rw [div_mul_eq_mul_div, div_lt_iff₀ hsum]
    have hsquare := mul_pos hA hA
    linarith
  have hlow := mul_le_mul_of_nonneg_right hfar hB
  have hhigh := mul_le_mul_of_nonneg_right hnear hA.le
  rw [squareMeters, squareMeters]
  linarith

/-- The area grows with the threshold exactly when the smaller hull has none or the mean latitude
does not move away from the equator. -/
theorem isochrone_area_mono (graph : WalkGraph K) (origin : Nat) (t₁ t₂ : K) (hpos : 0 < t₁)
    (hle : t₁ ≤ t₂) :
    (∀ cosine : K → K, Shrinking cosine → ∀ i₁ i₂,
      graph.isochrone cosine origin t₁ = .ok i₁ → graph.isochrone cosine origin t₂ = .ok i₂ →
        i₁.areaM2 ≤ i₂.areaM2) ↔
      (hullWithin graph origin t₁).length < 3 ∨
        |meanLat (hullWithin graph origin t₂)| ≤ |meanLat (hullWithin graph origin t₁)| := by
  have hgrows : around (hullWithin graph origin t₁) ≤ around (hullWithin graph origin t₂) :=
    around_within hle
  have hlarge : 0 ≤ around (hullWithin graph origin t₂) := around_nonneg _
  constructor
  · intro hmono
    by_contra hnot
    obtain ⟨hthree, haway⟩ := not_or.mp hnot
    have harea : 0 < around (hullWithin graph origin t₁) := around_pos (not_lt.mp hthree)
    have hcosine : Shrinking (dropping |meanLat (hullWithin graph origin t₁)|
        (around (hullWithin graph origin t₁) / (around (hullWithin graph origin t₁) +
          around (hullWithin graph origin t₂)))) := by
      refine shrinking_dropping (div_pos harea (by linarith)) ?_
      rw [div_le_one (by linarith)]
      linarith
    obtain ⟨i₁, i₂, h₁, h₂⟩ := exists_isochrones hpos hle (not_lt.mp hthree) (dropping _ _)
    have hareas := hmono _ hcosine i₁ i₂ h₁ h₂
    rw [isochrone_areaM2 hcosine h₁, isochrone_areaM2 hcosine h₂] at hareas
    exact absurd hareas (not_le.mpr (dropping_outweighs harea hlarge (not_le.mp haway)))
  · intro hcase cosine hcosine i₁ i₂ h₁ h₂
    rw [isochrone_areaM2 hcosine h₁, isochrone_areaM2 hcosine h₂]
    rcases hcase with hshort | htoward
    · rw [around_short hshort, mul_zero]
      exact mul_nonneg (squareMeters_pos (hcosine.pos _)).le hlarge
    · exact mul_le_mul (squareMeters_mono (hcosine.mono _ _ htoward)) hgrows (around_nonneg _)
        (squareMeters_pos (hcosine.pos _)).le

end Isochrones

/-- Two of the corners have no area. -/
theorem isochrone_area_mono_corners : (hullWithin WalkGraph.corners 0 1).length < 3 ∧
    ∀ cosine : ℚ → ℚ, Shrinking cosine → ∀ i₁ i₂,
      WalkGraph.corners.isochrone cosine 0 1 = .ok i₁ →
        WalkGraph.corners.isochrone cosine 0 3 = .ok i₂ → i₁.areaM2 ≤ i₂.areaM2 := by
  have htwo : (hullWithin WalkGraph.corners 0 1).length < 3 := by decide +kernel
  exact ⟨htwo, (isochrone_area_mono WalkGraph.corners 0 1 3 one_pos (by norm_num)).mpr (.inl htwo)⟩

/-- A triangle, and a place beside its longest edge. -/
def northern : WalkGraph ℚ := WalkGraph.ofEdges [(0, 0), (1, 0), (0, 80), (-1 / 100, 79)]
    [((0, 1), 1), ((0, 2), 1), ((0, 3), 2)] 3 1 (by simp [WalkGraph.InRange])

def receding (lat : ℚ) : ℚ := 1 / (1 + |lat|)

theorem shrinking_receding : Shrinking receding where
  pos := fun lat => by
    rw [receding]
    positivity
  mono := fun lat lat' h => div_le_div_of_nonneg_left zero_le_one (by positivity) (by linarith)
  strict := fun lat lat' h => div_lt_div_of_pos_left one_pos (by positivity) (by linarith)

/-- The place adds little to the hull, and moves the mean latitude to the north. -/
theorem isochrone_area_falls : northern.NonNegative ∧ Shrinking receding ∧ ∃ i₁ i₂,
    northern.isochrone receding 0 1 = .ok i₁ ∧ northern.isochrone receding 0 2 = .ok i₂ ∧
      ¬ i₁.areaM2 ≤ i₂.areaM2 := by
  have hne : northern.reachable 0 1 ≠ [] := by decide +kernel
  have hne' : northern.reachable 0 2 ≠ [] := by decide +kernel
  refine ⟨?_, shrinking_receding, _, _, isochrone_ok.mpr ⟨by norm_num, hne, rfl⟩,
    isochrone_ok.mpr ⟨by norm_num, hne', rfl⟩, ?_⟩
  · refine WalkGraph.nonNegative_ofEdges fun edge hedge => ?_
    simp only [mem_cons, not_mem_nil, or_false] at hedge
    rcases hedge with rfl | rfl | rfl
    · norm_num
    · norm_num
    · norm_num
  · decide +kernel

end GeneGIS.Network.Hull
