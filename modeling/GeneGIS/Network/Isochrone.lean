/-
The nodes within a threshold are wrapped in a convex hull.  Its area is taken with one scale of the
longitudes, at the mean latitude of the vertices.
-/
import GeneGIS.Data.Planar
import GeneGIS.Network.Graph

namespace GeneGIS.Network

open Quantity

variable {F : Type} [Quantity F]

namespace Hull

/-- `partial_cmp` of the longitudes and then of the latitudes. -/
def pointCmp (a b : F × F) : Ordering :=
  (WalkGraph.costOrder a.1 b.1).then (WalkGraph.costOrder a.2 b.2)

/-- `slice::sort_by`. -/
def sortPoints (points : List (F × F)) : List (F × F) :=
  points.insertionSort fun a b => pointCmp a b ≠ .gt

def equal (x y : F) : Bool := le x y && le y x

/-- `Vec::dedup`: what equals the point that was kept last is dropped. -/
def dedupFrom (kept : F × F) : List (F × F) → List (F × F)
  | [] => []
  | point :: rest =>
    if equal point.1 kept.1 && equal point.2 kept.2 then dedupFrom kept rest
    else point :: dedupFrom point rest

def dedup : List (F × F) → List (F × F)
  | [] => []
  | point :: rest => point :: dedupFrom point rest

def cross (o a b : F × F) : F :=
  sub (mul (sub a.1 o.1) (sub b.2 o.2)) (mul (sub a.2 o.2) (sub b.1 o.1))

/-- The points of a chain from the last to the first, without those at which a further point
does not turn to the left. -/
def retract (point : F × F) : List (F × F) → List (F × F)
  | c :: b :: rest =>
    if le (cross b c point) (ofNat 0) then retract point (b :: rest) else c :: b :: rest
  | chain => chain

def extend (chain : List (F × F)) (point : F × F) : List (F × F) := point :: retract point chain

def monotoneChain (points : List (F × F)) : List (F × F) := points.foldl extend []

end Hull

open Hull

/-- The chains end where the other one starts, so each gives up its last point. -/
def convexHull (points : List (F × F)) : List (F × F) :=
  let points := dedup (sortPoints points)
  if points.length < 3 then points
  else (monotoneChain points).tail.reverse ++ (monotoneChain points.reverse).tail.reverse

section Area

-- `cos` of an angle in degrees.
variable (cosine : F → F)

def metersPerDegree : F := ofNat 111320

variable (vertices : List (F × F))

def meanLat : F :=
  match vertices.map Prod.snd with
  | [] => ofNat 0
  | lat :: rest => div (rest.foldl add lat) (ofNat vertices.length)

def edgeTerm (lonScale latScale : F) (a b : F × F) : F :=
  sub (mul (mul a.1 lonScale) (mul b.2 latScale)) (mul (mul b.1 lonScale) (mul a.2 latScale))

/-- Every vertex with the next one, and the last with the first. -/
def edges : List ((F × F) × (F × F)) := vertices.zip (vertices.rotate 1)

def polygonAreaM2 : F :=
  if vertices.length < 3 then ofNat 0
  else
    let lonScale := mul metersPerDegree (cosine (meanLat vertices))
    let twiceArea := (edges vertices).foldl
      (fun sum edge => add sum (edgeTerm lonScale metersPerDegree edge.1 edge.2)) (ofNat 0)
    abs (div twiceArea (ofNat 2))

structure Isochrone (F : Type) where
  origin : Nat
  thresholdMinutes : F
  vertices : List (F × F)
  reachableNodes : Nat
  areaM2 : F

namespace WalkGraph

def within (threshold : F) (cost : Option F) : Bool := cost.any fun minutes => le minutes threshold

/-- The places that are reached within the threshold. -/
def reachable (graph : WalkGraph F) (origin : Nat) (threshold : F) : List (F × F) :=
  ((graph.travelTimesFrom origin).zip graph.nodes).filterMap fun entry =>
    if within threshold entry.1 then some entry.2 else none

def isochrone (graph : WalkGraph F) (origin : Nat) (threshold : F) :
    Except (NetworkError F) (Isochrone F) :=
  if !(isFinite threshold && lt (ofNat 0) threshold) then .error (.threshold threshold)
  else
    let reachable := graph.reachable origin threshold
    if reachable.isEmpty then
      .error (.routing "origin reaches no nodes within the threshold")
    else
      let vertices := convexHull reachable
      .ok {
        origin := origin
        thresholdMinutes := threshold
        vertices := vertices
        reachableNodes := (graph.travelTimesFrom origin).countP (within threshold)
        areaM2 := polygonAreaM2 cosine vertices }

end WalkGraph

end Area

end GeneGIS.Network

/-! ## The hull of a list of points

A chain has every processed point on its left and turns to the left at each of its points.  The
second chain is the first one for the opposite directions. -/

namespace GeneGIS.Network.Hull

open Planar Quantity List

variable {K : Type} [LinearOrder K]

/-! ## Sorted points -/

def lexLe (a b : K × K) : Prop := a.1 < b.1 ∨ a.1 = b.1 ∧ a.2 ≤ b.2

theorem lexLe_total (a b : K × K) : lexLe a b ∨ lexLe b a := by
  rw [lexLe, lexLe]
  rcases lt_trichotomy a.1 b.1 with h | h | h
  · exact .inl (.inl h)
  · rcases le_total a.2 b.2 with h' | h'
    · exact .inl (.inr ⟨h, h'⟩)
    · exact .inr (.inr ⟨h.symm, h'⟩)
  · exact .inr (.inl h)

theorem lexLe_trans {a b c : K × K} (hab : lexLe a b) (hbc : lexLe b c) : lexLe a c := by
  rcases hab with h | ⟨h, h'⟩
  · rcases hbc with g | ⟨g, -⟩
    · exact .inl (h.trans g)
    · exact .inl (g ▸ h)
  · rcases hbc with g | ⟨g, g'⟩
    · exact .inl (h ▸ g)
    · exact .inr ⟨h.trans g, h'.trans g'⟩

variable [Field K]

theorem pointCmp_iff (a b : K × K) : pointCmp a b ≠ .gt ↔ lexLe a b := by
  have hlt : ∀ x y : K, WalkGraph.costOrder x y =
      if x < y then Ordering.lt else if y < x then Ordering.gt else Ordering.eq := by
    intro x y
    have hless : ∀ x y : K, (lt x y = true) = (x < y) := fun x y => decide_eq_true_eq
    simp only [WalkGraph.costOrder, hless]
  rw [pointCmp, hlt, hlt, lexLe]
  rcases lt_trichotomy a.1 b.1 with h1 | h1 | h1
  · simp [h1]
  · rw [h1]
    rcases lt_trichotomy a.2 b.2 with h2 | h2 | h2
    · simp [h2, h2.le]
    · simp [h2]
    · simp [h2, not_lt_of_gt h2]
  · simp [h1, not_lt_of_gt h1, h1.ne']

theorem ofNat_zero : (ofNat 0 : K) = 0 := Nat.cast_zero

theorem cross_eq (o a b : K × K) : cross o a b = turn o a b := rfl

theorem pairwise_sortPoints (points : List (K × K)) : (sortPoints points).Pairwise lexLe := by
  have htotal : Std.Total fun a b : K × K => pointCmp a b ≠ .gt :=
    ⟨fun a b => (lexLe_total a b).imp (pointCmp_iff a b).mpr (pointCmp_iff b a).mpr⟩
  have htrans : IsTrans (K × K) fun a b => pointCmp a b ≠ .gt :=
    ⟨fun a b c hab hbc => (pointCmp_iff a c).mpr
      (lexLe_trans ((pointCmp_iff a b).mp hab) ((pointCmp_iff b c).mp hbc))⟩
  exact (pairwise_insertionSort _ points).imp fun {a b} h => (pointCmp_iff a b).mp h

theorem equal_iff {x y : K} : equal x y = true ↔ x = y := by
  rw [equal, Bool.and_eq_true]
  exact ⟨fun h => le_antisymm (decide_eq_true_iff.mp h.1) (decide_eq_true_iff.mp h.2),
    fun h => ⟨decide_eq_true h.le, decide_eq_true h.ge⟩⟩

variable [IsStrictOrderedRing K]

theorem rightward_of_ne {a b : K × K} (h : lexLe a b) (hne : b ≠ a) : rightward (b - a) := by
  rcases h with h | ⟨h, h'⟩
  · exact .inl (sub_pos.mpr h)
  · refine .inr ⟨sub_eq_zero.mpr h.symm, sub_pos.mpr (lt_of_le_of_ne h' fun heq => hne ?_)⟩
    exact Prod.ext h.symm heq.symm

theorem dedupFrom_spec : ∀ {kept : K × K} {rest : List (K × K)}, (kept :: rest).Pairwise lexLe →
    (kept :: dedupFrom kept rest).Pairwise (fun a b => rightward (b - a)) ∧
      ∀ q, q ∈ kept :: dedupFrom kept rest ↔ q ∈ kept :: rest
  | kept, [], _ => ⟨pairwise_singleton _ _, fun q => Iff.rfl⟩
  | kept, point :: rest, h => by
    obtain ⟨hkept, hrest⟩ := pairwise_cons.mp h
    have hequal : (equal point.1 kept.1 && equal point.2 kept.2) = true ↔ point = kept := by
      rw [Bool.and_eq_true, equal_iff, equal_iff, Prod.ext_iff]
    rw [dedupFrom]
    by_cases heq : point = kept
    · rw [if_pos (hequal.mpr heq)]
      rw [heq] at hrest ⊢
      obtain ⟨hsorted, hmem⟩ := dedupFrom_spec hrest
      refine ⟨hsorted, fun q => ?_⟩
      rw [hmem, mem_cons, mem_cons, mem_cons, or_self_left]
    · rw [if_neg (fun h => heq (hequal.mp h))]
      obtain ⟨hsorted, hmem⟩ := dedupFrom_spec hrest
      have hfirst : rightward (point - kept) := rightward_of_ne (hkept point mem_cons_self) heq
      refine ⟨pairwise_cons.mpr ⟨fun q hq => ?_, hsorted⟩, fun q => ?_⟩
      · rcases mem_cons.mp hq with rfl | hq
        · exact hfirst
        · have hsum : q - kept = (q - point) + (point - kept) := by abel
          rw [hsum]
          exact forward_rightward.add _ _ ((pairwise_cons.mp hsorted).1 q hq) hfirst
      · rw [mem_cons, hmem]
        exact mem_cons.symm

theorem dedup_spec (points : List (K × K)) :
    (dedup (sortPoints points)).Pairwise (fun a b => rightward (b - a)) ∧
      ∀ q, q ∈ dedup (sortPoints points) ↔ q ∈ points := by
  have hmem : ∀ q, q ∈ sortPoints points ↔ q ∈ points := fun q => mem_insertionSort _
  have hsorted := pairwise_sortPoints points
  cases hlist : sortPoints points with
  | nil =>
    rw [hlist] at hmem
    exact ⟨Pairwise.nil, hmem⟩
  | cons point rest =>
    rw [hlist] at hmem hsorted
    obtain ⟨hpairwise, hsame⟩ := dedupFrom_spec hsorted
    exact ⟨hpairwise, fun q => (hsame q).trans (hmem q)⟩

/-! ## Chains -/

/-- A chain that spans the points that were processed. -/
structure Spanning (D : K × K → Prop) (points chain : List (K × K)) : Prop where
  convex : ConvexChain D chain
  left : ∀ q ∈ points, Supports chain q
  members : ∀ q ∈ chain, q ∈ points
  last : chain.head? = points.getLast?
  first : chain.getLast? = points.head?

variable {D : K × K → Prop} (hD : Forward D) {points chain : List (K × K)} {p : K × K}

include hD

omit [LinearOrder K] [IsStrictOrderedRing K] hD in
theorem compare_of_pairwise (hsorted : points.Pairwise fun a b => D (b - a)) {a b : K × K}
    (ha : a ∈ points) (hb : b ∈ points) : a = b ∨ D (b - a) ∨ D (a - b) := by
  have hsymm : Std.Symm fun a b : K × K => a = b ∨ D (b - a) ∨ D (a - b) :=
    ⟨fun a b h => h.imp Eq.symm Or.symm⟩
  exact Pairwise.forall_of_forall (R := fun a b => a = b ∨ D (b - a) ∨ D (a - b))
    (fun x _ => .inl rfl)
    (hsorted.imp fun {a b} h => .inr (.inl h)) ha hb

theorem retract_spec (hsorted : points.Pairwise fun a b => D (b - a))
    (hp : ∀ q ∈ points, D (p - q)) : ∀ {c : K × K} {rest : List (K × K)},
    (c :: rest).Pairwise (fun b a => D (b - a)) → (∀ q ∈ points, Supports (c :: rest) q) →
      (∀ q ∈ c :: rest, q ∈ points) → (c :: rest).getLast? = points.head? →
      (∀ q ∈ points, D (q - c) → 0 ≤ turn c p q) →
      ∃ t kept, retract p (c :: rest) = t :: kept ∧ (t :: kept) <:+ (c :: rest) ∧
        (∀ a kept', kept = a :: kept' → 0 < turn a t p) ∧ ∀ q ∈ points, 0 ≤ turn t p q
  | c, [], _, _, _, hfirst, hahead => by
    refine ⟨c, [], rfl, suffix_rfl, fun a kept' h => (by cases h), fun q hq => ?_⟩
    -- the chain is down to the first of all points
    cases points with
    | nil => cases hq
    | cons first others =>
      obtain rfl : c = first := Option.some.inj hfirst
      rcases mem_cons.mp hq with heq | hmem
      · rw [heq, turn_left]
      · exact hahead q hq ((pairwise_cons.mp hsorted).1 q hmem)
  | c, b :: rest, hchain, hleft, hmem, hfirst, hahead => by
    obtain ⟨hbelow, hrest⟩ := pairwise_cons.mp hchain
    have hbc : D (c - b) := hbelow b mem_cons_self
    have hc : c ∈ points := hmem c mem_cons_self
    have hb : b ∈ points := hmem b (mem_cons_of_mem _ mem_cons_self)
    have hedge : ∀ q ∈ points, 0 ≤ turn b c q := fun q hq => hleft q hq b c ⟨[], rest, rfl⟩
    have hstops : le (cross b c p) (ofNat 0) = true ↔ turn b c p ≤ 0 := by
      rw [cross_eq, ofNat_zero]
      exact decide_eq_true_iff
    rw [retract]
    by_cases hturn : turn b c p ≤ 0
    · rw [if_pos (hstops.mpr hturn)]
      obtain ⟨t, kept, heq, hsuffix, hkept, hspans⟩ := retract_spec hsorted hp hrest
        (fun q hq => (hleft q hq).within (suffix_cons c _).isInfix)
        (fun q hq => hmem q (mem_cons_of_mem _ hq))
        (by rw [getLast?_cons_cons] at hfirst; exact hfirst)
        fun q hq hbq => turn_nonneg_ahead hD hbc (hp b hb) hbq hturn (hedge q hq)
      exact ⟨t, kept, heq, hsuffix.trans (suffix_cons c _), hkept, hspans⟩
    · rw [if_neg fun h => hturn (hstops.mp h)]
      refine ⟨c, b :: rest, rfl, suffix_rfl, fun a kept' h => ?_, fun q hq => ?_⟩
      · obtain ⟨rfl, -⟩ := cons.inj h
        exact not_le.mp hturn
      · rcases compare_of_pairwise hsorted hq hc with heq | hqc | hcq
        · exact turn_nonneg_behind hD hbc (hp c hc) (not_le.mp hturn).le (hedge q hq) (.inl heq)
        · exact turn_nonneg_behind hD hbc (hp c hc) (not_le.mp hturn).le (hedge q hq) (.inr hqc)
        · exact hahead q hq hcq

theorem Spanning.extend (h : Spanning D points chain)
    (hsorted : points.Pairwise fun a b => D (b - a)) (hp : ∀ q ∈ points, D (p - q)) :
    Spanning D (points ++ [p]) (extend chain p) := by
  cases chain with
  | nil =>
    have hnil : points = [] := by
      cases points with
      | nil => rfl
      | cons first others => cases h.first
    subst hnil
    exact ⟨convexChain_singleton p, fun q _ => supports_singleton, fun q hq => hq, rfl, rfl⟩
  | cons c rest =>
    have hne : points ≠ [] := by
      intro hnil
      subst hnil
      cases h.last
    have hlast : ∀ q ∈ points, ¬ D (q - c) := by
      intro q hq hcq
      obtain ⟨front, hfront⟩ := getLast?_eq_some_iff.mp h.last.symm
      rw [hfront] at hq hsorted
      have hbefore := (pairwise_append.mp hsorted).2.2
      rcases mem_append.mp hq with hq | hq
      · have hqc := hbefore q hq c (mem_singleton_self c)
        rw [← neg_sub] at hqc
        exact hD.not_neg hcq hqc
      · rw [mem_singleton.mp hq, sub_self] at hcq
        exact hD.zero hcq
    obtain ⟨t, kept, heq, hsuffix, hturn, hspans⟩ := retract_spec hD hsorted hp h.convex.sorted
      h.left h.members h.first fun q hq hcq => absurd hcq (hlast q hq)
    have hconvex := h.convex.sublist hsuffix.sublist
    have ht : t ∈ points := h.members t (hsuffix.subset mem_cons_self)
    have hextended := hconvex.extend hD (hp t ht) hturn
    rw [Hull.extend, heq]
    refine ⟨hextended, fun q hq => ?_, fun q hq => ?_, ?_, ?_⟩
    · rcases mem_append.mp hq with hq | hq
      · exact supports_cons_cons.mpr ⟨hspans q hq, (h.left q hq).within hsuffix.isInfix⟩
      · rw [mem_singleton.mp hq]
        refine supports_cons_cons.mpr ⟨by rw [turn_right], fun a b hpair => ?_⟩
        exact (hextended.turns a b p (hpair.sublist.cons_cons p)).le
    · rcases mem_cons.mp hq with rfl | hq
      · exact mem_append_right _ (mem_singleton_self _)
      · exact mem_append_left _ (h.members q (hsuffix.subset hq))
    · rw [getLast?_append]
      rfl
    · rw [getLast?_cons_cons, head?_append_of_ne_nil _ hne, ← h.first]
      obtain ⟨front, hfront⟩ := hsuffix
      rw [← hfront, getLast?_append_of_ne_nil _ (cons_ne_nil _ _)]

theorem spanning_monotoneChain (hsorted : points.Pairwise fun a b => D (b - a)) :
    Spanning D points (monotoneChain points) := by
  have hrun : ∀ (rest done chain : List (K × K)), Spanning D done chain →
      (done ++ rest).Pairwise (fun a b => D (b - a)) →
      Spanning D (done ++ rest) (rest.foldl Hull.extend chain) := by
    intro rest
    induction rest with
    | nil =>
      intro done chain hspanning _
      rw [append_nil]
      exact hspanning
    | cons p rest ih =>
      intro done chain hspanning hpairwise
      have hsplit : done ++ p :: rest = (done ++ [p]) ++ rest := by simp
      rw [hsplit] at hpairwise ⊢
      obtain ⟨hdone, -, hbefore⟩ := pairwise_append.mp (pairwise_append.mp hpairwise).1
      exact ih (done ++ [p]) _ (hspanning.extend hD hdone fun q hq =>
        hbefore q hq p (mem_singleton_self p)) hpairwise
  exact hrun points [] [] ⟨⟨Pairwise.nil, fun a b c h => (by simpa using h.length_le)⟩,
    fun q hq => (by cases hq), fun q hq => (by cases hq), rfl, rfl⟩ hsorted

end GeneGIS.Network.Hull
