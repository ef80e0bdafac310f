/-
The encoder turns a ring by half of its doubled area, and a doubled area of one has no half; it
takes one closing point off a ring that may have several.
-/
import GeneGIS.Tile.Attributes
import GeneGIS.Tile.Commands
import Mathlib.Algebra.Order.Ring.Int
import Mathlib.Tactic.Ring

namespace GeneGIS.Mvt

open List

def cross (p q : Point) : Int := p.1 * q.2 - q.1 * p.2

variable (ring : List Point)

def exactArea : Int := ((ring.zip (ring.rotateLeft 1)).map fun e => cross e.1 e.2).sum

def alongPath : List Point → Int
  | p :: q :: rest => cross p q + alongPath (q :: rest)
  | _ => 0

theorem cross_swap (p q : Point) : cross q p = -cross p q := by
  rw [cross, cross]
  ring

theorem alongPath_append (p : Point) (front rest : List Point) :
    alongPath (front ++ p :: rest) = alongPath (front ++ [p]) + alongPath (p :: rest) := by
  induction front with
  | nil => simp [alongPath]
  | cons a others ih =>
    cases others with
    | nil => simp [alongPath]
    | cons b others =>
      rw [cons_append, cons_append, cons_append, cons_append, alongPath, alongPath]
      rw [cons_append, cons_append] at ih
      rw [ih, Int.add_assoc]

theorem alongPath_reverse (path : List Point) : alongPath path.reverse = -alongPath path := by
  induction path with
  | nil => rfl
  | cons p rest ih =>
    cases rest with
    | nil => rfl
    | cons q rest =>
      rw [reverse_cons, reverse_cons, append_assoc, singleton_append,
        alongPath_append, ← reverse_cons, ih]
      simp only [alongPath]
      rw [cross_swap p q]
      ring

theorem exactArea_cons (p : Point) (rest : List Point) :
    exactArea (p :: rest) = alongPath (p :: rest ++ [p]) := by
  have hzip : ∀ (q : Point) (points : List Point),
      (((q :: points).zip (points ++ [p])).map fun e => cross e.1 e.2).sum =
        alongPath (q :: points ++ [p]) := by
    intro q points
    induction points generalizing q with
    | nil => rfl
    | cons r points ih =>
      rw [cons_append, zip_cons_cons, map_cons, sum_cons, ih r]
      rfl
  have hrotate : (p :: rest).rotateLeft 1 = rest ++ [p] := by
    cases rest with
    | nil => rfl
    | cons q rest =>
      have hone : 1 % (p :: q :: rest).length = 1 := Nat.mod_eq_of_lt (by simp)
      rw [List.rotateLeft, if_neg (by simp), hone]
      rfl
  rw [exactArea, hrotate, hzip]

theorem exactArea_reverse : exactArea ring.reverse = -exactArea ring := by
  cases ring with
  | nil => rfl
  | cons p rest =>
    have hturned := alongPath_reverse (p :: rest ++ [p])
    rw [reverse_append, reverse_singleton, singleton_append, reverse_cons]
      at hturned
    rw [exactArea_cons, ← hturned, reverse_cons]
    cases hreverse : rest.reverse with
    | nil => rfl
    | cons q others =>
      have hsplit := alongPath_append p (q :: others) [q]
      rw [cons_append, exactArea_cons, ← cons_append, append_assoc, singleton_append, hsplit]
      simp only [cons_append, alongPath, Int.add_zero]
      ring

/-! ## Rings -/

structure NormalForm (exterior : Bool) (ring : List Point) : Prop where
  length : 3 ≤ ring.length
  distinct : ring.IsChain (· ≠ ·)
  closing : ring.head? ≠ ring.getLast?
  area : if exterior then 0 < exactArea ring else exactArea ring < 0

variable (exterior : Bool)

/-- The orientation that is wanted, as a sign. -/
def wanted : Int := if exterior then 1 else -1

/-- The computed area, or the wanted orientation where it is zero, has the sign of the area. -/
def Turnable (ring : List Point) : Prop :=
  0 < (if signedArea ring = 0 then wanted exterior else signedArea ring) * exactArea ring

def oriented (ring : List Point) : List Point :=
  let area := signedArea ring
  let orientedCorrectly := if exterior then decide (area > 0) else decide (area < 0)
  if area != 0 && !orientedCorrectly then ring.reverse else ring

theorem prepareRing_eq : prepareRing ring exterior =
    if ring.length < 3 then none else some (oriented exterior ring) := rfl

variable {exterior : Bool}

theorem normalForm_reverse {ring : List Point} :
    NormalForm exterior ring.reverse ↔ 3 ≤ ring.length ∧ ring.IsChain (· ≠ ·) ∧
      ring.head? ≠ ring.getLast? ∧ 0 < wanted exterior * -exactArea ring := by
  have hchain : ring.reverse.IsChain (· ≠ ·) ↔ ring.IsChain (· ≠ ·) := by
    rw [isChain_reverse]
    simp only [ne_comm]
  have harea : (if exterior = true then 0 < exactArea ring.reverse else exactArea ring.reverse < 0) ↔
      0 < wanted exterior * -exactArea ring := by
    rw [exactArea_reverse, wanted]
    cases exterior with
    | true =>
      rw [if_pos rfl, if_pos rfl]
      omega
    | false =>
      rw [if_neg Bool.false_ne_true, if_neg Bool.false_ne_true]
      omega
  constructor
  · intro h
    have hclosing := h.closing
    rw [head?_reverse, getLast?_reverse] at hclosing
    exact ⟨length_reverse ▸ h.length, hchain.mp h.distinct, hclosing.symm, harea.mp h.area⟩
  · intro h
    obtain ⟨hlength, hdistinct, hclosing, hsign⟩ := h
    refine ⟨by rwa [length_reverse], hchain.mpr hdistinct, ?_, harea.mpr hsign⟩
    rw [head?_reverse, getLast?_reverse]
    exact hclosing.symm

theorem normalForm_iff {ring : List Point} :
    NormalForm exterior ring ↔ 3 ≤ ring.length ∧ ring.IsChain (· ≠ ·) ∧
      ring.head? ≠ ring.getLast? ∧ 0 < wanted exterior * exactArea ring := by
  have hreverse := @normalForm_reverse exterior ring.reverse
  rw [reverse_reverse, length_reverse, head?_reverse, getLast?_reverse,
    isChain_reverse, exactArea_reverse, Int.neg_neg] at hreverse
  rw [hreverse]
  simp only [ne_comm]

theorem mul_pos_congr {a b : Int} (h : 0 < a * b) (n : Int) : 0 < a * n ↔ 0 < b * n := by
  obtain ⟨ha, hb⟩ | ⟨ha, hb⟩ := mul_pos_iff.mp h
  · rw [mul_pos_iff_of_pos_left ha, mul_pos_iff_of_pos_left hb]
  · rw [← neg_mul_neg, ← neg_mul_neg b, mul_pos_iff_of_pos_left (neg_pos.mpr ha),
      mul_pos_iff_of_pos_left (neg_pos.mpr hb)]

theorem normalForm_oriented {ring : List Point} (hlength : 3 ≤ ring.length)
    (hdistinct : ring.IsChain (· ≠ ·)) : NormalForm exterior (oriented exterior ring) ↔
      ring.head? ≠ ring.getLast? ∧ Turnable exterior ring := by
  have hsame : wanted exterior * signedArea ring > 0 ↔
      (if exterior = true then decide (signedArea ring > 0) else decide (signedArea ring < 0)) =
        true := by
    rw [wanted]
    cases exterior with
    | true => simp
    | false => simp
  rw [oriented, Turnable]
  by_cases hzero : signedArea ring = 0
  · have hkeep : (signedArea ring != 0) = false := bne_eq_false_iff_eq.mpr hzero
    rw [if_pos hzero, hkeep, Bool.false_and, if_neg Bool.false_ne_true, normalForm_iff]
    exact ⟨fun h => h.2.2, fun h => ⟨hlength, hdistinct, h⟩⟩
  · have hturn : (signedArea ring != 0) = true := bne_iff_ne.mpr hzero
    rw [if_neg hzero, hturn, Bool.true_and]
    by_cases horiented : wanted exterior * signedArea ring > 0
    · rw [hsame.mp horiented, Bool.not_true, if_neg Bool.false_ne_true, normalForm_iff,
        mul_pos_congr horiented]
      exact ⟨fun h => h.2.2, fun h => ⟨hlength, hdistinct, h⟩⟩
    · have hopposite : 0 < wanted exterior * -signedArea ring := by
        rw [wanted] at horiented ⊢
        cases exterior with
        | true =>
          rw [if_pos rfl] at horiented ⊢
          omega
        | false =>
          rw [if_neg Bool.false_ne_true] at horiented ⊢
          omega
      rw [Bool.eq_false_iff.mpr (fun h => horiented (hsame.mpr h)), Bool.not_false, if_pos rfl,
        normalForm_reverse, mul_pos_congr hopposite, neg_mul_neg]
      exact ⟨fun h => h.2.2, fun h => ⟨hlength, hdistinct, h⟩⟩

variable (libm : Libm) (z x y extent : Nat) (part : TilePolygonPart)

/-- The projected rings that are encoded, each with whether it is an exterior. -/
def reachedPart : List (Bool × List Point) :=
  if (projectRing libm part.exterior z x y extent).length < 3 then []
  else (true, projectRing libm part.exterior z x y extent) ::
    (part.holes.map fun hole => (false, projectRing libm hole z x y extent)).filter
      fun ring => 3 ≤ ring.2.length

def emittedPart : List (Bool × List Point) :=
  match prepareRing (projectRing libm part.exterior z x y extent) true with
  | none => []
  | some exterior =>
    (true, exterior) :: (preparedHoles libm z x y extent part.holes).map fun hole => (false, hole)

variable (feature : TilePolygonFeature)

def reachedRings : List (Bool × List Point) := feature.parts.flatMap (reachedPart libm z x y extent)

def emittedRings : List (Bool × List Point) := feature.parts.flatMap (emittedPart libm z x y extent)

theorem emittedPart_eq : emittedPart libm z x y extent part =
    (reachedPart libm z x y extent part).map fun ring => (ring.1, oriented ring.1 ring.2) := by
  have hholes : ∀ holes : List (List PlanePoint),
      (preparedHoles libm z x y extent holes).map (fun hole => (false, hole)) =
        ((holes.map fun hole => (false, projectRing libm hole z x y extent)).filter
          fun ring => 3 ≤ ring.2.length).map fun ring => (ring.1, oriented ring.1 ring.2) := by
    intro holes
    induction holes with
    | nil => rfl
    | cons hole others ih =>
      rw [preparedHoles] at ih ⊢
      rw [map_cons, filterMap_cons, prepareRing_eq, filter_cons]
      by_cases hshort : (projectRing libm hole z x y extent).length < 3
      · rw [if_pos hshort, if_neg (by simpa using hshort)]
        exact ih
      · rw [if_neg hshort, if_pos (by simpa using hshort), map_cons, map_cons, ← ih]
  rw [emittedPart, reachedPart, prepareRing_eq]
  by_cases hshort : (projectRing libm part.exterior z x y extent).length < 3
  · rw [if_pos hshort, if_pos hshort]
    rfl
  · rw [if_neg hshort, if_neg hshort, map_cons, ← hholes]

theorem emittedRings_eq : emittedRings libm z x y extent feature =
    (reachedRings libm z x y extent feature).map fun ring => (ring.1, oriented ring.1 ring.2) := by
  rw [emittedRings, reachedRings, map_flatMap]
  exact congrArg feature.parts.flatMap (funext fun part => emittedPart_eq libm z x y extent part)

theorem reachedRings_spec {feature : TilePolygonFeature} {ring : Bool × List Point}
    (h : ring ∈ reachedRings libm z x y extent feature) :
    3 ≤ ring.2.length ∧ ring.2.IsChain (· ≠ ·) := by
  have hprojected : ∀ points, (projectRing libm points z x y extent).IsChain (· ≠ ·) := by
    intro points
    exact isChain_destutter _ _
  obtain ⟨part, -, hpart⟩ := mem_flatMap.mp h
  rw [reachedPart] at hpart
  by_cases hshort : (projectRing libm part.exterior z x y extent).length < 3
  · rw [if_pos hshort] at hpart
    cases hpart
  · rw [if_neg hshort] at hpart
    obtain hexterior | hhole := mem_cons.mp hpart
    · rw [hexterior]
      exact ⟨by dsimp only; omega, hprojected _⟩
    · obtain ⟨hmem, hlength⟩ := mem_filter.mp hhole
      obtain ⟨hole, -, hring⟩ := mem_map.mp hmem
      refine ⟨of_decide_eq_true hlength, ?_⟩
      rw [← hring]
      exact hprojected hole

/-- The projected rings have one closing point at most and an area whose sign the encoder finds. -/
theorem emittedRings_normal_iff (feature : TilePolygonFeature) :
    (∀ ring ∈ emittedRings libm z x y extent feature, NormalForm ring.1 ring.2) ↔
      ∀ ring ∈ reachedRings libm z x y extent feature,
        ring.2.head? ≠ ring.2.getLast? ∧ Turnable ring.1 ring.2 := by
  rw [emittedRings_eq, forall_mem_map]
  refine forall₂_congr fun ring hring => ?_
  obtain ⟨hlength, hdistinct⟩ := reachedRings_spec libm z x y extent hring
  exact normalForm_oriented hlength hdistinct

namespace Sample

/-- Rings whose points are at the angles of zero and of forty-five degrees. -/
def featureOf (ring : List PlanePoint) : TilePolygonFeature :=
  { id := 1, parts := [{ exterior := ring, holes := [] }], properties := [] }

def corner : PlanePoint := (.zero, .zero)

def smallest : List PlanePoint := [corner, (.ofNat 45, .zero), (.zero, .ofNat 45)]

/-- A ring that ends at its first point, twice. -/
def closedTwice : List PlanePoint :=
  [corner, (.ofNat 90, .zero), (.ofNat 90, .ofNat 45), corner, corner]

def sliver : List PlanePoint := [corner, (.ofNat 45, .zero), (.ofNat 90, .zero)]

end Sample

theorem abnormal_rings : emittedRings Sample.functions 0 0 0 8 (Sample.featureOf Sample.smallest) =
      [(true, [(4, 4), (5, 4), (4, 3)])] ∧
    ¬ NormalForm true [(4, 4), (5, 4), (4, 3)] ∧
    emittedRings Sample.functions 0 0 0 8 (Sample.featureOf Sample.closedTwice) =
      [(true, [(4, 4), (6, 3), (6, 4), (4, 4)])] ∧
    ¬ NormalForm true [(4, 4), (6, 3), (6, 4), (4, 4)] ∧
    emittedRings Sample.functions 0 0 0 8 (Sample.featureOf Sample.sliver) =
      [(true, [(4, 4), (5, 4), (6, 4)])] ∧
    ¬ NormalForm true [(4, 4), (5, 4), (6, 4)] := by
  refine ⟨by decide +kernel, fun h => ?_, by decide +kernel, fun h => ?_, by decide +kernel,
    fun h => ?_⟩
  · exact absurd h.area (by decide)
  · exact absurd rfl h.closing
  · exact absurd h.area (by decide)

end GeneGIS.Mvt
