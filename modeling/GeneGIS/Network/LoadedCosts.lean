/-
A declared walking time is taken as it stands.  A length is no number when a square of an infinite
difference meets a distance of zero.
-/
import GeneGIS.Data.Each
import GeneGIS.Network.Loader
import GeneGIS.Network.Scaling

namespace GeneGIS

open Fallible
open Bool hiding false_or lt_iff true_or

namespace F64

theorem Nonneg.sqrt {x : F64} (h : Nonneg x) : Nonneg (sqrt x) := by
  obtain ⟨hnan, hrank⟩ := nonneg_iff.mp h
  by_cases hzero : x.magnitude = 0
  · rw [F64.sqrt, hnan, Bool.false_or, if_pos (beq_iff_eq.mpr hzero)]
    exact h
  · have hsign : x.sign = false := by
      by_cases hfinite : x.isFinite = true
      · by_contra hneg
        rw [not_eq_false] at hneg
        exact hzero (h.magnitude_of_sign hfinite hneg)
      · rw [not_eq_true] at hfinite
        have hbig := top_pos
        exact h.sign_eq_false (by rw [h.infinite hfinite]; omega)
    rw [F64.sqrt, hnan, Bool.false_or, if_neg (fun h => hzero (beq_iff_eq.mp h)), hsign,
      if_neg Bool.false_ne_true]
    split_ifs
    · exact h
    · exact nonneg_round _ _

theorem sqrt_nan {x : F64} (h : x.isNan = true) : (sqrt x).isNan = true := by
  rw [sqrt, h, Bool.true_or, if_pos rfl]
  exact h

end F64

namespace Network.Loader

open F64

/-! ## Numbers of a document -/

theorem asF64?_finite {value : Json} {x : F64} (h : asF64? value = some x) : x.isFinite = true := by
  unfold asF64? at h
  split at h
  · rename_i n
    split_ifs at h with hrange hneg
    · rw [← Option.some.inj h, isFinite_neg]
      exact isFinite_ofNat (by omega)
    · rw [← Option.some.inj h]
      exact isFinite_ofNat (by omega)
  · cases h
    assumption
  · cases h

theorem bind_asF64?_finite {value : Option Json} {x : F64} (h : value.bind asF64? = some x) :
    x.isFinite = true := by
  obtain ⟨json, -, hjson⟩ := Option.bind_eq_some_iff.mp h
  exact asF64?_finite hjson

theorem require_ok {α : Type} {reason : String} {value : Option α} {a : α} :
    require reason value = .ok a ↔ value = some a := by
  cases value with
  | none => exact ⟨fun h => (by cases h), fun h => (by cases h)⟩
  | some b => exact ⟨fun h => (by cases h; rfl), fun h => (by cases h; rfl)⟩

def FinitePlace (p : LonLat) : Prop := p.1.isFinite = true ∧ p.2.isFinite = true

theorem readCoord_finite {value : Json} {coord : LonLat} (h : readCoord value = .ok coord) :
    FinitePlace coord := by
  rw [readCoord] at h
  obtain ⟨values, -, h⟩ := bind_iff.mp h
  obtain ⟨lon, hlon, h⟩ := bind_iff.mp h
  obtain ⟨lat, hlat, h⟩ := bind_iff.mp h
  cases h
  exact ⟨bind_asF64?_finite (require_ok.mp hlon), bind_asF64?_finite (require_ok.mp hlat)⟩

/-- The numbers of a line are finite. -/
structure Line.Finite (line : Line) : Prop where
  coords : ∀ coord ∈ line.coords, FinitePlace coord
  walkMin : ∀ total, line.walkMin = some total → total.isFinite = true

theorem readFeature_finite {feature : Json} {line : Line}
    (h : readFeature feature = .ok (some line)) : line.Finite := by
  rw [readFeature] at h
  obtain ⟨geometry, -, h⟩ := bind_iff.mp h
  split_ifs at h
  · cases h
  · obtain ⟨values, -, h⟩ := bind_iff.mp h
    obtain ⟨coords, hcoords, h⟩ := bind_iff.mp h
    cases h
    refine ⟨fun coord hcoord => ?_, fun total htotal => bind_asF64?_finite htotal⟩
    obtain ⟨value, -, hvalue⟩ := Each.forall₂_right (Each.mapM_ok.mp hcoords) hcoord
    exact readCoord_finite hvalue

theorem rank_ofNat_zero : (F64.ofNat 0).isNan = false ∧ (F64.ofNat 0).rank = 0 := by
  have hround : F64.ofNat 0 = round false 0 1 := congrArg (round false · 1) (Nat.zero_mul _)
  rw [hround, isNan_round, rank_round, rounded_zero Nat.one_pos]
  exact ⟨rfl, rfl⟩

section Read

variable {parse : String → Except String Json} {text : String} {speed : F64} {lines : List Line}

theorem readNetwork_finite (h : readNetwork parse text = .ok (speed, lines)) :
    speed.isFinite = true ∧ lt zero speed = true ∧ ∀ line ∈ lines, line.Finite := by
  rw [readNetwork] at h
  obtain ⟨parsed, -, h⟩ := bind_iff.mp h
  dsimp only at h
  split_ifs at h with htype hspeed hspeed
  · cases h
  · cases h
  · cases h
  · obtain ⟨features, -, h⟩ := bind_iff.mp h
    obtain ⟨read, hread, h⟩ := bind_iff.mp h
    cases h
    have hfinite : (((parsed.get? "walk_speed_m_per_min").bind asF64?).getD
        (F64.ofNat 80)).isFinite = true := by
      cases hgiven : (parsed.get? "walk_speed_m_per_min").bind asF64? with
      | none => exact isFinite_ofNat (by omega)
      | some given => exact bind_asF64?_finite hgiven
    refine ⟨hfinite, ?_, ?_⟩
    · have hzero := rank_ofNat_zero
      have hstart : zero.isNan = false ∧ zero.rank = 0 := by decide
      rw [le_iff, hzero.2] at hspeed
      rw [lt_iff, hstart.2]
      refine ⟨hstart.1, isNan_of_finite hfinite, ?_⟩
      by_contra hneg
      exact hspeed ⟨isNan_of_finite hfinite, hzero.1, by omega⟩
    · intro line hline
      obtain ⟨given, hgiven, heq⟩ := List.mem_filterMap.mp hline
      obtain ⟨feature, -, hfeature⟩ := Each.forall₂_right (Each.mapM_ok.mp hread) hgiven
      rw [show given = some line from heq] at hfeature
      exact readFeature_finite hfeature

end Read

/-- So small a total that its share rounds to zero. -/
def Vanishes (total : F64) (segments : Nat) : Prop :=
  ((F64.ofNat segments).max (.ofNat 1)).isFinite = true →
    2 * (total.magnitude * 2 ^ 1074) ≤ ((F64.ofNat segments).max (.ofNat 1)).magnitude

theorem zero_lt_ofNat_one : lt zero (F64.ofNat 1) = true := by decide +kernel

theorem count_positive (segments : Nat) : lt zero ((F64.ofNat segments).max (.ofNat 1)) = true := by
  obtain ⟨hzero, honenan, honerank⟩ := lt_iff.mp zero_lt_ofNat_one
  have hnan : (F64.ofNat segments).isNan = false := isNan_round _ _ _
  rw [F64.max, hnan, honenan, if_neg Bool.false_ne_true, if_neg Bool.false_ne_true]
  by_cases hless : lt (F64.ofNat segments) (F64.ofNat 1) = true
  · rw [if_pos hless]
    exact zero_lt_ofNat_one
  · rw [if_neg hless]
    rw [lt_iff] at hless
    refine lt_iff.mpr ⟨hzero, hnan, ?_⟩
    by_contra hle
    exact hless ⟨hnan, honenan, by omega⟩

theorem nonneg_share {total : F64} (h : total.isFinite = true) (segments : Nat) :
    Nonneg (share total segments) ↔ Nonneg total ∨ Vanishes total segments :=
  nonneg_div_iff h (count_positive segments)

/-! ## Lengths -/

theorem metersPerDegLat_bounds : metersPerDegLat.isFinite = true ∧ metersPerDegLat.magnitude ≠ 0 ∧
    rounded (2 ^ 1074 * metersPerDegLat.magnitude) (2 ^ 1074) < top := by
  decide +kernel

section Lengths

variable (cosine : F64 → F64)

/-- `cos` of a finite number of degrees is finite and at most one; of an infinity it is none. -/
structure Cosine : Prop where
  finite : ∀ x, x.isFinite = true → (cosine x).isFinite = true
  le_one : ∀ x, x.isFinite = true → (cosine x).magnitude ≤ 2 ^ 1074
  undefined : ∀ x, x.isFinite = false → (cosine x).isNan = true

/-- The distance between two places is a number. -/
def Measurable (p q : LonLat) : Prop :=
  (p.2.add q.2).isFinite = true ∧ ((q.1.sub p.1).isFinite = true ∨
    (metersPerDegLon cosine ((p.2.add q.2).div (.ofNat 2))).magnitude ≠ 0)

/-- The declared time is not negative, or so small that its share vanishes; where none is
declared, the distance is a number. -/
def Passable (walkMin : Option F64) (segments : Nat) (p q : LonLat) : Prop :=
  match walkMin with
  | some total => Nonneg total ∨ Vanishes total segments
  | none => Measurable cosine p q

variable {cosine} (hcosine : Cosine cosine)
include hcosine

theorem metersPerDegLon_finite {lat : F64} (h : lat.isFinite = true) :
    (metersPerDegLon cosine lat).isFinite = true := by
  obtain ⟨hmeters, -, hbound⟩ := metersPerDegLat_bounds
  have hle := rounded_scaled (hcosine.le_one lat h) metersPerDegLat.magnitude (2 ^ 1074)
  rw [metersPerDegLon, mul_of_finite hmeters (hcosine.finite lat h), isFinite_round, Nat.mul_comm]
  exact hle.trans_lt hbound

variable {p q : LonLat} (hp : FinitePlace p) (hq : FinitePlace q)
include hp hq

theorem segmentLengthM_nonneg (h : Measurable cosine p q) : Nonneg (segmentLengthM cosine p q) := by
  obtain ⟨hsum, hlon⟩ := h
  have hmean : ((p.2.add q.2).div (.ofNat 2)).isFinite = true := by
    rw [isFinite_half (isNan_of_finite hsum)]
    exact hsum
  have hdlon : ((q.1.sub p.1).abs).isNan = false := by
    rw [isNan_abs]
    exact (add_finite hq.1 (by rw [isFinite_neg]; exact hp.1)).1
  have hdlat : ((q.2.sub p.2).abs).isNan = false := by
    rw [isNan_abs]
    exact (add_finite hq.2 (by rw [isFinite_neg]; exact hp.2)).1
  obtain ⟨hfinite, hne, -⟩ := metersPerDegLat_bounds
  have heast := (isNan_mul_finite hdlon (metersPerDegLon_finite hcosine hmean)).mpr (by
    rw [isFinite_abs]
    exact hlon)
  have hnorth := (isNan_mul_finite hdlat hfinite).mpr (.inr hne)
  exact ((nonneg_square heast).add (nonneg_square hnorth)).1.sqrt

theorem segmentLengthM_nan (h : ¬ Measurable cosine p q) :
    (segmentLengthM cosine p q).isNan = true := by
  have hsumnan : (p.2.add q.2).isNan = false := (add_finite hp.2 hq.2).1
  have hdlon : ((q.1.sub p.1).abs).isNan = false := by
    rw [isNan_abs]
    exact (add_finite hq.1 (by rw [isFinite_neg]; exact hp.1)).1
  have heast : ((q.1.sub p.1).abs.mul
      (metersPerDegLon cosine ((p.2.add q.2).div (.ofNat 2)))).isNan = true := by
    by_cases hsum : (p.2.add q.2).isFinite = true
    · have hmean : ((p.2.add q.2).div (.ofNat 2)).isFinite = true := by
        rw [isFinite_half hsumnan]
        exact hsum
      by_contra hnan
      rw [not_eq_true] at hnan
      have hlon := (isNan_mul_finite hdlon (metersPerDegLon_finite hcosine hmean)).mp hnan
      rw [isFinite_abs] at hlon
      exact h ⟨hsum, hlon⟩
    · have hmean : ((p.2.add q.2).div (.ofNat 2)).isFinite = false := by
        rw [isFinite_half hsumnan, ← not_eq_true]
        exact hsum
      exact mul_nan (.inr (mul_nan (.inr (hcosine.undefined _ hmean))))
  exact sqrt_nan (nan_add (mul_nan (.inl heast)))

theorem nonneg_edgeCost {speed : F64} (hspeed : speed.isFinite = true)
    (hpos : lt zero speed = true) {walkMin : Option F64}
    (hwalk : ∀ total, walkMin = some total → total.isFinite = true) (segments : Nat) :
    Nonneg (edgeCost cosine speed walkMin segments p q) ↔ Passable cosine walkMin segments p q := by
  cases walkMin with
  | some total => exact nonneg_share (hwalk total rfl) segments
  | none =>
    by_cases h : Measurable cosine p q
    · exact iff_of_true ((segmentLengthM_nonneg hcosine hp hq h).div hpos hspeed) h
    · refine iff_of_false (fun hcost => ?_) h
      have hnan := div_nan (c := speed) (segmentLengthM_nan hcosine hp hq h)
      have hnumber := (nonneg_iff.mp hcost).1
      rw [edgeCost] at hnumber
      rw [hnan] at hnumber
      cases hnumber

end Lengths

end Network.Loader
end GeneGIS

/-! ## Costs from loading on

A product of a cost and an accepted factor is not negative, unless an infinite cost meets a factor
of zero. -/

namespace GeneGIS.Network.Loader

open F64 WalkGraph List

/-- No cost is negative, and every cost is a number. -/
def NonnegCosts (graph : WalkGraph F64) : Prop := ∀ u v w, graph.edge u v w → Nonneg w

theorem ranked_nonneg : Ranked rank Nonneg Nonneg where
  lt_iff x y hx hy := by
    show F64.lt x y = true ↔ _
    rw [lt_iff]
    exact ⟨fun h => h.2.2, fun h => ⟨(nonneg_iff.mp hx).1, (nonneg_iff.mp hy).1, h⟩⟩
  zero := nonneg_iff.mpr ⟨rank_ofNat_zero.1, rank_ofNat_zero.2.ge⟩
  add c w hc hw := (hc.add hw).1
  le_add c w hc hw := (hc.add hw).2

/-- The search of a graph is over, and not merely out of rounds. -/
def Ends (graph : WalkGraph F64) (origin : Nat) : Prop :=
  graph.searchStep (graph.searched origin) = none

variable {graph : WalkGraph F64}

theorem NonnegCosts.ends (h : NonnegCosts graph) {origin : Nat}
    (horigin : origin < graph.nodes.length) : Ends graph origin :=
  (searched_ends ranked_nonneg (fun v slot hslot => h v slot.1 slot.2 hslot) horigin).1

theorem nonnegCosts_ofEdges {nodes : List LonLat} {edges : List (Edge F64)} {length speed : F64}
    {hrange : InRange nodes.length edges} :
    NonnegCosts (ofEdges nodes edges length speed hrange) ↔
      ∀ cost ∈ edges.map Prod.snd, Nonneg cost := by
  constructor
  · intro h cost hcost
    obtain ⟨⟨⟨u, v⟩, w⟩, hedge, rfl⟩ := mem_map.mp hcost
    exact h u v w (edge_ofEdges.mpr (.inl hedge))
  · intro h u v w hedge
    rcases edge_ofEdges.mp hedge with hedge | hedge
    · exact h w (mem_map.mpr ⟨_, hedge, rfl⟩)
    · exact h w (mem_map.mpr ⟨_, hedge, rfl⟩)

/-- Every segment of a line is passable between the places of its ends. -/
def Costed (cosine : F64 → F64) (coords : List LonLat) (line : Line) : Prop :=
  ∀ pair ∈ line.coords.zip line.coords.tail,
    Passable cosine line.walkMin (line.coords.length - 1) (place coords pair.1)
      (place coords pair.2)

section Load

variable {cosine : F64 → F64} (hcosine : Cosine cosine) {speed : F64}
  (hspeed : speed.isFinite = true) (hpos : lt zero speed = true) {lines : List Line}
  (hlines : ∀ line ∈ lines, line.Finite)

include hlines in
theorem place_finite {line : Line} (hline : line ∈ lines) {coord : LonLat}
    (hcoord : coord ∈ line.coords) : FinitePlace (place (coordsOf lines) coord) := by
  have hmem : coord ∈ coordsOf lines := mem_flatMap.mpr ⟨line, hline, hcoord⟩
  obtain ⟨other, hother, hplace⟩ := mem_flatMap.mp (place_mem hmem)
  exact (hlines other hother).coords _ hplace

include hcosine hspeed hpos hlines

theorem nonneg_lineCosts {line : Line} (hline : line ∈ lines) :
    (∀ cost ∈ lineCosts cosine speed (coordsOf lines) line, Nonneg cost) ↔
      Costed cosine (coordsOf lines) line := by
  rw [lineCosts, forall_mem_map, Costed]
  refine forall₂_congr fun pair hpair => ?_
  have hfirst : pair.1 ∈ line.coords := (of_mem_zip hpair).1
  have hsecond : pair.2 ∈ line.coords := mem_of_mem_tail (of_mem_zip hpair).2
  exact nonneg_edgeCost hcosine (place_finite hlines hline hfirst)
    (place_finite hlines hline hsecond) hspeed hpos (hlines line hline).walkMin _

theorem nonnegCosts_laid {nodes : List LonLat} {length : F64}
    {hrange : InRange nodes.length (lines.foldl (Laying.lay cosine speed) .start).edges} :
    NonnegCosts (ofEdges nodes (lines.foldl (Laying.lay cosine speed) .start).edges length speed
        hrange) ↔ ∀ line ∈ lines, Costed cosine (coordsOf lines) line := by
  rw [nonnegCosts_ofEdges, costs_laid, forall_mem_flatMap]
  exact forall₂_congr fun line hline => nonneg_lineCosts hcosine hspeed hpos hlines hline

end Load

/-- What a caller of `scale_edge_costs` gives. -/
abbrev Factor := LonLat → LonLat → Nat → Nat → F64

/-- No infinite cost is multiplied by zero. -/
def Harmless (graph : WalkGraph F64) (factor : Factor) : Prop :=
  ∀ u v w, graph.edge u v w → w.isFinite = false → (graph.factors factor u v).magnitude ≠ 0

theorem accepted_nonneg {factor : F64} (h : accepted factor = true) :
    factor.isFinite = true ∧ Nonneg factor := by
  obtain ⟨hfinite, hnot⟩ := Bool.and_eq_true_iff.mp h
  have hfinite : factor.isFinite = true := hfinite
  have hzero := rank_ofNat_zero
  refine ⟨hfinite, nonneg_iff.mpr ⟨isNan_of_finite hfinite, ?_⟩⟩
  by_contra hneg
  have hless : F64.lt factor (F64.ofNat 0) = true :=
    lt_iff.mpr ⟨isNan_of_finite hfinite, hzero.1, by omega⟩
  have hnot : (!F64.lt factor (F64.ofNat 0)) = true := hnot
  rw [hless] at hnot
  cases hnot

theorem accepts_of_ok {factor : Factor} {scaled : Nat}
    (h : (graph.scaleEdgeCosts factor).1 = .ok scaled) : graph.Accepts factor := by
  rw [(scaleEdgeCosts_spec graph factor).1] at h
  cases hrefused : firstRefused (graph.factors factor) graph.slots with
  | none => exact firstRefused_none.mp hrefused
  | some located =>
    rw [hrefused] at h
    cases h

theorem nonnegCosts_scaled {factor : Factor} (h : NonnegCosts graph)
    (haccepts : graph.Accepts factor) :
    NonnegCosts (graph.scaleEdgeCosts factor).2 ↔ Harmless graph factor := by
  have hproduct : ∀ u v w, graph.edge u v w → (Nonneg (w.mul (graph.factors factor u v)) ↔
        (w.isFinite = false → (graph.factors factor u v).magnitude ≠ 0)) := by
    intro u v w hedge
    obtain ⟨hfinite, hnonneg⟩ := accepted_nonneg (haccepts _ (mem_slots.mpr hedge))
    exact nonneg_mul_iff (h u v w hedge) hnonneg hfinite
  constructor
  · intro hscaled u v w hedge
    exact (hproduct u v w hedge).mp (hscaled u v _ (haccepts.edge.mpr ⟨w, hedge, rfl⟩))
  · intro hharmless u v w hedge
    obtain ⟨before, hbefore, rfl⟩ := haccepts.edge.mp hedge
    exact (hproduct u v before hbefore).mpr (hharmless u v before hbefore)

/-- The graph after calls of `scale_edge_costs`. -/
def rescaled (graph : WalkGraph F64) (factors : List Factor) : WalkGraph F64 :=
  factors.foldl (fun graph factor => (graph.scaleEdgeCosts factor).2) graph

theorem rescaled_concat (graph : WalkGraph F64) (factors : List Factor) (factor : Factor) :
    rescaled graph (factors ++ [factor]) =
      ((rescaled graph factors).scaleEdgeCosts factor).2 := foldl_concat ..

/-- Every call returns `Ok`. -/
def AcceptedRun (graph : WalkGraph F64) (factors : List Factor) : Prop :=
  ∀ front factor, front ++ [factor] <+: factors →
    ∃ scaled, ((rescaled graph front).scaleEdgeCosts factor).1 = .ok scaled

def HarmlessRun (graph : WalkGraph F64) (factors : List Factor) : Prop :=
  ∀ front factor, front ++ [factor] <+: factors → Harmless (rescaled graph front) factor

/-- The costs of a run are not negative exactly when they start so and every call is harmless. -/
theorem nonnegCosts_run {factors : List Factor} (haccepted : AcceptedRun graph factors) :
    (∀ front, front <+: factors → NonnegCosts (rescaled graph front)) ↔
      NonnegCosts graph ∧ HarmlessRun graph factors := by
  have hstep : ∀ front factor, front ++ [factor] <+: factors → NonnegCosts (rescaled graph front) →
      (NonnegCosts (rescaled graph (front ++ [factor])) ↔ Harmless (rescaled graph front) factor) := by
    intro front factor hprefix hcosts
    obtain ⟨scaled, hscaled⟩ := haccepted front factor hprefix
    rw [rescaled_concat]
    exact nonnegCosts_scaled hcosts (accepts_of_ok hscaled)
  constructor
  · intro h
    refine ⟨h [] nil_prefix, fun front factor hprefix => ?_⟩
    have hfront : front <+: factors := (prefix_append front [factor]).trans hprefix
    exact (hstep front factor hprefix (h front hfront)).mp (h _ hprefix)
  · intro h front
    obtain ⟨hstart, hharmless⟩ := h
    induction front using List.reverseRecOn with
    | nil => exact fun _ => hstart
    | append_singleton front factor ih =>
      intro hprefix
      have hfront : front <+: factors := (prefix_append front [factor]).trans hprefix
      exact (hstep front factor hprefix (ih hfront)).mpr (hharmless front factor hprefix)

theorem length_rescaled (graph : WalkGraph F64) (factors : List Factor) :
    (rescaled graph factors).nodes.length = graph.nodes.length := by
  induction factors using List.reverseRecOn with
  | nil => rfl
  | append_singleton front factor ih =>
    rw [rescaled_concat, ← ih]
    rfl

/-- In every run the costs are not negative and every search ends exactly when the lines have such
costs and no call multiplies an infinite cost by zero. -/
theorem fromGeojsonStr_costs {parse : String → Except String Json} {cosine : F64 → F64}
    (hcosine : Cosine cosine) {text : String} {graph : WalkGraph F64}
    (h : fromGeojsonStr parse cosine text = .ok graph) {factors : List Factor}
    (haccepted : AcceptedRun graph factors) :
    ∃ speed lines, readNetwork parse text = .ok (speed, lines) ∧
      ((∀ front, front <+: factors → NonnegCosts (rescaled graph front) ∧
          ∀ origin < graph.nodes.length, Ends (rescaled graph front) origin) ↔
        (∀ line ∈ lines, Costed cosine (coordsOf lines) line) ∧ HarmlessRun graph factors) := by
  rw [fromGeojsonStr] at h
  obtain ⟨⟨speed, lines⟩, hread, h⟩ := Fallible.bind_iff.mp h
  refine ⟨speed, lines, hread, ?_⟩
  obtain ⟨hspeed, hpos, hlines⟩ := readNetwork_finite hread
  dsimp only at h
  split_ifs at h
  · cases h
  · have hgraph := Except.ok.inj h
    have hloaded : NonnegCosts graph ↔ ∀ line ∈ lines, Costed cosine (coordsOf lines) line := by
      rw [← hgraph]
      exact nonnegCosts_laid hcosine hspeed hpos hlines
    rw [← hloaded, ← nonnegCosts_run haccepted]
    constructor
    · intro hall front hprefix
      exact (hall front hprefix).1
    · intro hall front hprefix
      refine ⟨hall front hprefix, fun origin horigin => ?_⟩
      exact (hall front hprefix).ends (by rw [length_rescaled]; exact horigin)

/-! ## A street of one segment -/

/-- A line along the equator with a declared time. -/
def equatorText (walkMin : Int) : Json :=
  .obj [("type", .str "FeatureCollection"), ("features", .arr [.obj [("type", .str "Feature"),
      ("geometry", .obj [("type", .str "LineString"),
        ("coordinates", .arr [.arr [.num (.int 0), .num (.int 0)],
          .arr [.num (.int 1), .num (.int 0)]])]),
      ("properties", .obj [("walk_min", .num (.int walkMin))])]])]

def equatorParse (text : String) : Except String Json :=
  .ok (equatorText (if text = "backwards" then -1 else 1))

/-- The cosine on the equator, which is what the other places take. -/
def equatorCosine (lat : F64) : F64 := if lat.isFinite then .ofNat 1 else .nan

theorem cosine_equator : Cosine equatorCosine where
  finite x hx := by
    rw [equatorCosine, if_pos hx]
    exact isFinite_ofNat (by omega)
  le_one x hx := by
    rw [equatorCosine, if_pos hx]
    decide +kernel
  undefined x hx := by
    rw [equatorCosine, hx]
    decide

theorem equator_loads {text : String} {adjacency : List (List (Slot F64))}
    (h : (fromGeojsonStr equatorParse equatorCosine text).toOption.map (·.adjacency) =
      some adjacency) :
    ∃ graph, fromGeojsonStr equatorParse equatorCosine text = .ok graph ∧
      graph.adjacency = adjacency := by
  cases hload : fromGeojsonStr equatorParse equatorCosine text with
  | error e =>
    rw [hload] at h
    cases h
  | ok graph =>
    rw [hload] at h
    exact ⟨graph, rfl, Option.some.inj h⟩

theorem equator_costed {speed : F64} {lines : List Line}
    (h : readNetwork equatorParse "forwards" = .ok (speed, lines)) :
    ∀ line ∈ lines, Costed equatorCosine (coordsOf lines) line := by
  have hread : (readNetwork equatorParse "forwards").toOption.map
      (fun network => network.2.map Line.walkMin) = some [some (F64.ofNat 1)] := by
    decide +kernel
  rw [h] at hread
  have htimes : lines.map Line.walkMin = [some (F64.ofNat 1)] := Option.some.inj hread
  intro line hline pair _
  have hmem : line.walkMin ∈ lines.map Line.walkMin := mem_map_of_mem hline
  rw [htimes, mem_singleton] at hmem
  rw [hmem]
  obtain ⟨-, hnan, hless⟩ := lt_iff.mp zero_lt_ofNat_one
  exact .inl (nonneg_iff.mpr ⟨hnan, by rw [zero_rank] at hless; omega⟩)

/-- A run of two steps: the network is read and its costs are doubled. -/
theorem fromGeojsonStr_costs_equator : ∃ graph,
    fromGeojsonStr equatorParse equatorCosine "forwards" = .ok graph ∧
      AcceptedRun graph [fun _ _ _ _ => F64.ofNat 2] ∧
      NonnegCosts (rescaled graph [fun _ _ _ _ => F64.ofNat 2]) := by
  have hdouble : accepted (F64.ofNat 2) = true ∧ (F64.ofNat 2).magnitude ≠ 0 := by decide +kernel
  have honly : ∀ (front : List Factor) factor, front ++ [factor] <+: [fun _ _ _ _ => F64.ofNat 2] →
        factor = fun _ _ _ _ => F64.ofNat 2 := by
    intro front factor hlast
    exact mem_singleton.mp (hlast.subset (mem_append_right _ mem_cons_self))
  have hload : (fromGeojsonStr equatorParse equatorCosine "forwards").toOption.map
      (·.adjacency) = some [[(1, .ofNat 1)], [(0, .ofNat 1)]] := by decide +kernel
  obtain ⟨graph, hgraph, -⟩ := equator_loads hload
  have haccepted : AcceptedRun graph [fun _ _ _ _ => F64.ofNat 2] := by
    intro front factor hprefix
    rw [honly front factor hprefix]
    exact ⟨_, Accepts.result fun _ _ => hdouble.1⟩
  refine ⟨graph, hgraph, haccepted, ?_⟩
  obtain ⟨speed, lines, hread, hiff⟩ := fromGeojsonStr_costs cosine_equator hgraph haccepted
  refine (hiff.mpr ⟨equator_costed hread, ?_⟩ _ prefix_rfl).1
  intro front factor hprefix u v w _ _
  rw [honly front factor hprefix]
  exact hdouble.2

/-- A walking time below zero is taken. -/
theorem fromGeojsonStr_negative : ∃ graph,
    fromGeojsonStr equatorParse equatorCosine "backwards" = .ok graph ∧ ¬ NonnegCosts graph := by
  have hread : (fromGeojsonStr equatorParse equatorCosine "backwards").toOption.map
      (·.adjacency) = some [[(1, .neg (.ofNat 1))], [(0, .neg (.ofNat 1))]] := by decide +kernel
  obtain ⟨graph, hgraph, hadjacency⟩ := equator_loads hread
  refine ⟨graph, hgraph, fun hcosts => ?_⟩
  have hedge : graph.edge 0 1 (.neg (.ofNat 1)) := by
    rw [edge, row, hadjacency]
    exact mem_cons_self
  have hnonneg : F64.le zero (.neg (.ofNat 1)) = true := hcosts 0 1 _ hedge
  revert hnonneg
  decide +kernel

end GeneGIS.Network.Loader
