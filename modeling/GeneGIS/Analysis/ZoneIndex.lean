/-
A ray to the right of a point meets the ring of an odd number of edges around it.  The index keeps
the bounds of the zones that have points, and looks them up by the position among all zones.
-/
import GeneGIS.Data.ClosedWalk
import Mathlib.Data.List.Nodup
import Mathlib.Data.List.ProdSigma
import Mathlib.Data.Rat.Floor

namespace GeneGIS.Flood

open ClosedWalk List Bool

/-! ## Points in rings -/

variable (point : ℚ × ℚ)

def straddles (a b : ℚ × ℚ) : Bool := decide (point.2 < a.2) != decide (point.2 < b.2)

def crossingX (a b : ℚ × ℚ) : ℚ := (b.1 - a.1) * (point.2 - a.2) / (b.2 - a.2) + a.1

/-- Whether the ray to the right of the point crosses an edge. -/
def crosses (a b : ℚ × ℚ) : Bool := straddles point a b && decide (point.1 < crossingX point a b)

def pointInRing (ring : List (ℚ × ℚ)) : Bool :=
  match ring.getLast? with
  | some last => (ring.foldl (fun s current => (s.1 ^^ crosses point s.2 current, current))
      (false, last)).1
  | none => false

variable {point}

theorem pointInRing_eq (ring : List (ℚ × ℚ)) :
    pointInRing point ring = oddClosed (crosses point) ring := by
  have hfold : ∀ (l : List (ℚ × ℚ)) previous inside,
      (l.foldl (fun s current => (s.1 ^^ crosses point s.2 current, current))
        (inside, previous)).1 = (inside ^^ odd (crosses point) (previous :: l)) := by
    intro l
    induction l with
    | nil => simp [odd]
    | cons current l ih =>
      intro previous inside
      rw [foldl_cons, ih, xor_assoc]
      rfl
  cases hlast : ring.getLast? with
  | none =>
    rw [getLast?_eq_none_iff.mp hlast]
    rfl
  | some last =>
    obtain ⟨front, rfl⟩ := getLast?_eq_some_iff.mp hlast
    rw [pointInRing, hlast]
    dsimp only
    rw [hfold, false_xor, oddClosed_rotate]
    rfl

theorem straddles_comm (a b : ℚ × ℚ) : straddles point a b = straddles point b a := by
  rw [straddles, straddles, bne_comm]

theorem crossingX_comm {a b : ℚ × ℚ} (h : straddles point a b = true) :
    crossingX point a b = crossingX point b a := by
  have hne : a.2 ≠ b.2 := by
    intro heq
    rw [straddles, heq, bne_self_eq_false] at h
    cases h
  have hab : a.2 - b.2 ≠ 0 := sub_ne_zero.mpr hne
  have hba : b.2 - a.2 ≠ 0 := sub_ne_zero.mpr hne.symm
  rw [crossingX, crossingX]
  field_simp
  ring

theorem crosses_comm (a b : ℚ × ℚ) : crosses point a b = crosses point b a := by
  rw [crosses, crosses, straddles_comm b a]
  cases h : straddles point a b with
  | false => rfl
  | true => rw [crossingX_comm h]

/-- The crossing lies between the ends of the edge. -/
theorem crossingX_within {a b lo hi : ℚ × ℚ} (h : straddles point a b = true)
    (ha : lo ≤ a ∧ a ≤ hi) (hb : lo ≤ b ∧ b ≤ hi) :
    (lo.1 ≤ crossingX point a b ∧ crossingX point a b ≤ hi.1) ∧
      lo.2 ≤ point.2 ∧ point.2 ≤ hi.2 := by
  wlog hup : a.2 ≤ point.2 generalizing a b
  · rw [crossingX_comm h]
    rw [straddles_comm] at h
    refine this h hb ha ?_
    have hlow : decide (point.2 < a.2) = true := decide_eq_true (not_le.mp hup)
    rw [straddles, hlow] at h
    by_contra hb
    rw [decide_eq_true (not_le.mp hb)] at h
    cases h
  have hb2 : point.2 < b.2 := by
    rw [straddles, decide_eq_false (not_lt.mpr hup)] at h
    by_contra hb
    rw [decide_eq_false hb] at h
    cases h
  have hpos : 0 < b.2 - a.2 := by linarith
  obtain ⟨⟨ha1, ha2⟩, ⟨ha3, ha4⟩⟩ := ha
  obtain ⟨⟨hb1, hb2'⟩, ⟨hb3, hb4⟩⟩ := hb
  have ht : 0 ≤ (point.2 - a.2) / (b.2 - a.2) := div_nonneg (by linarith) hpos.le
  have ht' : (point.2 - a.2) / (b.2 - a.2) ≤ 1 := (div_le_one hpos).mpr (by linarith)
  rw [crossingX, mul_div_assoc]
  generalize (point.2 - a.2) / (b.2 - a.2) = t at ht ht'
  refine ⟨⟨?_, ?_⟩, by linarith, by linarith⟩
  · nlinarith [mul_nonneg ht (sub_nonneg.mpr hb1), mul_nonneg (sub_nonneg.mpr ht') (sub_nonneg.mpr ha1)]
  · nlinarith [mul_nonneg ht (sub_nonneg.mpr hb3), mul_nonneg (sub_nonneg.mpr ht') (sub_nonneg.mpr ha3)]

/-- A point that is reported inside lies in every box around the ring. -/
theorem pointInRing_within {ring : List (ℚ × ℚ)} {lo hi : ℚ × ℚ}
    (h : pointInRing point ring = true) (hbox : ∀ v ∈ ring, lo ≤ v ∧ v ≤ hi) :
    lo ≤ point ∧ point ≤ hi := by
  rw [pointInRing_eq] at h
  cases ring with
  | nil => cases h
  | cons v rest =>
    have hmem : ∀ w ∈ v :: rest ++ [v], lo ≤ w ∧ w ≤ hi := by
      intro w hw
      rcases mem_append.mp hw with hw | hw
      · exact hbox w hw
      · rw [mem_singleton.mp hw]
        exact hbox v mem_cons_self
    -- Of the edges that change sides an odd number is to the right, so one is to the left.
    have hleft : odd (fun a b => straddles point a b && !decide (point.1 < crossingX point a b))
        (v :: rest ++ [v]) = true := by
      have hside := odd_side (fun u => decide (point.2 < u.2)) v rest v
      have hsplit : (fun a b : ℚ × ℚ => decide (point.2 < a.2) != decide (point.2 < b.2)) =
          fun a b => crosses point a b ^^
            (straddles point a b && !decide (point.1 < crossingX point a b)) := by
        funext a b
        rw [crosses, ← straddles]
        cases straddles point a b <;> cases decide (point.1 < crossingX point a b) <;> rfl
      rw [hsplit, odd_xor, bne_self_eq_false] at hside
      have hright : odd (crosses point) (v :: rest ++ [v]) = true := h
      rw [hright] at hside
      simpa using hside
    obtain ⟨a, ha, b, hb, hab⟩ := exists_step h
    obtain ⟨c, hc, d, hd, hcd⟩ := exists_step hleft
    rw [crosses, and_eq_true, decide_eq_true_eq] at hab
    rw [and_eq_true, not_eq_true', decide_eq_false_iff_not, not_lt] at hcd
    obtain ⟨⟨-, hupper⟩, hlow, hhigh⟩ := crossingX_within hab.1 (hmem a ha) (hmem b hb)
    obtain ⟨⟨hlower, -⟩, -⟩ := crossingX_within hcd.1 (hmem c hc) (hmem d hd)
    exact ⟨⟨hlower.trans hcd.2, hlow⟩, ⟨hab.2.le.trans hupper, hhigh⟩⟩

/-- Closing, turning and reversing a ring keep its inside, a chord divides it, and it lies in every
box around the ring. -/
theorem pointInRing_laws (point : ℚ × ℚ) (ring : List (ℚ × ℚ)) :
    (∀ first rest, ring = first :: rest →
      pointInRing point (ring ++ [first]) = pointInRing point ring) ∧
    (∀ front back, ring = front ++ back →
      pointInRing point (back ++ front) = pointInRing point ring) ∧
    pointInRing point ring.reverse = pointInRing point ring ∧
    (∀ before a between b after, ring = before ++ a :: between ++ b :: after →
      (pointInRing point (a :: between ++ [b]) ^^ pointInRing point (before ++ a :: b :: after)) =
        pointInRing point ring) ∧
    (pointInRing point ring = true →
      ∀ lo hi : ℚ × ℚ, (∀ v ∈ ring, lo ≤ v ∧ v ≤ hi) → lo ≤ point ∧ point ≤ hi) := by
  refine ⟨?_, ?_, ?_, ?_, fun h lo hi hbox => pointInRing_within h hbox⟩
  · rintro first rest rfl
    have hself : crosses point first first = false := by
      rw [crosses, straddles, bne_self_eq_false, Bool.false_and]
    rw [pointInRing_eq, pointInRing_eq, oddClosed_append]
    show (oddClosed (crosses point) (first :: rest) ^^ odd (crosses point) [first, first]) = _
    rw [odd_pair, hself, Bool.xor_false]
  · rintro front back rfl
    rw [pointInRing_eq, pointInRing_eq, oddClosed_rotate]
  · rw [pointInRing_eq, pointInRing_eq, oddClosed_reverse crosses_comm]
  · rintro before a between b after rfl
    simp only [pointInRing_eq]
    exact oddClosed_chord crosses_comm before between after a b

/-! ## Zones -/

structure PolygonRing where
  exterior : List (ℚ × ℚ)
  holes : List (List (ℚ × ℚ))

structure FloodZone where
  depthClassM : ℚ
  rings : List PolygonRing

def pointInPolygonParts (point : ℚ × ℚ) (parts : List PolygonRing) : Bool :=
  parts.any fun part => pointInRing point part.exterior &&
    part.holes.all fun hole => !pointInRing point hole

/-- The lower and the upper corner. -/
abbrev Bounds := (ℚ × ℚ) × (ℚ × ℚ)

def widen : Option Bounds → ℚ × ℚ → Option Bounds
  | none, p => some (p, p)
  | some b, p => some (b.1 ⊓ p, b.2 ⊔ p)

/-- There are none when no exterior has a point. -/
def ringBounds (rings : List PolygonRing) : Option Bounds :=
  (rings.flatMap PolygonRing.exterior).foldl widen none

/-- The bucket of a coordinate; `as i64` saturates. -/
def cellOf (value : ℚ) : ℤ := max (-2 ^ 63) (min (2 ^ 63 - 1) ⌊value / (1 / 100)⌋)

def cellsFrom (first last : ℤ) : List ℤ :=
  (range (last + 1 - first).toNat).map fun n : Nat => first + (n : ℤ)

def cells (b : Bounds) : List (ℤ × ℤ) :=
  cellsFrom (cellOf b.1.1) (cellOf b.2.1) ×ˢ cellsFrom (cellOf b.1.2) (cellOf b.2.2)

structure ZoneIndex where
  zones : List FloodZone
  bounds : List Bounds
  /-- What was pushed, with its bucket. -/
  entries : List ((ℤ × ℤ) × Nat)

namespace ZoneIndex

def place (index : ZoneIndex) (zone : FloodZone × Nat) : ZoneIndex :=
  match ringBounds zone.1.rings with
  | none => index
  | some b =>
    { index with bounds := index.bounds ++ [b]
                 entries := index.entries ++ (cells b).map fun cell => (cell, zone.2 % 2 ^ 32) }

def build (zones : List FloodZone) : Except String ZoneIndex :=
  if zones.isEmpty then .error "flood zone layer is empty"
  else .ok (zones.zipIdx.foldl place ⟨zones, [], []⟩)

variable (index : ZoneIndex) (point : ℚ × ℚ)

def bucket (cell : ℤ × ℤ) : List Nat :=
  (index.entries.filter fun entry => entry.1 = cell).map Prod.snd

/-- `none` when a position is out of range. -/
def inspect (deepest : ℚ) (position : Nat) : Option ℚ := do
  let b ← index.bounds[position]?
  if b.1 ≤ point ∧ point ≤ b.2 then
    let zone ← index.zones[position]?
    if deepest < zone.depthClassM ∧ pointInPolygonParts point zone.rings then
      return zone.depthClassM
    else return deepest
  else return deepest

def depthAt : Option ℚ :=
  (index.bucket (cellOf point.1, cellOf point.2)).foldlM (index.inspect point) 0

end ZoneIndex

/-- The scan of all zones. -/
def deepest (zones : List FloodZone) (point : ℚ × ℚ) : ℚ :=
  ((zones.filter fun zone => pointInPolygonParts point zone.rings).map
    FloodZone.depthClassM).foldl max 0

/-- No zone without points stands before one with points. -/
def Aligned : List FloodZone → Prop
  | [] => True
  | zone :: rest =>
    if (ringBounds zone.rings).isSome then Aligned rest
    else ∀ later ∈ rest, ringBounds later.rings = none

theorem widen_covers {points : List (ℚ × ℚ)} {start : Option Bounds} {b : Bounds}
    (h : points.foldl widen start = some b) :
    (∀ s, start = some s → b.1 ≤ s.1 ∧ s.2 ≤ b.2) ∧ ∀ p ∈ points, b.1 ≤ p ∧ p ≤ b.2 := by
  induction points generalizing start with
  | nil =>
    refine ⟨fun s hs => ?_, by simp⟩
    cases hs.symm.trans h
    exact ⟨le_refl _, le_refl _⟩
  | cons p rest ih =>
    obtain ⟨hwide, hrest⟩ := ih h
    cases start with
    | none =>
      obtain ⟨hlow, hhigh⟩ := hwide (p, p) rfl
      exact ⟨fun s hs => (by cases hs), forall_mem_cons.mpr ⟨⟨hlow, hhigh⟩, hrest⟩⟩
    | some s =>
      obtain ⟨hlow, hhigh⟩ := hwide (s.1 ⊓ p, s.2 ⊔ p) rfl
      refine ⟨fun s' hs => ?_, forall_mem_cons.mpr ⟨?_, hrest⟩⟩
      · cases hs
        exact ⟨hlow.trans inf_le_left, le_sup_left.trans hhigh⟩
      · exact ⟨hlow.trans inf_le_right, le_sup_right.trans hhigh⟩

theorem widen_isSome (points : List (ℚ × ℚ)) (b : Bounds) :
    (points.foldl widen (some b)).isSome = true := by
  induction points generalizing b with
  | nil => rfl
  | cons p rest ih => exact ih _

/-- A zone that contains a point has bounds, and they contain it. -/
theorem bounds_of_contains {point : ℚ × ℚ} {rings : List PolygonRing}
    (h : pointInPolygonParts point rings = true) :
    ∃ b, ringBounds rings = some b ∧ b.1 ≤ point ∧ point ≤ b.2 := by
  obtain ⟨part, hpart, hinside⟩ := any_eq_true.mp h
  have hring : pointInRing point part.exterior = true := (and_eq_true _ _ ▸ hinside).1
  have hmem : ∀ v ∈ part.exterior, v ∈ rings.flatMap PolygonRing.exterior :=
    fun v hv => mem_flatMap.mpr ⟨part, hpart, hv⟩
  cases hbounds : ringBounds rings with
  | none =>
    cases hpoints : part.exterior with
    | nil =>
      rw [hpoints] at hring
      cases hring
    | cons v rest =>
      have hv := hmem v (hpoints ▸ mem_cons_self)
      rw [ringBounds] at hbounds
      cases hall : rings.flatMap PolygonRing.exterior with
      | nil =>
        rw [hall] at hv
        cases hv
      | cons w others =>
        rw [hall, foldl_cons, ← Option.not_isSome_iff_eq_none] at hbounds
        exact absurd (widen_isSome others (w, w)) hbounds
  | some b =>
    exact ⟨b, rfl, pointInRing_within hring fun v hv => (widen_covers hbounds).2 v (hmem v hv)⟩

theorem cellOf_mono {x y : ℚ} (h : x ≤ y) : cellOf x ≤ cellOf y := by
  have hfloor : ⌊x / (1 / 100)⌋ ≤ ⌊y / (1 / 100)⌋ :=
    Int.floor_le_floor (div_le_div_of_nonneg_right h (by norm_num))
  exact max_le_max (le_refl _) (min_le_min (le_refl _) hfloor)

theorem mem_cellsFrom {first last cell : ℤ} :
    cell ∈ cellsFrom first last ↔ first ≤ cell ∧ cell ≤ last := by
  rw [cellsFrom, List.mem_map]
  constructor
  · intro h
    obtain ⟨n, hn, rfl⟩ := h
    rw [mem_range] at hn
    omega
  · intro h
    exact ⟨(cell - first).toNat, mem_range.mpr (by omega), by omega⟩

theorem nodup_cells (b : Bounds) : (cells b).Nodup := by
  have hfrom : ∀ first last, (cellsFrom first last).Nodup := fun first last =>
    Nodup.map (fun m n h => Nat.cast_injective (add_left_cancel h)) nodup_range
  exact (hfrom _ _).product (hfrom _ _)

theorem mem_cells {b : Bounds} {point : ℚ × ℚ} (h : b.1 ≤ point ∧ point ≤ b.2) :
    (cellOf point.1, cellOf point.2) ∈ cells b :=
  mem_product.mpr ⟨mem_cellsFrom.mpr ⟨cellOf_mono h.1.1, cellOf_mono h.2.1⟩,
    mem_cellsFrom.mpr ⟨cellOf_mono h.1.2, cellOf_mono h.2.2⟩⟩

/-- The position of a zone in a bucket, if the zone reaches into it. -/
def positions (cell : ℤ × ℤ) (zone : FloodZone × Nat) : List Nat :=
  match ringBounds zone.1.rings with
  | none => []
  | some b => if cell ∈ cells b then [zone.2 % 2 ^ 32] else []

namespace ZoneIndex

theorem place_bounds (index : ZoneIndex) (zone : FloodZone × Nat) :
    (index.place zone).zones = index.zones ∧
      (index.place zone).bounds = index.bounds ++ (ringBounds zone.1.rings).toList := by
  rw [place]
  cases ringBounds zone.1.rings <;> simp

theorem place_bucket (index : ZoneIndex) (zone : FloodZone × Nat) (cell : ℤ × ℤ) :
    (index.place zone).bucket cell = index.bucket cell ++ positions cell zone := by
  rw [place, positions]
  cases ringBounds zone.1.rings with
  | none => exact (append_nil _).symm
  | some b =>
    have hcount : (((cells b).map fun c => (c, zone.2 % 2 ^ 32)).filter fun entry =>
        entry.1 = cell).map Prod.snd = if cell ∈ cells b then [zone.2 % 2 ^ 32] else [] := by
      rw [List.filter_map, List.map_map]
      show ((cells b).filter fun c => decide (c = cell)).map (fun _ => zone.2 % 2 ^ 32) = _
      rw [filter_eq, map_replicate]
      by_cases hmem : cell ∈ cells b
      · rw [(nodup_cells b).count, if_pos hmem, if_pos hmem]
        rfl
      · rw [(nodup_cells b).count, if_neg hmem, if_neg hmem]
        rfl
    show ((index.entries ++ _).filter _).map _ = _
    rw [filter_append, map_append, hcount]
    rfl

theorem foldl_place (zones : List (FloodZone × Nat)) (index : ZoneIndex) :
    (zones.foldl place index).zones = index.zones ∧ (zones.foldl place index).bounds =
        index.bounds ++ zones.flatMap (fun zone => (ringBounds zone.1.rings).toList) ∧
      ∀ cell, (zones.foldl place index).bucket cell =
        index.bucket cell ++ zones.flatMap (positions cell) := by
  induction zones generalizing index with
  | nil => simp
  | cons zone rest ih =>
    obtain ⟨hzones, hbounds, hbucket⟩ := ih (index.place zone)
    obtain ⟨hzones', hbounds'⟩ := place_bounds index zone
    refine ⟨hzones.trans hzones', ?_, fun cell => ?_⟩
    · rw [foldl_cons, hbounds, hbounds', flatMap_cons, append_assoc]
    · rw [foldl_cons, hbucket, place_bucket, flatMap_cons, append_assoc]

/-! ## Lookups -/

variable {index : ZoneIndex} {point : ℚ × ℚ}

theorem inspect_eq {zone : FloodZone} {b : Bounds} {i : Nat} (hzone : index.zones[i]? = some zone)
    (hbounds : index.bounds[i]? = some b) (hb : ringBounds zone.rings = some b) (depth : ℚ) :
    index.inspect point depth i = some
      (if pointInPolygonParts point zone.rings then max depth zone.depthClassM else depth) := by
  rw [inspect, hbounds, hzone]
  dsimp only [Option.bind_eq_bind, Option.bind_some, Option.pure_def]
  cases hin : pointInPolygonParts point zone.rings with
  | false => simp
  | true =>
    obtain ⟨b', hb', hbox⟩ := bounds_of_contains hin
    cases hb.symm.trans hb'
    rw [if_pos hbox]
    by_cases hdeep : depth < zone.depthClassM
    · rw [if_pos ⟨hdeep, rfl⟩, if_pos rfl, max_eq_right hdeep.le]
    · rw [if_neg fun h => hdeep h.1, if_pos rfl, max_eq_left (not_lt.mp hdeep)]

/-- With the bounds where the zones are, the candidates are as deep as all zones. -/
theorem foldlM_inspect {zones : List (FloodZone × Nat)}
    (hplace : ∀ zone ∈ zones, zone.2 < 2 ^ 32 ∧ index.zones[zone.2]? = some zone.1 ∧
      ∀ b, ringBounds zone.1.rings = some b → index.bounds[zone.2]? = some b) (depth : ℚ) :
    (zones.flatMap (positions (cellOf point.1, cellOf point.2))).foldlM (index.inspect point) depth =
      some ((((zones.map Prod.fst).filter fun zone => pointInPolygonParts point zone.rings).map
        FloodZone.depthClassM).foldl max depth) := by
  induction zones generalizing depth with
  | nil => rfl
  | cons zone rest ih =>
    obtain ⟨⟨hlt, hzone, hbounds⟩, hrest⟩ := forall_mem_cons.mp hplace
    rw [flatMap_cons, foldlM_append, map_cons, filter_cons]
    have hskip (hpos : positions (cellOf point.1, cellOf point.2) zone = [])
        (hout : pointInPolygonParts point zone.1.rings ≠ true) :
        (positions (cellOf point.1, cellOf point.2) zone).foldlM (index.inspect point) depth =
          some (if pointInPolygonParts point zone.1.rings then max depth zone.1.depthClassM
            else depth) := by
      rw [hpos, if_neg hout]
      rfl
    have hstep : (positions (cellOf point.1, cellOf point.2) zone).foldlM (index.inspect point)
        depth = some (if pointInPolygonParts point zone.1.rings then max depth zone.1.depthClassM
          else depth) := by
      cases hb : ringBounds zone.1.rings with
      | none =>
        refine hskip (by rw [positions, hb]) fun hin => ?_
        obtain ⟨b, hb', -⟩ := bounds_of_contains hin
        cases hb.symm.trans hb'
      | some b =>
        by_cases hmem : (cellOf point.1, cellOf point.2) ∈ cells b
        · rw [positions, hb]
          dsimp only
          rw [if_pos hmem, Nat.mod_eq_of_lt hlt, foldlM_cons, inspect_eq hzone (hbounds b hb) hb]
          rfl
        · refine hskip (by rw [positions, hb]; exact if_neg hmem) fun hin => hmem ?_
          obtain ⟨b', hb', hbox⟩ := bounds_of_contains hin
          cases hb.symm.trans hb'
          exact mem_cells hbox
    rw [hstep]
    refine (ih hrest _).trans ?_
    cases pointInPolygonParts point zone.1.rings <;> rfl

theorem foldlM_inspect_none {candidates : List Nat} {i : Nat} (hi : i ∈ candidates)
    (hlong : index.bounds.length ≤ i) (depth : ℚ) :
    candidates.foldlM (index.inspect point) depth = none := by
  induction candidates generalizing depth with
  | nil => cases hi
  | cons first rest ih =>
    rw [foldlM_cons]
    cases mem_cons.mp hi with
    | inl heq =>
      have hnone : index.inspect point depth first = none := by
        rw [inspect, ← heq, getElem?_eq_none hlong]
        rfl
      rw [hnone]
      rfl
    | inr hrest =>
      cases index.inspect point depth first with
      | none => rfl
      | some next => exact ih hrest next

end ZoneIndex

abbrev allBounds (zones : List FloodZone) : List Bounds :=
  zones.flatMap fun zone => (ringBounds zone.rings).toList

theorem Aligned.getElem? {zones : List FloodZone} (h : Aligned zones) {i : Nat} {zone : FloodZone}
    {b : Bounds} (hzone : zones[i]? = some zone) (hb : ringBounds zone.rings = some b) :
    (allBounds zones)[i]? = some b := by
  induction zones generalizing i with
  | nil => cases hzone
  | cons first rest ih =>
    rw [Aligned] at h
    cases hfirst : ringBounds first.rings with
    | none =>
      rw [if_neg (by simp [hfirst])] at h
      cases i with
      | zero =>
        cases hzone
        cases hfirst.symm.trans hb
      | succ i => cases (h zone (mem_of_getElem? hzone)).symm.trans hb
    | some b' =>
      rw [if_pos (by simp [hfirst])] at h
      rw [allBounds, flatMap_cons, hfirst]
      cases i with
      | zero =>
        cases hzone
        exact hfirst.symm.trans hb
      | succ i => exact ih h hzone

theorem exists_last_bounds {zones : List FloodZone} (h : ∃ zone ∈ zones, ringBounds zone.rings ≠ none) :
    ∃ i zone b, zones[i]? = some zone ∧ ringBounds zone.rings = some b ∧
      (allBounds zones).length ≤ i + 1 := by
  induction zones with
  | nil => simp at h
  | cons first rest ih =>
    have hone : (ringBounds first.rings).toList.length ≤ 1 := by
      cases ringBounds first.rings <;> simp
    have hlen : (allBounds (first :: rest)).length =
        (ringBounds first.rings).toList.length + (allBounds rest).length := by
      rw [allBounds, flatMap_cons, length_append]
    by_cases hrest : ∃ zone ∈ rest, ringBounds zone.rings ≠ none
    · obtain ⟨i, zone, b, hzone, hb, hi⟩ := ih hrest
      exact ⟨i + 1, zone, b, hzone, hb, by omega⟩
    · push Not at hrest
      have hempty : allBounds rest = [] := by
        refine flatMap_eq_nil_iff.mpr fun zone hz => ?_
        rw [hrest zone hz]
        rfl
      obtain ⟨zone, hzone, hne⟩ := h
      cases mem_cons.mp hzone with
      | inl heq =>
        subst heq
        obtain ⟨b, hb⟩ := Option.ne_none_iff_exists'.mp hne
        exact ⟨0, zone, b, rfl, hb, by rw [hlen, hempty]; exact hone⟩
      | inr hmem => exact absurd (hrest zone hmem) hne

/-- Otherwise a zone with points is placed beyond the bounds. -/
theorem exists_beyond {zones : List FloodZone} (h : ¬Aligned zones) :
    ∃ i zone b, zones[i]? = some zone ∧ ringBounds zone.rings = some b ∧
      (allBounds zones).length ≤ i := by
  induction zones with
  | nil => exact absurd trivial h
  | cons first rest ih =>
    rw [Aligned] at h
    cases hfirst : ringBounds first.rings with
    | none =>
      rw [if_neg (by simp [hfirst])] at h
      push Not at h
      obtain ⟨i, zone, b, hzone, hb, hi⟩ := exists_last_bounds h
      refine ⟨i + 1, zone, b, hzone, hb, ?_⟩
      rw [allBounds, flatMap_cons, hfirst]
      exact hi
    | some b' =>
      rw [if_pos (by simp [hfirst])] at h
      obtain ⟨i, zone, b, hzone, hb, hi⟩ := ih h
      refine ⟨i + 1, zone, b, hzone, hb, ?_⟩
      rw [allBounds, flatMap_cons, hfirst]
      exact Nat.succ_le_succ hi

theorem ringBounds_le {rings : List PolygonRing} {b : Bounds} (h : ringBounds rings = some b) :
    b.1 ≤ b.2 := by
  cases hpoints : rings.flatMap PolygonRing.exterior with
  | nil =>
    rw [ringBounds, hpoints] at h
    cases h
  | cons v rest =>
    obtain ⟨hlow, hhigh⟩ := (widen_covers h).2 v (hpoints ▸ mem_cons_self)
    exact hlow.trans hhigh

/-- The index agrees with the scan everywhere exactly when no zone without points stands before one
with points. -/
theorem ZoneIndex.depthAt_deepest_iff (zones : List FloodZone) (hne : zones ≠ [])
    (hlen : zones.length ≤ 2 ^ 32) :
    ∃ index, build zones = .ok index ∧
      ((∀ point, index.depthAt point = some (deepest zones point)) ↔ Aligned zones) := by
  refine ⟨_, if_neg (by simpa using hne), ?_⟩
  obtain ⟨hzones, hbounds, hbucket⟩ := foldl_place zones.zipIdx ⟨zones, [], []⟩
  generalize zones.zipIdx.foldl place ⟨zones, [], []⟩ = index at hzones hbounds hbucket
  have hall : index.bounds = allBounds zones := by
    have hfst := flatMap_map Prod.fst (fun zone : FloodZone => (ringBounds zone.rings).toList)
      zones.zipIdx
    rw [zipIdx_map_fst] at hfst
    exact hbounds.trans hfst.symm
  have hcell (cell : ℤ × ℤ) : index.bucket cell = zones.zipIdx.flatMap (positions cell) :=
    hbucket cell
  constructor
  · intro h
    by_contra hnot
    obtain ⟨i, zone, b, hzone, hb, hi⟩ := exists_beyond hnot
    have hmem : i ∈ index.bucket (cellOf b.1.1, cellOf b.1.2) := by
      rw [hcell]
      refine mem_flatMap.mpr ⟨(zone, i), mem_zipIdx_iff_getElem?.mpr hzone, ?_⟩
      have hlt : i < zones.length := (List.getElem?_eq_some_iff.mp hzone).1
      rw [positions, hb]
      dsimp only
      rw [if_pos (mem_cells ⟨le_refl _, ringBounds_le hb⟩), Nat.mod_eq_of_lt (by omega)]
      exact mem_singleton_self i
    have hnone : index.depthAt b.1 = none := foldlM_inspect_none hmem (hall ▸ hi) 0
    exact absurd ((h b.1).symm.trans hnone) (by simp)
  · intro haligned point
    rw [depthAt, hcell, foldlM_inspect, zipIdx_map_fst]
    · rfl
    · intro zone hz
      have hget := mem_zipIdx_iff_getElem?.mp hz
      refine ⟨?_, hzones ▸ hget, fun b hb => hall ▸ haligned.getElem? hget hb⟩
      have hlt : zone.2 < zones.length := (List.getElem?_eq_some_iff.mp hget).1
      omega

/-- A zone whose exterior has no points, before a triangle. -/
theorem ZoneIndex.depthAt_degenerate_first :
    ∃ zones index point, zones ≠ [] ∧ build zones = .ok index ∧
      index.depthAt point ≠ some (deepest zones point) := by
  refine ⟨[⟨1, [⟨[], []⟩]⟩, ⟨2, [⟨[(0, 0), (2, 0), (0, 2)], []⟩]⟩], _, (1, 1 / 2), by simp, rfl, ?_⟩
  decide +kernel

theorem ZoneIndex.depthAt_deepest_iff_triangle :
    ∃ index, build [⟨2, [⟨[(0, 0), (2, 0), (0, 2)], []⟩]⟩] = .ok index ∧
      ((∀ point, index.depthAt point =
        some (deepest [⟨2, [⟨[(0, 0), (2, 0), (0, 2)], []⟩]⟩] point)) ↔
          Aligned [⟨2, [⟨[(0, 0), (2, 0), (0, 2)], []⟩]⟩]) :=
  ZoneIndex.depthAt_deepest_iff _ (by simp) (by decide)

end GeneGIS.Flood
