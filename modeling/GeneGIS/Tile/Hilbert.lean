/-
The tiles of a zoom level are numbered after those of the levels above it, and within a level by
their list of quadrants.
-/
import GeneGIS.Data.HilbertCurve
import GeneGIS.Tile.Pmtiles
import Mathlib.Data.Nat.Bitwise
import Mathlib.Data.Nat.ModEq

namespace GeneGIS.Pmtiles

open Nat

variable (level n : Nat)

/-- A bit of a number, as the loop tests it. -/
def bit : Nat := if n &&& 2 ^ level != 0 then 1 else 0

theorem bit_eq : bit level n = n / 2 ^ level % 2 := by
  have hdigit : (n.testBit level).toNat = n / 2 ^ level % 2 := toNat_testBit n level
  rw [bit, and_two_pow, ← hdigit]
  cases n.testBit level with
  | false => simp
  | true => simp

theorem bit_lt : bit level n < 2 := by
  rw [bit_eq]
  omega

theorem mod_succ : n % 2 ^ (level + 1) = n % 2 ^ level + 2 ^ level * bit level n := by
  rw [bit_eq, mod_pow_succ]

def quadrant (rx ry : Nat) : Nat := 3 * rx ^^^ ry

theorem quadrant_le {rx ry : Nat} (hx : rx < 2) (hy : ry < 2) : quadrant rx ry ≤ 3 := by
  have hrx : rx = 0 ∨ rx = 1 := by omega
  have hry : ry = 0 ∨ ry = 1 := by omega
  rcases hrx with rfl | rfl <;> rcases hry with rfl | rfl <;> decide

theorem quadrant_inj {rx ry rx' ry' : Nat} (hx : rx < 2) (hy : ry < 2) (hx' : rx' < 2)
    (hy' : ry' < 2) (h : quadrant rx ry = quadrant rx' ry') : rx = rx' ∧ ry = ry' := by
  have hrx : rx = 0 ∨ rx = 1 := by omega
  have hry : ry = 0 ∨ ry = 1 := by omega
  have hrx' : rx' = 0 ∨ rx' = 1 := by omega
  have hry' : ry' = 0 ∨ ry' = 1 := by omega
  rcases hrx with rfl | rfl <;> rcases hry with rfl | rfl <;>
    rcases hrx' with rfl | rfl <;> rcases hry' with rfl | rfl <;> revert h <;> decide

/-- The coordinates that the loop goes on with. -/
def turned (z rx ry x y : Nat) : Nat × Nat :=
  if ry = 0 then if rx = 1 then (2 ^ z - 1 - y, 2 ^ z - 1 - x) else (y, x) else (x, y)

theorem hilbertDistance_succ (z level x y : Nat) :
    hilbertDistance z (level + 1) x y = 4 ^ level * quadrant (bit level x) (bit level y) +
      hilbertDistance z level (turned z (bit level x) (bit level y) x y).1
        (turned z (bit level x) (bit level y) x y).2 := by
  have hscale : 2 ^ level * 2 ^ level = 4 ^ level := by rw [← Nat.mul_pow]
  rw [hilbertDistance, ← hscale, turned]
  show (if bit level y = 0 then if bit level x = 1 then _ else _ else _) = _
  split
  · split
    · rfl
    · rfl
  · rfl

theorem hilbertDistance_lt (z level x y : Nat) : hilbertDistance z level x y < 4 ^ level := by
  induction level generalizing x y with
  | zero => exact one_pos
  | succ level ih =>
    rw [hilbertDistance_succ, Nat.pow_succ]
    have hrest := ih (turned z (bit level x) (bit level y) x y).1
      (turned z (bit level x) (bit level y) x y).2
    have hquadrant := mul_le_mul_left (4 ^ level)
      (quadrant_le (bit_lt level x) (bit_lt level y))
    omega

theorem flip_mod {z level x x' : Nat} (hx : x < 2 ^ z) (hx' : x' < 2 ^ z)
    (h : (2 ^ z - 1 - x) % 2 ^ level = (2 ^ z - 1 - x') % 2 ^ level) :
    x % 2 ^ level = x' % 2 ^ level := by
  have hsum : 2 ^ z - 1 - x + x = 2 ^ z - 1 - x' + x' := by omega
  have hmod : 2 ^ z - 1 - x + x ≡ 2 ^ z - 1 - x' + x' [MOD 2 ^ level] := by rw [hsum]
  exact ModEq.add_left_cancel h hmod

theorem turned_lt (rx ry : Nat) {z x y : Nat} (hx : x < 2 ^ z) (hy : y < 2 ^ z) :
    (turned z rx ry x y).1 < 2 ^ z ∧ (turned z rx ry x y).2 < 2 ^ z := by
  rw [turned]
  split
  · split
    · exact ⟨by dsimp only; omega, by dsimp only; omega⟩
    · exact ⟨hy, hx⟩
  · exact ⟨hx, hy⟩

theorem turned_mod {z level rx ry x y x' y' : Nat} (hx : x < 2 ^ z) (hy : y < 2 ^ z)
    (hx' : x' < 2 ^ z) (hy' : y' < 2 ^ z)
    (h : (turned z rx ry x y).1 % 2 ^ level = (turned z rx ry x' y').1 % 2 ^ level ∧
      (turned z rx ry x y).2 % 2 ^ level = (turned z rx ry x' y').2 % 2 ^ level) :
    x % 2 ^ level = x' % 2 ^ level ∧ y % 2 ^ level = y' % 2 ^ level := by
  rw [turned, turned] at h
  by_cases hry : ry = 0
  · rw [if_pos hry, if_pos hry] at h
    by_cases hrx : rx = 1
    · rw [if_pos hrx, if_pos hrx] at h
      exact ⟨flip_mod hx hx' h.2, flip_mod hy hy' h.1⟩
    · rw [if_neg hrx, if_neg hrx] at h
      exact ⟨h.2, h.1⟩
  · rw [if_neg hry, if_neg hry] at h
    exact h

theorem hilbertDistance_inj {z level x y x' y' : Nat} (hx : x < 2 ^ z) (hy : y < 2 ^ z)
    (hx' : x' < 2 ^ z) (hy' : y' < 2 ^ z)
    (h : hilbertDistance z level x y = hilbertDistance z level x' y') :
    x % 2 ^ level = x' % 2 ^ level ∧ y % 2 ^ level = y' % 2 ^ level := by
  induction level generalizing x y x' y' with
  | zero => exact ⟨by simp [mod_one], by simp [mod_one]⟩
  | succ level ih =>
    rw [hilbertDistance_succ, hilbertDistance_succ] at h
    have hlt := hilbertDistance_lt z level (turned z (bit level x) (bit level y) x y).1
      (turned z (bit level x) (bit level y) x y).2
    have hlt' := hilbertDistance_lt z level (turned z (bit level x') (bit level y') x' y').1
      (turned z (bit level x') (bit level y') x' y').2
    have hquadrant := congrArg (· / 4 ^ level) h
    have hrest := congrArg (· % 4 ^ level) h
    simp only [Nat.mul_add_div (Nat.pow_pos (by decide : 0 < 4)), Nat.div_eq_of_lt hlt,
      Nat.div_eq_of_lt hlt', Nat.add_zero, Nat.mul_add_mod, Nat.mod_eq_of_lt hlt,
      Nat.mod_eq_of_lt hlt'] at hquadrant hrest
    obtain ⟨hbx, hby⟩ := quadrant_inj (bit_lt level x) (bit_lt level y) (bit_lt level x')
      (bit_lt level y') hquadrant
    rw [← hbx, ← hby] at hrest
    obtain ⟨hfirst, hsecond⟩ := turned_lt (bit level x) (bit level y) hx hy
    obtain ⟨hfirst', hsecond'⟩ := turned_lt (bit level x) (bit level y) hx' hy'
    obtain ⟨hmodx, hmody⟩ := turned_mod hx hy hx' hy' (ih hfirst hsecond hfirst' hsecond' hrest)
    rw [mod_succ, mod_succ, mod_succ, mod_succ, hbx, hby, hmodx, hmody]
    exact ⟨rfl, rfl⟩

def base (z : Nat) : Nat := (2 ^ (z * 2) - 1) / 3

theorem base_succ (z : Nat) : base (z + 1) = base z + 4 ^ z := by
  have hpow : 2 ^ (z * 2) = 4 ^ z := by rw [Nat.mul_comm, Nat.pow_mul]
  have hnext : 2 ^ ((z + 1) * 2) = 4 * 4 ^ z := by
    rw [Nat.mul_comm, Nat.pow_mul, Nat.pow_succ, Nat.mul_comm]
  have hpos : 0 < 4 ^ z := Nat.pow_pos (by decide)
  rw [base, base, hpow, hnext]
  omega

theorem base_mono {z z' : Nat} (h : z ≤ z') : base z ≤ base z' := by
  induction z', h using le_induction with
  | base => exact le_refl _
  | succ z' _ ih =>
    have hnext := base_succ z'
    have hpos : 0 < 4 ^ z' := Nat.pow_pos (by decide)
    omega

theorem zxyToTileId_ok {z x y tileId : Nat} : zxyToTileId z x y = .ok tileId ↔
    z ≤ 31 ∧ x < 2 ^ z ∧ y < 2 ^ z ∧ tileId = base z + hilbertDistance z (z - 1 + 1) x y := by
  rw [zxyToTileId]
  split
  · next h =>
    refine iff_of_false nofun ?_
    intro hok
    simp only [Bool.or_eq_true, decide_eq_true_eq] at h
    omega
  · next h =>
    simp only [Bool.or_eq_true, decide_eq_true_eq, not_or] at h
    rw [Except.ok.injEq, eq_comm, base]
    refine ⟨fun hid => ⟨?_, ?_, ?_, hid⟩, fun h => h.2.2.2⟩ <;> omega

theorem distance_lt {z x y : Nat} (hx : x < 2 ^ z) (hy : y < 2 ^ z) :
    hilbertDistance z (z - 1 + 1) x y < 4 ^ z := by
  cases z with
  | zero =>
    have hx0 : x = 0 := by omega
    have hy0 : y = 0 := by omega
    rw [hx0, hy0]
    decide
  | succ z => exact hilbertDistance_lt (z + 1) (z + 1) x y

theorem tileId_lt {z x y tileId : Nat} (h : zxyToTileId z x y = .ok tileId) : tileId < 2 ^ 64 := by
  obtain ⟨hz, hx, hy, rfl⟩ := zxyToTileId_ok.mp h
  have hdistance := distance_lt hx hy
  have hlast : base (z + 1) ≤ base 32 := base_mono (by omega)
  have hbound : base 32 < 2 ^ 64 := by decide
  rw [base_succ] at hlast
  omega

theorem zxyToTileId_inj {z x y z' x' y' tileId : Nat} (h : zxyToTileId z x y = .ok tileId)
    (h' : zxyToTileId z' x' y' = .ok tileId) : z = z' ∧ x = x' ∧ y = y' := by
  obtain ⟨-, hx, hy, hid⟩ := zxyToTileId_ok.mp h
  obtain ⟨-, hx', hy', hid'⟩ := zxyToTileId_ok.mp h'
  have hlt := distance_lt hx hy
  have hlt' := distance_lt hx' hy'
  have hzoom : ∀ {z z' d d' : Nat}, d < 4 ^ z → base z + d = base z' + d' → ¬ z < z' := by
    intro z z' d d' hd hsum hzz
    have hnext : base (z + 1) ≤ base z' := base_mono hzz
    rw [base_succ] at hnext
    omega
  have hz : z = z' := by
    have hsum := hid.symm.trans hid'
    have hle := hzoom hlt hsum
    have hge := hzoom hlt' hsum.symm
    omega
  rw [← hz] at hx' hy' hid' ⊢
  have hdistance : hilbertDistance z (z - 1 + 1) x y = hilbertDistance z (z - 1 + 1) x' y' := by
    omega
  obtain ⟨hmodx, hmody⟩ := hilbertDistance_inj hx hy hx' hy' hdistance
  have hlow : ∀ n < 2 ^ z, n % 2 ^ (z - 1 + 1) = n := by
    intro n hn
    apply Nat.mod_eq_of_lt
    exact Nat.lt_of_lt_of_le hn (Nat.pow_le_pow_right (by decide) (by omega))
  rw [hlow x hx, hlow x' hx'] at hmodx
  rw [hlow y hy, hlow y' hy'] at hmody
  exact ⟨rfl, hmodx, hmody⟩

end GeneGIS.Pmtiles

/-! ## Tile identifiers follow the Hilbert curve

The loop over the scales is the inverse of the curve, and stays within the widths of its integers. -/

namespace GeneGIS.Pmtiles

open HilbertCurve Option Nat

variable {z level x y d : Nat}

/-! ## The inverse of the curve -/

theorem flip_low (hlevel : level ≤ z) (hx : x < 2 ^ z) :
    (2 ^ z - 1 - x) % 2 ^ level = 2 ^ level - 1 - x % 2 ^ level := by
  have hpow : 2 ^ z = 2 ^ level * 2 ^ (z - level) := by
    rw [← Nat.pow_add, Nat.add_sub_cancel' hlevel]
  have hlow := Nat.mod_lt x (Nat.two_pow_pos level)
  have hsplit := div_add_mod x (2 ^ level)
  have hhigh : x / 2 ^ level < 2 ^ (z - level) := by
    rw [hpow] at hx
    exact Nat.div_lt_of_lt_mul hx
  have hrest : 2 ^ level * (x / 2 ^ level + 1 + (2 ^ (z - level) - 1 - x / 2 ^ level)) = 2 ^ z := by
    rw [hpow]
    congr 1
    omega
  rw [mul_add, mul_add, mul_one] at hrest
  have hflip : 2 ^ z - 1 - x = 2 ^ level * (2 ^ (z - level) - 1 - x / 2 ^ level) +
      (2 ^ level - 1 - x % 2 ^ level) := by
    omega
  rw [hflip, (HilbertCurve.digits (by omega)).2]

/-- The induction over the levels: the leading digit is the quadrant of the cell, and the bits left
are turned as its curve is. -/
theorem hilbertDistance_point (hlevel : level ≤ z) (hx : x < 2 ^ z) (hy : y < 2 ^ z)
    (hd : d < 4 ^ level) (h : point level d = (x % 2 ^ level, y % 2 ^ level)) :
    hilbertDistance z level x y = d := by
  induction level generalizing x y d with
  | zero =>
    rw [pow_zero] at hd
    rw [hilbertDistance]
    omega
  | succ level ih =>
    have hpos : 0 < 4 ^ level := Nat.pow_pos (by decide)
    have hrest := Nat.mod_lt d hpos
    have hsplit := div_add_mod d (4 ^ level)
    rw [Nat.pow_succ] at hd
    have hquadrant : d / 4 ^ level < 4 := Nat.div_lt_of_lt_mul hd
    have hcell := point_within level (d % 4 ^ level)
    obtain ⟨hpx, hpy⟩ := hcell
    have hbx := bit_lt level x
    have hby := bit_lt level y
    have hlowx := Nat.mod_lt x (Nat.two_pow_pos level)
    have hlowy := Nat.mod_lt y (Nat.two_pow_pos level)
    have hflipx := flip_low (by omega : level ≤ z) hx
    have hflipy := flip_low (by omega : level ≤ z) hy
    -- What is to be shown of the four quadrants, with the bits that they have.
    have hstep : ∀ rx ry, bit level x = rx → bit level y = ry → quadrant rx ry = d / 4 ^ level →
        point level (d % 4 ^ level) = ((turned z rx ry x y).1 % 2 ^ level,
          (turned z rx ry x y).2 % 2 ^ level) →
        hilbertDistance z (level + 1) x y = d := by
      intro rx ry hrx hry hq hturned
      obtain ⟨hfirst, hsecond⟩ := turned_lt rx ry hx hy
      rw [hilbertDistance_succ, hrx, hry, hq, ih (by omega) hfirst hsecond hrest hturned, hsplit]
    rw [point, mod_succ, mod_succ] at h
    have hcases : d / 4 ^ level = 0 ∨ d / 4 ^ level = 1 ∨ d / 4 ^ level = 2 ∨
        d / 4 ^ level = 3 := by
      generalize d / 4 ^ level = quadrant at hquadrant
      omega
    obtain hq | hq | hq | hq := hcases
    · rw [hq, place, Prod.mk.injEq] at h
      have hrx : bit level x = 0 := by grind
      have hry : bit level y = 0 := by grind
      refine hstep 0 0 hrx hry (by rw [hq]; rfl) ?_
      rw [hrx] at h
      rw [hry] at h
      exact Prod.ext (by simpa [turned] using h.2) (by simpa [turned] using h.1)
    · rw [hq, place, Prod.mk.injEq] at h
      have hrx : bit level x = 0 := by grind
      have hry : bit level y = 1 := by grind
      refine hstep 0 1 hrx hry (by rw [hq]; rfl) ?_
      rw [hrx, hry] at h
      exact Prod.ext (by simpa [turned] using h.1) (by simpa [turned] using h.2)
    · rw [hq, place, Prod.mk.injEq] at h
      have hrx : bit level x = 1 := by grind
      have hry : bit level y = 1 := by grind
      refine hstep 1 1 hrx hry (by rw [hq]; rfl) ?_
      rw [hrx, hry] at h
      exact Prod.ext (by simpa [turned] using h.1) (by simpa [turned] using h.2)
    · rw [hq] at h
      have hplace : (2 * 2 ^ level - 1 - (point level (d % 4 ^ level)).2,
          2 ^ level - 1 - (point level (d % 4 ^ level)).1) =
          (x % 2 ^ level + 2 ^ level * bit level x, y % 2 ^ level + 2 ^ level * bit level y) := h
      rw [Prod.mk.injEq] at hplace
      have hrx : bit level x = 1 := by grind
      have hry : bit level y = 0 := by grind
      rw [hrx, hry] at hplace
      refine hstep 1 0 hrx hry (by rw [hq]; rfl) (Prod.ext ?_ ?_)
      · show _ = (2 ^ z - 1 - y) % 2 ^ level
        omega
      · show _ = (2 ^ z - 1 - x) % 2 ^ level
        omega

theorem distance_point (hd : d < 4 ^ z) :
    hilbertDistance z (z - 1 + 1) (point z d).1 (point z d).2 = d := by
  obtain ⟨hx, hy⟩ := point_within z d
  cases z with
  | zero =>
    rw [pow_zero] at hd
    have hzero : d = 0 := by omega
    rw [hzero]
    decide
  | succ z =>
    refine hilbertDistance_point (le_refl _) hx hy hd ?_
    rw [Nat.add_sub_cancel, Nat.mod_eq_of_lt hx, Nat.mod_eq_of_lt hy]

theorem zxyToTileId_point (hz : z ≤ 31) (hd : d < 4 ^ z) :
    zxyToTileId z (point z d).1 (point z d).2 = .ok (base z + d) := by
  obtain ⟨hx, hy⟩ := point_within z d
  exact zxyToTileId_ok.mpr ⟨hz, hx, hy, by rw [distance_point hd]⟩

/-- A tile lies where the curve is after as many steps as its identifier counts. -/
theorem point_of_zxyToTileId {tileId : Nat} (h : zxyToTileId z x y = .ok tileId) :
    ∃ d < 4 ^ z, tileId = base z + d ∧ point z d = (x, y) := by
  obtain ⟨hz, hx, hy, hid⟩ := zxyToTileId_ok.mp h
  have hd := distance_lt hx hy
  refine ⟨_, hd, hid, ?_⟩
  have hpoint := zxyToTileId_point hz hd
  rw [← hid] at hpoint
  obtain ⟨-, hfirst, hsecond⟩ := zxyToTileId_inj hpoint h
  exact Prod.ext hfirst hsecond

theorem consecutive_adjacent {x' y' tileId : Nat} (h : zxyToTileId z x y = .ok tileId)
    (h' : zxyToTileId z x' y' = .ok (tileId + 1)) : Adjacent (x, y) (x', y') := by
  obtain ⟨d, hd, hid, hpoint⟩ := point_of_zxyToTileId h
  obtain ⟨d', hd', hid', hpoint'⟩ := point_of_zxyToTileId h'
  have hnext : d' = d + 1 := by omega
  rw [hnext] at hd' hpoint'
  rw [← hpoint, ← hpoint']
  exact point_adjacent hd'

/-! ## Widths -/

/-- A result that an unsigned integer of so many bits holds. -/
def fits (width n : Nat) : Option Nat := if n < 2 ^ width then some n else none

def checkedSub (a b : Nat) : Option Nat := if b ≤ a then some (a - b) else none

def checkedShl (width n shift : Nat) : Option Nat :=
  if shift < width then fits width (n * 2 ^ shift) else none

/-- The loop of `zxy_to_tile_id`, which stops at the first result out of its width. -/
def checkedDistance (z scale x y distance : Nat) : Option Nat :=
  if scale = 0 then some distance
  else do
    let rx := if x &&& scale != 0 then 1 else 0
    let ry := if y &&& scale != 0 then 1 else 0
    let square ← fits 64 (scale * scale)
    let tripled ← fits 32 (3 * rx)
    let part ← fits 64 (square * (tripled ^^^ ry))
    let distance ← fits 64 (distance + part)
    if ry = 0 then
      if rx = 1 then
        let dimension ← checkedShl 32 1 z
        let last ← checkedSub dimension 1
        let x ← checkedSub last x
        let y ← checkedSub last y
        checkedDistance z (scale / 2) y x distance
      else checkedDistance z (scale / 2) y x distance
    else checkedDistance z (scale / 2) x y distance

/-- `zxy_to_tile_id` with every result checked. -/
def checkedTileId (z x y : Nat) : Option (Tiling Nat) :=
  if z > 31 then some (.error (.invalid "tile coordinate outside Hilbert domain"))
  else do
    let dimension ← checkedShl 32 1 z
    if x ≥ dimension || y ≥ dimension then
      return .error (.invalid "tile coordinate outside Hilbert domain")
    let bits ← fits 32 (z * 2)
    let tiles ← checkedShl 64 1 bits
    let others ← checkedSub tiles 1
    let scale ← checkedShl 32 1 (z - 1)
    let distance ← checkedDistance z scale x y 0
    let tileId ← fits 64 (others / 3 + distance)
    return .ok tileId

theorem fits_of_lt {width n : Nat} (h : n < 2 ^ width) : fits width n = some n := by
  rw [fits, if_pos h]

theorem checkedSub_of_le {a b : Nat} (h : b ≤ a) : checkedSub a b = some (a - b) := by
  rw [checkedSub, if_pos h]

theorem checkedShl_one {width shift : Nat} (h : shift < width) :
    checkedShl width 1 shift = some (2 ^ shift) := by
  rw [checkedShl, if_pos h, Nat.one_mul, fits_of_lt (Nat.pow_lt_pow_right (by decide) h)]

theorem checkedDistance_step (hz : z ≤ 31) (hx : x < 2 ^ z) (hy : y < 2 ^ z)
    (hd : d + 4 ^ (level + 1) ≤ 2 ^ 64) :
    checkedDistance z (2 ^ level) x y d =
      checkedDistance z (2 ^ level / 2) (turned z (bit level x) (bit level y) x y).1
        (turned z (bit level x) (bit level y) x y).2
        (d + 4 ^ level * quadrant (bit level x) (bit level y)) := by
  have hscale : 2 ^ level * 2 ^ level = 4 ^ level := by rw [← Nat.mul_pow]
  have hpos : 0 < 4 ^ level := Nat.pow_pos (by decide)
  have hbx := bit_lt level x
  have hpart := mul_le_mul_left (4 ^ level) (quadrant_le (bit_lt level x) (bit_lt level y))
  rw [Nat.pow_succ] at hd
  have hsquare : fits 64 (2 ^ level * 2 ^ level) = some (4 ^ level) := by
    rw [hscale]
    exact fits_of_lt (by omega)
  have htripled : fits 32 (3 * bit level x) = some (3 * bit level x) := fits_of_lt (by omega)
  have hadded : fits 64 (4 ^ level * quadrant (bit level x) (bit level y)) =
      some (4 ^ level * quadrant (bit level x) (bit level y)) := fits_of_lt (by omega)
  have hsum : fits 64 (d + 4 ^ level * quadrant (bit level x) (bit level y)) =
      some (d + 4 ^ level * quadrant (bit level x) (bit level y)) := fits_of_lt (by omega)
  have hne : 2 ^ level ≠ 0 := Nat.ne_of_gt (Nat.two_pow_pos level)
  rw [checkedDistance, if_neg hne]
  show (do
    let square ← fits 64 (2 ^ level * 2 ^ level)
    let tripled ← fits 32 (3 * bit level x)
    let part ← fits 64 (square * (tripled ^^^ bit level y))
    let distance ← fits 64 (d + part)
    if bit level y = 0 then
      if bit level x = 1 then
        let dimension ← checkedShl 32 1 z
        let last ← checkedSub dimension 1
        let x ← checkedSub last x
        let y ← checkedSub last y
        checkedDistance z (2 ^ level / 2) y x distance
      else checkedDistance z (2 ^ level / 2) y x distance
    else checkedDistance z (2 ^ level / 2) x y distance) = _
  simp only [bind_eq_bind]
  rw [hsquare, bind_some, htripled, bind_some]
  show (fits 64 (4 ^ level * quadrant (bit level x) (bit level y))).bind _ = _
  rw [hadded, bind_some, hsum, bind_some, turned]
  by_cases hry : bit level y = 0
  · rw [if_pos hry, if_pos hry]
    by_cases hrx : bit level x = 1
    · rw [if_pos hrx, if_pos hrx, checkedShl_one (by omega), bind_some,
        checkedSub_of_le (Nat.two_pow_pos z), bind_some, checkedSub_of_le (by omega),
        bind_some, checkedSub_of_le (by omega), bind_some]
    · rw [if_neg hrx, if_neg hrx]
  · rw [if_neg hry, if_neg hry]

/-- The induction over the scales: what has been added leaves room for what is to come. -/
theorem checkedDistance_eq (hz : z ≤ 31) (hx : x < 2 ^ z) (hy : y < 2 ^ z)
    (hd : d + 4 ^ (level + 1) ≤ 2 ^ 64) :
    checkedDistance z (2 ^ level) x y d = some (d + hilbertDistance z (level + 1) x y) := by
  induction level generalizing x y d with
  | zero =>
    rw [checkedDistance_step hz hx hy hd, hilbertDistance_succ, hilbertDistance,
      checkedDistance, if_pos (by decide), Nat.add_zero]
  | succ level ih =>
    have hhalf : 2 ^ (level + 1) / 2 = 2 ^ level := by
      rw [Nat.pow_succ, Nat.mul_div_cancel _ (by decide)]
    have hpart := mul_le_mul_left (4 ^ (level + 1))
      (quadrant_le (bit_lt (level + 1) x) (bit_lt (level + 1) y))
    have hroom := Nat.pow_succ 4 (level + 1)
    obtain ⟨hfirst, hsecond⟩ := turned_lt (bit (level + 1) x) (bit (level + 1) y) hx hy
    rw [checkedDistance_step hz hx hy hd, hilbertDistance_succ z (level + 1), hhalf,
      ih hfirst hsecond (by omega), add_assoc]

theorem checkedTileId_eq (z x y : Nat) : checkedTileId z x y = some (zxyToTileId z x y) := by
  by_cases hz : z > 31
  · rw [checkedTileId, if_pos hz, zxyToTileId, if_pos (by simp [hz])]
  · rw [checkedTileId, if_neg hz, checkedShl_one (by omega)]
    by_cases hcell : x < 2 ^ z ∧ y < 2 ^ z
    · obtain ⟨hx, hy⟩ := hcell
      have hbase : base z < 2 ^ 62 := by
        have hmono : base z ≤ base 31 := base_mono (by omega)
        have hlast : base 31 < 2 ^ 62 := by decide
        omega
      have hdistance := distance_lt hx hy
      have hcells : 4 ^ z ≤ 4 ^ 31 := Nat.pow_le_pow_right (by decide) (by omega)
      have hroom : 0 + 4 ^ (z - 1 + 1) ≤ 2 ^ 64 := by
        have hle : 4 ^ (z - 1 + 1) ≤ 4 ^ 32 := Nat.pow_le_pow_right (by decide) (by omega)
        omega
      have htiles := Nat.two_pow_pos (z * 2)
      have hloop := checkedDistance_eq (by omega : z ≤ 31) hx hy hroom
      have hid : zxyToTileId z x y = .ok (base z + hilbertDistance z (z - 1 + 1) x y) :=
        zxyToTileId_ok.mpr ⟨by omega, hx, hy, rfl⟩
      simp only [bind_eq_bind, bind_some]
      rw [if_neg (by simpa using ⟨hx, hy⟩), fits_of_lt (by omega), bind_some,
        checkedShl_one (by omega), bind_some, checkedSub_of_le htiles, bind_some,
        checkedShl_one (by omega), bind_some, hloop, bind_some, zero_add, hid]
      show (fits 64 (base z + _)).bind _ = _
      rw [fits_of_lt (by omega), bind_some]
      rfl
    · have houtside : (decide (x ≥ 2 ^ z) || decide (y ≥ 2 ^ z)) = true := by
        simp only [Bool.or_eq_true, decide_eq_true_eq]
        omega
      simp only [bind_eq_bind, bind_some]
      rw [if_pos houtside, zxyToTileId, Bool.or_assoc, houtside, Bool.or_true, if_pos rfl]
      rfl

def levelTiles (z : Nat) : Set (Nat × Nat) := {p | p.1 < 2 ^ z ∧ p.2 < 2 ^ z}

def levelIds (z : Nat) : Set (Tiling Nat) :=
  {r | ∃ tileId, r = .ok tileId ∧ (4 ^ z - 1) / 3 ≤ tileId ∧ tileId < (4 ^ (z + 1) - 1) / 3}

theorem base_eq (z : Nat) : base z = (4 ^ z - 1) / 3 := by
  rw [base, Nat.mul_comm, Nat.pow_mul]

theorem zxyToTileId_bijOn (hz : z ≤ 31) :
    Set.BijOn (fun p : Nat × Nat => zxyToTileId z p.1 p.2) (levelTiles z) (levelIds z) := by
  refine ⟨?_, ?_, ?_⟩
  · intro p hp
    have hd := distance_lt hp.1 hp.2
    refine ⟨_, zxyToTileId_ok.mpr ⟨hz, hp.1, hp.2, rfl⟩, ?_⟩
    rw [← base_eq, ← base_eq, base_succ]
    omega
  · intro p hp q hq h
    have hp := zxyToTileId_ok.mpr ⟨hz, hp.1, hp.2, rfl⟩
    have h : zxyToTileId z p.1 p.2 = zxyToTileId z q.1 q.2 := h
    obtain ⟨-, hfirst, hsecond⟩ := zxyToTileId_inj hp (h ▸ hp)
    exact Prod.ext hfirst hsecond
  · intro r hr
    obtain ⟨tileId, hr, hlow, hhigh⟩ := hr
    rw [← base_eq] at hlow hhigh
    rw [base_succ] at hhigh
    refine ⟨point z (tileId - base z), point_within z _, ?_⟩
    have hid := zxyToTileId_point hz (by omega : tileId - base z < 4 ^ z)
    rw [Nat.add_sub_cancel' hlow] at hid
    exact hid.trans hr.symm

/-- The identifiers of a zoom level are those of its tiles along the Hilbert curve. -/
theorem zxyToTileId_hilbert (hz : z ≤ 31) :
    Set.BijOn (fun p : Nat × Nat => zxyToTileId z p.1 p.2) (levelTiles z) (levelIds z) ∧
    (∀ x y x' y' tileId, zxyToTileId z x y = .ok tileId →
      zxyToTileId z x' y' = .ok (tileId + 1) → Adjacent (x, y) (x', y')) ∧
    (∀ z' x y x' y' tileId, zxyToTileId z x y = .ok tileId →
      zxyToTileId z' x' y' = .ok tileId → z = z') ∧
    ∀ x y, checkedTileId z x y = some (zxyToTileId z x y) :=
  ⟨zxyToTileId_bijOn hz, fun _ _ _ _ _ => consecutive_adjacent,
    fun _ _ _ _ _ _ h h' => (zxyToTileId_inj h h').1, checkedTileId_eq z⟩

/-- The last tile of the deepest level. -/
theorem zxyToTileId_deepest :
    Set.BijOn (fun p : Nat × Nat => zxyToTileId 31 p.1 p.2) (levelTiles 31) (levelIds 31) ∧
      checkedTileId 31 (2 ^ 31 - 1) 0 = some (zxyToTileId 31 (2 ^ 31 - 1) 0) :=
  have h := zxyToTileId_hilbert (by decide : 31 ≤ 31)
  ⟨h.1, h.2.2.2 (2 ^ 31 - 1) 0⟩

theorem zxyToTileId_half {tileId : Nat} (h : zxyToTileId (z + 1) x y = .ok tileId) :
    zxyToTileId z (x / 2) (y / 2) = .ok (base z + (tileId - base (z + 1)) / 4) := by
  obtain ⟨hz, -, -, -⟩ := zxyToTileId_ok.mp h
  obtain ⟨d, hd, hid, hpoint⟩ := point_of_zxyToTileId h
  rw [Nat.pow_succ] at hd
  have hparent := zxyToTileId_point (by omega : z ≤ 31) (by omega : d / 4 < 4 ^ z)
  rw [← half_point, hpoint, half] at hparent
  rw [hparent, hid, Nat.add_sub_cancel_left]

/-- The tiles within a tile follow each other on every deeper level: the place of the tile is that
of each of them, without its last digits. -/
theorem tileId_ancestor (n z x y tileId : Nat) (h : zxyToTileId (z + n) x y = .ok tileId) :
    zxyToTileId z (x / 2 ^ n) (y / 2 ^ n) =
      .ok ((4 ^ z - 1) / 3 + (tileId - (4 ^ (z + n) - 1) / 3) / 4 ^ n) := by
  rw [← base_eq, ← base_eq]
  induction n generalizing x y tileId with
  | zero =>
    obtain ⟨d, -, hid, -⟩ := point_of_zxyToTileId h
    simp only [pow_zero, Nat.div_one, add_zero] at h ⊢
    rw [h, hid, add_zero, Nat.add_sub_cancel_left]
  | succ n ih =>
    have hup := ih (x / 2) (y / 2) _ (zxyToTileId_half h)
    rw [Nat.add_sub_cancel_left] at hup
    rw [Nat.pow_succ', Nat.pow_succ', ← Nat.div_div_eq_div_mul, ← Nat.div_div_eq_div_mul,
      ← Nat.div_div_eq_div_mul]
    exact hup

theorem tileId_ancestor_sixty : zxyToTileId 1 (5 / 2 ^ 2) (6 / 2 ^ 2) =
    .ok ((4 ^ 1 - 1) / 3 + (60 - (4 ^ (1 + 2) - 1) / 3) / 4 ^ 2) :=
  tileId_ancestor 2 1 5 6 60 rfl

end GeneGIS.Pmtiles
