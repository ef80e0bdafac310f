/-
A packed payload is worth more the larger it is, and a larger quotient rounds to one that is at
least as large, infinities included.
-/
import GeneGIS.Data.Binary64
import Mathlib.Data.Nat.Log
import Mathlib.Tactic.Linarith
import Mathlib.Tactic.Ring

namespace GeneGIS.F64

/-! ## What a payload is worth -/

def top : Nat := 2 ^ 2100

theorem top_pos : 0 < top := by
  have hpos (n : Nat) : 0 < 2 ^ n := Nat.two_pow_pos n
  exact hpos 2100

/-- The absolute value with this payload, in units. -/
def worth (payload : Nat) : Nat :=
  if 2047 * 2 ^ 52 ≤ payload then top
  else if payload / 2 ^ 52 = 0 then payload % 2 ^ 52
  else (2 ^ 52 + payload % 2 ^ 52) * 2 ^ (payload / 2 ^ 52 - 1)

theorem worth_zero : worth 0 = 0 := by decide

theorem significand_lt (payload : Nat) : 2 ^ 52 + payload % 2 ^ 52 < 2 ^ 53 := by omega

theorem two_pow_split {top : Nat} (h : 53 ≤ top) :
    ∃ big, 2 ^ top = 2 ^ 53 * big ∧ ∀ e, e + 53 ≤ top → 2 ^ e ≤ big := by
  refine ⟨2 ^ (top - 53), ?_, fun e he => Nat.pow_le_pow_right (by decide) (by omega)⟩
  rw [← Nat.pow_add]
  congr 1
  omega

theorem worth_lt {payload : Nat} (h : payload < 2047 * 2 ^ 52) : worth payload < top := by
  obtain ⟨big, hpow, hle⟩ := two_pow_split (show 53 ≤ 2100 by decide)
  have htop : top = 2 ^ 53 * big := hpow
  have hbig : 0 < big := Nat.lt_of_lt_of_le (Nat.two_pow_pos 0) (hle 0 (by omega))
  have hsignificand := significand_lt payload
  rw [worth, if_neg (by omega), htop]
  by_cases hexponent : payload / 2 ^ 52 = 0
  · rw [if_pos hexponent]
    exact Nat.lt_of_lt_of_le (by omega) (Nat.le_mul_of_pos_right (2 ^ 53) hbig)
  · rw [if_neg hexponent]
    calc (2 ^ 52 + payload % 2 ^ 52) * 2 ^ (payload / 2 ^ 52 - 1)
        ≤ (2 ^ 52 + payload % 2 ^ 52) * big := Nat.mul_le_mul_left _ (hle _ (by omega))
      _ < 2 ^ 53 * big := Nat.mul_lt_mul_of_pos_right hsignificand hbig

theorem worth_le (payload : Nat) : worth payload ≤ top := by
  by_cases h : 2047 * 2 ^ 52 ≤ payload
  · rw [worth, if_pos h]
  · exact (worth_lt (by omega)).le

theorem worth_mono {p q : Nat} (h : p ≤ q) : worth p ≤ worth q := by
  by_cases hq : 2047 * 2 ^ 52 ≤ q
  · rw [show worth q = top from if_pos hq]
    exact worth_le p
  · have hdiv : p / 2 ^ 52 ≤ q / 2 ^ 52 := Nat.div_le_div_right h
    have hsignificand := significand_lt p
    rw [worth, worth, if_neg hq, if_neg (by omega)]
    by_cases hpz : p / 2 ^ 52 = 0
    · rw [if_pos hpz]
      by_cases hqz : q / 2 ^ 52 = 0
      · rw [if_pos hqz]
        omega
      · rw [if_neg hqz]
        have hpow := Nat.two_pow_pos (q / 2 ^ 52 - 1)
        calc p % 2 ^ 52 ≤ 2 ^ 52 + q % 2 ^ 52 := by omega
          _ ≤ (2 ^ 52 + q % 2 ^ 52) * 2 ^ (q / 2 ^ 52 - 1) := Nat.le_mul_of_pos_right _ hpow
    · have hqz : q / 2 ^ 52 ≠ 0 := by omega
      rw [if_neg hpz, if_neg hqz]
      by_cases heq : p / 2 ^ 52 = q / 2 ^ 52
      · rw [heq]
        exact Nat.mul_le_mul_right _ (by omega)
      · calc (2 ^ 52 + p % 2 ^ 52) * 2 ^ (p / 2 ^ 52 - 1)
            ≤ 2 ^ 53 * 2 ^ (p / 2 ^ 52 - 1) := Nat.mul_le_mul_right _ hsignificand.le
          _ = 2 ^ 52 * 2 ^ (p / 2 ^ 52) := by
              rw [← pow_add, ← pow_add]
              congr 1
              omega
          _ ≤ 2 ^ 52 * 2 ^ (q / 2 ^ 52 - 1) :=
              Nat.mul_le_mul_left _ (Nat.pow_le_pow_right (by decide) (by omega))
          _ ≤ (2 ^ 52 + q % 2 ^ 52) * 2 ^ (q / 2 ^ 52 - 1) :=
              Nat.mul_le_mul_right _ (Nat.le_add_right _ _)

section

variable {negative : Bool} {payload : Nat}

theorem toNat_pack (h : payload ≤ 2047 * 2 ^ 52) :
    (pack negative payload).bits.toNat = (if negative then 2 ^ 63 else 0) + payload := by
  rw [pack, BitVec.toNat_ofNat, Nat.mod_eq_of_lt]
  cases negative
  · rw [if_neg Bool.false_ne_true]
    omega
  · rw [if_pos rfl]
    omega

theorem exponent_pack (h : payload ≤ 2047 * 2 ^ 52) :
    (pack negative payload).exponent = payload / 2 ^ 52 := by
  rw [exponent, toNat_pack h]
  cases negative
  · rw [if_neg Bool.false_ne_true]
    omega
  · rw [if_pos rfl]
    omega

theorem fraction_pack (h : payload ≤ 2047 * 2 ^ 52) :
    (pack negative payload).fraction = payload % 2 ^ 52 := by
  rw [fraction, toNat_pack h]
  cases negative
  · rw [if_neg Bool.false_ne_true]
    omega
  · rw [if_pos rfl]
    omega

theorem sign_pack (h : payload ≤ 2047 * 2 ^ 52) : (pack negative payload).sign = negative := by
  rw [sign, BitVec.msb_eq_decide, toNat_pack h]
  cases negative
  · rw [if_neg Bool.false_ne_true]
    exact decide_eq_false (by omega)
  · rw [if_pos rfl]
    exact decide_eq_true (by omega)

theorem isFinite_pack (h : payload ≤ 2047 * 2 ^ 52) :
    (pack negative payload).isFinite = decide (payload < 2047 * 2 ^ 52) := by
  rw [isFinite, exponent_pack h, bne, beq_eq_decide, ← decide_not, decide_eq_decide]
  omega

theorem isNan_pack (h : payload ≤ 2047 * 2 ^ 52) : (pack negative payload).isNan = false := by
  rw [isNan, exponent_pack h, fraction_pack h, Bool.and_eq_false_iff, beq_eq_false_iff_ne,
    bne_eq_false_iff_eq]
  omega

theorem rank_pack (h : payload ≤ 2047 * 2 ^ 52) : (pack negative payload).rank =
      if negative then -(worth payload : Int) else (worth payload : Int) := by
  rw [rank, isFinite_pack h, units, magnitude, sign_pack h, exponent_pack h, fraction_pack h]
  by_cases hfinite : payload < 2047 * 2 ^ 52
  · have hworth : worth payload = if payload / 2 ^ 52 = 0 then payload % 2 ^ 52
        else (2 ^ 52 + payload % 2 ^ 52) * 2 ^ (payload / 2 ^ 52 - 1) := if_neg (by omega)
    rw [if_pos (decide_eq_true hfinite), hworth]
  · have hworth : worth payload = top := if_pos (by omega)
    have hcast : (top : Int) = 2 ^ 2100 := by rw [top, Nat.cast_pow, Nat.cast_ofNat]
    rw [if_neg (by rw [decide_eq_true_eq]; exact hfinite), hworth, hcast]

end

/-! ## Rounding -/

/-- The nearest whole number to a quotient, ties to even. -/
def halfEven (n d : Nat) : Nat :=
  if d < 2 * (n % d) || (2 * (n % d) == d && n / d % 2 == 1) then n / d + 1 else n / d

theorem le_halfEven (n d : Nat) : n / d ≤ halfEven n d := by
  rw [halfEven]
  split <;> omega

theorem halfEven_le (n d : Nat) : halfEven n d ≤ n / d + 1 := by
  rw [halfEven]
  split <;> omega

theorem halfEven_mono {a b d : Nat} (h : a ≤ b) : halfEven a d ≤ halfEven b d := by
  have hquotient : a / d ≤ b / d := Nat.div_le_div_right h
  by_cases heq : a / d = b / d
  · have hrest : a % d ≤ b % d := by
      have ha := Nat.div_add_mod a d
      have hb := Nat.div_add_mod b d
      rw [heq] at ha
      omega
    rw [halfEven, halfEven, heq]
    by_cases hup : (d < 2 * (a % d) || (2 * (a % d) == d && b / d % 2 == 1)) = true
    · have hup' : (d < 2 * (b % d) || (2 * (b % d) == d && b / d % 2 == 1)) = true := by
        simp only [Bool.or_eq_true, Bool.and_eq_true, decide_eq_true_eq, beq_iff_eq] at hup ⊢
        omega
      rw [if_pos hup, if_pos hup']
    · rw [if_neg hup]
      split <;> omega
  · have hlow := halfEven_le a d
    have hhigh := le_halfEven b d
    omega

variable (num den : Nat)

/-- What `round` packs. -/
def payload : Nat := min ((Nat.log2 (num / den) - 52) * 2 ^ 52 +
    halfEven num (den * 2 ^ (Nat.log2 (num / den) - 52))) (2047 * 2 ^ 52)

theorem round_eq (negative : Bool) (num den : Nat) :
    round negative num den = pack negative (payload num den) := rfl

theorem payload_le : payload num den ≤ 2047 * 2 ^ 52 := min_le_right _ _

theorem payload_zero {den : Nat} (h : 0 < den) : payload 0 den = 0 := by
  have hzero : halfEven 0 (den * 2 ^ (Nat.log2 (0 / den) - 52)) = 0 := by
    have hpos := Nat.mul_pos h (Nat.two_pow_pos (Nat.log2 (0 / den) - 52))
    generalize den * 2 ^ (Nat.log2 (0 / den) - 52) = d at hpos
    rw [halfEven, Nat.zero_mod, Nat.zero_div, if_neg]
    simp only [Bool.or_eq_true, Bool.and_eq_true, decide_eq_true_eq, beq_iff_eq]
    omega
  rw [payload, hzero, Nat.zero_div, show Nat.log2 0 = 0 by decide]
  omega

theorem quotient_lt (n : Nat) : n / 2 ^ (n.log2 - 52) < 2 ^ 53 := by
  rw [Nat.div_lt_iff_lt_mul (Nat.two_pow_pos _), ← Nat.pow_add]
  calc n < 2 ^ (n.log2 + 1) := Nat.lt_log2_self
    _ ≤ 2 ^ (53 + (n.log2 - 52)) := Nat.pow_le_pow_right (by decide) (by omega)

theorem le_quotient {n : Nat} (h : 52 ≤ n.log2) : 2 ^ 52 ≤ n / 2 ^ (n.log2 - 52) := by
  have hne : n ≠ 0 := by
    intro hzero
    rw [hzero] at h
    exact absurd h (by decide)
  rw [Nat.le_div_iff_mul_le (Nat.two_pow_pos _), ← Nat.pow_add]
  calc 2 ^ (52 + (n.log2 - 52)) = 2 ^ n.log2 := by congr 1; omega
    _ ≤ n := Nat.log2_self_le hne

theorem log2_mono {a b : Nat} (h : a ≤ b) : a.log2 ≤ b.log2 := by
  rw [Nat.log2_eq_log_two, Nat.log2_eq_log_two]
  exact Nat.log_mono_right h

/-- A larger dividend rounds to a payload that is at least as large.  Where the exponents
differ, the smaller one carries at most into the larger one. -/
theorem payload_mono {a b den : Nat} (h : a ≤ b) : payload a den ≤ payload b den := by
  have hquotient : a / den ≤ b / den := Nat.div_le_div_right h
  have hlog := log2_mono hquotient
  have hpayload : (Nat.log2 (a / den) - 52) * 2 ^ 52 +
        halfEven a (den * 2 ^ (Nat.log2 (a / den) - 52)) ≤
      (Nat.log2 (b / den) - 52) * 2 ^ 52 +
        halfEven b (den * 2 ^ (Nat.log2 (b / den) - 52)) := by
    by_cases heq : Nat.log2 (a / den) - 52 = Nat.log2 (b / den) - 52
    · rw [heq]
      exact Nat.add_le_add_left (halfEven_mono h) _
    · have hlow := halfEven_le a (den * 2 ^ (Nat.log2 (a / den) - 52))
      have hhigh := le_halfEven b (den * 2 ^ (Nat.log2 (b / den) - 52))
      rw [← Nat.div_div_eq_div_mul] at hlow hhigh
      have hbits := quotient_lt (a / den)
      have hlead := le_quotient (n := b / den) (by omega)
      omega
  exact min_le_min_right (2047 * 2 ^ 52) hpayload

/-- A function of the absolute value, with the sign put back. -/
def signed (f : Nat → Nat) (s : Int) : Int := if s < 0 then -(f s.natAbs : Int) else f s.natAbs

variable {f : Nat → Nat}

theorem signed_mono (hf : ∀ a b, a ≤ b → f a ≤ f b) {s t : Int} (h : s ≤ t) :
    signed f s ≤ signed f t := by
  rw [signed, signed]
  by_cases hs : s < 0
  · rw [if_pos hs]
    by_cases ht : t < 0
    · rw [if_pos ht]
      have habs := hf t.natAbs s.natAbs (by omega)
      omega
    · rw [if_neg ht]
      omega
  · rw [if_neg hs, if_neg (by omega)]
    have habs := hf s.natAbs t.natAbs (by omega)
    omega

theorem signed_neg (negative : Bool) (magnitude : Nat) (hzero : f 0 = 0) :
    signed f (if negative then -(magnitude : Int) else magnitude) =
      if negative then -(f magnitude : Int) else f magnitude := by
  cases negative
  · rw [if_neg Bool.false_ne_true, if_neg Bool.false_ne_true, signed, if_neg (by omega),
      Int.natAbs_natCast]
  · rw [if_pos rfl, if_pos rfl, signed, Int.natAbs_neg, Int.natAbs_natCast]
    by_cases hm : magnitude = 0
    · rw [hm, hzero]
      rfl
    · rw [if_pos (by omega)]

/-- The value of a quotient after rounding, in units. -/
def rounded : Nat := worth (payload num den)

theorem rounded_mono {a b den : Nat} (h : a ≤ b) : rounded a den ≤ rounded b den :=
  worth_mono (payload_mono h)

theorem rounded_zero {den : Nat} (h : 0 < den) : rounded 0 den = 0 := by
  rw [rounded, payload_zero h, worth_zero]

theorem rank_round (negative : Bool) (num den : Nat) : (round negative num den).rank =
      if negative then -(rounded num den : Int) else (rounded num den : Int) := by
  rw [round_eq, rank_pack (payload_le num den), rounded]

theorem isNan_round (negative : Bool) (num den : Nat) : (round negative num den).isNan = false := by
  rw [round_eq, isNan_pack (payload_le num den)]

def low (x : F64) : Nat := x.bits.toNat % 2 ^ 63

theorem exponent_eq (x : F64) : x.exponent = x.low / 2 ^ 52 := by
  rw [exponent, low]
  omega

theorem fraction_eq (x : F64) : x.fraction = x.low % 2 ^ 52 := by
  rw [fraction, low]
  omega

theorem toNat_eq (x : F64) : x.bits.toNat = (if x.sign then 2 ^ 63 else 0) + x.low := by
  have hlt := x.bits.isLt
  rw [low, sign, BitVec.msb_eq_decide]
  by_cases h : 2 ^ (64 - 1) ≤ x.bits.toNat
  · rw [if_pos (decide_eq_true h)]
    omega
  · rw [if_neg (by rw [decide_eq_true_eq]; exact h)]
    omega

theorem eq_pack (x : F64) : x = pack x.sign x.low := by
  obtain ⟨bits⟩ := x
  refine congrArg F64.mk (BitVec.eq_of_toNat_eq ?_)
  rw [BitVec.toNat_ofNat, ← toNat_eq ⟨bits⟩, Nat.mod_eq_of_lt bits.isLt]

theorem isNan_iff (x : F64) : x.isNan = false ↔ x.low ≤ 2047 * 2 ^ 52 := by
  rw [isNan, exponent_eq, fraction_eq, Bool.and_eq_false_iff, beq_eq_false_iff_ne,
    bne_eq_false_iff_eq]
  have hlt : x.low < 2 ^ 63 := Nat.mod_lt _ (Nat.two_pow_pos 63)
  omega

theorem isFinite_iff (x : F64) : x.isFinite = true ↔ x.low < 2047 * 2 ^ 52 := by
  rw [isFinite, exponent_eq, bne_iff_ne]
  have hlt : x.low < 2 ^ 63 := Nat.mod_lt _ (Nat.two_pow_pos 63)
  omega

variable {x : F64}

theorem isNan_of_finite (h : x.isFinite = true) : x.isNan = false :=
  (isNan_iff x).mpr (le_of_lt ((isFinite_iff x).mp h))

theorem rank_eq (h : x.isNan = false) :
    x.rank = if x.sign then -(worth x.low : Int) else (worth x.low : Int) := by
  have hrank : (pack x.sign x.low).rank = if x.sign then -(worth x.low : Int) else worth x.low :=
    rank_pack ((isNan_iff x).mp h)
  rw [← eq_pack] at hrank
  exact hrank

theorem rank_finite (h : x.isFinite = true) : x.rank = x.units := if_pos h

theorem rank_bounds (h : x.isFinite = true) : -(top : Int) < x.rank ∧ x.rank < (top : Int) := by
  have hlt := worth_lt ((isFinite_iff x).mp h)
  rw [rank_eq (isNan_of_finite h)]
  split <;> omega

theorem rank_infinite (hnan : x.isNan = false) (h : x.isFinite = false) :
    x.rank = if x.sign then -(top : Int) else (top : Int) := by
  have hworth : worth x.low = top := by
    refine if_pos (Nat.le_of_not_lt fun hlt => ?_)
    rw [(isFinite_iff x).mpr hlt] at h
    cases h
  rw [rank_eq hnan, hworth]

theorem infinite_cases (hnan : x.isNan = false) (h : x.isFinite = false) :
    x.rank = -(top : Int) ∨ x.rank = (top : Int) := by
  rw [rank_infinite hnan h]
  cases x.sign
  · exact Or.inr rfl
  · exact Or.inl rfl

theorem le_iff {x y : F64} :
    le x y = true ↔ x.isNan = false ∧ y.isNan = false ∧ x.rank ≤ y.rank := by
  rw [le, Bool.and_eq_true, Bool.and_eq_true, Bool.not_eq_true', Bool.not_eq_true',
    decide_eq_true_eq, and_assoc]

theorem lt_iff {x y : F64} :
    lt x y = true ↔ x.isNan = false ∧ y.isNan = false ∧ x.rank < y.rank := by
  rw [lt, Bool.and_eq_true, Bool.and_eq_true, Bool.not_eq_true', Bool.not_eq_true',
    decide_eq_true_eq, and_assoc]

/-! ## Subtraction -/

theorem low_neg (x : F64) : (neg x).low = x.low := by
  rw [low, neg, BitVec.toNat_xor, Nat.xor_mod_two_pow, BitVec.toNat_ofNat]
  exact Nat.xor_zero _

theorem isNan_neg (x : F64) : (neg x).isNan = x.isNan := by
  rw [isNan, isNan, exponent_eq, fraction_eq, exponent_eq, fraction_eq, low_neg]

theorem isFinite_neg (x : F64) : (neg x).isFinite = x.isFinite := by
  rw [isFinite, isFinite, exponent_eq, exponent_eq, low_neg]

variable {z : F64}

theorem add_nan (h : z.isNan = true) : (add x z).isNan = true := by
  rw [add, h, Bool.or_true, if_pos rfl]
  decide

theorem add_finite (hx : x.isFinite = true) (hz : z.isFinite = true) :
    (add x z).isNan = false ∧ (add x z).rank = signed (rounded · 1) (x.rank + z.rank) := by
  rw [add, isNan_of_finite hx, isNan_of_finite hz, hx, hz, rank_finite hx, rank_finite hz]
  simp only [Bool.or_self, Bool.false_eq_true, if_false, Bool.not_true]
  generalize x.units + z.units = s
  by_cases hs : s = 0
  · rw [if_pos hs, hs]
    have hsigned : signed (rounded · 1) 0 = 0 := by
      rw [signed, if_neg (Int.lt_irrefl 0), Int.natAbs_zero, rounded_zero (by decide)]
      rfl
    refine ⟨isNan_pack (Nat.zero_le _), ?_⟩
    rw [rank_pack (Nat.zero_le _), worth_zero, hsigned]
    split <;> rfl
  · rw [if_neg hs]
    refine ⟨isNan_round _ _ _, ?_⟩
    rw [rank_round, signed]
    by_cases hneg : s < 0
    · rw [if_pos (decide_eq_true hneg), if_pos hneg]
    · rw [if_neg (by rw [decide_eq_true_eq]; exact hneg), if_neg hneg]

theorem add_infinite (hx : x.isNan = false) (hinf : x.isFinite = false)
    (hz : z.isFinite = true) : add x z = x := by
  rw [add, hx, isNan_of_finite hz, hinf, hz]
  simp

theorem add_to_infinite (hx : x.isNan = false) (hz : z.isNan = false)
    (hinf : z.isFinite = false) (h : (add x z).isNan = false) : (add x z).rank = z.rank := by
  rw [add, hx, hz, hinf] at h ⊢
  simp only [Bool.or_self, Bool.false_eq_true, if_false, Bool.not_false, Bool.true_and] at h ⊢
  by_cases hfinite : x.isFinite = true
  · rw [hfinite, Bool.not_true, if_neg Bool.false_ne_true, if_pos trivial]
  · rw [Bool.not_eq_true] at hfinite
    rw [hfinite, Bool.not_false, if_pos rfl] at h ⊢
    by_cases hsign : (x.sign != z.sign) = true
    · rw [if_pos hsign] at h
      exact absurd h (by decide)
    · rw [if_neg hsign, rank_infinite hx hfinite, rank_infinite hz hinf]
      rw [bne_iff_ne, ne_eq, not_not] at hsign
      rw [hsign]

theorem signed_bounds (hf : ∀ n, f n ≤ top) (s : Int) :
    -(top : Int) ≤ signed f s ∧ signed f s ≤ (top : Int) := by
  have hle := hf s.natAbs
  rw [signed]
  split <;> omega

/-- A function that keeps the order of finite numbers and leaves infinities as they are keeps
the order of all numbers. -/
theorem rank_mono_of {g : F64 → F64} {k : Int}
    (hmono : ∀ a b, a ≤ b → f a ≤ f b) (hbound : ∀ n, f n ≤ top)
    (hfinite : ∀ x, x.isFinite = true → (g x).rank = signed f (x.rank + k))
    (hinfinite : ∀ x, x.isNan = false → x.isFinite = false → (g x).rank = x.rank)
    {x y : F64} (h : le x y = true) : (g x).rank ≤ (g y).rank := by
  obtain ⟨hx, hy, hrank⟩ := le_iff.mp h
  by_cases hfx : x.isFinite = true
  · by_cases hfy : y.isFinite = true
    · rw [hfinite x hfx, hfinite y hfy]
      exact signed_mono hmono (by omega)
    · rw [Bool.not_eq_true] at hfy
      rw [hfinite x hfx, hinfinite y hy hfy]
      have hb := signed_bounds hbound (x.rank + k)
      have hlow := rank_bounds hfx
      rcases infinite_cases hy hfy with hcase | hcase
      · omega
      · rw [hcase]
        exact hb.2
  · rw [Bool.not_eq_true] at hfx
    rw [hinfinite x hx hfx]
    by_cases hfy : y.isFinite = true
    · rw [hfinite y hfy]
      have hb := signed_bounds hbound (y.rank + k)
      have hhigh := rank_bounds hfy
      rcases infinite_cases hx hfx with hcase | hcase
      · rw [hcase]
        exact hb.1
      · omega
    · rw [Bool.not_eq_true] at hfy
      rw [hinfinite y hy hfy]
      exact hrank

theorem rounded_le : rounded num den ≤ top := worth_le _

theorem sub_mono {x y o : F64} (h : le x y = true) (hx : (sub x o).isNan = false)
    (hy : (sub y o).isNan = false) : (sub x o).rank ≤ (sub y o).rank := by
  obtain ⟨hxn, hyn, -⟩ := le_iff.mp h
  have hz : (neg o).isNan = false := by
    by_contra hnan
    rw [Bool.not_eq_false] at hnan
    rw [sub, add_nan hnan] at hx
    cases hx
  by_cases hfinite : (neg o).isFinite = true
  · exact rank_mono_of (f := (rounded · 1)) (k := (neg o).rank) (fun a b => rounded_mono)
      (fun n => rounded_le n 1) (fun x hx => (add_finite hx hfinite).2)
      (fun x hx hinf => by rw [add_infinite hx hinf hfinite]) h
  · rw [Bool.not_eq_true] at hfinite
    exact le_of_eq ((add_to_infinite hxn hz hfinite hx).trans
      (add_to_infinite hyn hz hfinite hy).symm)

theorem sign_neg (x : F64) : (neg x).sign = !x.sign := by
  have hmsb : (BitVec.ofNat 64 (2 ^ 63)).msb = true := by decide
  rw [sign, neg, BitVec.msb_xor, hmsb, Bool.xor_true, sign]

theorem rank_neg (h : x.isNan = false) : (neg x).rank = -x.rank := by
  have hneg : (neg x).isNan = false := (isNan_neg x).trans h
  rw [rank_eq hneg, rank_eq h, sign_neg, low_neg]
  cases x.sign
  · rfl
  · exact (Int.neg_neg _).symm

theorem sub_skips {x y o : F64} (h : le x y = true) (hy : (sub y o).isNan = true)
    (hx : (sub x o).isNan = false) : (sub x o).rank < 0 := by
  obtain ⟨hxn, hyn, hrank⟩ := le_iff.mp h
  have hz : (neg o).isNan = false := by
    by_contra hnan
    rw [Bool.not_eq_false] at hnan
    rw [sub, add_nan hnan] at hx
    cases hx
  have hinf : (neg o).isFinite = false := by
    by_contra hfinite
    rw [Bool.not_eq_false] at hfinite
    by_cases hfy : y.isFinite = true
    · rw [sub, (add_finite hfy hfinite).1] at hy
      cases hy
    · rw [Bool.not_eq_true] at hfy
      rw [sub, add_infinite hyn hfy hfinite, hyn] at hy
      cases hy
  have hsub (v : F64) (hv : v.isNan = false) : sub v o =
      if v.isFinite = true then neg o else if (v.sign != (neg o).sign) = true then nan else v := by
    rw [sub, add, hv, hz, hinf]
    cases v.isFinite <;> simp
  by_cases hfy : y.isFinite = true
  · rw [hsub y hyn, if_pos hfy, hz] at hy
    cases hy
  · rw [hsub y hyn, if_neg hfy] at hy
    by_cases hsign : (y.sign != (neg o).sign) = true
    · -- The subtrahend is the infinity `y`: it is above `x`, or `x` is that infinity as well.
      rw [Bool.not_eq_true] at hfy
      rw [bne_iff_ne, ne_eq] at hsign
      have hyrank := rank_infinite hyn hfy
      have hzrank := rank_infinite hz hinf
      have hbig := top_pos
      cases hys : y.sign with
      | false =>
        have hresult := add_to_infinite hxn hz hinf hx
        rw [hys] at hsign
        have hzs : (neg o).sign = true := by
          cases hcase : (neg o).sign with
          | true => rfl
          | false => exact absurd hcase.symm hsign
        rw [sub, hresult, hzrank, hzs, if_pos rfl]
        omega
      | true =>
        exfalso
        rw [hys, if_pos rfl] at hyrank
        have hfx : x.isFinite = false := by
          by_contra hfinite
          rw [Bool.not_eq_false] at hfinite
          have hbounds := rank_bounds hfinite
          omega
        have hxs : x.sign = true := by
          have hxrank := rank_infinite hxn hfx
          cases hcase : x.sign with
          | true => rfl
          | false =>
            rw [hcase, if_neg Bool.false_ne_true] at hxrank
            omega
        have hsame : (x.sign != (neg o).sign) = true := by
          rw [hxs.trans hys.symm]
          exact bne_iff_ne.mpr hsign
        rw [hsub x hxn, hfx, if_neg Bool.false_ne_true, if_pos hsame] at hx
        exact absurd hx (by decide)
    · rw [if_neg hsign, hyn] at hy
      cases hy

theorem zero_rank : zero.rank = 0 := rfl

theorem padded_le {x y p : F64} (h : le x y = true) (hp : le zero p = true)
    (hx : (sub x p).isNan = false) (hy : (add y p).isNan = false) :
    le (sub x p) (add y p) = true := by
  obtain ⟨hxn, hyn, hrank⟩ := le_iff.mp h
  obtain ⟨-, hpn, hpos⟩ := le_iff.mp hp
  rw [zero_rank] at hpos
  have hneg : (neg p).isNan = false := (isNan_neg p).trans hpn
  have hnegrank := rank_neg hpn
  refine le_iff.mpr ⟨hx, hy, ?_⟩
  by_cases hfinite : p.isFinite = true
  · have hnegfinite : (neg p).isFinite = true := (isFinite_neg p).trans hfinite
    have hstep : (sub x p).rank ≤ (add y (neg p)).rank :=
      rank_mono_of (g := (add · (neg p))) (f := (rounded · 1)) (k := (neg p).rank)
        (fun a b => rounded_mono) (fun n => rounded_le n 1)
        (fun x hx => (add_finite hx hnegfinite).2)
        (fun x hx hinf => by rw [add_infinite hx hinf hnegfinite]) h
    refine hstep.trans ?_
    by_cases hfy : y.isFinite = true
    · rw [(add_finite hfy hnegfinite).2, (add_finite hfy hfinite).2]
      exact signed_mono (fun a b => rounded_mono) (by omega)
    · rw [Bool.not_eq_true] at hfy
      rw [add_infinite hyn hfy hnegfinite, add_infinite hyn hfy hfinite]
  · rw [Bool.not_eq_true] at hfinite
    rw [sub, add_to_infinite hxn hneg ((isFinite_neg p).trans hfinite) hx,
      add_to_infinite hyn hpn hfinite hy]
    omega

/-! ## Division -/

/-- The absolute value of a quotient by `c`, in units. -/
def quotient (c : F64) (m : Nat) : Nat := rounded (m * 2 ^ 1074) c.magnitude

theorem quotient_mono (c : F64) {a b : Nat} (h : a ≤ b) : quotient c a ≤ quotient c b :=
  rounded_mono (Nat.mul_le_mul_right _ h)

theorem quotient_zero {c : F64} (h : 0 < c.magnitude) : quotient c 0 = 0 := by
  rw [quotient, zero_mul, rounded_zero h]

theorem quotient_le (c : F64) (m : Nat) : quotient c m ≤ top := by
  rw [quotient]
  exact rounded_le _ _

theorem rank_quotient (negative : Bool) (m : Nat) (c : F64) :
    (round negative (m * 2 ^ 1074) c.magnitude).rank =
      if negative then -(quotient c m : Int) else (quotient c m : Int) := by
  rw [rank_round, quotient]

variable {c : F64}

theorem div_finite (hx : x.isFinite = true) (hc : c.isFinite = true)
    (hpos : 0 < c.rank) : (div x c).isNan = false ∧
      (div x c).rank = signed (quotient c) x.rank := by
  have hunits : c.rank = c.units := rank_finite hc
  have hsign : c.sign = false := by
    by_contra hsign
    rw [Bool.not_eq_false] at hsign
    rw [hunits, units, if_pos hsign] at hpos
    omega
  have hmagnitude : 0 < c.magnitude := by
    rw [hunits, units, hsign, if_neg Bool.false_ne_true] at hpos
    omega
  have hdiv : (div x c).isNan = false ∧ (div x c).rank =
      if x.sign then -(quotient c x.magnitude : Int) else (quotient c x.magnitude : Int) := by
    simp only [div, isNan_of_finite hx, isNan_of_finite hc, hx, hc, hsign, Bool.bne_false,
      Bool.or_self, Bool.false_eq_true, Bool.not_true, if_false, hmagnitude.ne', rank_quotient,
      isNan_round, and_self, -Nat.reducePow]
  rw [hdiv.2, rank_finite hx, units, signed_neg x.sign x.magnitude (quotient_zero hmagnitude)]
  exact ⟨hdiv.1, rfl⟩

theorem div_infinite (hx : x.isNan = false) (hinf : x.isFinite = false)
    (hc : c.isFinite = true) (hpos : 0 < c.rank) :
    (div x c).isNan = false ∧ (div x c).rank = x.rank := by
  have hsign : c.sign = false := by
    by_contra hsign
    rw [Bool.not_eq_false] at hsign
    rw [rank_finite hc, units, if_pos hsign] at hpos
    omega
  have hdiv : div x c = pack x.sign (2047 * 2 ^ 52) := by
    unfold div
    rw [hx, isNan_of_finite hc, hinf, hc, hsign, Bool.bne_false]
    simp [infinity]
  have hworth : worth (2047 * 2 ^ 52) = top := if_pos (le_refl _)
  rw [hdiv, rank_pack (le_refl _), rank_infinite hx hinf, hworth]
  exact ⟨isNan_pack (le_refl _), rfl⟩

theorem div_by_infinite (hc : c.isFinite = false)
    (h : (div x c).isNan = false) : (div x c).rank = 0 := by
  unfold div at h ⊢
  by_cases hnan : (x.isNan || c.isNan) = true
  · rw [if_pos hnan] at h
    exact absurd h (by decide)
  · rw [if_neg hnan, hc] at h ⊢
    by_cases hfinite : x.isFinite = true
    · simp only [hfinite, Bool.not_true, Bool.false_eq_true, if_false, Bool.not_false, if_true]
      rw [rank_pack (by omega), worth_zero]
      split <;> rfl
    · rw [Bool.not_eq_true] at hfinite
      simp only [hfinite, Bool.not_false, if_true, Bool.false_eq_true, if_false] at h
      exact absurd h (by decide)

theorem div_mono {x y c : F64} (h : le x y = true) (hpos : lt zero c = true)
    (hx : (div x c).isNan = false) (hy : (div y c).isNan = false) :
    (div x c).rank ≤ (div y c).rank := by
  by_cases hfinite : c.isFinite = true
  · have hrank : 0 < c.rank := (lt_iff.mp hpos).2.2
    refine rank_mono_of (g := (div · c)) (f := quotient c) (k := 0) ?_ ?_ ?_ ?_ h
    · exact fun a b hab => quotient_mono c hab
    · exact quotient_le c
    · intro x hx
      rw [(div_finite hx hfinite hrank).2, Int.add_zero]
    · exact fun x hx hinf => (div_infinite hx hinf hfinite hrank).2
  · rw [Bool.not_eq_true] at hfinite
    rw [div_by_infinite hfinite hx, div_by_infinite hfinite hy]

theorem magnitude_pos {c : F64} (hc : c.isFinite = true) (hpos : 0 < c.rank) : 0 < c.magnitude := by
  rw [rank_finite hc, units] at hpos
  split at hpos <;> omega

theorem div_nonpos (hxn : x.isNan = false) (hpos : lt zero c = true) (hx : x.rank ≤ 0)
    (h : (div x c).isNan = false) : (div x c).rank ≤ 0 := by
  by_cases hc : c.isFinite = true
  · have hrank : 0 < c.rank := (lt_iff.mp hpos).2.2
    by_cases hfinite : x.isFinite = true
    · rw [(div_finite hfinite hc hrank).2, signed]
      by_cases hneg : x.rank < 0
      · rw [if_pos hneg]
        omega
      · have hzero : x.rank.natAbs = 0 := by omega
        rw [if_neg hneg, hzero, quotient_zero (magnitude_pos hc hrank)]
        exact le_refl _
    · rw [Bool.not_eq_true] at hfinite
      rw [(div_infinite hxn hfinite hc hrank).2]
      exact hx
  · rw [Bool.not_eq_true] at hc
    exact le_of_eq (div_by_infinite hc h)

theorem div_nan (h : x.isNan = true) : (div x c).isNan = true := by
  unfold div
  rw [h, Bool.true_or, if_pos rfl]
  decide

theorem div_isNan (hxn : x.isNan = false) (hpos : lt zero c = true)
    (h : (div x c).isNan = true) : c.isFinite = false := by
  by_contra hc
  rw [Bool.not_eq_false] at hc
  have hrank : 0 < c.rank := (lt_iff.mp hpos).2.2
  by_cases hfinite : x.isFinite = true
  · rw [(div_finite hfinite hc hrank).1] at h
    cases h
  · rw [Bool.not_eq_true] at hfinite
    rw [(div_infinite hxn hfinite hc hrank).1] at h
    cases h

/-! ## Numbers that are not negative -/

open Bool Nat

theorem halfEven_mul (q : Nat) {d : Nat} (hd : 0 < d) : halfEven (q * d) d = q := by
  rw [halfEven, Nat.mul_mod_left, Nat.mul_div_cancel _ hd, if_neg]
  simp only [or_eq_true, and_eq_true, decide_eq_true_eq, beq_iff_eq]
  omega

theorem log2_significand {f e : Nat} (hf : f < 2 ^ 52) :
    log2 ((2 ^ 52 + f) * 2 ^ e) = 52 + e := by
  have hpos : (2 ^ 52 + f) * 2 ^ e ≠ 0 := Nat.mul_ne_zero (by omega) (Nat.two_pow_pos e).ne'
  refine (Nat.log2_eq_iff hpos).mpr ⟨?_, ?_⟩
  · rw [pow_add]
    exact mul_le_mul_right _ (le_add_right _ _)
  · rw [show 52 + e + 1 = 53 + e by omega, pow_add]
    exact Nat.mul_lt_mul_of_pos_right (by omega) (Nat.two_pow_pos e)

theorem payload_worth {p : Nat} (h : p < 2047 * 2 ^ 52) : payload (worth p) 1 = p := by
  rw [worth, if_neg (by omega)]
  by_cases hzero : p / 2 ^ 52 = 0
  · have hsmall : p % 2 ^ 52 = p := by omega
    have hlog : log2 p - 52 = 0 := by
      by_cases hp : p = 0
      · rw [hp]
        decide
      · have hlt := (log2_lt hp).mpr (show p < 2 ^ 52 by omega)
        omega
    rw [if_pos hzero, hsmall, payload, Nat.div_one, hlog, Nat.pow_zero, Nat.mul_one]
    have hexact := halfEven_mul p (d := 1) Nat.one_pos
    rw [mul_one] at hexact
    rw [hexact]
    omega
  · have hfraction : p % 2 ^ 52 < 2 ^ 52 := Nat.mod_lt _ (Nat.two_pow_pos 52)
    rw [if_neg hzero, payload, Nat.div_one, log2_significand hfraction, Nat.one_mul,
      Nat.add_sub_cancel_left, halfEven_mul _ (Nat.two_pow_pos _)]
    omega

theorem rounded_worth {p : Nat} (h : p < 2047 * 2 ^ 52) : rounded (worth p) 1 = worth p := by
  rw [rounded, payload_worth h]

def Nonneg (x : F64) : Prop := le zero x = true

variable {x : F64}

theorem nonneg_iff : Nonneg x ↔ x.isNan = false ∧ 0 ≤ x.rank := by
  rw [Nonneg, le_iff, zero_rank]
  exact and_iff_right rfl

theorem Nonneg.rank_eq_worth (h : Nonneg x) : x.rank = (worth x.low : Int) := by
  obtain ⟨hnan, hrank⟩ := nonneg_iff.mp h
  have heq := rank_eq hnan
  by_cases hsign : x.sign = true
  · rw [if_pos hsign] at heq
    omega
  · rw [if_neg hsign] at heq
    exact heq

theorem Nonneg.sign_eq_false (h : Nonneg x) (hpos : x.rank ≠ 0) : x.sign = false := by
  obtain ⟨hnan, hrank⟩ := nonneg_iff.mp h
  have heq := rank_eq hnan
  by_contra hsign
  rw [Bool.not_eq_false] at hsign
  rw [if_pos hsign] at heq
  omega

theorem Nonneg.infinite (h : Nonneg x) (hinf : x.isFinite = false) : x.rank = (top : Int) := by
  obtain ⟨hnan, hrank⟩ := nonneg_iff.mp h
  have hbig := top_pos
  rcases infinite_cases hnan hinf with hcase | hcase
  · omega
  · exact hcase

variable {y : F64}

theorem Nonneg.add (hx : Nonneg x) (hy : Nonneg y) :
    Nonneg (add x y) ∧ x.rank ≤ (add x y).rank := by
  obtain ⟨hxnan, hxrank⟩ := nonneg_iff.mp hx
  obtain ⟨hynan, hyrank⟩ := nonneg_iff.mp hy
  by_cases hxf : x.isFinite = true
  · by_cases hyf : y.isFinite = true
    · obtain ⟨hnan, hrank⟩ := add_finite hxf hyf
      have hexact : (rounded x.rank.natAbs 1 : Int) = x.rank := by
        rw [hx.rank_eq_worth, Int.natAbs_natCast, rounded_worth ((isFinite_iff x).mp hxf)]
      have hle : rounded x.rank.natAbs 1 ≤ rounded (x.rank + y.rank).natAbs 1 :=
        rounded_mono (by omega)
      have hsigned : signed (rounded · 1) (x.rank + y.rank) =
          (rounded (x.rank + y.rank).natAbs 1 : Int) := if_neg (by omega)
      rw [nonneg_iff, hrank, hsigned]
      exact ⟨⟨hnan, by omega⟩, by omega⟩
    · rw [not_eq_true] at hyf
      have hsum : F64.add x y = y := by
        rw [F64.add, hxnan, hynan, hxf, hyf]
        simp
      rw [hsum]
      have hbounds := rank_bounds hxf
      have hytop := hy.infinite hyf
      exact ⟨hy, by omega⟩
  · rw [not_eq_true] at hxf
    have hxtop := hx.infinite hxf
    have hbig := top_pos
    have hsum : F64.add x y = x := by
      by_cases hyf : y.isFinite = true
      · exact add_infinite hxnan hxf hyf
      · rw [not_eq_true] at hyf
        have hytop := hy.infinite hyf
        rw [F64.add, hxnan, hynan, hxf, hyf, hx.sign_eq_false (by omega),
          hy.sign_eq_false (by omega)]
        simp
    rw [hsum]
    exact ⟨hx, le_refl _⟩

/-! ## Products and quotients -/

theorem nonneg_round (num den : Nat) : Nonneg (round false num den) := by
  rw [nonneg_iff, isNan_round, rank_round]
  exact ⟨rfl, Int.natCast_nonneg _⟩

theorem nonneg_round_zero (negative : Bool) (den : Nat) : Nonneg (round negative 0 den) := by
  have hzero : rounded 0 den = 0 := by
    rcases Nat.eq_zero_or_pos den with rfl | h
    · rfl
    · exact rounded_zero h
  rw [nonneg_iff, isNan_round, rank_round, hzero]
  cases negative
  · exact ⟨rfl, le_refl _⟩
  · exact ⟨rfl, le_refl _⟩

theorem nonneg_infinity : Nonneg (infinity false) := rfl

theorem not_nonneg_nan : ¬ Nonneg nan := by
  rw [Nonneg]
  decide

theorem Nonneg.magnitude_of_sign (h : Nonneg x) (hfinite : x.isFinite = true)
    (hsign : x.sign = true) : x.magnitude = 0 := by
  obtain ⟨-, hrank⟩ := nonneg_iff.mp h
  rw [rank_finite hfinite, units, if_pos hsign] at hrank
  omega

theorem nonneg_mul_iff (hx : Nonneg x) (hy : Nonneg y) (hfinite : y.isFinite = true) :
    Nonneg (mul x y) ↔ (x.isFinite = false → y.magnitude ≠ 0) := by
  obtain ⟨hxnan, hxrank⟩ := nonneg_iff.mp hx
  obtain ⟨hynan, hyrank⟩ := nonneg_iff.mp hy
  rw [mul, hxnan, hynan, hfinite]
  by_cases hxf : x.isFinite = true
  · rw [hxf]
    simp only [Bool.or_self, Bool.false_eq_true, if_false, Bool.not_true]
    refine iff_of_true ?_ fun h => (by cases h)
    by_cases hsign : (x.sign != y.sign) = true
    · have hzero : x.magnitude * y.magnitude = 0 := by
        cases hxs : x.sign with
        | true => rw [hx.magnitude_of_sign hxf hxs, zero_mul]
        | false =>
          rw [hxs] at hsign
          have hys : y.sign = true := by
            cases hcase : y.sign with
            | true => rfl
            | false =>
              rw [hcase] at hsign
              cases hsign
          rw [hy.magnitude_of_sign hfinite hys, mul_zero]
      rw [hzero]
      exact nonneg_round_zero _ _
    · rw [not_eq_true] at hsign
      rw [hsign]
      exact nonneg_round _ _
  · rw [not_eq_true] at hxf
    have hxtop := hx.infinite hxf
    have hbig := top_pos
    have hxs := hx.sign_eq_false (by omega)
    rw [hxf, hxs]
    simp only [Bool.or_self, Bool.false_eq_true, if_false, Bool.not_false, Bool.true_or, if_true,
      Bool.false_and, Bool.true_and, Bool.false_or, beq_iff_eq, true_implies]
    by_cases hzero : y.magnitude = 0
    · rw [if_pos hzero]
      exact ⟨fun h => absurd h not_nonneg_nan, fun h => absurd hzero h⟩
    · rw [if_neg hzero]
      have hys : y.sign = false := by
        by_contra hsign
        rw [Bool.not_eq_false] at hsign
        exact hzero (hy.magnitude_of_sign hfinite hsign)
      rw [hys]
      exact ⟨fun _ => hzero, fun _ => nonneg_infinity⟩

theorem nonneg_square (h : x.isNan = false) : Nonneg (mul x x) := by
  rw [mul, h]
  by_cases hf : x.isFinite = true
  · rw [hf]
    simp only [Bool.or_self, Bool.false_eq_true, if_false, Bool.not_true, bne_self_eq_false]
    exact nonneg_round _ _
  · rw [not_eq_true] at hf
    rw [hf]
    simp only [Bool.or_self, Bool.false_eq_true, if_false, Bool.not_false, if_true,
      Bool.false_and, bne_self_eq_false]
    exact nonneg_infinity

theorem mul_nan (h : x.isNan = true ∨ y.isNan = true) : (mul x y).isNan = true := by
  have hor : (x.isNan || y.isNan) = true := by
    rw [or_eq_true]
    exact h
  rw [mul, if_pos hor]
  decide

theorem Nonneg.div {x c : F64} (hx : Nonneg x) (hpos : lt zero c = true)
    (hc : c.isFinite = true) : Nonneg (div x c) := by
  have hnan : (F64.div x c).isNan = false := by
    by_contra h
    rw [Bool.not_eq_false] at h
    rw [div_isNan (nonneg_iff.mp hx).1 hpos h] at hc
    cases hc
  have hzero : (F64.div zero c).isNan = false := by
    by_contra h
    rw [Bool.not_eq_false] at h
    rw [div_isNan rfl hpos h] at hc
    cases hc
  have hrank := div_mono hx hpos hzero hnan
  have hlow : (F64.div zero c).rank = 0 := by
    have hcrank : 0 < c.rank := (lt_iff.mp hpos).2.2
    rw [(div_finite rfl hc hcrank).2, zero_rank, signed, if_neg (Int.lt_irrefl 0), Int.natAbs_zero,
      quotient_zero (magnitude_pos hc hcrank)]
    rfl
  rw [hlow] at hrank
  exact nonneg_iff.mpr ⟨hnan, hrank⟩

/-! ## Finite results -/

theorem isFinite_round (negative : Bool) (num den : Nat) :
    (round negative num den).isFinite = true ↔ rounded num den < top := by
  have hrank := rank_round negative num den
  have hle := rounded_le num den
  constructor
  · intro h
    obtain ⟨hlow, hhigh⟩ := rank_bounds h
    split_ifs at hrank <;> omega
  · intro h
    by_contra hinf
    rw [not_eq_true] at hinf
    have hbig := top_pos
    rcases infinite_cases (isNan_round negative num den) hinf with hcase | hcase
    · split_ifs at hrank <;> omega
    · split_ifs at hrank <;> omega

theorem worth_eq_zero {p : Nat} : worth p = 0 ↔ p = 0 := by
  constructor
  · intro h
    by_contra hp
    have hle := worth_mono (show 1 ≤ p by omega)
    rw [h] at hle
    revert hle
    decide
  · intro h
    rw [h, worth_zero]

theorem halfEven_eq_zero {n d : Nat} (hd : 0 < d) : halfEven n d = 0 ↔ 2 * n ≤ d := by
  rw [halfEven]
  have hsplit := div_add_mod n d
  constructor
  · intro h
    split_ifs at h with hup
    have hquotient : n / d = 0 := h
    rw [hquotient, mul_zero, zero_add] at hsplit
    simp only [or_eq_true, and_eq_true, decide_eq_true_eq, beq_iff_eq] at hup
    omega
  · intro h
    have hlt : n < d := by omega
    rw [div_eq_of_lt hlt, mod_eq_of_lt hlt, if_neg]
    simp only [or_eq_true, and_eq_true, decide_eq_true_eq, beq_iff_eq]
    omega

theorem rounded_eq_zero {num den : Nat} (hden : 0 < den) : rounded num den = 0 ↔ 2 * num ≤ den := by
  rw [rounded, worth_eq_zero, payload]
  by_cases hlt : num < den
  · have hlog : log2 (num / den) - 52 = 0 := by
      rw [div_eq_of_lt hlt]
      decide
    rw [hlog, pow_zero, mul_one, zero_mul, zero_add, ← halfEven_eq_zero hden]
    omega
  · refine iff_of_false (fun h => ?_) (by omega)
    have hquotient : 1 ≤ num / den := (one_le_div_iff hden).mpr (by omega)
    by_cases hlog : log2 (num / den) - 52 = 0
    · rw [hlog, pow_zero, mul_one] at h
      have hhalf := le_halfEven num den
      omega
    · omega

theorem nonneg_round_true (num : Nat) {den : Nat} (hden : 0 < den) :
    Nonneg (round true num den) ↔ 2 * num ≤ den := by
  rw [nonneg_iff, isNan_round, rank_round, if_pos rfl, ← rounded_eq_zero hden]
  refine (and_iff_right rfl).trans ?_
  omega

theorem sign_of_not_nonneg (hfinite : x.isFinite = true) (h : ¬ Nonneg x) : x.sign = true := by
  by_contra hsign
  refine h (nonneg_iff.mpr ⟨isNan_of_finite hfinite, ?_⟩)
  rw [rank_eq (isNan_of_finite hfinite), if_neg hsign]
  exact Int.natCast_nonneg _

theorem div_of_finite {x c : F64} (hx : x.isFinite = true) (hc : c.isFinite = true)
    (hmagnitude : c.magnitude ≠ 0) :
    div x c = round (x.sign != c.sign) (x.magnitude * 2 ^ 1074) c.magnitude := by
  simp only [div, isNan_of_finite hx, isNan_of_finite hc, hx, hc, hmagnitude, Bool.or_self,
    Bool.false_eq_true, if_false, Bool.not_true, -reducePow]

/-- A quotient by a positive number is negative only where the dividend is, unless it vanishes. -/
theorem nonneg_div_iff {x c : F64} (hx : x.isFinite = true) (hpos : lt zero c = true) :
    Nonneg (div x c) ↔
      Nonneg x ∨ (c.isFinite = true → 2 * (x.magnitude * 2 ^ 1074) ≤ c.magnitude) := by
  obtain ⟨-, hcnan, hcrank⟩ := lt_iff.mp hpos
  rw [zero_rank] at hcrank
  by_cases hc : c.isFinite = true
  · by_cases hsign : Nonneg x
    · exact iff_of_true (hsign.div hpos hc) (.inl hsign)
    · have hmagnitude := magnitude_pos hc hcrank
      have hcsign : c.sign = false := by
        by_contra hneg
        rw [Bool.not_eq_false] at hneg
        rw [rank_finite hc, units, if_pos hneg] at hcrank
        omega
      rw [div_of_finite hx hc hmagnitude.ne', sign_of_not_nonneg hx hsign, hcsign]
      refine (nonneg_round_true _ hmagnitude).trans ?_
      rw [or_iff_right hsign]
      exact ⟨fun h _ => h, fun h => h hc⟩
  · refine iff_of_true ?_ (.inr fun h => absurd h hc)
    rw [not_eq_true] at hc
    have hdiv : F64.div x c = pack (x.sign != c.sign) 0 := by
      rw [F64.div, isNan_of_finite hx, hcnan, hx, hc]
      rfl
    rw [hdiv, nonneg_iff, isNan_pack (zero_le _), rank_pack (zero_le _), worth_zero]
    refine ⟨rfl, ?_⟩
    split <;> exact le_refl 0

theorem low_abs (x : F64) : x.abs.low = x.low := by
  rw [low, low, abs, BitVec.toNat_and, BitVec.toNat_ofNat,
    mod_eq_of_lt (show 2 ^ 63 - 1 < 2 ^ 64 by decide), and_two_pow_sub_one_eq_mod,
    mod_mod]

theorem isNan_abs (x : F64) : x.abs.isNan = x.isNan := by
  rw [isNan, isNan, exponent_eq, fraction_eq, exponent_eq, fraction_eq, low_abs]

theorem isFinite_abs (x : F64) : x.abs.isFinite = x.isFinite := by
  rw [isFinite, isFinite, exponent_eq, exponent_eq, low_abs]

theorem nan_add {x z : F64} (h : x.isNan = true) : (add x z).isNan = true := by
  rw [add, h, Bool.true_or, if_pos rfl]
  decide

theorem mul_of_finite (hx : x.isFinite = true) (hy : y.isFinite = true) :
    mul x y = round (x.sign != y.sign) (x.magnitude * y.magnitude) (2 ^ 1074) := by
  rw [mul, isNan_of_finite hx, isNan_of_finite hy, hx, hy]
  simp only [Bool.or_self, Bool.false_eq_true, if_false, Bool.not_true, -reducePow]

theorem isNan_mul_finite (hx : x.isNan = false) (hy : y.isFinite = true) :
    (mul x y).isNan = false ↔ x.isFinite = true ∨ y.magnitude ≠ 0 := by
  by_cases hxf : x.isFinite = true
  · rw [mul_of_finite hxf hy]
    exact iff_of_true (isNan_round _ _ _) (.inl hxf)
  · rw [not_eq_true] at hxf
    have hmul : mul x y = if y.magnitude = 0 then nan else infinity (x.sign != y.sign) := by
      rw [mul, hx, isNan_of_finite hy, hxf, hy, if_neg (show ¬ (false || false) = true by decide),
        if_pos (show (!false || !true) = true by decide), Bool.false_and, Bool.false_or,
        Bool.true_and]
      simp only [beq_iff_eq]
    rw [hmul, hxf, or_iff_right Bool.false_ne_true]
    by_cases hzero : y.magnitude = 0
    · rw [if_pos hzero]
      exact iff_of_false (by decide) (fun h => h hzero)
    · rw [if_neg hzero, infinity, isNan_pack (le_refl _)]
      exact iff_of_true rfl hzero

theorem scaled_le {a b k e : Nat} (h : a ≤ b) (hk : k ≤ e) : a * 2 ^ k ≤ b * 2 ^ e :=
  Nat.mul_le_mul h (Nat.pow_le_pow_right Nat.two_pos hk)

def greatest : Nat := (2 ^ 53 - 1) * 2 ^ 2045

theorem magnitude_le (hx : x.isFinite = true) : x.magnitude ≤ greatest := by
  have hlow := (isFinite_iff x).mp hx
  rw [magnitude, exponent_eq, fraction_eq]
  split_ifs
  · have hfraction := @scaled_le (x.low % 2 ^ 52) (2 ^ 53 - 1) 0 2045 (by omega) (zero_le _)
    rw [pow_zero, mul_one] at hfraction
    exact hfraction
  · exact @scaled_le _ (2 ^ 53 - 1) _ 2045 (by omega) (by omega)

theorem rounded_scaled {a b : Nat} (h : a ≤ b) (k den : Nat) :
    rounded (a * k) den ≤ rounded (b * k) den := rounded_mono (mul_le_mul_right k h)

theorem isFinite_ofNat {n : Nat} (h : n ≤ 2 ^ 64) : (ofNat n).isFinite = true := by
  have hbound : rounded (2 ^ 64 * 2 ^ 1074) 1 < top := by decide +kernel
  have hle := rounded_scaled h (2 ^ 1074) 1
  rw [ofNat, ofRatio, isFinite_round]
  exact hle.trans_lt hbound

theorem isFinite_half (hx : x.isNan = false) : (div x (ofNat 2)).isFinite = x.isFinite := by
  have htwo : (ofNat 2).isFinite = true ∧ (ofNat 2).magnitude ≠ 0 := by decide +kernel
  by_cases hxf : x.isFinite = true
  · have hbound : rounded (greatest * 2 ^ 1074) (ofNat 2).magnitude < top := by
      decide +kernel
    rw [hxf, div_of_finite hxf htwo.1 htwo.2, isFinite_round]
    exact (rounded_scaled (magnitude_le hxf) _ _).trans_lt hbound
  · rw [not_eq_true] at hxf
    have hdiv : div x (ofNat 2) = infinity (x.sign != (ofNat 2).sign) := by
      rw [div, hx, isNan_of_finite htwo.1, hxf, htwo.1]
      rfl
    rw [hdiv, hxf]
    cases x.sign != (ofNat 2).sign
    · decide
    · decide

end GeneGIS.F64
