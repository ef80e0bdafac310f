/-
IEEE 754 binary64, the `f64` of the platform.

A finite value is a whole number of units of `2 ^ -1074`, so a result is computed exactly over the
integers and rounded once, to nearest with ties to even.
-/
import Mathlib.Algebra.Ring.Int.Defs
import GeneGIS.Data.Text

namespace GeneGIS

structure F64 where
  bits : BitVec 64
  deriving DecidableEq, Inhabited

namespace F64

variable (x : F64)

def sign : Bool := x.bits.msb

def exponent : Nat := x.bits.toNat / 2 ^ 52 % 2 ^ 11

def fraction : Nat := x.bits.toNat % 2 ^ 52

/-- `f64::is_finite`. -/
def isFinite : Bool := x.exponent != 2047

/-- `f64::is_nan`. -/
def isNan : Bool := x.exponent == 2047 && x.fraction != 0

/-- The absolute value of a finite number, in units of `2 ^ -1074`. -/
def magnitude : Nat :=
  if x.exponent = 0 then x.fraction else (2 ^ 52 + x.fraction) * 2 ^ (x.exponent - 1)

def units : Int := if x.sign then -(x.magnitude : Int) else x.magnitude

variable (negative : Bool)

def pack (payload : Nat) : F64 := ⟨BitVec.ofNat 64 ((if negative then 2 ^ 63 else 0) + payload)⟩

def infinity : F64 := pack negative (2047 * 2 ^ 52)

def nan : F64 := pack false (2047 * 2 ^ 52 + 2 ^ 51)

def zero : F64 := pack false 0

/-- Round `num / den` units to nearest, ties to even. A carry into the next binade or beyond the
largest finite number goes into the exponent field of the packed payload. -/
def round (num den : Nat) : F64 :=
  let k := Nat.log2 (num / den) - 52
  let d := den * 2 ^ k
  let q := num / d
  let r := num % d
  let m := if d < 2 * r || (2 * r == d && q % 2 == 1) then q + 1 else q
  pack negative (min (k * 2 ^ 52 + m) (2047 * 2 ^ 52))

/-- The nearest value to `num / den`. -/
def ofRatio (num den : Nat) : F64 := round false (num * 2 ^ 1074) den

def ofNat (n : Nat) : F64 := ofRatio n 1

/-- `f64::EPSILON`. -/
def epsilon : F64 := ofRatio 1 (2 ^ 52)

def neg : F64 := ⟨x.bits ^^^ BitVec.ofNat 64 (2 ^ 63)⟩

/-- `f64::abs`. -/
def abs : F64 := ⟨x.bits &&& BitVec.ofNat 64 (2 ^ 63 - 1)⟩

variable (x y : F64)

def add : F64 :=
  if x.isNan || y.isNan then nan
  else if !x.isFinite then
    if !y.isFinite && x.sign != y.sign then nan else x
  else if !y.isFinite then y
  else
    let s := x.units + y.units
    -- An exact zero is negative only when both operands are.
    if s = 0 then pack (x.sign && y.sign) 0 else round (s < 0) s.natAbs 1

def sub : F64 := add x (neg y)

def mul : F64 :=
  let negative := x.sign != y.sign
  if x.isNan || y.isNan then nan
  else if !x.isFinite || !y.isFinite then
    if (x.isFinite && x.magnitude == 0) || (y.isFinite && y.magnitude == 0) then nan
    else infinity negative
  else round negative (x.magnitude * y.magnitude) (2 ^ 1074)

def div : F64 :=
  let negative := x.sign != y.sign
  if x.isNan || y.isNan then nan
  else if !x.isFinite then if y.isFinite then infinity negative else nan
  else if !y.isFinite then pack negative 0
  else if y.magnitude = 0 then if x.magnitude = 0 then nan else infinity negative
  else round negative (x.magnitude * 2 ^ 1074) y.magnitude

/-- Position on the extended number line; the infinities lie beyond every
finite number of units. -/
def rank : Int :=
  if x.isFinite then x.units else if x.sign then -(2 ^ 2100) else 2 ^ 2100

/-- `==`: a NaN equals nothing and the two zeros are equal. -/
def eq : Bool := !x.isNan && !y.isNan && x.rank == y.rank

def lt : Bool := !x.isNan && !y.isNan && decide (x.rank < y.rank)

def le : Bool := !x.isNan && !y.isNan && decide (x.rank ≤ y.rank)

/-- `f64::max`, which drops a NaN operand. -/
def max : F64 :=
  if x.isNan then y else if y.isNan then x else if lt x y then y else x

/-- `f64::clamp`, which keeps a NaN. -/
def clamp (x least greatest : F64) : F64 :=
  if lt x least then least else if lt greatest x then greatest else x

/-- `f64::round`, halves away from zero. -/
def roundHalfAway : F64 :=
  if x.isFinite then
    round x.sign ((2 * x.magnitude + 2 ^ 1074) / 2 ^ 1075 * 2 ^ 1074) 1
  else x

/-- `as i64`: towards zero, saturating, and zero for a NaN. -/
def toI64 : Int :=
  if x.isNan then 0
  else Max.max (-(2 ^ 63)) (Min.min (2 ^ 63 - 1) (x.rank.tdiv (2 ^ 1074)))

/-- `Iterator::sum` over `f64`, whose neutral element is negative zero. -/
def sum (xs : List F64) : F64 := xs.foldl add (pack true 0)

end F64

example : F64.add (F64.ofRatio 1 10) (F64.ofRatio 2 10) = ⟨0x3fd3333333333334#64⟩ := by
  decide +kernel

example : F64.div (F64.ofNat 1) (F64.ofNat 3) = ⟨0x3fd5555555555555#64⟩ := by
  decide +kernel

/-- The values of binary32, as the binary64 numbers they widen to. -/
structure F32 where
  widen : F64
  single : (!widen.isFinite || (widen.magnitude % 2 ^ 925 == 0 &&
    widen.magnitude % 2 ^ (Nat.log2 widen.magnitude - 23) == 0 &&
    decide (widen.magnitude < 2 ^ 1202))) = true
  deriving DecidableEq

/-- `1.0_f32`. -/
def F32.one : F32 where
  widen := F64.ofNat 1
  single := by decide +kernel

end GeneGIS

/-! ## Decimal text of binary64 numbers

`parse` is `FromStr` of the platform.  The digits are one ratio of integers, which is rounded once. -/

namespace GeneGIS.F64

open List Nat Text

/-- `digits` times ten to the `exponent`. -/
def scaled (digits : Nat) (exponent : Int) : F64 :=
  if 0 ≤ exponent then ofRatio (digits * 10 ^ exponent.toNat) 1
  else ofRatio digits (10 ^ (-exponent).toNat)

def parseExponent : List Char → Option Int
  | [] => some 0
  | c :: rest =>
    let negative := rest.head? = some '-'
    let digits := if negative ∨ rest.head? = some '+' then rest.drop 1 else rest
    if (c = 'e' ∨ c = 'E') ∧ digits ≠ [] ∧ digits.all Char.isDigit then
      let value : Int := ofDigitChars 10 digits 0
      some (if negative then -value else value)
    else none

/-- The digits after a point, and what follows them. -/
def fractionDigits : List Char → List Char × List Char
  | '.' :: rest => (rest.takeWhile Char.isDigit, rest.dropWhile Char.isDigit)
  | rest => ([], rest)

def parseDigits (text : List Char) : Option F64 :=
  let whole := text.takeWhile Char.isDigit
  let fraction := fractionDigits (text.dropWhile Char.isDigit)
  if whole = [] ∧ fraction.1 = [] then none
  else (parseExponent fraction.2).map fun exponent =>
    scaled (ofDigitChars 10 (whole ++ fraction.1) 0) (exponent - fraction.1.length)

def parseUnsigned (text : List Char) : Option F64 :=
  let word := toAsciiLowercase (String.ofList text)
  if word = "inf" ∨ word = "infinity" then some (infinity false)
  else if word = "nan" then some nan
  else parseDigits text

/-- `str::parse::<f64>`. -/
def parse : List Char → Option F64
  | '-' :: text => (parseUnsigned text).map neg
  | '+' :: text => parseUnsigned text
  | text => parseUnsigned text

/-! ## Whole numbers -/

variable {n : Nat}

theorem log2_mul_two_pow (hn : n ≠ 0) (k : Nat) : (n * 2 ^ k).log2 = n.log2 + k := by
  have hne : n * 2 ^ k ≠ 0 := Nat.mul_ne_zero hn (Nat.two_pow_pos k).ne'
  rw [Nat.log2_eq_iff hne, Nat.pow_add, show n.log2 + k + 1 = n.log2 + 1 + k by omega, Nat.pow_add]
  exact ⟨Nat.mul_le_mul_right _ (Nat.log2_self_le hn),
    Nat.mul_lt_mul_of_pos_right Nat.lt_log2_self (Nat.two_pow_pos k)⟩

theorem log2_le (hn : n ≠ 0) (hbits : n < 2 ^ 53) : n.log2 ≤ 52 := by
  have hlt := (log2_lt hn).mpr hbits
  omega

theorem significand_bounds (hn : n ≠ 0) (hbits : n < 2 ^ 53) :
    2 ^ 52 ≤ n * 2 ^ (52 - n.log2) ∧ n * 2 ^ (52 - n.log2) < 2 ^ 53 := by
  have hlog := log2_le hn hbits
  constructor
  · calc 2 ^ 52 = 2 ^ n.log2 * 2 ^ (52 - n.log2) := by rw [← Nat.pow_add]; congr 1; omega
      _ ≤ n * 2 ^ (52 - n.log2) := Nat.mul_le_mul_right _ (Nat.log2_self_le hn)
  · calc n * 2 ^ (52 - n.log2) < 2 ^ (n.log2 + 1) * 2 ^ (52 - n.log2) :=
          Nat.mul_lt_mul_of_pos_right Nat.lt_log2_self (Nat.two_pow_pos _)
      _ = 2 ^ 53 := by rw [← Nat.pow_add]; congr 1; omega

theorem significand_scaled {n scale : Nat} (hn : n ≠ 0) (hbits : n < 2 ^ 53) (hfine : 52 ≤ scale) :
    n * 2 ^ (52 - n.log2) * 2 ^ (n.log2 + scale - 52) = n * 2 ^ scale := by
  have hlog := log2_le hn hbits
  rw [Nat.mul_assoc, ← Nat.pow_add]
  congr 2
  omega

theorem round_whole {n scale : Nat} (hn : n ≠ 0) (hbits : n < 2 ^ 53) (hfine : 52 ≤ scale)
    (hrange : scale ≤ 1900) :
    round false (n * 2 ^ scale) 1 =
      pack false ((n.log2 + scale - 52) * 2 ^ 52 + n * 2 ^ (52 - n.log2)) := by
  have hlog := log2_le hn hbits
  have hquotient := (significand_bounds hn hbits).2
  have hpayload : (n.log2 + scale - 52) * 2 ^ 52 + n * 2 ^ (52 - n.log2) ≤ 2047 * 2 ^ 52 := by
    omega
  have hdivisor := Nat.two_pow_pos (n.log2 + scale - 52)
  unfold round
  dsimp only
  rw [Nat.div_one, log2_mul_two_pow hn, Nat.one_mul, ← significand_scaled hn hbits hfine,
    Nat.mul_div_cancel _ hdivisor,
    mul_mod_left]
  generalize 2 ^ (n.log2 + scale - 52) = divisor at hdivisor
  have hexact : (decide (divisor < 2 * 0) ||
      2 * 0 == divisor && n * 2 ^ (52 - n.log2) % 2 == 1) = false := by
    have hzero : (2 * 0 == divisor) = false := by
      rw [beq_eq_false_iff_ne]
      omega
    rw [hzero, Bool.false_and, Bool.or_false, decide_eq_false_iff_not]
    omega
  rw [hexact, if_neg Bool.false_ne_true, Nat.min_eq_left hpayload]

theorem pack_bits {payload : Nat} (h : payload < 2 ^ 63) :
    (pack false payload).bits.toNat = payload := by
  rw [pack, if_neg Bool.false_ne_true, BitVec.toNat_ofNat, Nat.zero_add, Nat.mod_eq_of_lt]
  omega

/-- A positive number with its exponent and the fifty-three bits of its significand. -/
theorem magnitude_pack {exponent significand : Nat} (hexponent : exponent < 2046)
    (hlow : 2 ^ 52 ≤ significand) (hhigh : significand < 2 ^ 53) :
    let x := pack false (exponent * 2 ^ 52 + significand)
    x.isFinite = true ∧ x.sign = false ∧ x.magnitude = significand * 2 ^ exponent := by
  have hbits := @pack_bits (exponent * 2 ^ 52 + significand) (by omega)
  have hexp : (pack false (exponent * 2 ^ 52 + significand)).exponent = exponent + 1 := by
    rw [F64.exponent, hbits]
    omega
  have hfraction : (pack false (exponent * 2 ^ 52 + significand)).fraction =
      significand - 2 ^ 52 := by
    rw [fraction, hbits]
    omega
  refine ⟨?_, ?_, ?_⟩
  · rw [isFinite, hexp, bne_iff_ne]
    omega
  · rw [sign, BitVec.msb_eq_decide, hbits]
    refine decide_eq_false ?_
    omega
  · have hsignificand : 2 ^ 52 + (significand - 2 ^ 52) = significand := by omega
    rw [magnitude, hexp, hfraction, if_neg (succ_ne_zero exponent), hsignificand,
      Nat.add_sub_cancel]

theorem ofNat_exact (h : n < 2 ^ 53) :
    (ofNat n).isFinite = true ∧ (ofNat n).sign = false ∧ (ofNat n).magnitude = n * 2 ^ 1074 := by
  by_cases hn : n = 0
  · rw [hn]
    decide +kernel
  · have hlog := log2_le hn h
    have hbounds := significand_bounds hn h
    have hround := @round_whole n 1074 hn h (by omega) (by omega)
    rw [ofNat, ofRatio, hround]
    have hpacked := @magnitude_pack (n.log2 + 1074 - 52) _ (by omega) hbounds.1 hbounds.2
    rw [significand_scaled hn h (by omega)] at hpacked
    exact hpacked

theorem isNan_ofNat (h : n < 2 ^ 53) : (ofNat n).isNan = false := by
  have hfinite := (ofNat_exact h).1
  rw [isFinite, bne_iff_ne] at hfinite
  rw [isNan, beq_eq_false_iff_ne.mpr hfinite, Bool.false_and]

theorem abs_ofNat (h : n < 2 ^ 53) : (ofNat n).abs = ofNat n := by
  have hsign := (ofNat_exact h).2.1
  generalize ofNat n = x at hsign
  obtain ⟨bits⟩ := x
  have hlow : bits.toNat < 2 ^ 63 := by
    rw [sign, BitVec.msb_eq_decide] at hsign
    simpa using hsign
  rw [abs]
  refine congrArg F64.mk (BitVec.eq_of_toNat_eq ?_)
  rw [BitVec.toNat_and, BitVec.toNat_ofNat, Nat.mod_eq_of_lt (by decide),
    and_two_pow_sub_one_eq_mod, Nat.mod_eq_of_lt hlow]

theorem rank_ofNat (h : n < 2 ^ 53) : (ofNat n).rank = n * 2 ^ 1074 := by
  obtain ⟨hfinite, hsign, hmagnitude⟩ := ofNat_exact h
  have hcast (k : Nat) : ((n * 2 ^ k : Nat) : Int) = n * 2 ^ k := by push_cast; rfl
  rw [rank, if_pos hfinite, units, hsign, if_neg Bool.false_ne_true, hmagnitude]
  exact hcast 1074

theorem lt_ofNat {n m : Nat} (hn : n < 2 ^ 53) (hm : m < 2 ^ 53) :
    lt (ofNat n) (ofNat m) = decide (n < m) := by
  have hunit : (0 : Int) < 2 ^ 1074 := Int.pow_pos (by decide)
  have hiff : (n : Int) * 2 ^ 1074 < m * 2 ^ 1074 ↔ n < m := by
    rw [Int.mul_lt_mul_right hunit, Int.ofNat_lt]
  rw [lt, isNan_ofNat hn, isNan_ofNat hm, rank_ofNat hn, rank_ofNat hm, decide_eq_decide.mpr hiff]
  rfl

theorem toI64_ofNat (h : n < 2 ^ 53) : (ofNat n).toI64 = n := by
  have hunit : (2 ^ 1074 : Int) ≠ 0 := Int.ne_of_gt (Int.pow_pos (by decide))
  rw [toI64, isNan_ofNat h, if_neg Bool.false_ne_true, rank_ofNat h, Int.mul_tdiv_cancel _ hunit]
  omega

theorem lower_digit {c : Char} (h : c.isDigit = true) (rest : List Char) :
    (toAsciiLowercase (String.ofList (c :: rest))).toList.head? = some c := by
  have hupper : ¬ ('A' ≤ c && c ≤ 'Z') = true := by
    intro hupper
    simp only [Char.isDigit, Bool.and_eq_true, decide_eq_true_eq, ge_iff_le, Char.le_def,
      UInt32.le_iff_toNat_le] at h hupper
    exact absurd (le_trans hupper.1 h.2) (by decide)
  rw [toAsciiLowercase, String.toList_ofList, String.toList_ofList, map_cons,
    head?_cons, if_neg hupper]

theorem parseUnsigned_digit {c : Char} (h : c.isDigit = true) (rest : List Char) :
    parseUnsigned (c :: rest) = parseDigits (c :: rest) := by
  have hhead := lower_digit h rest
  have hother : ∀ word : String, (∀ d ∈ word.toList.head?, d.isDigit = false) →
      toAsciiLowercase (String.ofList (c :: rest)) ≠ word := by
    intro word hword heq
    rw [heq] at hhead
    rw [hword c hhead] at h
    cases h
  rw [parseUnsigned]
  rw [if_neg (not_or.mpr ⟨hother "inf" (by decide), hother "infinity" (by decide)⟩),
    if_neg (hother "nan" (by decide))]

theorem parse_digit {c : Char} (h : c.isDigit = true) (rest : List Char) :
    parse (c :: rest) = parseDigits (c :: rest) := by
  have hminus : c ≠ '-' := by
    intro heq
    rw [heq] at h
    cases h
  have hplus : c ≠ '+' := by
    intro heq
    rw [heq] at h
    cases h
  rw [parse, parseUnsigned_digit h]
  · simpa using hminus
  · simpa using hplus

theorem parseDigits_digits {text : List Char} (hne : text ≠ [])
    (hdigits : ∀ c ∈ text, c.isDigit = true) :
    parseDigits text = some (ofNat (ofDigitChars 10 text 0)) := by
  have htake : text.takeWhile Char.isDigit = text := takeWhile_eq_self_iff.mpr hdigits
  have hdrop : text.dropWhile Char.isDigit = [] := dropWhile_eq_nil_iff.mpr hdigits
  rw [parseDigits, htake, hdrop, fractionDigits, if_neg (fun h => hne h.1)]
  · simp [parseExponent, scaled, ofNat]
  · intro rest h
    cases h

theorem parse_repr (n : Nat) : parse n.repr.toList = some (ofNat n) := by
  have hdigits : ∀ c ∈ n.repr.toList, c.isDigit = true := by
    intro c hc
    rw [toList_repr] at hc
    exact isDigit_of_mem_toDigits (by decide) (by decide) hc
  have hvalue : ofDigitChars 10 n.repr.toList 0 = n := by
    rw [toList_repr, ofDigitChars_ten_toDigits]
  have hne : n.repr.toList ≠ [] := by
    rw [toList_repr]
    exact toDigits_ne_nil
  generalize n.repr.toList = text at hdigits hvalue hne
  obtain ⟨c, rest, rfl⟩ := exists_cons_of_ne_nil hne
  rw [parse_digit (hdigits c mem_cons_self), parseDigits_digits hne hdigits, hvalue]

end GeneGIS.F64
