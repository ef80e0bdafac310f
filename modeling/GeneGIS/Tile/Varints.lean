/-
The tenth byte has one bit left: what else it holds is shifted out, and the reader does not notice.
-/
import GeneGIS.Tile.Directory

namespace GeneGIS

namespace Varint

open Nat List

/-- The number that the bytes before the last one spell. -/
def low : Bytes → Nat
  | [] => 0
  | b :: rest => b.toNat % 128 + 128 * low rest

def Continues (front : Bytes) : Prop := ∀ b ∈ front, 128 ≤ b.toNat

instance (front : Bytes) : Decidable (Continues front) :=
  List.decidableBAll (fun b : UInt8 => 128 ≤ b.toNat) front

theorem low_lt (front : Bytes) : low front < 128 ^ front.length := by
  induction front with
  | nil => decide
  | cons b rest ih =>
    have hdigit := Nat.mod_lt b.toNat (by decide : 128 > 0)
    rw [low, length_cons, pow_succ]
    omega

theorem decode_some {bytes rest : Bytes} {n : Nat} : decode bytes = some (n, rest) ↔
    ∃ front b, bytes = front ++ b :: rest ∧ Continues front ∧ b.toNat < 128 ∧
      n = low front + 128 ^ front.length * b.toNat := by
  constructor
  · intro h
    induction bytes generalizing n with
    | nil => cases h
    | cons c others ih =>
      rw [decode] at h
      by_cases hc : c.toNat < 128
      · rw [if_pos hc, Option.some.injEq, Prod.mk.injEq] at h
        refine ⟨[], c, by rw [← h.2]; rfl, forall_mem_nil _, hc, ?_⟩
        rw [← h.1, low, length_nil]
        omega
      · rw [if_neg hc, Option.map_eq_some_iff] at h
        obtain ⟨⟨m, tail⟩, hm, h⟩ := h
        rw [Prod.mk.injEq] at h
        obtain ⟨hn, htail⟩ := h
        have htail : tail = rest := htail
        rw [htail] at hm
        obtain ⟨front, b, hothers, hfront, hb, hvalue⟩ := ih hm
        refine ⟨c :: front, b, by rw [hothers]; rfl, ?_, hb, ?_⟩
        · exact forall_mem_cons.mpr ⟨by omega, hfront⟩
        · have hn : c.toNat % 128 + 128 * m = n := hn
          rw [← hn, hvalue, low, length_cons, pow_succ]
          ring
  · intro h
    obtain ⟨front, b, hbytes, hfront, hb, hn⟩ := h
    rw [hbytes, hn]
    clear hbytes hn n
    induction front with
    | nil =>
      rw [nil_append, decode, if_pos hb, low, length_nil]
      simp
    | cons c others ih =>
      obtain ⟨hc, hothers⟩ := forall_mem_cons.mp hfront
      rw [cons_append, decode, if_neg (by omega), ih hothers, Option.map_some, low,
        length_cons, pow_succ]
      refine congrArg (fun n => some (n, rest)) ?_
      ring

end Varint

namespace Pmtiles

/-! ## The reader -/

theorem shifted_mod (n : Nat) {shift : Nat} (h : shift ≤ 64) :
    n * 2 ^ shift % 2 ^ 64 = n % 2 ^ (64 - shift) * 2 ^ shift := by
  have hpow : 2 ^ 64 = 2 ^ (64 - shift) * 2 ^ shift := by
    rw [← Nat.pow_add, Nat.sub_add_cancel h]
  rw [hpow, Nat.mul_mod_mul_right]

/-- The induction over the bytes left: a number that is read is the number spelled, as far as
sixty-four bits hold it. -/
theorem readVarintFrom_ok {left shift value v : Nat} {bytes rest : Bytes}
    (hshift : shift + 7 * left = 70) (hvalue : value < 2 ^ shift)
    (h : readVarintFrom left shift value bytes = .ok (v, rest)) :
    ∃ front b, bytes = front ++ b :: rest ∧ front.length < left ∧ Varint.Continues front ∧
      b.toNat < 128 ∧
      v = value + (Varint.low front + 128 ^ front.length * b.toNat) * 2 ^ shift % 2 ^ 64 := by
  induction left generalizing shift value bytes with
  | zero => cases h
  | succ left ih =>
    cases bytes with
    | nil => cases h
    | cons c others =>
      have hor : value ||| c.toNat % 128 * 2 ^ shift % 2 ^ 64 =
          value + c.toNat % 128 * 2 ^ shift % 2 ^ 64 := by
        rw [shifted_mod _ (by omega), Nat.or_comm, Nat.mul_comm,
          ← Nat.two_pow_add_eq_or_of_lt hvalue, add_comm]
      rw [readVarintFrom, hor] at h
      by_cases hc : c.toNat < 128
      · rw [if_pos hc, Except.ok.injEq, Prod.mk.injEq] at h
        refine ⟨[], c, by rw [h.2]; rfl, by simp, List.forall_mem_nil _, hc, ?_⟩
        rw [← h.1, Varint.low, List.length_nil, Nat.mod_eq_of_lt hc]
        simp
      · rw [if_neg hc] at h
        have hleft : left ≠ 0 := by
          intro hzero
          rw [hzero] at h
          cases h
        have hpow : 2 ^ (shift + 7) = 2 ^ shift * 128 := Nat.pow_add 2 shift 7
        have hbig : 2 ^ (shift + 7) ≤ 2 ^ 63 := Nat.pow_le_pow_right (by decide) (by omega)
        have hdigit : c.toNat % 128 * 2 ^ shift ≤ 127 * 2 ^ shift :=
          Nat.mul_le_mul_right _ (by omega)
        have hkept : c.toNat % 128 * 2 ^ shift % 2 ^ 64 = c.toNat % 128 * 2 ^ shift :=
          Nat.mod_eq_of_lt (by omega)
        rw [hkept] at h
        obtain ⟨front, b, hothers, hlength, hfront, hb, hv⟩ := ih (by omega) (by omega) h
        refine ⟨c :: front, b, by rw [hothers]; rfl, ?_, ?_, hb, ?_⟩
        · rw [List.length_cons]
          omega
        · exact List.forall_mem_cons.mpr ⟨by omega, hfront⟩
        · have hsplit : (Varint.low (c :: front) + 128 ^ (c :: front).length * b.toNat) * 2 ^ shift =
              c.toNat % 128 * 2 ^ shift +
                (Varint.low front + 128 ^ front.length * b.toNat) * 2 ^ (shift + 7) := by
            rw [Varint.low, List.length_cons, pow_succ, hpow]
            ring
          -- The digits above do not carry into the one that was read.
          have hmultiple := shifted_mod (Varint.low front + 128 ^ front.length * b.toNat)
            (by omega : shift + 7 ≤ 64)
          have hrest : (Varint.low front + 128 ^ front.length * b.toNat) %
              2 ^ (64 - (shift + 7)) * 2 ^ (shift + 7) + 2 ^ (shift + 7) ≤ 2 ^ 64 := by
            have hlt := Nat.mod_lt (Varint.low front + 128 ^ front.length * b.toNat)
              (Nat.two_pow_pos (64 - (shift + 7)))
            have hle := Nat.mul_le_mul_right (2 ^ (shift + 7)) (Nat.succ_le_of_lt hlt)
            rw [← Nat.pow_add, Nat.sub_add_cancel (by omega : shift + 7 ≤ 64), Nat.succ_mul] at hle
            exact hle
          have hfits : c.toNat % 128 * 2 ^ shift +
              (Varint.low front + 128 ^ front.length * b.toNat) %
                2 ^ (64 - (shift + 7)) * 2 ^ (shift + 7) < 2 ^ 64 := by
            omega
          rw [hv, hsplit, Nat.add_mod, hkept, hmultiple, Nat.mod_eq_of_lt hfits, Nat.add_assoc]

theorem readVarint_ok {bytes rest : Bytes} {v : Nat} (h : readVarint bytes = .ok (v, rest)) :
    ∃ front b, bytes = front ++ b :: rest ∧ front.length < 10 ∧ Varint.Continues front ∧
      b.toNat < 128 ∧ v = (Varint.low front + 128 ^ front.length * b.toNat) % 2 ^ 64 := by
  obtain ⟨front, b, hbytes, hlength, hfront, hb, hv⟩ := readVarintFrom_ok (by decide) (by decide) h
  refine ⟨front, b, hbytes, hlength, hfront, hb, ?_⟩
  rw [hv, pow_zero, mul_one, zero_add]

/-- `push_varint`. -/
def pushVarint (buffer : Bytes) (value : UInt64) : Bytes :=
  let byte := (value &&& 0x7F).toUInt8
  if value >>> 7 = 0 then buffer ++ [byte] else pushVarint (buffer ++ [byte ||| 0x80]) (value >>> 7)
  termination_by value.toNat
  decreasing_by
    rename_i hmore
    have hshift : (value >>> 7).toNat = value.toNat / 128 := by
      rw [UInt64.toNat_shiftRight]
      exact Nat.shiftRight_eq_div_pow _ _
    have hne : (value >>> 7).toNat ≠ 0 := fun h => hmore (UInt64.toNat_inj.mp h)
    omega

theorem toNat_shiftRight_seven (value : UInt64) : (value >>> 7).toNat = value.toNat / 128 := by
  rw [UInt64.toNat_shiftRight]
  exact Nat.shiftRight_eq_div_pow _ _

theorem low_seven (value : UInt64) :
    (value &&& 0x7F).toUInt8 = UInt8.ofNat (value.toNat % 128) := by
  have hmask : (0x7F : UInt64).toNat = 2 ^ 7 - 1 := rfl
  refine UInt8.toNat_inj.mp ?_
  rw [UInt64.toNat_toUInt8, UInt64.toNat_and, hmask, Nat.and_two_pow_sub_one_eq_mod,
    UInt8.toNat_ofNat']

theorem with_high_bit {n : Nat} (h : n < 128) : UInt8.ofNat n ||| 0x80 = UInt8.ofNat (n + 128) := by
  have hbit : (0x80 : UInt8).toNat = 2 ^ 7 * 1 := rfl
  have hbyte : (UInt8.ofNat n).toNat = n := by
    rw [UInt8.toNat_ofNat']
    omega
  refine UInt8.toNat_inj.mp ?_
  rw [UInt8.toNat_or, hbyte, hbit, Nat.or_comm, ← Nat.two_pow_add_eq_or_of_lt h, UInt8.toNat_ofNat']
  omega

theorem pushVarint_eq (buffer : Bytes) (value : UInt64) :
    pushVarint buffer value = buffer ++ Varint.encode value.toNat := by
  induction buffer, value using pushVarint.induct with
  | case1 buffer value hlast =>
    have hzero : value.toNat / 128 = 0 := by
      rw [← toNat_shiftRight_seven, hlast]
      rfl
    rw [pushVarint, if_pos hlast, Varint.encode, if_pos hzero, low_seven]
  | case2 buffer value byte hmore ih =>
    have hzero : value.toNat / 128 ≠ 0 := by
      rw [← toNat_shiftRight_seven]
      exact fun h => hmore (UInt64.toNat_inj.mp h)
    have hdigit := Nat.mod_lt value.toNat (by decide : 128 > 0)
    rw [pushVarint, if_neg hmore, ih, toNat_shiftRight_seven]
    show buffer ++ [(value &&& 0x7F).toUInt8 ||| 0x80] ++ _ = _
    rw [low_seven, with_high_bit hdigit]
    conv_rhs => rw [Varint.encode, if_neg hzero]
    rw [List.append_assoc, List.singleton_append]

/-! ## Agreement -/

/-- What is read is the number that the bytes spell. -/
def Exact (bytes : Bytes) : Prop :=
  ∀ v rest, readVarint bytes = .ok (v, rest) → Varint.decode bytes = some (v, rest)

/-- Nine bytes go on and the tenth is the last and has more than one bit. -/
def Overfull (bytes : Bytes) : Prop :=
  ∃ front b rest, bytes = front ++ b :: rest ∧ front.length = 9 ∧ Varint.Continues front ∧
    2 ≤ b.toNat ∧ b.toNat < 128

theorem exact_of_not_overfull {bytes : Bytes} (h : ¬ Overfull bytes) : Exact bytes := by
  intro v rest hread
  obtain ⟨front, b, hbytes, hlength, hfront, hb, hv⟩ := readVarint_ok hread
  have hlow := Varint.low_lt front
  have hsmall : Varint.low front + 128 ^ front.length * b.toNat < 2 ^ 64 := by
    by_cases hnine : front.length = 9
    · have hbit : b.toNat ≤ 1 := by
        by_contra hbig
        exact h ⟨front, b, rest, hbytes, hnine, hfront, by omega, hb⟩
      have hnine' : 128 ^ front.length = 2 ^ 63 := by
        rw [hnine]
        decide
      rw [hnine'] at hlow ⊢
      omega
    · have hpow : 128 ^ front.length * 128 ≤ 128 ^ 9 := by
        rw [← pow_succ]
        exact Nat.pow_le_pow_right (by decide) (by omega)
      have hlast : 128 ^ front.length * b.toNat ≤ 128 ^ front.length * 127 :=
        Nat.mul_le_mul_left _ (by omega)
      omega
  rw [Nat.mod_eq_of_lt hsmall] at hv
  exact Varint.decode_some.mpr ⟨front, b, hbytes, hfront, hb, hv⟩

theorem readVarintFrom_continues {front tail : Bytes} (hfront : Varint.Continues front)
    (left shift value : Nat) : ∃ value', readVarintFrom (left + front.length) shift value
      (front ++ tail) = readVarintFrom left (shift + 7 * front.length) value' tail := by
  induction front generalizing shift value with
  | nil => exact ⟨value, rfl⟩
  | cons c others ih =>
    obtain ⟨hc, hothers⟩ := List.forall_mem_cons.mp hfront
    obtain ⟨value', hrest⟩ := ih hothers (shift + 7) (value ||| c.toNat % 128 * 2 ^ shift % 2 ^ 64)
    refine ⟨value', ?_⟩
    rw [List.length_cons, ← Nat.add_assoc, List.cons_append, readVarintFrom, if_neg (by omega),
      hrest]
    congr 1
    omega

theorem not_exact_of_overfull {bytes : Bytes} (h : Overfull bytes) : ¬ Exact bytes := by
  intro hexact
  obtain ⟨front, b, rest, hbytes, hnine, hfront, hbig, hb⟩ := h
  obtain ⟨value', hrest⟩ := @readVarintFrom_continues front (b :: rest) hfront 1 0 0
  have hread : ∃ v, readVarint bytes = .ok (v, rest) := by
    rw [readVarint, hbytes]
    rw [hnine] at hrest
    refine ⟨value' ||| b.toNat % 128 * 2 ^ (0 + 7 * 9) % 2 ^ 64, ?_⟩
    show readVarintFrom (1 + 9) 0 0 _ = _
    rw [hrest, readVarintFrom, if_pos hb]
  obtain ⟨v, hv⟩ := hread
  have hvalue : v < 2 ^ 64 := by
    obtain ⟨_, _, -, -, -, -, hmod⟩ := readVarint_ok hv
    rw [hmod]
    exact Nat.mod_lt _ (by decide)
  have hspelled : Varint.decode bytes =
      some (Varint.low front + 128 ^ front.length * b.toNat, rest) :=
    Varint.decode_some.mpr ⟨front, b, hbytes, hfront, hb, rfl⟩
  rw [hexact v rest hv, Option.some.injEq, Prod.mk.injEq] at hspelled
  have hnine' : 128 ^ front.length = 2 ^ 63 := by
    rw [hnine]
    decide
  rw [hnine'] at hspelled
  omega

/-- Every number is read back, and what is read is what is spelled except for a tenth byte that
holds too much. -/
theorem varints_agree_iff (value : UInt64) (rest bytes : Bytes) :
    readVarint (pushVarint [] value ++ rest) = .ok (value.toNat, rest) ∧
      (Exact bytes ↔ ¬ Overfull bytes) := by
  constructor
  · rw [pushVarint_eq, List.nil_append, readVarint_encode value.toNat_lt]
  · exact ⟨fun hexact h => not_exact_of_overfull h hexact, exact_of_not_overfull⟩

/-- Nine bytes that go on and a two spell `2 ^ 64`, and are read as zero. -/
theorem tenth_byte_lost : readVarint (List.replicate 9 0x80 ++ [2]) = .ok (0, []) ∧
      Varint.decode (List.replicate 9 0x80 ++ [2]) = some (2 ^ 64, []) ∧
      ¬ Exact (List.replicate 9 0x80 ++ [2]) := by
  have hread : readVarint (List.replicate 9 0x80 ++ [2]) = .ok (0, []) := by rfl
  have hspelled : Varint.decode (List.replicate 9 0x80 ++ [2]) = some (2 ^ 64, []) := by
    rfl
  refine ⟨hread, hspelled, fun hexact => ?_⟩
  have hzero := hexact 0 [] hread
  rw [hspelled] at hzero
  exact absurd hzero (by decide)

end Pmtiles
end GeneGIS
