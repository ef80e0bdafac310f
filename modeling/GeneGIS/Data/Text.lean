/-
The operations that validators call on text, and the 128-bit identifiers in their hyphenated
spelling.  Texts are ordered by code point.
-/
import Mathlib.Algebra.Ring.Nat
import Mathlib.Data.List.DropRight

namespace GeneGIS
namespace Text

open List Bool

-- A check on the characters of a text runs over that text, not over every character there is.
instance decidableChars (p : Char → Prop) [DecidablePred p] (l : List Char) :
    Decidable (∀ c ∈ l, p c) :=
  List.decidableBAll p l

instance decidableSomeChar (p : Char → Prop) [DecidablePred p] (l : List Char) :
    Decidable (∃ c ∈ l, p c) :=
  List.decidableBEx p l

instance decidableHead (p : Char → Prop) [DecidablePred p] (o : Option Char) :
    Decidable (∀ c ∈ o, p c) :=
  Option.decidableForallMem o

/-- The Unicode `White_Space` property. -/
def isWhitespace (c : Char) : Bool :=
  let n := c.toNat
  (9 ≤ n && n ≤ 13) || n == 0x20 || n == 0x85 || n == 0xA0 || n == 0x1680 ||
    (0x2000 ≤ n && n ≤ 0x200A) || n == 0x2028 || n == 0x2029 || n == 0x202F ||
    n == 0x205F || n == 0x3000

theorem isWhitespace_digit {c : Char} (h : c.isDigit = true) : isWhitespace c = false := by
  simp only [Char.isDigit, and_eq_true, decide_eq_true_eq, ge_iff_le, UInt32.le_iff_toNat_le] at h
  have hlow : 48 ≤ c.toNat := h.1
  have hhigh : c.toNat ≤ 57 := h.2
  simp only [isWhitespace, or_eq_false_iff, and_eq_false_iff, decide_eq_false_iff_not,
    beq_eq_false_iff_ne]
  omega

variable (s : String)

/-- `str::trim`. -/
def trim : String :=
  String.ofList ((s.toList.dropWhile isWhitespace).reverse.dropWhile isWhitespace).reverse

theorem trim_eq :
    trim s = String.ofList ((s.toList.dropWhile isWhitespace).rdropWhile isWhitespace) := rfl

theorem dropWhile_eq_self {p : Char → Bool} {l : List Char}
    (h : ∀ c, l.head? = some c → p c = false) : l.dropWhile p = l := by
  cases l with
  | nil => rfl
  | cons c rest => rw [dropWhile_cons, if_neg (by rw [h c rfl]; exact false_ne_true)]

theorem trim_trim : trim (trim s) = trim s := by
  have hhead : ∀ c, ((s.toList.dropWhile isWhitespace).rdropWhile isWhitespace).head? = some c →
      isWhitespace c = false := by
    intro c hc
    obtain ⟨rest, hrest⟩ := rdropWhile_prefix isWhitespace (s.toList.dropWhile isWhitespace)
    have hc' : (s.toList.dropWhile isWhitespace).head? = some c := by
      rw [← hrest, head?_append, hc]
      rfl
    have hnot := head?_dropWhile_not isWhitespace s.toList
    rw [hc'] at hnot
    exact hnot
  rw [trim_eq, trim_eq, String.toList_ofList, dropWhile_eq_self hhead,
    rdropWhile_idempotent isWhitespace (s.toList.dropWhile isWhitespace)]

theorem trim_eq_self {s : String} (h : ∀ c ∈ s.toList, isWhitespace c = false) : trim s = s := by
  have hlast : ∀ c, s.toList.reverse.head? = some c → isWhitespace c = false := by
    intro c hc
    exact h c (mem_reverse.mp (mem_of_head? hc))
  rw [trim, dropWhile_eq_self fun c hc => h c (mem_of_head? hc), dropWhile_eq_self hlast,
    reverse_reverse, String.ofList_toList]

/-- `s.trim().is_empty()`, the emptiness test of every validator. -/
def isBlank : Bool := (trim s).isEmpty

theorem isBlank_false_of_mem {s : String} {c : Char} (hc : c ∈ s.toList)
    (hspace : isWhitespace c = false) : isBlank s = false := by
  have hne : ¬ isBlank s = true := by
    intro hblank
    have htrim :
        ((s.toList.dropWhile isWhitespace).reverse.dropWhile isWhitespace).reverse = [] := by
      have hempty := String.isEmpty_iff.mp hblank
      exact String.ofList_injective hempty
    have hall := dropWhile_eq_nil_iff.mp (reverse_eq_nil_iff.mp htrim)
    have hmem : c ∈ s.toList.takeWhile isWhitespace ++ s.toList.dropWhile isWhitespace := by
      rw [takeWhile_append_dropWhile]
      exact hc
    have hwhite : isWhitespace c = true := by
      rcases mem_append.mp hmem with h | h
      · exact mem_takeWhile_imp h
      · exact hall c (mem_reverse.mpr h)
    rw [hspace] at hwhite
    cases hwhite
  simpa using hne

/-- `u8::is_ascii_hexdigit`. -/
def isHexDigit (c : Char) : Bool :=
  ('0' ≤ c && c ≤ '9') || ('a' ≤ c && c ≤ 'f') || ('A' ≤ c && c ≤ 'F')

/-- `str::strip_prefix`. -/
def withoutPrefix (lead s : String) : Option String :=
  if lead.toList.isPrefixOf s.toList then
    some (String.ofList (s.toList.drop lead.toList.length))
  else none

theorem withoutPrefix_iff {lead s rest : String} :
    withoutPrefix lead s = some rest ↔ s = lead ++ rest := by
  have htext : s = lead ++ rest ↔ lead.toList ++ rest.toList = s.toList := by
    rw [← String.toList_append, String.toList_inj, eq_comm]
  rw [htext, withoutPrefix]
  by_cases hlead : lead.toList.isPrefixOf s.toList = true
  · rw [if_pos hlead, Option.some.injEq]
    obtain ⟨tail, htail⟩ := isPrefixOf_iff_prefix.mp hlead
    rw [← htail, drop_left, append_right_inj, ← String.toList_inj, String.toList_ofList, eq_comm]
  · rw [if_neg hlead]
    refine iff_of_false (by simp) fun h => hlead ?_
    exact isPrefixOf_iff_prefix.mpr ⟨_, h⟩

/-- A SHA-256 digest as it is written: the prefix and sixty-four hexadecimal digits. -/
def isSha256 (value : String) : Bool :=
  match withoutPrefix "sha256:" value with
  | none => false
  | some hex => hex.toList.length = 64 && hex.toList.all isHexDigit

theorem isSha256_ofList {l : List Char} (hlength : l.length = 64) (hdigits : l.all isHexDigit) :
    isSha256 ("sha256:" ++ String.ofList l) = true := by
  have hsplit : withoutPrefix "sha256:" ("sha256:" ++ String.ofList l) = some (String.ofList l) :=
    withoutPrefix_iff.mpr rfl
  rw [isSha256, hsplit]
  dsimp only
  rw [String.toList_ofList, hlength, hdigits]
  rfl

/-- `str::to_ascii_uppercase`. -/
def toAsciiUppercase : String := String.ofList (s.toList.map fun c =>
    if 'a' ≤ c && c ≤ 'z' then Char.ofNat (c.toNat - 32) else c)

theorem toAsciiUppercase_eq_self {s : String}
    (h : ∀ c ∈ s.toList, ¬ ('a' ≤ c && c ≤ 'z') = true) : toAsciiUppercase s = s := by
  have hmap : (s.toList.map fun c =>
      if 'a' ≤ c && c ≤ 'z' then Char.ofNat (c.toNat - 32) else c) = s.toList.map id :=
    map_congr_left fun c hc => if_neg (h c hc)
  rw [toAsciiUppercase, hmap, map_id, String.ofList_toList]

/-- `str::to_ascii_lowercase`. -/
def toAsciiLowercase : String := String.ofList (s.toList.map fun c =>
    if 'A' ≤ c && c ≤ 'Z' then Char.ofNat (c.toNat + 32) else c)

theorem mem_intercalate {c s : Char} {parts : List (List Char)} (h : c ∈ [s].intercalate parts) :
    c = s ∨ ∃ part ∈ parts, c ∈ part := by
  induction parts with
  | nil => cases h
  | cons part rest ih =>
    by_cases hrest : rest = []
    · rw [hrest, intercalate_singleton] at h
      exact .inr ⟨part, mem_cons_self, h⟩
    · rw [intercalate_cons_of_ne_nil hrest, mem_append, mem_append] at h
      rcases h with (h | h) | h
      · exact .inr ⟨part, mem_cons_self, h⟩
      · exact .inl (mem_singleton.mp h)
      · rcases ih h with h | h
        · exact .inl h
        · obtain ⟨part', hpart, hc⟩ := h
          exact .inr ⟨part', mem_cons_of_mem part hpart, hc⟩

theorem mem_splitOn {c s : Char} {l : List Char} (h : c ∈ l) :
    c = s ∨ ∃ part ∈ l.splitOn s, c ∈ part := by
  have hjoin : [s].intercalate (l.splitOn s) = l := intercalate_splitOn s
  rw [← hjoin] at h
  exact mem_intercalate h

/-! ## Hexadecimal digits -/

/-- The lower-case digit of a value below sixteen. -/
def hexDigit (n : Nat) : Char :=
  if n < 10 then Char.ofNat (48 + n) else Char.ofNat (87 + n)

def hexValue (c : Char) : Nat :=
  if c.toNat < 58 then c.toNat - 48 else c.toNat - 87

theorem hexValue_hexDigit : ∀ n, n < 16 → hexValue (hexDigit n) = n := by decide

theorem hexDigit_ne_hyphen : ∀ n, n < 16 → hexDigit n ≠ '-' := by decide

/-- The `w` low hexadecimal digits of `n`, most significant first. -/
def hexDigits : Nat → Nat → List Char
  | 0, _ => []
  | w + 1, n => hexDigits w (n / 16) ++ [hexDigit (n % 16)]

theorem hexDigits_length (w n : Nat) : (hexDigits w n).length = w := by
  induction w generalizing n with
  | zero => rfl
  | succ w ih => simp [hexDigits, ih]

theorem hexDigits_ne_hyphen {w n : Nat} {c : Char} (h : c ∈ hexDigits w n) : c ≠ '-' := by
  induction w generalizing n with
  | zero => simp [hexDigits] at h
  | succ w ih =>
    rw [hexDigits, mem_append, mem_singleton] at h
    rcases h with h | h
    · exact ih h
    · rw [h]
      exact hexDigit_ne_hyphen _ (Nat.mod_lt _ (by decide))

theorem hexDigits_inj {w m n : Nat} (hm : m < 16 ^ w) (hn : n < 16 ^ w)
    (h : hexDigits w m = hexDigits w n) : m = n := by
  induction w generalizing m n with
  | zero => simp at hm hn; omega
  | succ w ih =>
    rw [hexDigits, hexDigits] at h
    obtain ⟨hhead, hlast⟩ := append_inj h (by rw [hexDigits_length, hexDigits_length])
    have hdiv : m / 16 = n / 16 := by
      refine ih ?_ ?_ hhead
      · exact Nat.div_lt_of_lt_mul (by rw [Nat.pow_succ] at hm; omega)
      · exact Nat.div_lt_of_lt_mul (by rw [Nat.pow_succ] at hn; omega)
    have hmod : m % 16 = n % 16 := by
      have hdigit : hexDigit (m % 16) = hexDigit (n % 16) := by simpa using hlast
      rw [← hexValue_hexDigit (m % 16) (Nat.mod_lt _ (by decide)), hdigit,
        hexValue_hexDigit (n % 16) (Nat.mod_lt _ (by decide))]
    omega

end Text

/-- A UUID as the 128-bit number its sixteen bytes spell. -/
def Uuid := BitVec 128
  deriving DecidableEq, Ord, Inhabited

namespace Uuid

instance : Std.TransOrd Uuid := inferInstanceAs (Std.TransOrd (BitVec 128))
instance : Std.LawfulEqOrd Uuid := inferInstanceAs (Std.LawfulEqOrd (BitVec 128))

/-- `Uuid::from_u128`. -/
def ofNat (n : Nat) : Uuid := BitVec.ofNat 128 n

/-- Hyphenate thirty-two digits into the groups 8-4-4-4-12. -/
def hyphenate (d : List Char) : List Char :=
  d.take 8 ++ '-' :: ((d.drop 8).take 4 ++ '-' :: ((d.drop 12).take 4 ++ '-' ::
    ((d.drop 16).take 4 ++ '-' :: d.drop 20)))

/-- The hyphenated lower-case spelling, `Display` of `Uuid`. -/
def toText (u : Uuid) : String := String.ofList (hyphenate (Text.hexDigits 32 (BitVec.toNat u)))

theorem hyphenate_filter {d : List Char} (h : ∀ c ∈ d, c ≠ '-') :
    (hyphenate d).filter (fun c => c != '-') = d := by
  have hkeep : ∀ l : List Char, (∀ c ∈ l, c ∈ d) → l.filter (fun c => c != '-') = l := by
    intro l hl
    refine List.filter_eq_self.mpr (fun c hc => ?_)
    simpa using h c (hl c hc)
  have htake : ∀ (k n : Nat), ∀ c ∈ (d.drop k).take n, c ∈ d :=
    fun k n c hc => List.mem_of_mem_drop (List.mem_of_mem_take hc)
  simp only [hyphenate, List.filter_append, List.filter_cons, bne_self_eq_false,
    Bool.false_eq_true, if_false]
  rw [hkeep (d.take 8) (fun c hc => List.mem_of_mem_take hc), hkeep _ (htake 8 4),
    hkeep _ (htake 12 4), hkeep _ (htake 16 4),
    hkeep (d.drop 20) (fun c hc => List.mem_of_mem_drop hc)]
  have h16 : (d.drop 16).take 4 ++ d.drop 20 = d.drop 16 := by
    rw [show d.drop 20 = (d.drop 16).drop 4 by rw [List.drop_drop], List.take_append_drop]
  have h12 : (d.drop 12).take 4 ++ d.drop 16 = d.drop 12 := by
    rw [show d.drop 16 = (d.drop 12).drop 4 by rw [List.drop_drop], List.take_append_drop]
  have h8 : (d.drop 8).take 4 ++ d.drop 12 = d.drop 8 := by
    rw [show d.drop 12 = (d.drop 8).drop 4 by rw [List.drop_drop], List.take_append_drop]
  rw [h16, h12, h8, List.take_append_drop]

theorem toText_inj {u v : Uuid} (h : u.toText = v.toText) : u = v := by
  have hchars := String.ofList_injective h
  have hdigits : Text.hexDigits 32 (BitVec.toNat u) = Text.hexDigits 32 (BitVec.toNat v) := by
    rw [← hyphenate_filter (fun c hc => Text.hexDigits_ne_hyphen hc), hchars,
      hyphenate_filter (fun c hc => Text.hexDigits_ne_hyphen hc)]
  have hbound : ∀ w : Uuid, BitVec.toNat w < 16 ^ 32 := fun w => BitVec.isLt w
  exact BitVec.eq_of_toNat_eq (Text.hexDigits_inj (hbound u) (hbound v) hdigits)

end Uuid
end GeneGIS
