/-
Numbers as bytes.

Digits to the base 256 or, in a varint, to the base 128, the lowest first.  Every byte of a varint
but the last has its high bit set.
-/
import Mathlib.Algebra.Ring.Nat
import Mathlib.Tactic.Common

namespace GeneGIS

open UInt8

open List hiding toList_toArray
open Option hiding toList_toArray

abbrev Bytes := List UInt8

namespace Bytes

/-- The lowest bytes of a number, the lowest first. -/
def ofNat : Nat → Nat → Bytes
  | 0, _ => []
  | width + 1, n => UInt8.ofNat (n % 256) :: ofNat width (n / 256)

def toNat : Bytes → Nat
  | [] => 0
  | b :: rest => b.toNat + 256 * toNat rest

@[simp] theorem length_ofNat (width n : Nat) : (ofNat width n).length = width := by
  induction width generalizing n with
  | zero => rfl
  | succ width ih => rw [ofNat, length_cons, ih]

theorem toNat_ofNat (width n : Nat) : toNat (ofNat width n) = n % 256 ^ width := by
  induction width generalizing n with
  | zero => rw [ofNat, toNat, Nat.pow_zero, Nat.mod_one]
  | succ width ih =>
    have hbyte : (UInt8.ofNat (n % 256)).toNat = n % 256 := by
      rw [UInt8.toNat_ofNat']
      omega
    rw [ofNat, toNat, ih, hbyte, Nat.pow_succ, Nat.mul_comm (256 ^ width) 256, Nat.mod_mul]

theorem toNat_ofNat_of_lt {width n : Nat} (h : n < 256 ^ width) : toNat (ofNat width n) = n := by
  rw [toNat_ofNat, Nat.mod_eq_of_lt h]

/-! ## Text -/

variable (text : String)

def ofText : Bytes := text.toByteArray.data.toList

def toText? (bytes : Bytes) : Option String := String.fromUTF8? ⟨bytes.toArray⟩

theorem toText?_ofText : toText? (ofText text) = some text := by
  have hbytes : (⟨(ofText text).toArray⟩ : ByteArray) = text.toByteArray := by
    rw [ofText, Array.toArray_toList]
  rw [toText?, hbytes, String.fromUTF8?, dif_pos text.isValidUTF8]
  rfl

theorem ofText_inj {s t : String} (h : ofText s = ofText t) : s = t := by
  have hread := toText?_ofText s
  rw [h, toText?_ofText, Option.some.injEq] at hread
  exact hread.symm

theorem ofText_eq : ofText text = text.toList.flatMap String.utf8EncodeChar := by
  have htext : text.toByteArray = text.toList.utf8Encode := by
    rw [← String.toByteArray_ofList, String.ofList_toList]
  rw [ofText, htext, List.utf8Encode, List.data_toByteArray, List.toList_toArray]

theorem mem_utf8EncodeChar {c : Char} {b : UInt8} (h : b ∈ String.utf8EncodeChar c) :
    b.toNat < 248 ∧ (b = 0 → c = Char.ofNat 0) := by
  have hzero : b = 0 → b.toNat = 0 := fun hb => by rw [hb]; rfl
  have hchar : c.val.toNat = 0 → c = Char.ofNat 0 := fun hc => by
    rw [← Char.ofNat_toNat c]
    exact congrArg Char.ofNat hc
  simp only [String.utf8EncodeChar] at h
  split_ifs at h <;>
    simp only [mem_cons, not_mem_nil, or_false] at h
  · have hb : b.toNat = c.val.toNat := by
      rw [h, toNat_ofNat']
      omega
    exact ⟨by omega, fun h0 => hchar (by rw [← hb, hzero h0])⟩
  · have hb : 128 ≤ b.toNat ∧ b.toNat < 248 := by
      rcases h with h | h <;> rw [h, toNat_ofNat'] <;> omega
    exact ⟨hb.2, fun h0 => by have h0 := hzero h0; omega⟩
  · have hb : 128 ≤ b.toNat ∧ b.toNat < 248 := by
      rcases h with h | h | h <;> rw [h, toNat_ofNat'] <;> omega
    exact ⟨hb.2, fun h0 => by have h0 := hzero h0; omega⟩
  · have hb : 128 ≤ b.toNat ∧ b.toNat < 248 := by
      rcases h with h | h | h | h <;> rw [h, toNat_ofNat'] <;> omega
    exact ⟨hb.2, fun h0 => by have h0 := hzero h0; omega⟩

theorem mem_ofText {text : String} {b : UInt8} (h : b ∈ ofText text) :
    b.toNat < 248 ∧ (b = 0 → Char.ofNat 0 ∈ text.toList) := by
  rw [ofText_eq, mem_flatMap] at h
  obtain ⟨c, hc, hb⟩ := h
  have hchar := mem_utf8EncodeChar hb
  exact ⟨hchar.1, fun h0 => hchar.2 h0 ▸ hc⟩

theorem terminated_inj {a b s t : Bytes} (ha : 0 ∉ a) (hb : 0 ∉ b)
    (h : a ++ 0 :: s = b ++ 0 :: t) : a = b ∧ s = t := by
  induction a generalizing b with
  | nil =>
    cases b with
    | nil => exact ⟨rfl, (cons.inj h).2⟩
    | cons d rest => exact absurd (mem_cons.mpr (.inl (cons.inj h).1)) hb
  | cons c others ih =>
    cases b with
    | nil => exact absurd (mem_cons.mpr (.inl (cons.inj h).1.symm)) ha
    | cons d rest =>
      obtain ⟨hfirst, hothers⟩ := cons.inj h
      have hrest := ih (fun hc => ha (mem_cons_of_mem _ hc))
        (fun hd => hb (mem_cons_of_mem _ hd)) hothers
      exact ⟨by rw [hfirst, hrest.1], hrest.2⟩

end Bytes

namespace Varint

def encode (n : Nat) : Bytes :=
  if n / 128 = 0 then [ofNat (n % 128)]
  else ofNat (n % 128 + 128) :: encode (n / 128)
  termination_by n
  decreasing_by omega

def decode : Bytes → Option (Nat × Bytes)
  | [] => none
  | b :: rest =>
    if b.toNat < 128 then some (b.toNat, rest)
    else (decode rest).map fun r => (b.toNat % 128 + 128 * r.1, r.2)

theorem encode_cases (n : Nat) : ∃ b : UInt8, b.toNat % 128 = n % 128 ∧
    (b.toNat < 128 ∧ n / 128 = 0 ∧ encode n = [b] ∨
      128 ≤ b.toNat ∧ n / 128 ≠ 0 ∧ encode n = b :: encode (n / 128)) := by
  rw [encode]
  by_cases hlast : n / 128 = 0
  · have hbyte : (ofNat (n % 128)).toNat = n % 128 := by
      rw [toNat_ofNat']
      omega
    rw [if_pos hlast]
    exact ⟨_, by omega, .inl ⟨by omega, hlast, rfl⟩⟩
  · have hbyte : (ofNat (n % 128 + 128)).toNat = n % 128 + 128 := by
      rw [toNat_ofNat']
      omega
    rw [if_neg hlast]
    exact ⟨_, by omega, .inr ⟨by omega, hlast, rfl⟩⟩

theorem encode_ne_nil (n : Nat) : encode n ≠ [] := by
  obtain ⟨b, -, ⟨-, -, h⟩ | ⟨-, -, h⟩⟩ := encode_cases n
  · rw [h]
    exact cons_ne_nil _ _
  · rw [h]
    exact cons_ne_nil _ _

theorem decode_encode (n : Nat) (rest : Bytes) : decode (encode n ++ rest) = some (n, rest) := by
  induction n using Nat.strongRecOn with
  | ind n ih =>
    obtain ⟨b, hdigit, ⟨hb, hlast, h⟩ | ⟨hb, hmore, h⟩⟩ := encode_cases n
    · rw [h, singleton_append, decode, if_pos hb]
      have hsame : b.toNat = n := by omega
      rw [hsame]
    · have hrest := ih (n / 128) (by omega)
      rw [h, cons_append, decode, if_neg (by omega), hrest, map_some]
      have hsame : b.toNat % 128 + 128 * (n / 128) = n := by omega
      rw [hsame]

def pack (ns : List Nat) : Bytes := ns.flatMap encode

/-- Read varints to the end of the bytes, which bound their number. -/
def unpack : Nat → Bytes → Option (List Nat)
  | _, [] => some []
  | 0, _ :: _ => none
  | fuel + 1, b :: rest =>
    (decode (b :: rest)).bind fun r => (unpack fuel r.2).map (r.1 :: ·)

theorem length_le_pack (ns : List Nat) : ns.length ≤ (pack ns).length := by
  induction ns with
  | nil => exact Nat.le_refl 0
  | cons n rest ih =>
    have hpos := length_pos_iff.mpr (encode_ne_nil n)
    rw [pack, flatMap_cons, length_append, length_cons]
    rw [pack] at ih
    omega

theorem unpack_pack {fuel : Nat} {ns : List Nat} (h : ns.length ≤ fuel) :
    unpack fuel (pack ns) = some ns := by
  induction ns generalizing fuel with
  | nil => rw [pack, flatMap_nil, unpack]
  | cons n rest ih =>
    obtain ⟨fuel, rfl⟩ : ∃ f, fuel = f + 1 := ⟨fuel - 1, by rw [length_cons] at h; omega⟩
    have hbytes : pack (n :: rest) = encode n ++ pack rest := flatMap_cons
    obtain ⟨b, tail, hcons⟩ := exists_cons_of_ne_nil (encode_ne_nil n)
    have hread := decode_encode n (pack rest)
    rw [hcons, cons_append] at hread
    rw [hbytes, hcons, cons_append, unpack, hread, bind_some,
      ih (by rw [length_cons] at h; omega), map_some]

end Varint
end GeneGIS

/-! ## Records of the protobuf wire format

A reader that knows no schema gets back every field of a record, with the kind of its payload. -/

namespace GeneGIS.Wire

open List hiding toList_toArray
open Option hiding toList_toArray

inductive Payload where
  | varint (n : Nat)
  | fixed64 (word : BitVec 64)
  | bytes (content : Bytes)

structure Field where
  number : Nat
  payload : Payload

def Payload.kind : Payload → Nat
  | .varint _ => 0
  | .fixed64 _ => 1
  | .bytes _ => 2

theorem Payload.kind_lt (p : Payload) : p.kind < 8 := by
  unfold Payload.kind
  split <;> decide

def Payload.write : Payload → Bytes
  | .varint n => Varint.encode n
  | .fixed64 word => Bytes.ofNat 8 word.toNat
  | .bytes content => Varint.encode content.length ++ content

def Field.write (f : Field) : Bytes :=
  Varint.encode (8 * f.number + f.payload.kind) ++ f.payload.write

variable (fields : List Field)

def writeAll : Bytes := fields.flatMap Field.write

@[simp] theorem writeAll_nil : writeAll [] = [] := rfl

@[simp] theorem writeAll_cons (f : Field) (rest : List Field) :
    writeAll (f :: rest) = f.write ++ writeAll rest := flatMap_cons

@[simp] theorem writeAll_append (a b : List Field) :
    writeAll (a ++ b) = writeAll a ++ writeAll b := flatMap_append

/-- The payload of a kind, and what follows it. -/
def readPayload : Nat → Bytes → Option (Payload × Bytes)
  | 0, bytes => (Varint.decode bytes).map fun r => (.varint r.1, r.2)
  | 1, bytes =>
    if bytes.length < 8 then none
    else some (.fixed64 (BitVec.ofNat 64 (Bytes.toNat (bytes.take 8))), bytes.drop 8)
  | 2, bytes =>
    (Varint.decode bytes).bind fun r =>
      if r.2.length < r.1 then none else some (.bytes (r.2.take r.1), r.2.drop r.1)
  | _, _ => none

def readField (bytes : Bytes) : Option (Field × Bytes) := (Varint.decode bytes).bind fun tag =>
    (readPayload (tag.1 % 8) tag.2).map fun r => (⟨tag.1 / 8, r.1⟩, r.2)

/-- Read fields to the end of the bytes, which bound their number. -/
def readFields : Nat → Bytes → Option (List Field)
  | _, [] => some []
  | 0, _ :: _ => none
  | fuel + 1, b :: rest =>
    (readField (b :: rest)).bind fun r => (readFields fuel r.2).map (r.1 :: ·)

def readAll (bytes : Bytes) : Option (List Field) := readFields bytes.length bytes

theorem readPayload_write (p : Payload) (rest : Bytes) :
    readPayload p.kind (p.write ++ rest) = some (p, rest) := by
  cases p with
  | varint n =>
    show (Varint.decode (Varint.encode n ++ rest)).map _ = _
    rw [Varint.decode_encode, map_some]
  | fixed64 word =>
    have hlength : (Bytes.ofNat 8 word.toNat).length = 8 := Bytes.length_ofNat 8 _
    have hword : BitVec.ofNat 64 (Bytes.toNat (Bytes.ofNat 8 word.toNat)) = word := by
      rw [Bytes.toNat_ofNat_of_lt word.isLt, BitVec.ofNat_toNat, BitVec.setWidth_eq]
    rw [Payload.kind, Payload.write, readPayload]
    rw [if_neg (by rw [length_append, hlength]; omega), take_left' hlength,
      drop_left' hlength, hword]
  | bytes content =>
    show (Varint.decode (Varint.encode content.length ++ content ++ rest)).bind _ = _
    rw [append_assoc, Varint.decode_encode, bind_some,
      if_neg (by rw [length_append]; omega), take_left' rfl, drop_left' rfl]

theorem readField_write (f : Field) (rest : Bytes) :
    readField (f.write ++ rest) = some (f, rest) := by
  have hkind := f.payload.kind_lt
  have hnumber : (8 * f.number + f.payload.kind) / 8 = f.number := by omega
  have hmod : (8 * f.number + f.payload.kind) % 8 = f.payload.kind := by omega
  rw [readField, Field.write, append_assoc, Varint.decode_encode, bind_some, hmod,
    readPayload_write, map_some, hnumber]

theorem Field.write_ne_nil (f : Field) : f.write ≠ [] := by
  intro h
  exact Varint.encode_ne_nil _ (append_eq_nil_iff.mp h).1

theorem length_le_writeAll : fields.length ≤ (writeAll fields).length := by
  induction fields with
  | nil => exact Nat.le_refl 0
  | cons f rest ih =>
    have hpos := length_pos_iff.mpr f.write_ne_nil
    rw [writeAll_cons, length_append, length_cons]
    omega

theorem readFields_writeAll {fuel : Nat} {fields : List Field} (h : fields.length ≤ fuel) :
    readFields fuel (writeAll fields) = some fields := by
  induction fields generalizing fuel with
  | nil => rw [writeAll_nil, readFields]
  | cons f rest ih =>
    rw [length_cons] at h
    obtain ⟨fuel, rfl⟩ : ∃ n, fuel = n + 1 := ⟨fuel - 1, by omega⟩
    obtain ⟨b, tail, hcons⟩ := exists_cons_of_ne_nil f.write_ne_nil
    have hread := readField_write f (writeAll rest)
    rw [hcons, cons_append] at hread
    rw [writeAll_cons, hcons, cons_append, readFields, hread, bind_some, ih (by omega), map_some]

theorem readAll_writeAll : readAll (writeAll fields) = some fields :=
  readFields_writeAll (length_le_writeAll fields)

end GeneGIS.Wire

/-! ## Base64

A last group of one or two bytes is padded, and the bits that belong to no byte are zero. -/

namespace GeneGIS.Base64

def digit (n : Nat) : Char :=
  if n < 26 then Char.ofNat (65 + n)
  else if n < 52 then Char.ofNat (71 + n)
  else if n < 62 then Char.ofNat (n - 4)
  else if n = 62 then '+'
  else '/'

def value (c : Char) : Option Nat :=
  if 'A' ≤ c && c ≤ 'Z' then some (c.toNat - 65)
  else if 'a' ≤ c && c ≤ 'z' then some (c.toNat - 71)
  else if '0' ≤ c && c ≤ '9' then some (c.toNat + 4)
  else if c = '+' then some 62
  else if c = '/' then some 63
  else none

theorem value_digit : ∀ n < 64, value (digit n) = some n := by decide

theorem value_pad : value '=' = none := by decide

def encodeChars : Bytes → List Char
  | [] => []
  | [a] => [digit (a.toNat / 4), digit (a.toNat % 4 * 16), '=', '=']
  | [a, b] =>
    [digit (a.toNat / 4), digit (a.toNat % 4 * 16 + b.toNat / 16), digit (b.toNat % 16 * 4), '=']
  | a :: b :: c :: rest =>
    digit (a.toNat / 4) :: digit (a.toNat % 4 * 16 + b.toNat / 16) ::
      digit (b.toNat % 16 * 4 + c.toNat / 64) :: digit (c.toNat % 64) :: encodeChars rest

def decodeChars : List Char → Option Bytes
  | [] => some []
  | w :: x :: y :: z :: rest =>
    match value w, value x, value y, value z with
    | some w, some x, some y, some z => (decodeChars rest).map fun bytes =>
      UInt8.ofNat (w * 4 + x / 16) :: UInt8.ofNat (x % 16 * 16 + y / 4) ::
        UInt8.ofNat (y % 4 * 64 + z) :: bytes
    | some w, some x, some y, none =>
      if z = '=' ∧ rest = [] ∧ y % 4 = 0 then
        some [UInt8.ofNat (w * 4 + x / 16), UInt8.ofNat (x % 16 * 16 + y / 4)]
      else none
    | some w, some x, none, none =>
      if y = '=' ∧ z = '=' ∧ rest = [] ∧ x % 16 = 0 then some [UInt8.ofNat (w * 4 + x / 16)]
      else none
    | _, _, _, _ => none
  | _ => none

variable (bytes : Bytes)

def encode : String := String.ofList (encodeChars bytes)

def decode (text : String) : Option Bytes := decodeChars text.toList

theorem byte_eq {a : UInt8} {n : Nat} (h : n = a.toNat) : UInt8.ofNat n = a := by
  rw [h, UInt8.ofNat_toNat]

theorem decodeChars_encodeChars : decodeChars (encodeChars bytes) = some bytes := by
  induction bytes using encodeChars.induct with
  | case1 => rfl
  | case2 a =>
    have ha := a.toNat_lt
    rw [encodeChars, decodeChars, value_digit _ (by omega), value_digit _ (by omega), value_pad]
    simp only
    rw [if_pos ⟨trivial, trivial, trivial, by omega⟩, byte_eq (a := a) (by omega)]
  | case3 a b =>
    have ha := a.toNat_lt
    have hb := b.toNat_lt
    rw [encodeChars, decodeChars, value_digit _ (by omega), value_digit _ (by omega),
      value_digit _ (by omega), value_pad]
    simp only
    rw [if_pos ⟨trivial, trivial, by omega⟩, byte_eq (a := a) (by omega), byte_eq (a := b) (by omega)]
  | case4 a b c rest ih =>
    have ha := a.toNat_lt
    have hb := b.toNat_lt
    have hc := c.toNat_lt
    rw [encodeChars, decodeChars, value_digit _ (by omega), value_digit _ (by omega),
      value_digit _ (by omega), value_digit _ (by omega)]
    simp only [ih, Option.map_some]
    rw [byte_eq (a := a) (by omega), byte_eq (a := b) (by omega), byte_eq (a := c) (by omega)]

theorem decode_encode : decode (encode bytes) = some bytes := by
  rw [decode, encode, String.toList_ofList, decodeChars_encodeChars]

example : encode [0x89, 0x50, 0x4e, 0x47] = "iVBORw==" := by decide

end GeneGIS.Base64
