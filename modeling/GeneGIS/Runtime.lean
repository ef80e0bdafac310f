/-
The libraries the platform calls.

Nothing depends on how a digest or a number is computed, so these functions are a parameter.
-/
import GeneGIS.Data.Canonical
import GeneGIS.Data.Sha256
import Mathlib.Data.Char
import Mathlib.Data.List.Lex

namespace GeneGIS

open List

/-- A UTC instant, in nanoseconds since the epoch. -/
structure DateTime where
  nanos : Int
  deriving DecidableEq

structure Runtime where
  /-- Lower-case hexadecimal SHA-256 of the UTF-8 text. -/
  sha256 : List Char → String
  /-- Text of a finite number in a JSON document. -/
  floatText : F64 → String
  /-- Text of an instant in a JSON document. -/
  rfc3339 : DateTime → String
  /-- The instant an RFC 3339 text names, if it is one. -/
  parseRfc3339 : String → Option DateTime

namespace Runtime

variable (rt : Runtime)

def canonicalJson (v : Value) : List Char := v.canonicalJson rt.floatText

def digestJson (v : Value) : String := "sha256:" ++ rt.sha256 (rt.canonicalJson v)

/-- The digest of a document as it is listed. -/
def digestCompact (j : Json) : String := "sha256:" ++ rt.sha256 (j.compactChars rt.floatText)

def dateTime (t : DateTime) : Value := .str (rt.rfc3339 t)

/-- Sort values by their canonical text, keeping the order of equal texts. -/
def sortByCanonicalJson (vs : List Value) : List Value :=
  vs.insertionSort fun a b => rt.canonicalJson a ≤ rt.canonicalJson b

/-- Both texts name instants, and the first is not after the second. -/
def NotAfter (a b : String) : Prop :=
  ∃ s t, rt.parseRfc3339 a = some s ∧ rt.parseRfc3339 b = some t ∧ s.nanos ≤ t.nanos

instance : IsTrans String rt.NotAfter where
  trans a b c hab hbc := by
    obtain ⟨s, t, hs, ht, hst⟩ := hab
    obtain ⟨t', u, ht', hu, htu⟩ := hbc
    have hsame : t = t' := Option.some.inj (ht.symm.trans ht')
    rw [hsame] at hst
    exact ⟨s, u, hs, hu, Int.le_trans hst htu⟩

/-! ## A concrete runtime

It computes digests, and treats the numbers, the instants and the texts listed
here as the libraries do.  Any other number or instant gets some text of its own,
and no other text names an instant. -/

def knownFloats : List (F64 × String) :=
  [(F64.ofNat 0, "0.0"), (F64.ofNat 1, "1.0"), (F64.ofNat 35, "35.0"), (F64.ofNat 136, "136.0")]

def floatTextOf (x : F64) : String :=
  match knownFloats.lookup x with
  | some text => text
  | none => toString x.bits.toNat ++ "e0"

def rfc3339Of (t : DateTime) : String :=
  if t.nanos = 0 then "1970-01-01T00:00:00Z" else toString t.nanos

def knownInstants : List (String × DateTime) :=
  [("1970-01-01T00:00:00Z", ⟨0⟩), ("1970-01-01T00:05:00Z", ⟨300000000000⟩)]

def reference : Runtime :=
  { sha256 := Sha256.hex, floatText := floatTextOf, rfc3339 := rfc3339Of
    parseRfc3339 := fun text => knownInstants.lookup text }

theorem floatTextOf_cases (x : F64) : (∃ e ∈ knownFloats, e.1 = x ∧ floatTextOf x = e.2) ∨
      floatTextOf x = x.bits.toNat.repr ++ "e0" := by
  rw [floatTextOf]
  cases h : knownFloats.lookup x with
  | none => exact .inr rfl
  | some text =>
    obtain ⟨before, after, hknown, -⟩ := lookup_eq_some_iff.mp h
    exact .inl ⟨(x, text), by rw [hknown]; simp, rfl, rfl⟩

theorem unlisted_chars (n : Nat) : (n.repr ++ "e0").toList = n.repr.toList ++ ['e', '0'] := by
  rw [String.toList_append]
  rfl

theorem unlisted_char {n : Nat} {c : Char} (h : c ∈ (n.repr ++ "e0").toList) :
    c.isDigit = true ∨ c = 'e' := by
  rw [unlisted_chars, mem_append] at h
  rcases h with h | h
  · exact .inl (Json.isDigit_of_mem_natChars h)
  · simp only [mem_cons, not_mem_nil, or_false] at h
    rcases h with rfl | rfl
    · exact .inr rfl
    · exact .inl (by decide)

theorem floatText_reference : Json.FloatText reference.floatText where
  numeric := by
    intro x _ c hc
    rcases floatTextOf_cases x with ⟨e, he, -, htext⟩ | htext
    · have hknown : (knownFloats.all fun e => e.2.toList.all Json.isNumberChar) = true := by
        decide
      have hchar : c ∈ e.2.toList := by
        rw [← htext]
        exact hc
      exact all_eq_true.mp (all_eq_true.mp hknown e he) c hchar
    · rcases unlisted_char (n := x.bits.toNat) (c := c) (by rw [← htext]; exact hc) with h | rfl
      · simp [Json.isNumberChar, h]
      · decide
  lead := by
    intro x _
    show ∃ c rest, (floatTextOf x).toList = c :: rest ∧ _
    rcases floatTextOf_cases x with ⟨e, he, -, htext⟩ | htext
    · have hknown : ∀ e ∈ knownFloats, ∃ c rest, e.2.toList = c :: rest ∧
          (c.isDigit = true ∨ c = '-') := by
        simp only [knownFloats, forall_mem_cons]
        exact ⟨⟨'0', _, rfl, by decide⟩, ⟨'1', _, rfl, by decide⟩, ⟨'3', _, rfl, by decide⟩,
          ⟨'1', _, rfl, by decide⟩, by simp⟩
      rw [htext]
      exact hknown e he
    · obtain ⟨c, rest, hdigits, hc, -⟩ := Json.intChars x.bits.toNat
      rw [htext, unlisted_chars]
      exact ⟨c, rest ++ ['e', '0'], congrArg (· ++ ['e', '0']) hdigits, hc⟩
  marked := by
    intro x _
    show ∃ c ∈ (floatTextOf x).toList, _
    rcases floatTextOf_cases x with ⟨e, he, -, htext⟩ | htext
    · have hknown : (knownFloats.all fun e => e.2.toList.any fun c => c == '.' || c == 'e') = true := by
        decide
      obtain ⟨c, hc, hmark⟩ := any_eq_true.mp (all_eq_true.mp hknown e he)
      rw [htext]
      exact ⟨c, hc, by simpa using hmark⟩
    · rw [htext, unlisted_chars]
      exact ⟨'e', by simp, .inr rfl⟩
  inj := by
    intro x y _ _ h
    -- A listed text has a point and the others have none.
    have hpoint : ∀ e ∈ knownFloats, '.' ∈ e.2.toList := by
      simp only [knownFloats, forall_mem_cons]
      decide
    have hplain : ∀ n : Nat, '.' ∉ (n.repr ++ "e0").toList := by
      intro n hn
      rcases unlisted_char hn with h | h
      · exact absurd h (by decide)
      · exact absurd h (by decide)
    change floatTextOf x = floatTextOf y at h
    rcases floatTextOf_cases x with ⟨e, he, rfl, htext⟩ | htext
    · rcases floatTextOf_cases y with ⟨e', he', rfl, htext'⟩ | htext'
      · have hdistinct : ∀ e ∈ knownFloats, ∀ e' ∈ knownFloats, e.2 = e'.2 → e.1 = e'.1 := by
          decide +kernel
        exact hdistinct e he e' he' (by rw [← htext, h, htext'])
      · rw [htext, htext'] at h
        exact absurd (h ▸ hpoint e he) (hplain _)
    · rcases floatTextOf_cases y with ⟨e', he', rfl, htext'⟩ | htext'
      · rw [htext, htext'] at h
        exact absurd (h ▸ hpoint e' he') (hplain _)
      · rw [htext, htext'] at h
        have hchars := congrArg String.toList h
        rw [unlisted_chars, unlisted_chars] at hchars
        have hbits := Json.natChars_inj (append_cancel_right hchars)
        cases x
        cases y
        exact congrArg F64.mk (BitVec.eq_of_toNat_eq hbits)

/-- The objects of a value are maps, so the order of their keys does not count. -/
theorem canonicalJson_eq_iff (hfloat : Json.FloatText rt.floatText) (a b : Value) :
    rt.canonicalJson a = rt.canonicalJson b ↔ a = b := by
  constructor
  · exact Value.canonicalJson_inj hfloat
  · exact congrArg rt.canonicalJson

theorem canonicalJson_swapped :
    reference.canonicalJson (.object [("b", .bool true), ("a", .null)]) =
        reference.canonicalJson (.object [("a", .null), ("b", .bool true)]) ∧
      reference.canonicalJson (.ofList .str ["a,b"]) ≠
        reference.canonicalJson (.ofList .str ["a", "b"]) := by
  rw [Ne, canonicalJson_eq_iff reference floatText_reference,
    canonicalJson_eq_iff reference floatText_reference]
  refine ⟨Value.ext rfl, fun h => ?_⟩
  have hitems := List.cons.inj (Json.arr.inj (congrArg Value.json h))
  cases hitems.2

theorem rfc3339_reference : Function.Injective reference.rfc3339 := by
  -- The epoch has a colon and a number of nanoseconds has none.
  have hplain : ∀ n : Int, "1970-01-01T00:00:00Z" ≠ toString n := by
    intro n h
    obtain ⟨c, rest, hchars, hc, hrest⟩ := Json.intChars n
    have hcolon : ':' ∈ (toString n).toList := by
      rw [← h]
      decide
    rw [show (toString n).toList = c :: rest from hchars] at hcolon
    rcases mem_cons.mp hcolon with rfl | hcolon
    · exact absurd hc (by decide)
    · exact absurd (hrest _ hcolon) (by decide)
  intro s t h
  change rfc3339Of s = rfc3339Of t at h
  rw [rfc3339Of, rfc3339Of] at h
  have hnanos : s.nanos = t.nanos := by
    by_cases hs : s.nanos = 0
    · by_cases ht : t.nanos = 0
      · rw [hs, ht]
      · rw [if_pos hs, if_neg ht] at h
        exact absurd h (hplain _)
    · by_cases ht : t.nanos = 0
      · rw [if_neg hs, if_pos ht] at h
        exact absurd h.symm (hplain _)
      · rw [if_neg hs, if_neg ht] at h
        exact Json.intChars_inj (congrArg String.toList h)
  cases s
  cases t
  exact congrArg DateTime.mk hnanos

end Runtime
end GeneGIS
