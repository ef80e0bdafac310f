/-
A system is known by its EPSG code, the last run of digits of the name.
-/
import GeneGIS.Toolkit.Plan
import Mathlib.Data.List.Infix

namespace GeneGIS.Toolkit

open List hiding isEmpty_iff

inductive AxisUnit where
  | degrees
  | metres
  deriving DecidableEq

structure CrsInfo where
  epsg : Nat
  id : String
  unit : AxisUnit

def CrsInfo.isGeographic (info : CrsInfo) : Bool := info.unit = .degrees

namespace Proj

/-- The last part of a text that is cut at everything but digits. -/
def lastDigits (text : List Char) : List Char :=
  ((text.reverse.dropWhile fun c => !c.isDigit).takeWhile Char.isDigit).reverse

def parseEpsg (value : String) : Except ToolkitError Nat :=
  let trimmed := Text.trim value
  let upper := (Text.toAsciiUppercase trimmed).toList
  if "CRS84".toList <:+: upper then .ok 4326
  else
    let digits := lastDigits upper
    let looksEpsg := "EPSG".toList <+: upper ∨ "/EPSG/".toList <:+: upper ∨
      ":EPSG:".toList <:+: upper ∨ trimmed.toList.all Char.isDigit
    if ¬ looksEpsg ∨ digits.isEmpty then .error (.unsupportedCrs value)
    else
      match parseU32 (String.ofList digits) with
      | some epsg => .ok epsg
      | none => .error (.unsupportedCrs value)

def epsgName (epsg : Nat) : String := "EPSG:" ++ toString epsg

def info (epsg : Nat) (unit : AxisUnit) : CrsInfo where
  epsg := epsg
  id := epsgName epsg
  unit := unit

def lookupEpsg (epsg : Nat) : Except ToolkitError CrsInfo :=
  if epsg = 4326 ∨ epsg = 4612 ∨ epsg = 6668 then .ok (info epsg .degrees)
  else if epsg = 3857 ∨ epsg = 900913 then .ok (info epsg .metres)
  else if 6669 ≤ epsg ∧ epsg ≤ 6687 ∨ 2443 ≤ epsg ∧ epsg ≤ 2461 then .ok (info epsg .metres)
  else if 32601 ≤ epsg ∧ epsg ≤ 32660 then .ok (info epsg .metres)
  else if 32701 ≤ epsg ∧ epsg ≤ 32760 then .ok (info epsg .metres)
  else if 3097 ≤ epsg ∧ epsg ≤ 3101 ∨ 6688 ≤ epsg ∧ epsg ≤ 6692 then .ok (info epsg .metres)
  else if epsg = 4301 ∨ 30161 ≤ epsg ∧ epsg ≤ 30179 then
    .error (.unsupportedCrs (epsgName epsg ++
      " (Tokyo datum requires a grid shift that GeneGIS does not apply)"))
  else .error (.unsupportedCrs (epsgName epsg))

def lookup (value : String) : Except ToolkitError CrsInfo := do
  lookupEpsg (← parseEpsg value)

theorem lookupEpsg_ok {epsg : Nat} {crs : CrsInfo} (h : lookupEpsg epsg = .ok crs) :
    crs.epsg = epsg ∧ crs.id = epsgName epsg := by
  unfold lookupEpsg at h
  split_ifs at h <;> cases h <;> exact ⟨rfl, rfl⟩

theorem lookup_id {value : String} {crs : CrsInfo} (h : lookup value = .ok crs) :
    crs.id = epsgName crs.epsg := by
  rw [lookup] at h
  cases hparse : parseEpsg value with
  | error e =>
    rw [hparse] at h
    cases h
  | ok epsg =>
    rw [hparse] at h
    obtain ⟨hepsg, hid⟩ := lookupEpsg_ok h
    rw [hid, hepsg]

/-! ## Names read back -/

theorem parseU32_repr {n : Nat} (h : n < 2 ^ 32) : parseU32 n.repr = some n := by
  have hdigits : ∀ c ∈ n.repr.toList, c.isDigit = true := by
    intro c hc
    rw [Nat.toList_repr] at hc
    exact Nat.isDigit_of_mem_toDigits (by decide) (by decide) hc
  have hvalue : n.repr.toList.foldl (fun n c => 10 * n + (c.toNat - 48)) 0 = n := by
    have hchars : Nat.ofDigitChars 10 n.repr.toList 0 = n := by
      rw [Nat.toList_repr, Nat.ofDigitChars_ten_toDigits]
    exact hchars
  have hne : n.repr.toList ≠ [] := by
    rw [Nat.toList_repr]
    exact Nat.toDigits_ne_nil
  rw [parseU32]
  generalize n.repr.toList = text at hdigits hvalue hne
  obtain ⟨c, rest, rfl⟩ := exists_cons_of_ne_nil hne
  have hplus : c ≠ '+' := by
    intro heq
    have hdigit := hdigits c mem_cons_self
    rw [heq] at hdigit
    cases hdigit
  have hall : (c :: rest).all Char.isDigit = true := all_eq_true.mpr hdigits
  split
  next front hfront => exact absurd (List.cons.inj hfront).1 hplus
  next =>
    rw [hvalue, hall, decide_eq_true h]
    rfl

theorem lastDigits_append {front digits : List Char}
    (hfront : ∀ c ∈ front.getLast?, c.isDigit = false) (hne : digits ≠ []) (hdigits : ∀ c ∈ digits, c.isDigit = true) :
    lastDigits (front ++ digits) = digits := by
  have hreverse : ∀ c ∈ digits.reverse, c.isDigit = true := fun c hc =>
    hdigits c (mem_reverse.mp hc)
  have hdrop : ((front ++ digits).reverse.dropWhile fun c => !c.isDigit) =
      digits.reverse ++ front.reverse := by
    rw [reverse_append]
    obtain ⟨c, rest, hcons⟩ := exists_cons_of_ne_nil (reverse_ne_nil_iff.mpr hne)
    rw [hcons] at hreverse ⊢
    rw [cons_append, dropWhile_cons, hreverse c mem_cons_self]
    rfl
  have hstop : front.reverse.takeWhile Char.isDigit = [] := by
    cases hrev : front.reverse with
    | nil => rfl
    | cons c rest =>
      have hc := hfront c (by rw [← head?_reverse, hrev]; rfl)
      rw [takeWhile_cons, hc]
      rfl
  rw [lastDigits, hdrop, takeWhile_append_of_pos hreverse, hstop, append_nil, reverse_reverse]

theorem parseEpsg_epsgName {n : Nat} (h : n < 2 ^ 32) : parseEpsg (epsgName n) = .ok n := by
  have hdigits : ∀ c ∈ n.repr.toList, c.isDigit = true := by
    intro c hc
    rw [Nat.toList_repr] at hc
    exact Nat.isDigit_of_mem_toDigits (by decide) (by decide) hc
  have hne : n.repr.toList ≠ [] := by
    rw [Nat.toList_repr]
    exact Nat.toDigits_ne_nil
  have hname : (epsgName n).toList = "EPSG:".toList ++ n.repr.toList := by
    rw [epsgName, String.toList_append]
    rfl
  have hchar : ∀ c ∈ (epsgName n).toList, Text.isWhitespace c = false ∧
      ¬ ('a' ≤ c && c ≤ 'z') = true ∧ c ≠ 'C' := by
    intro c hc
    rw [hname, mem_append] at hc
    rcases hc with hc | hc
    · exact (by decide : ∀ c ∈ "EPSG:".toList, Text.isWhitespace c = false ∧
        ¬ ('a' ≤ c && c ≤ 'z') = true ∧ c ≠ 'C') c hc
    · have hdigit := hdigits c hc
      refine ⟨Text.isWhitespace_digit hdigit, ?_, ?_⟩
      · intro hlower
        simp only [Char.isDigit, Bool.and_eq_true, decide_eq_true_eq, ge_iff_le, Char.le_def,
          UInt32.le_iff_toNat_le] at hdigit hlower
        exact absurd (Nat.le_trans hlower.1 hdigit.2) (by decide)
      · intro heq
        rw [heq] at hdigit
        cases hdigit
  have htrim : Text.trim (epsgName n) = epsgName n := Text.trim_eq_self fun c hc => (hchar c hc).1
  have hupper : Text.toAsciiUppercase (epsgName n) = epsgName n :=
    Text.toAsciiUppercase_eq_self fun c hc => (hchar c hc).2.1
  have hcrs84 : ¬ "CRS84".toList <:+: (epsgName n).toList := by
    intro hin
    exact (hchar 'C' (hin.subset (by decide))).2.2 rfl
  have hlast : lastDigits (epsgName n).toList = n.repr.toList := by
    rw [hname]
    exact lastDigits_append (by decide) hne hdigits
  have hprefix : "EPSG".toList <+: (epsgName n).toList := by
    rw [hname]
    exact ⟨':' :: n.repr.toList, rfl⟩
  have hempty : n.repr.toList.isEmpty = false := by
    rw [← Bool.not_eq_true, List.isEmpty_iff]
    exact hne
  unfold parseEpsg
  simp only [htrim, hupper]
  rw [if_neg hcrs84, hlast, hempty, if_neg, String.ofList_toList, parseU32_repr h]
  intro hrefused
  exact hrefused.elim (fun hlooks => hlooks (.inl hprefix)) Bool.false_ne_true

theorem lookupEpsg_lt {epsg : Nat} {crs : CrsInfo} (h : lookupEpsg epsg = .ok crs) :
    epsg < 2 ^ 32 := by
  unfold lookupEpsg at h
  split_ifs at h <;> omega

theorem lookup_name {value : String} {crs : CrsInfo} (h : lookup value = .ok crs) :
    lookupEpsg crs.epsg = .ok crs ∧ lookup crs.id = .ok crs := by
  have hname := lookup_id h
  rw [lookup] at h
  cases hparse : parseEpsg value with
  | error e =>
    rw [hparse] at h
    cases h
  | ok epsg =>
    rw [hparse] at h
    have hepsg : lookupEpsg crs.epsg = .ok crs := by
      rw [(lookupEpsg_ok h).1]
      exact h
    rw [hname, lookup, parseEpsg_epsgName (lookupEpsg_lt hepsg)]
    exact ⟨hepsg, hepsg⟩

/-! ## Names of one system -/

def normalized (value : String) : List Char := (Text.toAsciiUppercase (Text.trim value)).toList

/-- What stands before the code in a name, a URN or a URL of an authority. -/
def Leads (authority : String) (front : List Char) : Prop :=
  front = (authority ++ ":").toList ∨ ∃ version : List Char,
    (∀ c ∈ version, c.isDigit = true ∨ c = '.') ∧
      (front = ("URN:OGC:DEF:CRS:" ++ authority ++ ":").toList ++ version ++ [':'] ∨
        ∃ scheme ∈ ["HTTP", "HTTPS"], front =
          (scheme ++ "://WWW.OPENGIS.NET/DEF/CRS/" ++ authority ++ "/").toList ++ version ++ ['/'])

/-- The system that a normalized text names: a number of the authority EPSG, or CRS84. -/
def Identifies (text : List Char) (epsg : Nat) : Prop :=
  (∃ front digits, text = front ++ digits ∧ (front = [] ∨ Leads "EPSG" front) ∧ digits ≠ [] ∧
    (∀ c ∈ digits, c.isDigit = true) ∧ parseU32 (String.ofList digits) = some epsg) ∨
  ∃ front, text = front ++ "CRS84".toList ∧ (front = [] ∨ Leads "OGC" front) ∧ epsg = 4326

def Marked (text : List Char) : Prop :=
  "EPSG".toList <+: text ∨ "/EPSG/".toList <:+: text ∨ ":EPSG:".toList <:+: text

theorem Leads.getLast {authority : String} {front : List Char} (h : Leads authority front) :
    ∀ c ∈ front.getLast?, c.isDigit = false := by
  have hlast : ∀ (rest : List Char) (c : Char), c.isDigit = false →
      ∀ d ∈ (rest ++ [c]).getLast?, d.isDigit = false := by
    intro rest c hc d hd
    rw [List.getLast?_append, List.getLast?_singleton] at hd
    rw [← Option.some.inj hd]
    exact hc
  rcases h with rfl | ⟨version, -, rfl | ⟨scheme, -, rfl⟩⟩
  · rw [String.toList_append]
    exact hlast _ _ (by decide)
  · exact hlast _ _ (by decide)
  · exact hlast _ _ (by decide)

theorem lastDigits_of_leads {front digits : List Char} (h : front = [] ∨ Leads "EPSG" front)
    (hne : digits ≠ []) (hdigits : ∀ c ∈ digits, c.isDigit = true) :
    lastDigits (front ++ digits) = digits := by
  refine lastDigits_append ?_ hne hdigits
  rcases h with rfl | h
  · intro c hc
    cases hc
  · exact h.getLast

theorem normalized_digits {value : String} (h : ∀ c ∈ (Text.trim value).toList, c.isDigit = true) :
    normalized value = (Text.trim value).toList := by
  rw [normalized, Text.toAsciiUppercase_eq_self]
  intro c hc hlower
  have hdigit := h c hc
  simp only [Char.isDigit, Bool.and_eq_true, decide_eq_true_eq, ge_iff_le, Char.le_def,
    UInt32.le_iff_toNat_le] at hdigit hlower
  exact absurd (Nat.le_trans hlower.1 hdigit.2) (by decide)

theorem parseEpsg_ok {value : String} {n : Nat} : parseEpsg value = .ok n ↔
    ("CRS84".toList <:+: normalized value ∧ n = 4326) ∨ ¬ "CRS84".toList <:+: normalized value ∧
        (Marked (normalized value) ∨ ∀ c ∈ (Text.trim value).toList, c.isDigit = true) ∧
        lastDigits (normalized value) ≠ [] ∧
        parseU32 (String.ofList (lastDigits (normalized value))) = some n := by
  have hupper : (Text.toAsciiUppercase (Text.trim value)).toList = normalized value := rfl
  rw [parseEpsg]
  simp only [hupper]
  generalize normalized value = text
  by_cases hcrs84 : "CRS84".toList <:+: text
  · rw [if_pos hcrs84, Except.ok.injEq]
    exact ⟨fun h => .inl ⟨hcrs84, h.symm⟩, fun h => by
      rcases h with h | h
      · exact h.2.symm
      · exact absurd hcrs84 h.1⟩
  · rw [if_neg hcrs84, Marked, ← List.all_eq_true, or_assoc, or_assoc, ← List.isEmpty_eq_false_iff]
    split_ifs with hrefused
    · refine iff_of_false nofun fun h => ?_
      obtain ⟨hlooks, hempty, -⟩ := (h.resolve_left fun h => hcrs84 h.1).2
      rcases hrefused with hrefused | hrefused
      · exact hrefused hlooks
      · rw [hempty] at hrefused
        cases hrefused
    · rw [not_or, not_not, Bool.not_eq_true] at hrefused
      rw [or_iff_right fun h => hcrs84 h.1, and_iff_right hcrs84, and_iff_right hrefused.1,
        and_iff_right hrefused.2]
      cases parseU32 (String.ofList (lastDigits text)) with
      | none => exact iff_of_false nofun nofun
      | some m => rw [Except.ok.injEq, Option.some.injEq]

/-- A text is read as the system it names, and as no other, exactly when it has `CRS84` or a number
after a mark of EPSG only where it names one. -/
theorem parseEpsg_identifies_iff (value : String) :
    (∀ n, parseEpsg value = .ok n → Identifies (normalized value) n) ↔
      ("CRS84".toList <:+: normalized value → Identifies (normalized value) 4326) ∧
        (¬ "CRS84".toList <:+: normalized value → Marked (normalized value) →
          lastDigits (normalized value) ≠ [] →
          (parseU32 (String.ofList (lastDigits (normalized value)))).isSome →
          ∃ n, Identifies (normalized value) n) := by
  constructor
  · intro h
    refine ⟨fun hcrs84 => h _ (parseEpsg_ok.mpr (.inl ⟨hcrs84, rfl⟩)), ?_⟩
    intro hcrs84 hmarked hne hsome
    obtain ⟨n, hn⟩ := Option.isSome_iff_exists.mp hsome
    exact ⟨n, h n (parseEpsg_ok.mpr (.inr ⟨hcrs84, .inl hmarked, hne, hn⟩))⟩
  · intro h n hn
    obtain ⟨hcrs84, hmarked⟩ := h
    rcases parseEpsg_ok.mp hn with ⟨hin, rfl⟩ | ⟨hout, hlooks, hne, hn⟩
    · exact hcrs84 hin
    · rcases hlooks with hlooks | hlooks
      · obtain ⟨m, hm⟩ := hmarked hout hlooks hne (Option.isSome_iff_exists.mpr ⟨n, hn⟩)
        rcases hm with ⟨front, digits, htext, hfront, hdigits, hall, hm⟩ | ⟨front, htext, -, -⟩
        · rw [htext, lastDigits_of_leads hfront hdigits hall] at hn
          exact .inl ⟨front, digits, htext, hfront, hdigits, hall, hn⟩
        · rw [htext] at hout
          exact absurd (List.suffix_append _ _).isInfix hout
      · have htrim := normalized_digits hlooks
        have hall : ∀ c ∈ normalized value, c.isDigit = true := by
          rw [htrim]
          exact hlooks
        have hsome : normalized value ≠ [] := by
          intro hempty
          rw [hempty] at hne
          exact hne rfl
        have hself : lastDigits ([] ++ normalized value) = normalized value :=
          lastDigits_of_leads (.inl rfl) hsome hall
        rw [List.nil_append] at hself
        rw [hself] at hn
        exact .inl ⟨[], normalized value, (List.nil_append _).symm, .inl rfl, hsome, hall, hn⟩

theorem parseEpsg_misreads : ∃ value n, parseEpsg value = .ok n ∧
    ¬ Identifies (normalized value) n := by
  have hread : parseEpsg "EPSG:6675+5773" = .ok 5773 := by decide
  have htext : normalized "EPSG:6675+5773" = "EPSG:6675+5773".toList := by decide
  refine ⟨_, _, hread, fun h => ?_⟩
  rw [htext] at h
  rcases h with ⟨front, digits, h, hfront, hne, hdigits, -⟩ | ⟨_, -, -, h⟩
  · have hlast := lastDigits_of_leads hfront hne hdigits
    rw [← h] at hlast
    have hfour : digits = "5773".toList := hlast.symm.trans (by decide)
    rw [hfour] at h
    have hmixed : front = "EPSG:6675+".toList := (List.append_cancel_right h).symm
    rw [hmixed] at hfront
    rcases hfront with hfront | hfront | ⟨version, -, hfront | ⟨scheme, -, hfront⟩⟩
    · cases hfront
    · exact absurd hfront (by decide)
    all_goals
      have hends := congrArg List.getLast? hfront
      rw [List.getLast?_concat] at hends
      exact absurd hends (by decide)
  · cases h

end Proj

end GeneGIS.Toolkit
