/-
`canonicalJson fmt v` writes members in key order and `fmt` writes floating-point numbers.  The
text determines the value (`canonicalJson_inj`): each value ends where its text says, if a number
is followed by a `Closed` remainder.
-/
import GeneGIS.Data.Json

namespace GeneGIS
namespace Json

open List Nat Text

variable (c : Char)

def escapeChar : List Char :=
  if c = '"' then ['\\', '"']
  else if c = '\\' then ['\\', '\\']
  else if c = '\n' then ['\\', 'n']
  else if c = '\r' then ['\\', 'r']
  else if c = '\t' then ['\\', 't']
  else if c.toNat = 8 then ['\\', 'b']
  else if c.toNat = 12 then ['\\', 'f']
  else if c.toNat < 32 then
    ['\\', 'u', '0', '0', hexDigit (c.toNat / 16), hexDigit (c.toNat % 16)]
  else [c]

def quote (s : String) : List Char := '"' :: (s.toList.flatMap escapeChar ++ ['"'])

def unescape : List Char → Option (Char × List Char)
  | '\\' :: '"' :: rest => some ('"', rest)
  | '\\' :: '\\' :: rest => some ('\\', rest)
  | '\\' :: 'n' :: rest => some ('\n', rest)
  | '\\' :: 'r' :: rest => some ('\r', rest)
  | '\\' :: 't' :: rest => some ('\t', rest)
  | '\\' :: 'b' :: rest => some (Char.ofNat 8, rest)
  | '\\' :: 'f' :: rest => some (Char.ofNat 12, rest)
  | '\\' :: 'u' :: _ :: _ :: high :: low :: rest =>
    some (Char.ofNat (16 * hexValue high + hexValue low), rest)
  | c :: rest => some (c, rest)
  | [] => none

theorem unescape_escapeChar (rest : List Char) :
    unescape (escapeChar c ++ rest) = some (c, rest) := by
  have hofNat : ∀ n, c.toNat = n → Char.ofNat n = c := fun n h => by rw [← h, Char.ofNat_toNat]
  unfold escapeChar
  split_ifs with h1 h2 h3 h4 h5 h6 h7 h8
  · rw [h1]; rfl
  · rw [h2]; rfl
  · rw [h3]; rfl
  · rw [h4]; rfl
  · rw [h5]; rfl
  · rw [← hofNat 8 h6]; rfl
  · rw [← hofNat 12 h7]; rfl
  · simp only [cons_append, nil_append, unescape]
    rw [hexValue_hexDigit _ (by omega), hexValue_hexDigit _ (by omega),
      hofNat _ (by omega)]
  · rw [singleton_append]
    unfold unescape
    split <;> simp_all

theorem escapeChar_ne_nil : escapeChar c ≠ [] := by
  unfold escapeChar
  split_ifs <;> simp

theorem escapeChar_head {d : Char} {rest : List Char} (h : escapeChar c = d :: rest) : d ≠ '"' := by
  rintro rfl
  unfold escapeChar at h
  split_ifs at h <;> simp_all

theorem escaped_inj : ∀ (l m : List Char) {s t : List Char},
    l.flatMap escapeChar ++ '"' :: s = m.flatMap escapeChar ++ '"' :: t → l = m ∧ s = t
  | [], [], s, t, h => ⟨rfl, by simpa using h⟩
  | [], d :: m, s, t, h => by
    obtain ⟨e, rest, he⟩ := exists_cons_of_ne_nil (escapeChar_ne_nil d)
    rw [flatMap_cons, he] at h
    simp only [flatMap_nil, nil_append, cons_append, cons.injEq] at h
    exact absurd h.1.symm (escapeChar_head d he)
  | c :: l, [], s, t, h => by
    obtain ⟨e, rest, he⟩ := exists_cons_of_ne_nil (escapeChar_ne_nil c)
    rw [flatMap_cons, he] at h
    simp only [flatMap_nil, nil_append, cons_append, cons.injEq] at h
    exact absurd h.1 (escapeChar_head c he)
  | c :: l, d :: m, s, t, h => by
    rw [flatMap_cons, flatMap_cons, append_assoc, append_assoc] at h
    have hread := congrArg unescape h
    rw [unescape_escapeChar, unescape_escapeChar, Option.some.injEq, Prod.mk.injEq] at hread
    obtain ⟨rfl, hrest⟩ := hread
    obtain ⟨rfl, hst⟩ := escaped_inj l m hrest
    exact ⟨rfl, hst⟩

theorem quote_inj {a b : String} {s t : List Char} (h : quote a ++ s = quote b ++ t) :
    a = b ∧ s = t := by
  simp only [quote, cons_append, append_assoc, cons.injEq, true_and, nil_append] at h
  obtain ⟨hchars, hst⟩ := escaped_inj _ _ h
  exact ⟨String.toList_injective hchars, hst⟩

/-! ## Numbers -/

def isNumberChar : Bool := c.isDigit || c == '-' || c == '+' || c == '.' || c == 'e'

/-- What the writer of finite floating-point numbers promises: its text has a fraction or an
exponent and determines the value. -/
structure FloatText (fmt : F64 → String) : Prop where
  numeric : ∀ x, x.isFinite = true → ∀ c ∈ (fmt x).toList, isNumberChar c = true
  lead : ∀ x, x.isFinite = true → ∃ c rest, (fmt x).toList = c :: rest ∧ (c.isDigit ∨ c = '-')
  marked : ∀ x, x.isFinite = true → ∃ c ∈ (fmt x).toList, c = '.' ∨ c = 'e'
  inj : ∀ x y, x.isFinite = true → y.isFinite = true → fmt x = fmt y → x = y

def numberChars (fmt : F64 → String) : Number → List Char
  | .int n => n.repr.toList
  | .float x _ => (fmt x).toList

theorem isDigit_of_mem_natChars {k : Nat} {d : Char} (h : d ∈ k.repr.toList) :
    d.isDigit = true := by
  rw [toList_repr] at h
  exact isDigit_of_mem_toDigits (by decide) (by decide) h

theorem natChars_inj {m n : Nat} (h : m.repr.toList = n.repr.toList) : m = n := by
  rw [toList_repr, toList_repr] at h
  rw [← ofDigitChars_toDigits (b := 10) (n := m) (by decide) (by decide), h,
    ofDigitChars_toDigits (by decide) (by decide)]

theorem negSucc_chars (k : Nat) : (Int.negSucc k).repr.toList = '-' :: (k + 1).repr.toList := by
  simp [Int.repr]

theorem intChars (n : Int) : ∃ c rest, n.repr.toList = c :: rest ∧ (c.isDigit ∨ c = '-') ∧
    ∀ d ∈ rest, d.isDigit := by
  cases n with
  | ofNat k =>
    obtain ⟨c, rest, h⟩ := exists_cons_of_ne_nil (l := k.repr.toList)
      (by rw [toList_repr]; exact toDigits_ne_nil)
    exact ⟨c, rest, h, .inl (isDigit_of_mem_natChars (k := k) (by simp [h])),
      fun d hd => isDigit_of_mem_natChars (k := k) (by simp [h, hd])⟩
  | negSucc k =>
    exact ⟨'-', _, negSucc_chars k, .inr rfl, fun d hd => isDigit_of_mem_natChars hd⟩

theorem intChars_inj {m n : Int} (h : m.repr.toList = n.repr.toList) : m = n := by
  -- A sign is no digit, so the two signs agree and the digits decide.
  have hsign : ∀ j k : Nat, j.repr.toList ≠ '-' :: k.repr.toList := by
    intro j k h
    have hdigit := isDigit_of_mem_natChars (k := j) (d := '-') (by simp [h])
    exact absurd hdigit (by decide)
  cases m with
  | ofNat j =>
    cases n with
    | ofNat k => rw [natChars_inj (m := j) (n := k) h]
    | negSucc k => exact absurd (h.trans (negSucc_chars k)) (hsign j (k + 1))
  | negSucc j =>
    cases n with
    | ofNat k => exact absurd (h.symm.trans (negSucc_chars j)) (hsign k (j + 1))
    | negSucc k =>
      rw [negSucc_chars, negSucc_chars, cons.injEq] at h
      have := natChars_inj h.2
      rw [show j = k by omega]

variable {fmt : F64 → String}

theorem numberChars_numeric (hf : FloatText fmt) (n : Number) :
    ∀ c ∈ numberChars fmt n, isNumberChar c = true := by
  cases n with
  | int n =>
    obtain ⟨c, rest, h, hc, hrest⟩ := intChars n
    intro d hd
    rw [numberChars, h] at hd
    rcases mem_cons.mp hd with rfl | hd
    · rcases hc with hc | hc <;> simp [isNumberChar, hc]
    · simp [isNumberChar, hrest d hd]
  | float x hx => exact hf.numeric x hx

theorem numberChars_lead (hf : FloatText fmt) (n : Number) :
    ∃ c rest, numberChars fmt n = c :: rest ∧ (c.isDigit ∨ c = '-') := by
  cases n with
  | int n =>
    obtain ⟨c, rest, h, hc, -⟩ := intChars n
    exact ⟨c, rest, h, hc⟩
  | float x hx => exact hf.lead x hx

theorem int_ne_float (hf : FloatText fmt) {n : Int} {x : F64}
    (hx : x.isFinite = true) : n.repr.toList ≠ (fmt x).toList := by
  intro h
  obtain ⟨c, rest, hn, hc, hrest⟩ := intChars n
  obtain ⟨d, hd, hmark⟩ := hf.marked x hx
  rw [← h, hn] at hd
  have hdigit : d.isDigit = true ∨ d = '-' := by
    rcases mem_cons.mp hd with rfl | hd
    · exact hc
    · exact .inl (hrest d hd)
  rcases hmark with rfl | rfl <;> revert hdigit <;> decide

theorem numberChars_inj (hf : FloatText fmt) {n m : Number}
    (h : numberChars fmt n = numberChars fmt m) : n = m := by
  cases n with
  | int n =>
    cases m with
    | int m => rw [intChars_inj h]
    | float y hy => exact absurd h (int_ne_float hf hy)
  | float x hx =>
    cases m with
    | int m => exact absurd h.symm (int_ne_float hf hx)
    | float y hy =>
      obtain rfl := hf.inj x y hx hy (String.toList_injective h)
      rfl

/-- Order members by key, keeping the order of equal keys. -/
def sortMembers {α : Type} (members : List (String × α)) : List (String × α) :=
  members.insertionSort fun a b => (compare a.1 b.1).isLE = true

def commaTail : List (List Char) → List Char
  | [] => []
  | x :: rest => ',' :: (x ++ commaTail rest)

def commaSeparated : List (List Char) → List Char
  | [] => []
  | x :: rest => x ++ commaTail rest

def memberChars (m : String × List Char) : List Char := quote m.1 ++ ':' :: m.2

mutual
def canonicalChars (fmt : F64 → String) : Json → List Char
  | .null => ['n', 'u', 'l', 'l']
  | .bool true => ['t', 'r', 'u', 'e']
  | .bool false => ['f', 'a', 'l', 's', 'e']
  | .num n => numberChars fmt n
  | .str s => quote s
  | .arr items => '[' :: (commaSeparated (canonicalItems fmt items) ++ [']'])
  | .obj members =>
    '{' :: (commaSeparated ((sortMembers (canonicalMembers fmt members)).map memberChars) ++ ['}'])

def canonicalItems (fmt : F64 → String) : List Json → List (List Char)
  | [] => []
  | item :: rest => canonicalChars fmt item :: canonicalItems fmt rest

def canonicalMembers (fmt : F64 → String) : List (String × Json) → List (String × List Char)
  | [] => []
  | (key, value) :: rest => (key, canonicalChars fmt value) :: canonicalMembers fmt rest
end

mutual
/-- The text of a document with its members as they are listed. -/
def compactChars (fmt : F64 → String) : Json → List Char
  | .null => ['n', 'u', 'l', 'l']
  | .bool true => ['t', 'r', 'u', 'e']
  | .bool false => ['f', 'a', 'l', 's', 'e']
  | .num n => numberChars fmt n
  | .str s => quote s
  | .arr items => '[' :: (commaSeparated (compactItems fmt items) ++ [']'])
  | .obj members => '{' :: (commaSeparated (compactMembers fmt members) ++ ['}'])

def compactItems (fmt : F64 → String) : List Json → List (List Char)
  | [] => []
  | item :: rest => compactChars fmt item :: compactItems fmt rest

def compactMembers (fmt : F64 → String) : List (String × Json) → List (List Char)
  | [] => []
  | (key, value) :: rest => memberChars (key, compactChars fmt value) :: compactMembers fmt rest
end

theorem sortMembers_canonicalMembers {members : List (String × Json)}
    (h : members.Pairwise fun a b => compare a.1 b.1 = .lt) :
    sortMembers (canonicalMembers fmt members) = canonicalMembers fmt members := by
  have hmap : canonicalMembers fmt members =
      members.map fun m => (m.1, canonicalChars fmt m.2) := by
    clear h
    induction members with
    | nil => rfl
    | cons m rest ih => rw [canonicalMembers, ih, map_cons]
  refine Pairwise.insertionSort_eq ?_
  rw [hmap, pairwise_map]
  exact h.imp fun {a b} hab => by rw [hab]; rfl

/-! ## Reading a text back -/

/-- A remainder that no number can run into. -/
def Closed : List Char → Prop
  | [] => True
  | c :: _ => isNumberChar c = false

variable {texts : List (List Char)}

theorem closed_commaTail {c : Char} {s : List Char}
    (hc : isNumberChar c = false) : Closed (commaTail texts ++ c :: s) := by
  cases texts with
  | nil => exact hc
  | cons x rest => exact (by decide : isNumberChar ',' = false)

theorem numeric_append_inj {l m s t : List Char} (hl : ∀ c ∈ l, isNumberChar c = true)
    (hm : ∀ c ∈ m, isNumberChar c = true) (hs : Closed s) (ht : Closed t)
    (h : l ++ s = m ++ t) : l = m ∧ s = t := by
  have htake : ∀ {l s : List Char}, (∀ c ∈ l, isNumberChar c = true) → Closed s →
      (l ++ s).takeWhile isNumberChar = l := by
    intro l s hl hs
    rw [takeWhile_append_of_pos hl]
    cases s with
    | nil => simp
    | cons c s =>
      have hc : isNumberChar c = false := hs
      simp [hc]
  have hlm : l = m := by rw [← htake hl hs, h, htake hm ht]
  subst hlm
  exact ⟨rfl, append_cancel_left h⟩

/-- The shape of a value, which its first character shows. -/
def shape : Json → Nat
  | .null => 0
  | .bool _ => 1
  | .num _ => 2
  | .str _ => 3
  | .arr _ => 4
  | .obj _ => 5

def leadShape : Nat :=
  if c = 'n' then 0 else if c = 't' || c = 'f' then 1 else if c = '"' then 3
  else if c = '[' then 4 else if c = '{' then 5 else 2

theorem compactChars_lead (hf : FloatText fmt) (j : Json) :
    ∃ c rest, compactChars fmt j = c :: rest ∧ leadShape c = j.shape ∧ c ≠ ']' := by
  cases j with
  | null => exact ⟨'n', _, rfl, rfl, by decide⟩
  | bool b => cases b <;> exact ⟨_, _, rfl, rfl, by decide⟩
  | num n =>
    obtain ⟨c, rest, h, hc⟩ := numberChars_lead hf n
    have hne : ∀ d : Char, d.isDigit = false → d ≠ '-' → c ≠ d := by
      intro d hd hd' heq
      rw [heq] at hc
      rcases hc with hc | hc
      · rw [hd] at hc
        cases hc
      · exact hd' hc
    refine ⟨c, rest, h, ?_, hne _ (by decide) (by decide)⟩
    simp [leadShape, shape, hne 'n' (by decide) (by decide), hne 't' (by decide) (by decide),
      hne 'f' (by decide) (by decide), hne '"' (by decide) (by decide),
      hne '[' (by decide) (by decide), hne '{' (by decide) (by decide)]
  | str s => exact ⟨'"', _, rfl, rfl, by decide⟩
  | arr items => exact ⟨'[', _, rfl, rfl, by decide⟩
  | obj members => exact ⟨'{', _, rfl, rfl, by decide⟩

theorem shape_eq (hf : FloatText fmt) {a b : Json} {s t : List Char}
    (h : compactChars fmt a ++ s = compactChars fmt b ++ t) : a.shape = b.shape := by
  obtain ⟨c, rest, ha, hca, -⟩ := compactChars_lead hf a
  obtain ⟨d, rest', hb, hcb, -⟩ := compactChars_lead hf b
  rw [ha, hb, cons_append, cons_append, cons.injEq] at h
  rw [← hca, ← hcb, h.1]

mutual
theorem compactChars_inj {fmt : F64 → String} (hf : FloatText fmt) :
    ∀ (a b : Json) {s t : List Char}, Closed s → Closed t →
      compactChars fmt a ++ s = compactChars fmt b ++ t → a = b ∧ s = t
  | .null, b, s, t, _, _, h => by
    cases b with
    | null => exact ⟨rfl, append_cancel_left h⟩
    | _ => exact absurd (shape_eq hf h) (by simp [shape])
  | .bool x, b, s, t, _, _, h => by
    cases b with
    | bool y =>
      cases x <;> cases y
      · exact ⟨rfl, append_cancel_left h⟩
      · simp [compactChars] at h
      · simp [compactChars] at h
      · exact ⟨rfl, append_cancel_left h⟩
    | _ => exact absurd (shape_eq hf h) (by simp [shape])
  | .num n, b, s, t, hs, ht, h => by
    cases b with
    | num m =>
      obtain ⟨hnm, hst⟩ := numeric_append_inj (numberChars_numeric hf n)
        (numberChars_numeric hf m) hs ht h
      exact ⟨by rw [numberChars_inj hf hnm], hst⟩
    | _ => exact absurd (shape_eq hf h) (by simp [shape])
  | .str x, b, s, t, _, _, h => by
    cases b with
    | str y =>
      obtain ⟨rfl, hst⟩ := quote_inj h
      exact ⟨rfl, hst⟩
    | _ => exact absurd (shape_eq hf h) (by simp [shape])
  | .arr [], b, s, t, _, _, h => by
    cases b with
    | arr items =>
      cases items with
      | nil => exact ⟨rfl, append_cancel_left h⟩
      | cons y ys =>
        obtain ⟨c, rest, hy, -, hne⟩ := compactChars_lead hf y
        simp [compactChars, compactItems, commaSeparated, hy] at h
        exact absurd h.1.symm hne
    | _ => exact absurd (shape_eq hf h) (by simp [shape])
  | .arr (x :: xs), b, s, t, hs, ht, h => by
    cases b with
    | arr items =>
      cases items with
      | nil =>
        obtain ⟨c, rest, hx, -, hne⟩ := compactChars_lead hf x
        simp [compactChars, compactItems, commaSeparated, hx] at h
        exact absurd h.1 hne
      | cons y ys =>
        simp only [compactChars, compactItems, commaSeparated, cons_append,
          append_assoc, nil_append, cons.injEq, true_and] at h
        obtain ⟨rfl, hrest⟩ := compactChars_inj hf x y
          (closed_commaTail (by decide)) (closed_commaTail (by decide)) h
        obtain ⟨rfl, hst⟩ := compactItems_inj hf xs ys hrest
        exact ⟨rfl, hst⟩
    | _ => exact absurd (shape_eq hf h) (by simp [shape])
  | .obj [], b, s, t, _, _, h => by
    cases b with
    | obj members =>
      cases members with
      | nil => exact ⟨rfl, append_cancel_left h⟩
      | cons y ys =>
        obtain ⟨key, value⟩ := y
        simp [compactChars, compactMembers, commaSeparated, memberChars, quote] at h
    | _ => exact absurd (shape_eq hf h) (by simp [shape])
  | .obj ((key, value) :: xs), b, s, t, hs, ht, h => by
    cases b with
    | obj members =>
      cases members with
      | nil =>
        simp [compactChars, compactMembers, commaSeparated, memberChars, quote] at h
      | cons y ys =>
        have htail : commaTail (compactMembers fmt ((key, value) :: xs)) ++ '}' :: s =
            commaTail (compactMembers fmt (y :: ys)) ++ '}' :: t := by
          simpa [compactChars, compactMembers, commaSeparated, commaTail] using h
        obtain ⟨hmembers, hst⟩ := compactMembers_inj hf ((key, value) :: xs) (y :: ys) htail
        exact ⟨by rw [hmembers], hst⟩
    | _ => exact absurd (shape_eq hf h) (by simp [shape])

theorem compactItems_inj {fmt : F64 → String} (hf : FloatText fmt) :
    ∀ (l m : List Json) {s t : List Char},
      commaTail (compactItems fmt l) ++ ']' :: s = commaTail (compactItems fmt m) ++ ']' :: t →
      l = m ∧ s = t
  | [], [], s, t, h => ⟨rfl, by simpa [compactItems, commaTail] using h⟩
  | [], y :: ys, s, t, h => by simp [compactItems, commaTail] at h
  | x :: xs, [], s, t, h => by simp [compactItems, commaTail] at h
  | x :: xs, y :: ys, s, t, h => by
    simp only [compactItems, commaTail, cons_append, append_assoc, cons.injEq, true_and] at h
    obtain ⟨rfl, hrest⟩ := compactChars_inj hf x y
      (closed_commaTail (by decide)) (closed_commaTail (by decide)) h
    obtain ⟨rfl, hst⟩ := compactItems_inj hf xs ys hrest
    exact ⟨rfl, hst⟩

theorem compactMembers_inj {fmt : F64 → String} (hf : FloatText fmt) :
    ∀ (l m : List (String × Json)) {s t : List Char}, commaTail (compactMembers fmt l) ++ '}' :: s =
        commaTail (compactMembers fmt m) ++ '}' :: t →
      l = m ∧ s = t
  | [], [], s, t, h => ⟨rfl, by simpa [compactMembers, commaTail] using h⟩
  | [], (key, value) :: ys, s, t, h => by simp [compactMembers, commaTail] at h
  | (key, value) :: xs, [], s, t, h => by simp [compactMembers, commaTail] at h
  | (key, value) :: xs, (key', value') :: ys, s, t, h => by
    simp only [compactMembers, commaTail, memberChars, cons_append, append_assoc,
      cons.injEq, true_and] at h
    obtain ⟨rfl, hvalue⟩ := quote_inj h
    rw [cons.injEq] at hvalue
    obtain ⟨rfl, hrest⟩ := compactChars_inj hf value value'
      (closed_commaTail (by decide)) (closed_commaTail (by decide)) hvalue.2
    obtain ⟨rfl, hst⟩ := compactMembers_inj hf xs ys hrest
    exact ⟨rfl, hst⟩
end

theorem compact_inj (hf : FloatText fmt) {a b : Json}
    (h : a.compactChars fmt = b.compactChars fmt) : a = b := by
  have hend : Closed [] := trivial
  have hchars : compactChars fmt a ++ [] = compactChars fmt b ++ [] := by
    rw [append_nil, append_nil]
    exact h
  exact (compactChars_inj hf a b hend hend hchars).1

mutual
theorem canonicalChars_ordered (fmt : F64 → String) :
    ∀ a : Json, a.Ordered → canonicalChars fmt a = compactChars fmt a
  | .null, _ | .num _, _ | .str _, _ => rfl
  | .bool true, _ | .bool false, _ => rfl
  | .arr items, h => by
    rw [canonicalChars, compactChars, canonicalItems_ordered fmt items h]
  | .obj members, h => by
    rw [canonicalChars, compactChars, sortMembers_canonicalMembers h.1,
      canonicalMembers_ordered fmt members h.2]

theorem canonicalItems_ordered (fmt : F64 → String) :
    ∀ l : List Json, OrderedItems l → canonicalItems fmt l = compactItems fmt l
  | [], _ => rfl
  | item :: rest, h => by
    rw [canonicalItems, compactItems, canonicalChars_ordered fmt item h.1,
      canonicalItems_ordered fmt rest h.2]

theorem canonicalMembers_ordered (fmt : F64 → String) :
    ∀ l : List (String × Json), OrderedMembers l →
      (canonicalMembers fmt l).map memberChars = compactMembers fmt l
  | [], _ => rfl
  | (key, value) :: rest, h => by
    rw [canonicalMembers, compactMembers, map_cons, canonicalChars_ordered fmt value h.1,
      canonicalMembers_ordered fmt rest h.2]
end

/-! ## The zero character

The character is escaped in strings, so a text can be ended by it. -/

theorem zero_not_mem_escapeChar : Char.ofNat 0 ∉ escapeChar c := by
  have hhex : ∀ n, n < 16 → hexDigit n ≠ Char.ofNat 0 := by decide
  have hzero : (Char.ofNat 0).toNat = 0 := rfl
  unfold escapeChar
  split_ifs with h1 h2 h3 h4 h5 h6 h7 h8
  all_goals try decide
  · have hhigh := hhex (c.toNat / 16) (by omega)
    have hlow := hhex (c.toNat % 16) (by omega)
    simp only [mem_cons, not_mem_nil, or_false, not_or]
    exact ⟨by decide, by decide, by decide, by decide, hhigh.symm, hlow.symm⟩
  · intro hmem
    rw [mem_singleton] at hmem
    rw [← hmem, hzero] at h8
    omega

theorem zero_not_mem_quote (s : String) : Char.ofNat 0 ∉ quote s := by
  intro hmem
  rw [quote, mem_cons, mem_append, mem_flatMap, mem_singleton] at hmem
  rcases hmem with h | ⟨c, -, h⟩ | h
  · exact absurd h (by decide)
  · exact zero_not_mem_escapeChar c h
  · exact absurd h (by decide)

theorem zero_not_mem_numberChars (hf : FloatText fmt) (n : Number) :
    Char.ofNat 0 ∉ numberChars fmt n := fun hmem =>
  absurd (numberChars_numeric hf n _ hmem) (by decide)

theorem zero_not_mem_commaTail
    (h : ∀ text ∈ texts, Char.ofNat 0 ∉ text) : Char.ofNat 0 ∉ commaTail texts := by
  induction texts with
  | nil => exact not_mem_nil
  | cons x rest ih =>
    have hx := h x mem_cons_self
    have hrest := ih fun text ht => h text (mem_cons_of_mem _ ht)
    intro hmem
    rw [commaTail, mem_cons, mem_append] at hmem
    rcases hmem with hc | hc | hc
    · exact absurd hc (by decide)
    · exact hx hc
    · exact hrest hc

theorem zero_not_mem_commaSeparated
    (h : ∀ text ∈ texts, Char.ofNat 0 ∉ text) : Char.ofNat 0 ∉ commaSeparated texts := by
  cases texts with
  | nil => exact not_mem_nil
  | cons x rest =>
    rw [commaSeparated, mem_append, not_or]
    exact ⟨h x mem_cons_self, zero_not_mem_commaTail fun text ht => h text (mem_cons_of_mem _ ht)⟩

mutual
theorem zero_not_mem_compactChars {fmt : F64 → String} (hf : FloatText fmt) :
    ∀ j : Json, Char.ofNat 0 ∉ compactChars fmt j
  | .null | .bool true | .bool false => by
    rw [compactChars]
    decide
  | .num n => zero_not_mem_numberChars hf n
  | .str s => zero_not_mem_quote s
  | .arr items => by
    have hitems := zero_not_mem_commaSeparated (zero_not_mem_compactItems hf items)
    rw [compactChars, mem_cons, mem_append, mem_singleton]
    intro h
    rcases h with h | h | h
    · exact absurd h (by decide)
    · exact hitems h
    · exact absurd h (by decide)
  | .obj members => by
    have hmembers := zero_not_mem_commaSeparated (zero_not_mem_compactMembers hf members)
    rw [compactChars, mem_cons, mem_append, mem_singleton]
    intro h
    rcases h with h | h | h
    · exact absurd h (by decide)
    · exact hmembers h
    · exact absurd h (by decide)

theorem zero_not_mem_compactItems {fmt : F64 → String} (hf : FloatText fmt) :
    ∀ (l : List Json), ∀ text ∈ compactItems fmt l, Char.ofNat 0 ∉ text
  | [], text, h => by cases h
  | item :: rest, text, h => by
    rw [compactItems, mem_cons] at h
    rcases h with rfl | h
    · exact zero_not_mem_compactChars hf item
    · exact zero_not_mem_compactItems hf rest text h

theorem zero_not_mem_compactMembers {fmt : F64 → String} (hf : FloatText fmt) :
    ∀ (l : List (String × Json)), ∀ text ∈ compactMembers fmt l, Char.ofNat 0 ∉ text
  | [], text, h => by cases h
  | (key, value) :: rest, text, h => by
    rw [compactMembers, mem_cons] at h
    rcases h with rfl | h
    · have hvalue := zero_not_mem_compactChars hf value
      rw [memberChars, mem_append, mem_cons, not_or, not_or]
      exact ⟨zero_not_mem_quote key, by decide, hvalue⟩
    · exact zero_not_mem_compactMembers hf rest text h
end

end Json

def Value.canonicalJson (fmt : F64 → String) (v : Value) : List Char :=
  Json.canonicalChars fmt v.json

theorem Value.canonicalJson_inj {fmt : F64 → String} (hf : Json.FloatText fmt) {a b : Value}
    (h : a.canonicalJson fmt = b.canonicalJson fmt) : a = b := by
  refine Value.ext (Json.compact_inj hf ?_)
  rw [← Json.canonicalChars_ordered fmt a.json a.ordered,
    ← Json.canonicalChars_ordered fmt b.json b.ordered]
  exact h

theorem Value.zero_not_mem_canonicalJson {fmt : F64 → String} (hf : Json.FloatText fmt)
    (a : Value) : Char.ofNat 0 ∉ a.canonicalJson fmt := by
  rw [Value.canonicalJson, Json.canonicalChars_ordered fmt a.json a.ordered]
  exact Json.zero_not_mem_compactChars hf a.json

end GeneGIS
