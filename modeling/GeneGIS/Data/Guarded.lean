/-
Programs that index, cut and count.

A guarded program refuses its input with an error or stops with a fault: a range that is not there,
a size that does not fit, a text cut within a character, a loop that does not get on.  A sound run
has no fault.
-/
import GeneGIS.Data.Bytes

namespace GeneGIS

open List Option

inductive Fault where
  | size (a b : Nat)
  | range (start stop length : Nat)
  | character (offset length : Nat)
  | stuck (offset : Nat)

inductive Stop (ε : Type) where
  | refused (error : ε)
  | fault (fault : Fault)

abbrev Guarded (ε α : Type) := Except (Stop ε) α

namespace Guarded

variable {ε ε' α β : Type}

def refuse (e : ε) : Guarded ε α := .error (.refused e)

def fail (f : Fault) : Guarded ε α := .error (.fault f)

def orRefuse (e : ε) : Option α → Guarded ε α
  | some a => .ok a
  | none => refuse e

def add (a b : Nat) : Guarded ε Nat := if a + b < 2 ^ 64 then .ok (a + b) else fail (.size a b)

def mul (a b : Nat) : Guarded ε Nat := if a * b < 2 ^ 64 then .ok (a * b) else fail (.size a b)

/-- `l[i]`. -/
def index (l : List α) (i : Nat) : Guarded ε α :=
  match l[i]? with
  | some a => .ok a
  | none => fail (.range i (i + 1) l.length)

/-- `l.get(start..stop)`. -/
def part (l : List α) (start stop : Nat) : Option (List α) :=
  if start ≤ stop ∧ stop ≤ l.length then some ((l.drop start).take (stop - start)) else none

/-- `l[start..stop]`. -/
def range (l : List α) (start stop : Nat) : Guarded ε (List α) :=
  match part l start stop with
  | some within => .ok within
  | none => fail (.range start stop l.length)

/-- What a refusal of the part makes a value of the whole. -/
def caught (m : Guarded ε α) : Guarded ε' (Except ε α) :=
  match m with
  | .ok a => .ok (.ok a)
  | .error (.refused e) => .ok (.error e)
  | .error (.fault f) => fail f

def ofExcept : Except ε α → Guarded ε α
  | .ok a => .ok a
  | .error e => refuse e

def Sound (m : Guarded ε α) : Prop := ∀ f, m ≠ .error (.fault f)

/-! ## Rules -/

theorem sound_ok (a : α) : Sound (.ok a : Guarded ε α) := fun _ h => (by cases h)

theorem sound_pure (a : α) : Sound (pure a : Guarded ε α) := fun _ h => (by cases h)

theorem sound_refuse (e : ε) : Sound (refuse e : Guarded ε α) := fun _ h => (by cases h)

theorem not_sound_fail (f : Fault) : ¬ Sound (fail f : Guarded ε α) := fun h => h f rfl

variable {m : Guarded ε α} {f : α → Guarded ε β}

theorem sound_bind : Sound (m >>= f) ↔ Sound m ∧ ∀ a, m = .ok a → Sound (f a) := by
  cases m with
  | ok a =>
    constructor
    · intro h
      refine ⟨sound_ok a, ?_⟩
      intro b hb
      cases hb
      exact h
    · intro h
      exact h.2 a rfl
  | error e =>
    constructor
    · intro h
      refine ⟨fun fault hfault => ?_, fun a ha => by cases ha⟩
      cases hfault
      exact h fault rfl
    · intro h fault hfault
      cases hfault
      exact h.1 fault rfl

theorem Sound.bind (hm : Sound m) (hf : ∀ a, m = .ok a → Sound (f a)) : Sound (m >>= f) :=
  sound_bind.mpr ⟨hm, hf⟩

theorem sound_bind_pure {f : α → β} : Sound (m >>= fun a => pure (f a)) ↔ Sound m := by
  rw [sound_bind]
  exact and_iff_left fun a _ => sound_pure _

theorem bind_of_ok {a : α} (h : m = .ok a) : m >>= f = f a := by
  rw [h]
  rfl

theorem sound_orRefuse (e : ε) (o : Option α) : Sound (orRefuse e o) := by
  cases o with
  | none => exact sound_refuse e
  | some a => exact sound_ok a

theorem orRefuse_ok {e : ε} {o : Option α} {a : α} : orRefuse e o = .ok a ↔ o = some a := by
  cases o with
  | none => simp [orRefuse, refuse]
  | some b => simp [orRefuse]

theorem sound_ofExcept (r : Except ε α) : Sound (ofExcept r) := by
  cases r with
  | ok a => exact sound_ok a
  | error e => exact sound_refuse e

theorem caught_ok (h : Sound m) : ∃ r, (caught m : Guarded ε' (Except ε α)) = .ok r := by
  match m, h with
  | .ok a, _ => exact ⟨.ok a, rfl⟩
  | .error (.refused e), _ => exact ⟨.error e, rfl⟩
  | .error (.fault f), h => exact absurd rfl (h f)

theorem add_ok {a b c : Nat} : (add a b : Guarded ε Nat) = .ok c ↔ a + b < 2 ^ 64 ∧ c = a + b := by
  rw [add]
  split
  · rename_i h
    rw [Except.ok.injEq, and_iff_right h, eq_comm]
  · rename_i h
    exact iff_of_false (by intro heq; cases heq) (fun hc => h hc.1)

theorem add_of_lt {a b : Nat} (h : a + b < 2 ^ 64) : (add a b : Guarded ε Nat) = .ok (a + b) :=
  add_ok.mpr ⟨h, rfl⟩

theorem mul_of_lt {a b : Nat} (h : a * b < 2 ^ 64) : (mul a b : Guarded ε Nat) = .ok (a * b) :=
  if_pos h

theorem not_sound_mul {a b : Nat} (h : 2 ^ 64 ≤ a * b) : ¬ Sound (mul a b : Guarded ε Nat) := by
  rw [mul, if_neg (Nat.not_lt.mpr h)]
  exact not_sound_fail _

variable {start stop : Nat} {l : List α}

theorem part_of_le (h : start ≤ stop) (hstop : stop ≤ l.length) :
    part l start stop = some ((l.drop start).take (stop - start)) := if_pos ⟨h, hstop⟩

theorem part_some {l within : List α} (h : part l start stop = some within) :
    start ≤ stop ∧ stop ≤ l.length ∧ within.length = stop - start := by
  rw [part] at h
  split at h
  · rename_i hle
    rw [← Option.some.inj h, length_take, length_drop]
    exact ⟨hle.1, hle.2, by omega⟩
  · cases h

theorem range_of_le (h : start ≤ stop) (hstop : stop ≤ l.length) :
    (range l start stop : Guarded ε (List α)) = .ok ((l.drop start).take (stop - start)) := by
  rw [range, part_of_le h hstop]

theorem sound_range (h : start ≤ stop) (hstop : stop ≤ l.length) :
    Sound (range l start stop : Guarded ε (List α)) := by
  rw [range_of_le h hstop]
  exact sound_ok _

theorem index_of_lt {i : Nat} (h : i < l.length) : (index l i : Guarded ε α) = .ok l[i] := by
  rw [index, getElem?_eq_getElem h]

theorem sound_index_iff {i : Nat} : Sound (index l i : Guarded ε α) ↔ i < l.length := by
  rw [index]
  cases h : l[i]? with
  | none => exact iff_of_false (not_sound_fail _) (Nat.not_lt.mpr (getElem?_eq_none_iff.mp h))
  | some a => exact iff_of_true (sound_ok a) (List.getElem?_eq_some_iff.mp h).1

/-- A run that has a value if `p` holds and faults if it does not. -/
structure ValueIff (m : Guarded ε α) (p : Prop) : Prop where
  value : p → ∃ a, m = .ok a
  sound : Sound m → p

namespace ValueIff

variable {p q : Prop}

theorem ok (a : α) : ValueIff (.ok a : Guarded ε α) True := ⟨fun _ => ⟨a, rfl⟩, fun _ => trivial⟩

theorem isSound_iff (h : ValueIff m p) : Sound m ↔ p := by
  refine ⟨h.sound, fun hp => ?_⟩
  obtain ⟨a, ha⟩ := h.value hp
  rw [ha]
  exact sound_ok a

theorem congr (h : ValueIff m p) (hpq : p ↔ q) : ValueIff m q :=
  ⟨fun hq => h.value (hpq.mpr hq), fun hm => hpq.mp (h.sound hm)⟩

theorem bind {f : α → Guarded ε β} (hm : ValueIff m p)
    (hf : ∀ a, m = .ok a → ValueIff (f a) q) : ValueIff (m >>= f) (p ∧ q) := by
  constructor
  · intro h
    obtain ⟨a, ha⟩ := hm.value h.1
    rw [bind_of_ok ha]
    exact (hf a ha).value h.2
  · intro h
    have hp := hm.sound (sound_bind.mp h).1
    obtain ⟨a, ha⟩ := hm.value hp
    exact ⟨hp, (hf a ha).sound ((sound_bind.mp h).2 a ha)⟩

theorem map (hm : ValueIff m p) (f : α → β) : ValueIff (m >>= fun a => pure (f a)) p :=
  (hm.bind fun a _ => ok (f a)).congr (and_iff_left trivial)

end ValueIff

/-! ## Texts

A text is cut at a number of bytes of its UTF-8.
-/

/-- The characters of a text before and after a number of bytes, if that is between two of
them. -/
def cutAt : List Char → Nat → Option (List Char × List Char)
  | text, 0 => some ([], text)
  | [], _ + 1 => none
  | c :: rest, n + 1 =>
    if c.utf8Size ≤ n + 1 then (cutAt rest (n + 1 - c.utf8Size)).map fun p => (c :: p.1, p.2)
    else none

variable (text : List Char)

/-- `str::is_char_boundary`. -/
def isBoundary (n : Nat) : Bool := (cutAt text n).isSome

/-- `&text[start..stop]`. -/
def textRange (start stop : Nat) : Guarded ε (List Char) :=
  match (cutAt text start).bind fun p => if start ≤ stop then cutAt p.2 (stop - start) else none with
  | some p => .ok p.1
  | none => fail (.character start stop)

def byteLength : Nat := (text.map Char.utf8Size).sum

theorem cutAt_length : ∀ text : List Char, cutAt text (byteLength text) = some (text, []) := by
  intro text
  induction text with
  | nil => rfl
  | cons c rest ih =>
    have hpos : 0 < c.utf8Size := c.utf8Size_pos
    have hsum : byteLength (c :: rest) = (c.utf8Size + byteLength rest - 1) + 1 := by
      rw [byteLength, map_cons, sum_cons, ← byteLength]
      omega
    rw [hsum, cutAt, if_pos (by omega),
      show c.utf8Size + byteLength rest - 1 + 1 - c.utf8Size = byteLength rest by omega, ih]
    rfl

theorem cutAt_add : ∀ {text before after : List Char} {m : Nat} (n : Nat),
    cutAt text m = some (before, after) → (isBoundary text (m + n) ↔ isBoundary after n) := by
  intro text
  induction text with
  | nil =>
    intro before after m n h
    cases m with
    | zero =>
      cases h
      rw [Nat.zero_add]
    | succ m => cases h
  | cons c rest ih =>
    intro before after m n h
    cases m with
    | zero =>
      cases h
      rw [Nat.zero_add]
    | succ m =>
      rw [cutAt] at h
      split at h
      · rename_i hsize
        obtain ⟨p, hp, hpair⟩ := map_eq_some_iff.mp h
        cases hpair
        rw [← ih n hp, isBoundary, show m + 1 + n = (m + n) + 1 by omega, cutAt,
          if_pos (by omega), isBoundary, isSome_map,
          show m + n + 1 - c.utf8Size = m + 1 - c.utf8Size + n by omega]
      · cases h

theorem sound_textRange {text : List Char} (h : start ≤ stop) :
    Sound (textRange text start stop : Guarded ε (List Char)) ↔
      isBoundary text start = true ∧ isBoundary text stop = true := by
  rw [textRange]
  cases hstart : cutAt text start with
  | none =>
    have hnot : isBoundary text start = false := by rw [isBoundary, hstart]; rfl
    rw [hnot]
    exact iff_of_false (not_sound_fail _) (fun hb => by cases hb.1)
  | some p =>
    have hboundary : isBoundary text start = true := by rw [isBoundary, hstart]; rfl
    have hrest := cutAt_add (stop - start) hstart
    rw [Nat.add_sub_cancel' h] at hrest
    rw [and_iff_right hboundary, hrest, isBoundary]
    simp only [bind_some, if_pos h]
    cases hstop : cutAt p.2 (stop - start) with
    | none => exact iff_of_false (not_sound_fail _) (by decide)
    | some q => exact iff_of_true (sound_ok _) rfl

theorem valueIff_textRange {text : List Char} (h : start ≤ stop) :
    ValueIff (textRange text start stop : Guarded ε (List Char))
      (isBoundary text start = true ∧ isBoundary text stop = true) := by
  refine ⟨fun hboundary => ?_, (sound_textRange h).mp⟩
  have hsound : Sound (textRange text start stop : Guarded ε (List Char)) :=
    (sound_textRange h).mpr hboundary
  rw [textRange] at hsound ⊢
  cases hcut : (cutAt text start).bind fun p =>
      if start ≤ stop then cutAt p.2 (stop - start) else none with
  | none =>
    rw [hcut] at hsound
    exact absurd hsound (not_sound_fail _)
  | some p => exact ⟨p.1, rfl⟩

end Guarded
end GeneGIS
