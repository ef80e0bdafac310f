/-
Whether an odd number of steps is marked does not depend on where the walk starts, nor on its
direction when a step and its reverse are marked alike.  A chord divides it.
-/
import Mathlib.Data.List.Basic

namespace GeneGIS.ClosedWalk

open List Bool

variable {α : Type} (f g : α → α → Bool)

/-- Whether an odd number of steps of a walk are marked. -/
def odd : List α → Bool
  | a :: b :: rest => f a b ^^ odd (b :: rest)
  | _ => false

/-- Whether an odd number of steps are marked when the walk goes back to its start. -/
def oddClosed : List α → Bool
  | [] => false
  | a :: rest => odd f (a :: rest ++ [a])

@[simp] theorem odd_pair (a b : α) : odd f [a, b] = f a b := xor_false _

theorem odd_append (a : α) (l m : List α) :
    odd f (l ++ a :: m) = (odd f (l ++ [a]) ^^ odd f (a :: m)) := by
  induction l with
  | nil => exact (false_xor _).symm
  | cons b l ih =>
    cases l with
    | nil =>
      rw [singleton_append, singleton_append, odd_pair]
      rfl
    | cons c l =>
      show (f b c ^^ odd f (c :: l ++ a :: m)) = ((f b c ^^ odd f (c :: l ++ [a])) ^^ _)
      rw [ih, xor_assoc]

theorem oddClosed_append (a b : α) (l m : List α) :
    oddClosed f (a :: l ++ b :: m) = (odd f (a :: l ++ [b]) ^^ odd f (b :: m ++ [a])) := by
  show odd f (a :: l ++ b :: m ++ [a]) = _
  rw [append_assoc]
  exact odd_append f b (a :: l) (m ++ [a])

/-- A closed walk may start anywhere. -/
theorem oddClosed_rotate (l m : List α) : oddClosed f (m ++ l) = oddClosed f (l ++ m) := by
  cases l with
  | nil => rw [append_nil, nil_append]
  | cons a l =>
    cases m with
    | nil => rw [append_nil, nil_append]
    | cons b m => rw [oddClosed_append, oddClosed_append, Bool.xor_comm]

variable {f g}

theorem odd_reverse (hf : ∀ a b, f a b = f b a) (l : List α) : odd f l.reverse = odd f l := by
  induction l with
  | nil => rfl
  | cons a l ih =>
    cases l with
    | nil => rfl
    | cons b l =>
      rw [reverse_cons, reverse_cons, append_assoc, singleton_append, odd_append, ← reverse_cons,
        ih, odd_pair, Bool.xor_comm, hf]
      rfl

theorem oddClosed_reverse (hf : ∀ a b, f a b = f b a) (l : List α) :
    oddClosed f l.reverse = oddClosed f l := by
  cases l with
  | nil => rfl
  | cons a l =>
    rw [reverse_cons, oddClosed_rotate, singleton_append]
    show odd f (a :: l.reverse ++ [a]) = odd f (a :: l ++ [a])
    rw [← odd_reverse hf (a :: l ++ [a])]
    simp

/-- A chord is a step of both halves. -/
theorem oddClosed_chord (hf : ∀ a b, f a b = f b a) (before between after : List α) (a b : α) :
    (oddClosed f (a :: between ++ [b]) ^^ oddClosed f (before ++ a :: b :: after)) =
      oddClosed f (before ++ a :: between ++ b :: after) := by
  have hwhole := oddClosed_rotate f (a :: between ++ b :: after) before
  have hrest := oddClosed_rotate f (a :: b :: after) before
  have hsplit : a :: b :: after ++ before = a :: [] ++ b :: (after ++ before) := rfl
  have hjoin : a :: between ++ b :: after ++ before = a :: between ++ b :: (after ++ before) := by
    simp
  rw [append_assoc before, hwhole, hrest, hsplit, hjoin, oddClosed_append, oddClosed_append,
    oddClosed_append, singleton_append, odd_pair, singleton_append, odd_pair, hf b a]
  cases odd f (a :: between ++ [b]) <;> cases f a b <;> simp

theorem odd_xor (l : List α) : odd (fun a b => f a b ^^ g a b) l = (odd f l ^^ odd g l) := by
  induction l with
  | nil => rfl
  | cons a l ih =>
    cases l with
    | nil => rfl
    | cons b l =>
      show ((f a b ^^ g a b) ^^ odd _ (b :: l)) = ((f a b ^^ odd f _) ^^ (g a b ^^ odd g _))
      rw [ih]
      cases f a b <;> cases g a b <;> simp

/-- The side of a line changes an even number of times on the way back. -/
theorem odd_side (side : α → Bool) (a : α) (l : List α) (b : α) :
    odd (fun u v => side u != side v) (a :: l ++ [b]) = (side a != side b) := by
  induction l generalizing a with
  | nil => exact odd_pair _ a b
  | cons c l ih =>
    show ((side a != side c) ^^ odd _ (c :: l ++ [b])) = _
    rw [ih]
    cases side a <;> cases side c <;> simp

theorem exists_step {l : List α} (h : odd f l = true) : ∃ a ∈ l, ∃ b ∈ l, f a b = true := by
  induction l with
  | nil => cases h
  | cons a l ih =>
    cases l with
    | nil => cases h
    | cons b l =>
      by_cases hab : f a b = true
      · exact ⟨a, mem_cons_self, b, mem_cons_of_mem _ mem_cons_self, hab⟩
      · have hrest : odd f (b :: l) = true := by
          rw [odd, not_eq_true _ |>.mp hab, false_xor] at h
          exact h
        obtain ⟨u, hu, v, hv, huv⟩ := ih hrest
        exact ⟨u, mem_cons_of_mem _ hu, v, mem_cons_of_mem _ hv, huv⟩

end GeneGIS.ClosedWalk
