/-
A failure keeps the state reached so far.  `Atomic` says that it leaves the state as it was; a
program is so if it looks first and then changes, or changes a part that is atomic.
-/
import Mathlib.Tactic.Common

namespace GeneGIS

abbrev Fallible (ε σ α : Type) := EStateM ε σ α

namespace Fallible

variable {ε ε' σ τ α β : Type}

def lift (r : Except ε α) : Fallible ε σ α := fun s =>
  match r with
  | .ok a => .ok a s
  | .error e => .error e s

/-- Stop with an error unless a condition holds. -/
def check (holds : Bool) (e : ε) : Fallible ε σ Unit := fun s =>
  if holds then .ok () s else .error e s

def mapError (f : ε → ε') (m : Fallible ε σ α) : Fallible ε' σ α := fun s =>
  match m s with
  | .ok a s' => .ok a s'
  | .error e s' => .error (f e) s'

/-- Run on a part of the state and put the part back, whether it failed or not. -/
def zoom (view : σ → τ) (put : σ → τ → σ) (m : Fallible ε τ α) : Fallible ε σ α := fun s =>
  match m (view s) with
  | .ok a t => .ok a (put s t)
  | .error e t => .error e (put s t)

/-- The state a program leaves, whether it failed or not. -/
def after (m : Fallible ε σ α) (s : σ) : σ :=
  match m s with
  | .ok _ s' => s'
  | .error _ s' => s'

/-- Run on the first element that satisfies `p`. -/
def onFirst (p : τ → Bool) (missing : ε) (m : Fallible ε τ α) : Fallible ε (List τ) α
  | [] => .error missing []
  | x :: rest =>
    if p x then
      match m x with
      | .ok a x' => .ok a (x' :: rest)
      | .error e x' => .error e (x' :: rest)
    else
      match onFirst p missing m rest with
      | .ok a rest' => .ok a (x :: rest')
      | .error e rest' => .error e (x :: rest')

theorem bind_apply (m : Fallible ε σ α) (f : α → Fallible ε σ β) (s : σ) : (m >>= f) s =
      match m s with
      | .ok a s' => f a s'
      | .error e s' => .error e s' := by
  show EStateM.bind m f s = _
  rw [EStateM.bind]
  cases m s <;> rfl

variable {m : Fallible ε σ α} {s s' : σ} {a : α}

theorem after_ok (h : m s = .ok a s') : after m s = s' := by
  rw [after, h]

variable {e : ε}

theorem after_error (h : m s = .error e s') : after m s = s' := by
  rw [after, h]

/-! ## Success -/

variable {x : Except ε α} {f : α → Except ε β}

theorem bind_iff {b : β} : (x >>= f) = .ok b ↔ ∃ a, x = .ok a ∧ f a = .ok b := by
  cases x with
  | ok a =>
    show f a = .ok b ↔ _
    simp
  | error e =>
    show Except.error e = .ok b ↔ _
    simp

theorem then_ok {b : β} (hx : x = .ok a) (hf : f a = .ok b) : (x >>= f) = .ok b :=
  bind_iff.mpr ⟨a, hx, hf⟩

theorem except_bind_error :
    (x >>= f) = .error e ↔ x = .error e ∨ ∃ a, x = .ok a ∧ f a = .error e := by
  cases x with
  | ok a =>
    show f a = .error e ↔ _
    simp
  | error e' =>
    show Except.error e' = .error e ↔ _
    simp

theorem except_bind_of_ok (h : x = .ok a) : (x >>= f) = f a := by
  rw [h]
  rfl

theorem except_guard_ok {holds : Bool} {u : Unit} :
    (if holds then .ok () else .error e : Except ε Unit) = .ok u ↔ holds = true := by
  cases holds with
  | true => exact iff_of_true rfl rfl
  | false => exact iff_of_false nofun (by decide)

theorem except_refuse_ok {failed : Bool} {u : Unit} :
    (if failed then .error e else .ok () : Except ε Unit) = .ok u ↔ failed = false := by
  cases failed with
  | true => exact iff_of_false nofun (by decide)
  | false => exact iff_of_true rfl rfl

theorem mapError_iff {f : ε → ε'} : x.mapError f = .ok a ↔ x = .ok a := by
  cases x <;> simp [Except.mapError]

variable {f : α → Fallible ε σ β}

theorem bind_ok {b : β} : (m >>= f) s = .ok b s' ↔ ∃ a s₁, m s = .ok a s₁ ∧ f a s₁ = .ok b s' := by
  show EStateM.bind m f s = .ok b s' ↔ _
  rw [EStateM.bind]
  cases m s with
  | ok a s₁ => simp
  | error e s₁ => simp

@[simp] theorem pure_ok {a b : α} : (pure a : Fallible ε σ α) s = .ok b s' ↔ a = b ∧ s = s' := by
  show EStateM.Result.ok a s = .ok b s' ↔ _
  simp

@[simp] theorem lift_ok {r : Except ε α} : lift r s = .ok a s' ↔ r = .ok a ∧ s = s' := by
  cases r <;> simp [lift]

@[simp] theorem check_ok {holds : Bool} {u : Unit} :
    check holds e s = .ok u s' ↔ holds = true ∧ s = s' := by
  cases holds <;> simp [check]

@[simp] theorem get_ok {a s s' : σ} : (get : Fallible ε σ σ) s = .ok a s' ↔ s = a ∧ s = s' := by
  show EStateM.Result.ok s s = .ok a s' ↔ _
  simp

@[simp] theorem modify_ok {f : σ → σ} {u : PUnit} :
    (modify f : Fallible ε σ PUnit) s = .ok u s' ↔ f s = s' := by
  show EStateM.Result.ok PUnit.unit (f s) = .ok u s' ↔ _
  simp

theorem lift_bind_ok {r : Except ε α} {b : β} :
    (lift r >>= f) s = .ok b s' ↔ ∃ a, r = .ok a ∧ f a s = .ok b s' := by
  cases r <;> simp [bind_ok]

theorem get_bind_ok {f : σ → Fallible ε σ β} {b : β} :
    (get >>= f) s = .ok b s' ↔ f s s = .ok b s' :=
  Iff.rfl

@[simp] theorem set_ok {t s s' : σ} {u : PUnit} :
    (set t : Fallible ε σ PUnit) s = .ok u s' ↔ t = s' := by
  show EStateM.Result.ok PUnit.unit t = .ok u s' ↔ _
  simp

@[simp] theorem throw_ok : (throw e : Fallible ε σ α) s = .ok a s' ↔ False := by
  show EStateM.Result.error e s = .ok a s' ↔ _
  simp

@[simp] theorem mapError_ok {f : ε → ε'} : mapError f m s = .ok a s' ↔ m s = .ok a s' := by
  rw [mapError]
  cases m s <;> simp

theorem zoom_ok {view : σ → τ} {put : σ → τ → σ} {m : Fallible ε τ α} :
    zoom view put m s = .ok a s' ↔ ∃ t, m (view s) = .ok a t ∧ put s t = s' := by
  rw [zoom]
  cases m (view s) <;> simp

theorem onFirst_ok {p : τ → Bool} {missing : ε} {m : Fallible ε τ α} {l l' : List τ} :
    onFirst p missing m l = .ok a l' ↔
      ∃ before x x' after, l = before ++ x :: after ∧ (∀ y ∈ before, p y = false) ∧
        p x = true ∧ m x = .ok a x' ∧ l' = before ++ x' :: after := by
  induction l generalizing l' with
  | nil => simp [onFirst]
  | cons y rest ih =>
    rw [onFirst]
    by_cases hy : p y = true
    · constructor
      · intro h
        rw [if_pos hy] at h
        cases hm : m y with
        | ok b y' =>
          rw [hm] at h
          simp only [EStateM.Result.ok.injEq] at h
          exact ⟨[], y, y', rest, rfl, by simp, hy, by rw [hm, h.1], h.2.symm⟩
        | error e y' => simp [hm] at h
      · rintro ⟨before, x, x', after, hl, hbefore, hx, hm, rfl⟩
        cases before with
        | nil =>
          obtain ⟨rfl, rfl⟩ := List.cons.inj hl
          simp [hx, hm]
        | cons z before =>
          obtain ⟨rfl, -⟩ := List.cons.inj hl
          simp [hbefore y (by simp)] at hy
    · constructor
      · intro h
        rw [if_neg hy] at h
        cases hr : onFirst p missing m rest with
        | ok b rest' =>
          rw [hr] at h
          simp only [EStateM.Result.ok.injEq] at h
          obtain ⟨rfl, rfl⟩ := h
          obtain ⟨before, x, x', after, rfl, hbefore, hx, hm, rfl⟩ := ih.mp hr
          refine ⟨y :: before, x, x', after, rfl, ?_, hx, hm, rfl⟩
          simpa using ⟨by simpa using hy, hbefore⟩
        | error e rest' => simp [hr] at h
      · rintro ⟨before, x, x', after, hl, hbefore, hx, hm, rfl⟩
        cases before with
        | nil =>
          obtain ⟨rfl, rfl⟩ := List.cons.inj hl
          exact absurd hx hy
        | cons z before =>
          rw [List.cons_append, List.cons.injEq] at hl
          obtain ⟨rfl, rfl⟩ := hl
          have hrest := ih.mpr ⟨before, x, x', after, rfl,
            fun w hw => hbefore w (by simp [hw]), hx, hm, rfl⟩
          simp [hy, hrest]

/-! ## Atomicity -/

def Atomic (m : Fallible ε σ α) : Prop := ∀ s e s', m s = .error e s' → s' = s

/-- The program does not change the state. -/
def Observes (m : Fallible ε σ α) : Prop := Atomic m ∧ ∀ s a s', m s = .ok a s' → s' = s

/-- The program cannot fail. -/
def Total (m : Fallible ε σ α) : Prop := ∀ s e s', m s ≠ .error e s'

theorem Total.atomic (h : Total m) : Atomic m := fun s e s' he => absurd he (h s e s')

theorem bind_error (h : (m >>= f) s = .error e s') :
    m s = .error e s' ∨ ∃ a s₁, m s = .ok a s₁ ∧ f a s₁ = .error e s' := by
  change EStateM.bind m f s = .error e s' at h
  rw [EStateM.bind] at h
  cases hm : m s with
  | ok a s₁ =>
    rw [hm] at h
    exact .inr ⟨a, s₁, rfl, h⟩
  | error e₁ s₁ =>
    rw [hm] at h
    simp only [EStateM.Result.error.injEq] at h
    exact .inl (by rw [h.1, h.2])

theorem Observes.bind (hm : Observes m) (hf : ∀ a, Atomic (f a)) : Atomic (m >>= f) := by
  intro s e s' h
  rcases bind_error h with h | ⟨a, s₁, hok, h⟩
  · exact hm.1 s e s' h
  · have hs := hm.2 s a s₁ hok
    rw [hf a s₁ e s' h, hs]

theorem Atomic.bind (hm : Atomic m) (hf : ∀ a, Total (f a)) : Atomic (m >>= f) := by
  intro s e s' h
  rcases bind_error h with h | ⟨a, s₁, -, h⟩
  · exact hm s e s' h
  · exact absurd h (hf a s₁ e s')

theorem Total.bind (hm : Total m) (hf : ∀ a, Total (f a)) : Total (m >>= f) := by
  intro s e s' h
  rcases bind_error h with h | ⟨a, s₁, -, h⟩
  · exact hm s e s' h
  · exact hf a s₁ e s' h

theorem observes_lift (r : Except ε α) : Observes (lift r : Fallible ε σ α) := by
  refine ⟨fun s e s' h => ?_, fun s a s' h => (lift_ok.mp h).2.symm⟩
  cases r with
  | ok a => cases h
  | error e₁ => exact (EStateM.Result.error.inj h).2.symm

theorem observes_check (holds : Bool) (e : ε) : Observes (check holds e : Fallible ε σ Unit) := by
  refine ⟨fun s e s' h => ?_, fun s a s' h => (check_ok.mp h).2.symm⟩
  cases holds with
  | true => cases h
  | false => exact (EStateM.Result.error.inj h).2.symm

theorem observes_get : Observes (get : Fallible ε σ σ) := by
  refine ⟨fun s e s' h => ?_, fun s a s' h => (get_ok.mp h).2.symm⟩
  cases h

theorem total_get : Total (get : Fallible ε σ σ) := fun s e s' h => by cases h

theorem total_pure (a : α) : Total (pure a : Fallible ε σ α) := fun s e s' h => by cases h

theorem total_modify (f : σ → σ) : Total (modify f : Fallible ε σ PUnit) :=
  fun s e s' h => by cases h

theorem total_set (t : σ) : Total (set t : Fallible ε σ PUnit) := fun s e s' h => by cases h

theorem atomic_throw (e : ε) : Atomic (throw e : Fallible ε σ α) :=
  fun _ _ _ h => (EStateM.Result.error.inj h).2.symm

theorem Atomic.mapError {f : ε → ε'} (hm : Atomic m) : Atomic (mapError f m) := by
  intro s e s' h
  rw [Fallible.mapError] at h
  cases hs : m s with
  | ok a s₁ => simp [hs] at h
  | error e₁ s₁ =>
    simp only [hs, EStateM.Result.error.injEq] at h
    rw [← h.2, hm s e₁ s₁ hs]

theorem Atomic.zoom {view : σ → τ} {put : σ → τ → σ} {m : Fallible ε τ α} (hm : Atomic m)
    (hput : ∀ s, put s (view s) = s) : Atomic (zoom view put m) := by
  intro s e s' h
  rw [Fallible.zoom] at h
  cases ht : m (view s) with
  | ok a t => simp [ht] at h
  | error e₁ t =>
    simp only [ht, EStateM.Result.error.injEq] at h
    rw [← h.2, hm _ e₁ t ht, hput]

theorem Atomic.onFirst {p : τ → Bool} {missing : ε} {m : Fallible ε τ α} (hm : Atomic m) :
    Atomic (onFirst p missing m) := by
  intro l
  induction l with
  | nil =>
    intro e l' h
    simp only [Fallible.onFirst, EStateM.Result.error.injEq] at h
    exact h.2.symm
  | cons x rest ih =>
    intro e l' h
    rw [Fallible.onFirst] at h
    by_cases hx : p x = true
    · rw [if_pos hx] at h
      cases ht : m x with
      | ok a t => simp [ht] at h
      | error e₁ t =>
        simp only [ht, EStateM.Result.error.injEq] at h
        rw [← h.2, hm x e₁ t ht]
    · rw [if_neg hx] at h
      cases ht : Fallible.onFirst p missing m rest with
      | ok a t => simp [ht] at h
      | error e₁ t =>
        simp only [ht, EStateM.Result.error.injEq] at h
        rw [← h.2, ih e₁ t ht]

end Fallible
end GeneGIS

/-! ## What a run leaves, whether it succeeds or fails

`Ends m s good bad` says of the run of a program from a state that it satisfies `good` with its
value and state when it succeeds, and `bad` with its error and state when it fails.
-/

namespace GeneGIS.Fallible

variable {ε ε' σ τ α β : Type}

def Ends (m : Fallible ε σ α) (s : σ) (good : α → σ → Prop) (bad : ε → σ → Prop) : Prop :=
  match m s with
  | .ok a s' => good a s'
  | .error e s' => bad e s'

namespace Ends

variable {m : Fallible ε σ α} {s : σ} {good good' : α → σ → Prop} {bad bad' : ε → σ → Prop}

theorem mono (h : Ends m s good bad) (hgood : ∀ a s', good a s' → good' a s')
    (hbad : ∀ e s', bad e s' → bad' e s') : Ends m s good' bad' := by
  rw [Ends] at h ⊢
  cases hm : m s with
  | ok a s' =>
    rw [hm] at h
    exact hgood a s' h
  | error e s' =>
    rw [hm] at h
    exact hbad e s' h

theorem pure {a : α} (h : good a s) : Ends (Pure.pure a) s good bad := h

theorem throw {e : ε} (h : bad e s) : Ends (throw e) s good bad := h

theorem bind (good : α → σ → Prop) {f : α → Fallible ε σ β} {after : β → σ → Prop}
    (hm : Ends m s good bad) (hf : ∀ a s', good a s' → Ends (f a) s' after bad) :
    Ends (m >>= f) s after bad := by
  rw [Ends] at hm ⊢
  rw [bind_apply]
  cases hrun : m s with
  | ok a s' =>
    rw [hrun] at hm
    exact hf a s' hm
  | error e s' =>
    rw [hrun] at hm
    exact hm

theorem get {bad : ε → σ → Prop} :
    Ends (MonadState.get : Fallible ε σ σ) s (fun a s' => a = s ∧ s' = s) bad := ⟨rfl, rfl⟩

theorem modify {f : σ → σ} {bad : ε → σ → Prop} :
    Ends (modify f : Fallible ε σ PUnit) s (fun _ s' => s' = f s) bad := rfl

theorem lift {r : Except ε α} (hgood : ∀ a, r = .ok a → good a s)
    (hbad : ∀ e, r = .error e → bad e s) : Ends (Fallible.lift r) s good bad := by
  cases r with
  | ok a => exact hgood a rfl
  | error e => exact hbad e rfl

theorem zoom {view : σ → τ} {put : σ → τ → σ} {inner : Fallible ε τ α}
    (hgood : ∀ a t, good a (put s t))
    (hbad : ∀ e t, inner (view s) = .error e t → bad e (put s t)) :
    Ends (Fallible.zoom view put inner) s good bad := by
  rw [Ends, Fallible.zoom]
  cases hrun : inner (view s) with
  | ok a t => exact hgood a t
  | error e t => exact hbad e t hrun

end Ends
end GeneGIS.Fallible
