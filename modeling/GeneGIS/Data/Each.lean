/-
Running a partial function over a list pairs every element with its result.
-/
import GeneGIS.Data.Fallible
import Mathlib.Data.List.Forall2

namespace GeneGIS.Aligned

open List Option

variable {α β : Type} {R S : α → β → Prop} {l : List α} {l' : List β}

theorem mapM_eq_some {f : α → Option β} :
    l.mapM f = some l' ↔ Forall₂ (fun a b => f a = some b) l l' := by
  induction l generalizing l' with
  | nil =>
    rw [mapM_nil, forall₂_nil_left_iff]
    constructor
    · intro h
      exact (some.inj h).symm
    · intro h
      rw [h]
      rfl
  | cons a rest ih =>
    rw [mapM_cons, forall₂_cons_left_iff]
    constructor
    · intro h
      obtain ⟨b, hb, h⟩ := bind_eq_some_iff.mp h
      obtain ⟨r, hr, h⟩ := bind_eq_some_iff.mp h
      exact ⟨b, r, hb, ih.mp hr, (some.inj h).symm⟩
    · intro h
      obtain ⟨b, r, hb, hr, rfl⟩ := h
      exact bind_eq_some_iff.mpr ⟨b, hb, bind_eq_some_iff.mpr ⟨r, ih.mpr hr, rfl⟩⟩

theorem mapM_map {f : α → Option β} {g : β → α} (h : ∀ b, f (g b) = some b) (l : List β) :
    (l.map g).mapM f = some l := by
  rw [mapM_eq_some, forall₂_map_left_iff]
  exact forall₂_same.mpr fun b _ => h b

theorem exists_of_mem {a : α} (hR : Forall₂ R l l') (hS : Forall₂ S l l')
    (ha : a ∈ l) : ∃ b, R a b ∧ S a b := by
  induction hR with
  | nil => cases ha
  | cons hr _ ih =>
    cases hS with
    | cons hs hrest =>
      rcases mem_cons.mp ha with rfl | ha
      · exact ⟨_, hr, hs⟩
      · exact ih hrest ha

theorem imp_mem (hR : Forall₂ R l l') (h : ∀ a ∈ l, ∀ b, R a b → S a b) : Forall₂ S l l' := by
  induction hR with
  | nil => exact .nil
  | cons hr _ ih =>
    refine .cons (h _ mem_cons_self _ hr) (ih ?_)
    intro a ha
    exact h a (.tail _ ha)

end GeneGIS.Aligned

/-! ## Computations that may fail, over the elements of a list -/

namespace GeneGIS.Each

open List Fallible

variable {ε α β : Type} {l : List α} {l' : List β}

theorem forM_ok {f : α → Except ε Unit} {u : PUnit} : l.forM f = .ok u ↔ ∀ a ∈ l, f a = .ok () := by
  induction l with
  | nil =>
    refine iff_of_true ?_ (by simp)
    rfl
  | cons a rest ih =>
    show (f a >>= fun _ => rest.forM f) = .ok u ↔ _
    rw [bind_iff, forall_mem_cons, ← ih]
    constructor
    · intro h
      obtain ⟨_, ha, hrest⟩ := h
      exact ⟨ha, hrest⟩
    · intro h
      exact ⟨(), h⟩

theorem forM_error {f : α → Except ε Unit} {e : ε} (h : l.forM f = .error e) :
    ∃ a ∈ l, f a = .error e := by
  induction l with
  | nil => cases h
  | cons a rest ih =>
    change (f a >>= fun _ => rest.forM f) = .error e at h
    rcases except_bind_error.mp h with ha | ⟨_, -, hrest⟩
    · exact ⟨a, mem_cons_self, ha⟩
    · obtain ⟨b, hb, herror⟩ := ih hrest
      exact ⟨b, mem_cons_of_mem _ hb, herror⟩

variable {f : α → Except ε β}

theorem mapM_error {e : ε} (h : l.mapM f = .error e) : ∃ a ∈ l, f a = .error e := by
  induction l with
  | nil => cases h
  | cons a rest ih =>
    rw [mapM_cons] at h
    rcases except_bind_error.mp h with ha | ⟨b, -, h⟩
    · exact ⟨a, mem_cons_self, ha⟩
    · rcases except_bind_error.mp h with hrest | ⟨_, -, h⟩
      · obtain ⟨c, hc, herror⟩ := ih hrest
        exact ⟨c, mem_cons_of_mem _ hc, herror⟩
      · cases h

theorem mapM_ok : l.mapM f = .ok l' ↔ Forall₂ (fun a b => f a = .ok b) l l' := by
  induction l generalizing l' with
  | nil =>
    rw [forall₂_nil_left_iff]
    constructor
    · intro h
      exact (Except.ok.inj h).symm
    · intro h
      rw [h]
      rfl
  | cons a rest ih =>
    rw [mapM_cons, bind_iff, forall₂_cons_left_iff]
    simp only [bind_iff, ih]
    constructor
    · intro h
      obtain ⟨b, hb, others, hothers, hl⟩ := h
      exact ⟨b, others, hb, hothers, (Except.ok.inj hl).symm⟩
    · intro h
      obtain ⟨b, others, hb, hothers, rfl⟩ := h
      exact ⟨b, hb, others, hothers, rfl⟩

theorem exists_mapM (h : ∀ a ∈ l, ∃ b, f a = .ok b) : ∃ l', l.mapM f = .ok l' := by
  cases hl : l.mapM f with
  | ok l' => exact ⟨l', rfl⟩
  | error e =>
    obtain ⟨a, ha, herror⟩ := mapM_error hl
    obtain ⟨b, hb⟩ := h a ha
    rw [hb] at herror
    cases herror

variable {R : α → β → Prop}

theorem forall₂_map {γ : Type} {f : α → γ} {g : β → γ}
    (h : Forall₂ R l l') (heq : ∀ a b, R a b → g b = f a) : l'.map g = l.map f := by
  induction h with
  | nil => rfl
  | cons hab _ ih => rw [map_cons, map_cons, heq _ _ hab, ih]

theorem forall₂_right (h : Forall₂ R l l') {b : β} (hb : b ∈ l') : ∃ a ∈ l, R a b := by
  induction h with
  | nil => cases hb
  | cons hab _ ih =>
    rcases mem_cons.mp hb with rfl | hb
    · exact ⟨_, mem_cons_self, hab⟩
    · obtain ⟨a, ha, hR⟩ := ih hb
      exact ⟨a, mem_cons_of_mem _ ha, hR⟩

theorem forall₂_filterMap {f : α → Option β} :
    Forall₂ R l (l.filterMap f) ↔ ∀ a ∈ l, ∃ b, f a = some b ∧ R a b := by
  induction l with
  | nil => simp
  | cons a rest ih =>
    rw [forall_mem_cons, ← ih]
    cases hf : f a with
    | none =>
      rw [filterMap_cons_none hf]
      refine iff_of_false (fun h => ?_) (fun h => ?_)
      · have hlength := h.length_eq
        have hle := length_filterMap_le f rest
        rw [length_cons] at hlength
        omega
      · obtain ⟨⟨b, hb, -⟩, -⟩ := h
        cases hb
    | some b =>
      rw [filterMap_cons_some hf, forall₂_cons]
      simp

end GeneGIS.Each
