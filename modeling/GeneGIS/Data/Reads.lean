/-
`Reads after m text a` says that `m` takes exactly `text` from the front and gives `a`, whatever
follows, as long as it satisfies `after`.
-/
import GeneGIS.Data.Fallible

namespace GeneGIS

open Fallible List

variable {ε τ α β : Type}

/-- The text is read and what follows is left. -/
def Reads (after : List τ → Prop) (m : Fallible ε (List τ) α) (text : List τ) (a : α) : Prop :=
  ∀ rest, after rest → m (text ++ rest) = .ok a rest

abbrev ReadsAll (m : Fallible ε (List τ) α) (text : List τ) (a : α) : Prop :=
  Reads (fun _ => True) m text a

namespace Fallible

def repeated (m : Fallible ε (List τ) α) : Nat → Fallible ε (List τ) (List α)
  | 0 => pure []
  | n + 1 => do
    let a ← m
    let others ← repeated m n
    return a :: others

end Fallible

namespace Reads

variable {after : List τ → Prop} {m m' : Fallible ε (List τ) α} {text text' : List τ} {a a' : α}

theorem pure (after : List τ → Prop) (a : α) :
    Reads after (Pure.pure a : Fallible ε (List τ) α) [] a :=
  fun _ _ => rfl

theorem bind {before : List τ → Prop} {f : α → Fallible ε (List τ) β} {b : β}
    (hm : Reads before m text a) (hf : Reads after (f a) text' b)
    (hnext : ∀ rest, after rest → before (text' ++ rest)) :
    Reads after (m >>= f) (text ++ text') b := by
  intro rest hrest
  rw [bind_apply, append_assoc, hm _ (hnext rest hrest)]
  exact hf rest hrest

theorem then_ {f : α → Fallible ε (List τ) β} {b : β} (hm : ReadsAll m text a)
    (hf : Reads after (f a) text' b) : Reads after (m >>= f) (text ++ text') b :=
  hm.bind hf fun _ _ => trivial

theorem map {f : α → β} (hm : Reads after m text a) :
    Reads after (m >>= fun a => Pure.pure (f a)) text (f a) := by
  intro rest hrest
  rw [bind_apply, hm rest hrest]
  rfl

theorem check {holds : Bool} {e : ε} {f : Unit → Fallible ε (List τ) α}
    (h : holds = true) (hf : Reads after (f ()) text a) :
    Reads after (Fallible.check holds e >>= f) text a := by
  intro rest hrest
  rw [bind_apply, Fallible.check, if_pos h]
  exact hf rest hrest

theorem repeated {write : β → List τ} {value : β → α} {l : List β}
    (h : ∀ b ∈ l, ReadsAll m (write b) (value b)) :
    ReadsAll (Fallible.repeated m l.length) (l.flatMap write) (l.map value) := by
  induction l with
  | nil => exact pure _ _
  | cons b rest ih =>
    have hfirst := h b mem_cons_self
    have hrest := ih fun c hc => h c (mem_cons_of_mem _ hc)
    exact hfirst.then_ hrest.map

end Reads

/-- The text is refused whatever follows. -/
def Refuses (after : List τ → Prop) (m : Fallible ε (List τ) α) (text : List τ) : Prop :=
  ∀ rest, after rest → ∃ e s, m (text ++ rest) = .error e s

/-- The text is read if it is good and refused if it is not. -/
structure Settles (after : List τ → Prop) (m : Fallible ε (List τ) α) (text : List τ)
    (good : Prop) (a : α) : Prop where
  reads : good → Reads after m text a
  refuses : ¬ good → Refuses after m text

namespace Refuses

variable {after : List τ → Prop} {m : Fallible ε (List τ) α} {text text' : List τ} {a : α}

theorem bind_left {before : List τ → Prop} {f : α → Fallible ε (List τ) β}
    (hm : Refuses before m text) (hnext : ∀ rest, after rest → before (text' ++ rest)) :
    Refuses after (m >>= f) (text ++ text') := by
  intro rest hrest
  obtain ⟨e, s, h⟩ := hm _ (hnext rest hrest)
  rw [bind_apply, append_assoc, h]
  exact ⟨e, s, rfl⟩

theorem bind_right {before : List τ → Prop} {f : α → Fallible ε (List τ) β}
    (hm : Reads before m text a) (hf : Refuses after (f a) text')
    (hnext : ∀ rest, after rest → before (text' ++ rest)) :
    Refuses after (m >>= f) (text ++ text') := by
  intro rest hrest
  rw [bind_apply, append_assoc, hm _ (hnext rest hrest)]
  exact hf rest hrest

end Refuses

namespace Settles

variable {after : List τ → Prop} {m : Fallible ε (List τ) α} {text text' : List τ} {a : α}
  {good good' : Prop}

theorem of_reads (h : Reads after m text a) : Settles after m text True a :=
  ⟨fun _ => h, fun hbad => absurd trivial hbad⟩

theorem congr (h : Settles after m text good a) (hgood : good' ↔ good) :
    Settles after m text good' a :=
  ⟨fun hg => h.reads (hgood.mp hg), fun hbad => h.refuses fun hg => hbad (hgood.mpr hg)⟩

theorem weaken {before : List τ → Prop} (h : Settles before m text good a)
    (hafter : ∀ rest, after rest → before rest) : Settles after m text good a :=
  ⟨fun hg rest hrest => h.reads hg rest (hafter rest hrest),
    fun hbad rest hrest => h.refuses hbad rest (hafter rest hrest)⟩

theorem bind {before : List τ → Prop} {f : α → Fallible ε (List τ) β} {b : β}
    (hm : Settles before m text good a) (hf : Settles after (f a) text' good' b)
    (hnext : ∀ rest, after rest → before (text' ++ rest)) :
    Settles after (m >>= f) (text ++ text') (good ∧ good') b := by
  constructor
  · intro hgood
    exact (hm.reads hgood.1).bind (hf.reads hgood.2) hnext
  · intro hbad
    by_cases hgood : good
    · exact .bind_right (hm.reads hgood) (hf.refuses fun h => hbad ⟨hgood, h⟩) hnext
    · exact .bind_left (hm.refuses hgood) hnext

theorem map {f : α → β} (hm : Settles after m text good a) :
    Settles after (m >>= fun a => Pure.pure (f a)) text good (f a) := by
  constructor
  · intro hgood
    exact (hm.reads hgood).map
  · intro hbad rest hrest
    obtain ⟨e, s, h⟩ := hm.refuses hbad rest hrest
    rw [bind_apply, h]
    exact ⟨e, s, rfl⟩

end Settles

end GeneGIS
