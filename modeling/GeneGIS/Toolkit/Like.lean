/-
`%` stands for any text and `_` for one character.  The matcher tries to end a `%` at once and
otherwise takes one character more (`like_iff`).
-/
import GeneGIS.Toolkit.Expr

namespace GeneGIS.Toolkit.Expression

def like (text pattern : String) : Bool := likeGo text.toList pattern.toList

/-- The texts a pattern stands for. -/
inductive Matches : List Char → List Char → Prop where
  | done : Matches [] []
  | any (skipped : List Char) {t p : List Char} (rest : Matches t p) :
      Matches (skipped ++ t) ('%' :: p)
  | one (c : Char) {t p : List Char} (rest : Matches t p) : Matches (c :: t) ('_' :: p)
  | same {c : Char} {t p : List Char} (hany : c ≠ '%') (hone : c ≠ '_') (rest : Matches t p) :
      Matches (c :: t) (c :: p)

namespace Matches

theorem longer {t p : List Char} (c : Char) (h : Matches t ('%' :: p)) :
    Matches (c :: t) ('%' :: p) := by
  cases h with
  | any skipped rest => exact any (c :: skipped) rest
  | same hany _ _ => exact absurd rfl hany

theorem eq_nil {t : List Char} (h : Matches t []) : t = [] := by
  generalize hpattern : ([] : List Char) = pattern at h
  cases h with
  | done => rfl
  | any => cases hpattern
  | one => cases hpattern
  | same => cases hpattern

theorem any_cases {t p : List Char} (h : Matches t ('%' :: p)) :
    Matches t p ∨ ∃ c rest, t = c :: rest ∧ Matches rest ('%' :: p) := by
  cases h with
  | any skipped rest =>
    cases skipped with
    | nil => exact .inl rest
    | cons c more => exact .inr ⟨c, more ++ _, rfl, any more rest⟩
  | same hany _ _ => exact absurd rfl hany

theorem head_cases {c d : Char} {t p : List Char} (hany : d ≠ '%')
    (h : Matches (c :: t) (d :: p)) : (d = '_' ∨ d = c) ∧ Matches t p := by
  generalize htext : c :: t = text at h
  cases h with
  | any => exact absurd rfl hany
  | one e rest =>
    cases htext
    exact ⟨.inl rfl, rest⟩
  | same _ _ rest =>
    cases htext
    exact ⟨.inr rfl, rest⟩

end Matches

theorem likeGo_iff (t p : List Char) : likeGo t p = true ↔ Matches t p := by
  fun_induction likeGo t p with
  | case1 => exact ⟨fun _ => .done, fun _ => rfl⟩
  | case2 c t => exact ⟨fun h => (nomatch h), fun h => absurd h.eq_nil (List.cons_ne_nil c t)⟩
  | case3 t p ih ihmore =>
    rw [Bool.or_eq_true, ih]
    constructor
    · intro h
      rcases h with h | h
      · exact .any [] h
      · cases t with
        | nil => cases h
        | cons c t => exact (ihmore.mp h).longer c
    · intro h
      rcases h.any_cases with hend | ⟨c, rest, rfl, hmore⟩
      · exact .inl hend
      · exact .inr (ihmore.mpr hmore)
  | case4 pc p hany =>
    constructor
    · exact fun h => (nomatch h)
    · intro h
      generalize htext : ([] : List Char) = text at h
      cases h with
      | any => exact absurd rfl hany
      | one => cases htext
      | same => cases htext
  | case5 c t d p hany hhead ih =>
    rw [ih]
    constructor
    · intro h
      rcases hhead with rfl | rfl
      · exact .one c h
      · by_cases hone : d = '_'
        · subst hone
          exact .one '_' h
        · exact .same hany hone h
    · exact fun h => (h.head_cases hany).2
  | case6 c t d p hany hhead =>
    constructor
    · exact fun h => (nomatch h)
    · exact fun h => absurd (h.head_cases hany).1 hhead

/-- `LIKE` holds exactly when the text matches the pattern. -/
theorem like_iff (text pattern : String) :
    like text pattern = true ↔ Matches text.toList pattern.toList :=
  likeGo_iff text.toList pattern.toList

end GeneGIS.Toolkit.Expression
