/-
Where an operand is evaluated its fields have been collected, so properties that agree on the
collected names give one value.
-/
import GeneGIS.Toolkit.Expr

namespace GeneGIS.Toolkit.Expression

open List

variable {platform : Platform} {p q : Properties} {name : String}

theorem mem_dedup {l : List String} : name ∈ dedup l ↔ name ∈ l := by
  induction l with
  | nil => exact Iff.rfl
  | cons a rest ih =>
    cases rest with
    | nil => exact Iff.rfl
    | cons b rest =>
      rw [dedup]
      by_cases hab : a = b
      · rw [if_pos hab, ih, hab]
        simp
      · rw [if_neg hab, mem_cons, mem_cons, ih]

theorem mem_fields {e : Expr} : name ∈ fields e ↔ name ∈ collectFields e := by
  rw [fields, mem_dedup, mem_mergeSort]

/-- The properties have the same values under the names. -/
def AgreeOn (names : List String) (p q : Properties) : Prop := ∀ name ∈ names, p[name]? = q[name]?

theorem agreeOn_append {l m : List String} :
    AgreeOn (l ++ m) p q ↔ AgreeOn l p q ∧ AgreeOn m p q := by
  simp [AgreeOn, or_imp, forall_and]

mutual
theorem eval_agree : ∀ e : Expr, AgreeOn (collectFields e) p q →
    eval platform p e = eval platform q e
  | .literal _, _ => rfl
  | .field name, h => by
    rw [eval, eval, h name (by simp [collectFields])]
  | .unary .not e, h => by
    rw [eval, eval, eval_agree e h]
  | .unary .neg e, h => by
    rw [eval, eval, eval_agree e h]
  | .binary a op b, h => by
    rw [collectFields, agreeOn_append] at h
    have ha := eval_agree a h.1
    have hb := eval_agree b h.2
    cases op <;> rw [eval, eval, ha, hb] <;> simp
  | .inList e items negated, h => by
    rw [collectFields, agreeOn_append] at h
    rw [eval, eval, eval_agree e h.1]
    simp only [evalAny_agree _ items h.2]
  | .isNull e negated, h => by
    rw [eval, eval, eval_agree e h]
  | .like e pattern negated, h => by
    rw [collectFields, agreeOn_append] at h
    rw [eval, eval, eval_agree e h.1, eval_agree pattern h.2]
  | .call name args, h => by
    rw [eval, eval, evalAll_agree args h]

theorem evalAny_agree (value : Value) : ∀ items : List Expr, AgreeOn (collectAll items) p q →
    evalAny platform p value items = evalAny platform q value items
  | [], _ => rfl
  | item :: rest, h => by
    rw [collectAll, agreeOn_append] at h
    rw [evalAny, evalAny, eval_agree item h.1, evalAny_agree value rest h.2]

theorem evalAll_agree : ∀ args : List Expr, AgreeOn (collectAll args) p q →
    evalAll platform p args = evalAll platform q args
  | [], _ => rfl
  | arg :: rest, h => by
    rw [collectAll, agreeOn_append] at h
    rw [evalAll, evalAll, eval_agree arg h.1, evalAll_agree rest h.2]
end

/-! ## Known fields -/

/-- The result does not report an unknown field. -/
def Known {α : Type} (r : Except ToolkitError α) : Prop :=
  ∀ name, r ≠ err ("unknown field " ++ name)

theorem known_ok {α : Type} (a : α) : Known (.ok a : Except ToolkitError α) := by
  intro name h
  cases h

theorem Known.bind {α β : Type} {r : Except ToolkitError α} {f : α → Except ToolkitError β}
    (hr : Known r) (hf : ∀ a, Known (f a)) : Known (r >>= f) := by
  intro name h
  rcases Fallible.except_bind_error.mp h with h | ⟨a, -, h⟩
  · exact hr name h
  · exact hf a name h

theorem known_likeValue (value pattern : Value) (negated : Bool) :
    Known (likeValue platform value pattern negated) := by
  unfold likeValue
  split
  · exact known_ok _
  · split
    · exact known_ok _
    · intro name h
      have htext := congrArg String.toList (ToolkitError.expression.inj (Except.error.inj h))
      simp at htext

theorem known_ite {α : Type} {c : Prop} [Decidable c] {a : α} {r : Except ToolkitError α}
    (hr : Known r) : Known (if c then .ok a else r) := by
  by_cases hc : c
  · rw [if_pos hc]
    exact known_ok a
  · rw [if_neg hc]
    exact hr

theorem known_call (name : String) (args : List Value) : Known (call platform name args) := by
  unfold call
  dsimp only
  repeat refine known_ite ?_
  intro field h
  have htext := congrArg String.toList (ToolkitError.expression.inj (Except.error.inj h))
  simp at htext

mutual
theorem eval_known : ∀ e : Expr, (∀ name ∈ collectFields e, (p[name]?).isSome) →
    Known (eval platform p e)
  | .literal v, _ => by
    rw [eval]
    exact known_ok v
  | .field name, h => by
    obtain ⟨v, hv⟩ := Option.isSome_iff_exists.mp (h name (by simp [collectFields]))
    rw [eval, hv]
    exact known_ok v
  | .unary .not e, h => by
    rw [eval]
    exact (eval_known e h).bind fun _ => known_ok _
  | .unary .neg e, h => by
    rw [eval]
    refine (eval_known e h).bind fun v => ?_
    split
    · exact known_ok _
    · exact known_ok _
  | .binary a op b, h => by
    rw [collectFields, forall_mem_append] at h
    have ha := eval_known a h.1
    have hb := eval_known b h.2
    by_cases hand : op = .and
    · rw [hand, eval]
      refine ha.bind fun v => ?_
      split
      · exact hb.bind fun _ => known_ok _
      · exact known_ok _
    · by_cases hor : op = .or
      · rw [hor, eval]
        refine ha.bind fun v => ?_
        split
        · exact known_ok _
        · exact hb.bind fun _ => known_ok _
      · rw [eval]
        · exact ha.bind fun _ => hb.bind fun _ => known_ok _
        · exact hand
        · exact hor
  | .inList e items negated, h => by
    rw [collectFields, forall_mem_append] at h
    rw [eval]
    refine (eval_known e h.1).bind fun v => ?_
    split
    · exact known_ok _
    · exact (evalAny_known v items h.2).bind fun _ => known_ok _
  | .isNull e negated, h => by
    rw [eval]
    exact (eval_known e h).bind fun _ => known_ok _
  | .like e pattern negated, h => by
    rw [collectFields, forall_mem_append] at h
    rw [eval]
    exact (eval_known e h.1).bind fun v => (eval_known pattern h.2).bind fun w =>
      known_likeValue v w negated
  | .call name args, h => by
    rw [eval]
    exact (evalAll_known args h).bind fun values => known_call name values

theorem evalAny_known (value : Value) : ∀ items : List Expr,
    (∀ name ∈ collectAll items, (p[name]?).isSome) → Known (evalAny platform p value items)
  | [], _ => known_ok false
  | item :: rest, h => by
    rw [collectAll, forall_mem_append] at h
    rw [evalAny]
    refine (eval_known item h.1).bind fun v => ?_
    split
    · exact known_ok true
    · exact evalAny_known value rest h.2

theorem evalAll_known : ∀ args : List Expr,
    (∀ name ∈ collectAll args, (p[name]?).isSome) → Known (evalAll platform p args)
  | [], _ => known_ok []
  | arg :: rest, h => by
    rw [collectAll, forall_mem_append] at h
    rw [evalAll]
    exact (eval_known arg h.1).bind fun v => (evalAll_known rest h.2).bind fun _ => known_ok _
end

/-- The names that `fields` lists are all that a value depends on, and enough for it. -/
theorem eval_fields (platform : Platform) (e : Expr) :
    (∀ p q : Properties, AgreeOn (fields e) p q → eval platform p e = eval platform q e) ∧
    ∀ p : Properties, (∀ name ∈ fields e, (p[name]?).isSome) →
      ∀ name, eval platform p e ≠ err ("unknown field " ++ name) := by
  constructor
  · intro p q h
    exact eval_agree e fun name hname => h name (mem_fields.mpr hname)
  · intro p h
    exact eval_known e fun name hname => h name (mem_fields.mpr hname)

/-! A filter with an operand that is not always reached. -/

namespace Sample

/-- The functions that the sample does not call do nothing. -/
def plain : Platform :=
  { floatText := fun _ => "", sqrt := id, powi := fun x _ => x,
    lower := id, upper := id }

/-- `note IS NULL OR code IN (ward, 'a')` -/
def filter : Expr := .binary (.isNull (.field "note") false) .or
    (.inList (.field "code") [.field "ward", .literal (.str "a")] false)

def read : Properties :=
  ((∅ : Properties).insert "note" .null).insert "code" (.str "a") |>.insert "ward" (.str "b")

def properties (extra : Value) : Properties := read.insert "name" extra

theorem fields_filter : ∀ name ∈ fields filter, name = "note" ∨ name = "code" ∨ name = "ward" := by
  intro name hname
  have hcollected : name ∈ ["note", "code", "ward"] := mem_fields.mp hname
  simpa using hcollected

end Sample

theorem eval_fields_filter : eval Sample.plain (Sample.properties .null) Sample.filter =
      eval Sample.plain (Sample.properties (.str "x")) Sample.filter ∧
    eval Sample.plain (Sample.properties .null) Sample.filter ≠
      err ("unknown field " ++ "ward") := by
  constructor
  · refine (eval_fields Sample.plain Sample.filter).1 _ _ ?_
    intro name hname
    have hother : ¬ Ord.compare "name" name = .eq := by
      rcases Sample.fields_filter name hname with rfl | rfl | rfl <;> decide
    rw [Sample.properties, Sample.properties, Std.ExtTreeMap.getElem?_insert,
      Std.ExtTreeMap.getElem?_insert, if_neg hother, if_neg hother]
  · refine (eval_fields Sample.plain Sample.filter).2 _ ?_ "ward"
    intro name hname
    rcases Sample.fields_filter name hname with rfl | rfl | rfl <;>
      simp [Sample.properties, Sample.read]

end GeneGIS.Toolkit.Expression
