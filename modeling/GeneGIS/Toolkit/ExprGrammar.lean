/-
`Derives` is the grammar that the levels of the parser declare, and the parser returns an
expression exactly when the tokens derive it.
-/
import GeneGIS.Toolkit.ExprParse

namespace GeneGIS.Toolkit.Expression

open List Fallible Prod

/-! ## The grammar -/

/-- The levels of precedence, from the loosest. -/
inductive Level where
  | or
  | and
  | not
  | comparison
  | additive
  | multiplicative
  | unary
  | primary
  deriving DecidableEq

namespace Level

def next : Level → Level
  | .or => .and
  | .and => .not
  | .not => .comparison
  | .comparison => .additive
  | .additive => .multiplicative
  | .multiplicative => .unary
  | .unary => .primary
  | .primary => .primary

/-- The operators of the level that associate to the left. -/
def operator : Level → Tok → Option BinaryOp
  | .or => orOp
  | .and => andOp
  | .additive => additiveOp
  | .multiplicative => multiplicativeOp
  | _ => fun _ => none

end Level

/-- The word `NOT` where it may stand before `IN` and `LIKE`. -/
def Negation (negated : Bool) (tokens : List Tok) : Prop :=
  if negated then ∃ token, isWord "NOT" token = true ∧ tokens = [token] else tokens = []

def separated : List (List Tok) → List Tok
  | [] => []
  | [item] => item
  | item :: rest => item ++ .comma :: separated rest

inductive Derives : Level → List Tok → Expr → Prop
  | binary {level : Level} {left right : List Tok} {token : Tok} {op : BinaryOp} {l r : Expr}
      (hop : level.operator token = some op) (hl : Derives level left l)
      (hr : Derives level.next right r) : Derives level (left ++ token :: right) (.binary l op r)
  | tighter {level : Level} {tokens : List Tok} {e : Expr} (hlevel : level ≠ .primary)
      (hnot : level = .not → keyword "NOT" tokens = false) (h : Derives level.next tokens e) :
      Derives level tokens e
  | not {token : Tok} {tokens : List Tok} {e : Expr} (hword : isWord "NOT" token = true)
      (h : Derives .not tokens e) : Derives .not (token :: tokens) (.unary .not e)
  | comparison {left right : List Tok} {token : Tok} {op : BinaryOp} {l r : Expr}
      (hop : comparisonOp token = some op) (hl : Derives .additive left l)
      (hr : Derives .additive right r) :
      Derives .comparison (left ++ token :: right) (.binary l op r)
  | isNull {left negation : List Tok} {word null : Tok} {e : Expr} {negated : Bool}
      (h : Derives .additive left e) (hword : isWord "IS" word = true)
      (hnegation : Negation negated negation) (hnull : isWord "NULL" null = true) :
      Derives .comparison (left ++ word :: (negation ++ [null])) (.isNull e negated)
  | inList {left negation : List Tok} {word : Tok} {e : Expr} {negated : Bool}
      {items : List (List Tok × Expr)} (h : Derives .additive left e)
      (hnegation : Negation negated negation) (hword : isWord "IN" word = true)
      (hne : items ≠ []) (hitems : ∀ item ∈ items, Derives .additive item.1 item.2) :
      Derives .comparison
        (left ++ (negation ++
          word :: .openParen :: (separated (items.map Prod.fst) ++ [.closeParen])))
        (.inList e (items.map Prod.snd) negated)
  | like {left negation right : List Tok} {word : Tok} {e pattern : Expr} {negated : Bool}
      (h : Derives .additive left e) (hnegation : Negation negated negation)
      (hword : isWord "LIKE" word = true) (hpattern : Derives .additive right pattern) :
      Derives .comparison (left ++ (negation ++ word :: right)) (.like e pattern negated)
  | neg {tokens : List Tok} {e : Expr} (h : Derives .unary tokens e) :
      Derives .unary (.op "-" :: tokens) (.unary .neg e)
  | num (n : F64) : Derives .primary [.num n] (.literal (number n))
  | str (s : String) : Derives .primary [.str s] (.literal (.str s))
  | quoted (name : String) : Derives .primary [.quoted name] (.field name)
  | constant {word : String} {v : Value} (h : constant word = some v) :
      Derives .primary [.ident word] (.literal v)
  | field {word : String} (h : constant word = none) : Derives .primary [.ident word] (.field word)
  | paren {tokens : List Tok} {e : Expr} (h : Derives .or tokens e) :
      Derives .primary (.openParen :: (tokens ++ [.closeParen])) e
  | call {word : String} {args : List (List Tok × Expr)} (h : constant word = none)
      (hargs : ∀ arg ∈ args, Derives .or arg.1 arg.2) :
      Derives .primary
        (.ident word :: .openParen :: (separated (args.map Prod.fst) ++ [.closeParen]))
        (.call (Text.toAsciiLowercase word) (args.map Prod.snd))

theorem Derives.head {level : Level} {tokens : List Tok} {e : Expr} (h : Derives level tokens e) :
    ∃ token rest, tokens = token :: rest ∧ token ≠ .closeParen := by
  induction h with
  | binary _ _ _ ih _ =>
    obtain ⟨token, rest, rfl, hne⟩ := ih
    exact ⟨token, _, rfl, hne⟩
  | tighter _ _ _ ih => exact ih
  | not hword _ _ =>
    refine ⟨_, _, rfl, ?_⟩
    intro heq
    rw [heq] at hword
    cases hword
  | comparison _ _ _ ih _ =>
    obtain ⟨token, rest, rfl, hne⟩ := ih
    exact ⟨token, _, rfl, hne⟩
  | isNull _ _ _ _ ih =>
    obtain ⟨token, rest, rfl, hne⟩ := ih
    exact ⟨token, _, rfl, hne⟩
  | inList _ _ _ _ _ ih _ =>
    obtain ⟨token, rest, rfl, hne⟩ := ih
    exact ⟨token, _, rfl, hne⟩
  | like _ _ _ _ ih _ =>
    obtain ⟨token, rest, rfl, hne⟩ := ih
    exact ⟨token, _, rfl, hne⟩
  | neg _ _ => exact ⟨_, _, rfl, nofun⟩
  | num _ => exact ⟨_, _, rfl, nofun⟩
  | str _ => exact ⟨_, _, rfl, nofun⟩
  | quoted _ => exact ⟨_, _, rfl, nofun⟩
  | constant _ => exact ⟨_, _, rfl, nofun⟩
  | field _ => exact ⟨_, _, rfl, nofun⟩
  | paren _ _ => exact ⟨_, _, rfl, nofun⟩
  | call _ _ _ => exact ⟨_, _, rfl, nofun⟩

/-! ## Reading derives -/

variable {debug : Tok → String} {inner : Parse} {level : Level} {tokens rest : List Tok} {e : Expr}

/-- What the parser reads at a level derives what it returns. -/
def Sound (level : Level) (p : Parse) : Prop :=
  ∀ tokens e rest, p tokens = .ok (e, rest) → ∃ used, tokens = used ++ rest ∧ Derives level used e

theorem err_ne {α : Type} {reason : String} {a : α} : err reason ≠ .ok a := by
  nofun

variable {left : Expr} {leftTokens : List Tok}

theorem sound_chain {operand : Parse} (hop : Sound level.next operand) (rounds : Nat)
    (hleft : Derives level leftTokens left)
    (h : chain level.operator operand rounds left tokens = .ok (e, rest)) :
    ∃ used, tokens = used ++ rest ∧ Derives level (leftTokens ++ used) e := by
  induction rounds generalizing left leftTokens tokens with
  | zero =>
    cases h
    exact ⟨[], rfl, by simpa using hleft⟩
  | succ rounds ih =>
    cases tokens with
    | nil =>
      cases h
      exact ⟨[], rfl, by simpa using hleft⟩
    | cons token tail =>
      rw [chain] at h
      cases hoperator : level.operator token with
      | none =>
        rw [hoperator] at h
        cases h
        exact ⟨[], rfl, by simpa using hleft⟩
      | some op =>
        rw [hoperator] at h
        obtain ⟨⟨right, after⟩, hright, hloop⟩ := bind_iff.mp h
        obtain ⟨rightTokens, rfl, hr⟩ := hop _ _ _ hright
        obtain ⟨used, rfl, hused⟩ := ih (.binary hoperator hleft hr) hloop
        refine ⟨token :: (rightTokens ++ used), by simp, ?_⟩
        simpa using hused

theorem sound_leftAssociative {operand : Parse} (hop : Sound level.next operand)
    (hlevel : level ≠ .primary) (hnot : level ≠ .not) :
    Sound level (leftAssociative level.operator operand) := by
  intro tokens e rest h
  obtain ⟨⟨left, after⟩, hleft, hloop⟩ := bind_iff.mp h
  obtain ⟨leftTokens, rfl, hl⟩ := hop _ _ _ hleft
  obtain ⟨used, rfl, hused⟩ :=
    sound_chain hop _ (.tighter hlevel (fun heq => absurd heq hnot) hl) hloop
  exact ⟨leftTokens ++ used, by simp, hused⟩

theorem sound_moreItems {item : Parse} (hitem : Sound level item) (rounds : Nat)
    {done items : List Expr} (h : moreItems item rounds done tokens = .ok (items, rest)) :
    ∃ more : List (List Tok × Expr), (∀ m ∈ more, Derives level m.1 m.2) ∧
      items = done ++ more.map Prod.snd ∧
      tokens = more.flatMap (fun m => .comma :: m.1) ++ rest := by
  induction rounds generalizing done tokens with
  | zero =>
    cases h
    exact ⟨[], by simp, by simp, rfl⟩
  | succ rounds ih =>
    rw [moreItems] at h
    by_cases hcomma : tokens.head? = some .comma
    · rw [if_pos hcomma] at h
      obtain ⟨⟨next, after⟩, hnext, hloop⟩ := bind_iff.mp h
      obtain ⟨used, htail, hused⟩ := hitem _ _ _ hnext
      obtain ⟨more, hmore, rfl, rfl⟩ := ih hloop
      refine ⟨(used, next) :: more, ?_, by simp, ?_⟩
      · intro m hm
        rcases mem_cons.mp hm with rfl | hm
        · exact hused
        · exact hmore m hm
      · rw [← cons_head?_tail hcomma, htail]
        simp
    · rw [if_neg hcomma] at h
      cases h
      exact ⟨[], by simp, by simp, rfl⟩

theorem separated_cons (first : List Tok) (more : List (List Tok)) :
    separated (first :: more) = first ++ more.flatMap fun m => .comma :: m := by
  induction more generalizing first with
  | nil => simp [separated]
  | cons second rest ih =>
    rw [separated, ih]
    · simp
    · simp

theorem sound_parseItems {item : Parse} (hitem : Sound level item) {items : List Expr}
    (h : parseItems item tokens = .ok (items, rest)) :
    ∃ parts : List (List Tok × Expr), parts ≠ [] ∧ (∀ m ∈ parts, Derives level m.1 m.2) ∧
      items = parts.map Prod.snd ∧ tokens = separated (parts.map Prod.fst) ++ rest := by
  obtain ⟨⟨first, after⟩, hfirst, hloop⟩ := bind_iff.mp h
  obtain ⟨used, rfl, hused⟩ := hitem _ _ _ hfirst
  obtain ⟨more, hmore, rfl, rfl⟩ := sound_moreItems hitem _ hloop
  refine ⟨(used, first) :: more, by simp, ?_, by simp, ?_⟩
  · intro m hm
    rcases mem_cons.mp hm with rfl | hm
    · exact hused
    · exact hmore m hm
  · rw [map_cons, separated_cons, flatMap_map]
    simp

theorem keyword_eq {word : String} : keyword word tokens = true ↔
      ∃ token, isWord word token = true ∧ tokens = token :: tokens.tail := by
  cases tokens with
  | nil => simp [keyword]
  | cons token rest => simp [keyword]

theorem sound_word (hinner : Sound .or inner) {word : String}
    (h : parseWord inner word tokens = .ok (e, rest)) :
    ∃ used, .ident word :: tokens = used ++ rest ∧ Derives .primary used e := by
  rw [parseWord] at h
  cases hconstant : constant word with
  | some v =>
    rw [hconstant] at h
    cases h
    exact ⟨[.ident word], rfl, .constant hconstant⟩
  | none =>
    rw [hconstant] at h
    dsimp only at h
    by_cases hopen : tokens.head? = some .openParen
    · rw [if_pos hopen] at h
      obtain ⟨⟨args, after⟩, hargs, hclose⟩ := bind_iff.mp h
      have hparts : ∃ parts : List (List Tok × Expr), (∀ m ∈ parts, Derives .or m.1 m.2) ∧
          args = parts.map Prod.snd ∧ tokens.tail = separated (parts.map Prod.fst) ++ after := by
        rw [parseArgs] at hargs
        by_cases hempty : tokens.tail.head? = some .closeParen
        · rw [if_pos hempty] at hargs
          cases hargs
          exact ⟨[], by simp, rfl, rfl⟩
        · rw [if_neg hempty] at hargs
          obtain ⟨parts, -, hparts⟩ := sound_parseItems hinner hargs
          exact ⟨parts, hparts⟩
      obtain ⟨parts, hderives, rfl, htail⟩ := hparts
      dsimp only at hclose
      by_cases hlast : after.head? = some .closeParen
      · rw [if_pos hlast] at hclose
        cases hclose
        refine ⟨_, ?_, .call hconstant hderives⟩
        rw [← cons_head?_tail hopen, htail]
        nth_rewrite 1 [← cons_head?_tail hlast]
        simp
      · rw [if_neg hlast] at hclose
        exact absurd hclose err_ne
    · rw [if_neg hopen] at h
      cases h
      exact ⟨[.ident word], rfl, .field hconstant⟩

theorem sound_primary (hinner : Sound .or inner) : Sound .primary (parsePrimary debug inner) := by
  intro tokens e rest h
  cases tokens with
  | nil => exact absurd h err_ne
  | cons token tail =>
    cases token with
    | num n =>
      cases h
      exact ⟨_, rfl, .num n⟩
    | str s =>
      cases h
      exact ⟨_, rfl, .str s⟩
    | quoted name =>
      cases h
      exact ⟨_, rfl, .quoted name⟩
    | ident word => exact sound_word hinner h
    | openParen =>
      obtain ⟨⟨e', after⟩, hin, hclose⟩ := bind_iff.mp h
      obtain ⟨used, rfl, hused⟩ := hinner _ _ _ hin
      dsimp only at hclose
      by_cases hlast : after.head? = some .closeParen
      · rw [if_pos hlast] at hclose
        cases hclose
        refine ⟨_, ?_, .paren hused⟩
        nth_rewrite 1 [← cons_head?_tail hlast]
        simp
      · rw [if_neg hlast] at hclose
        exact absurd hclose err_ne
    | op o => exact absurd h err_ne
    | closeParen => exact absurd h err_ne
    | comma => exact absurd h err_ne

theorem sound_unary (hinner : Sound .or inner) : Sound .unary (parseUnary debug inner) := by
  intro tokens
  induction tokens with
  | nil =>
    intro e rest h
    exact absurd h err_ne
  | cons token tail ih =>
    intro e rest h
    rw [parseUnary] at h
    by_cases hneg : token = .op "-"
    · rw [if_pos hneg] at h
      obtain ⟨⟨e', after⟩, hin, hok⟩ := bind_iff.mp h
      obtain ⟨used, rfl, hused⟩ := ih _ _ hin
      cases hok
      exact ⟨token :: used, rfl, hneg ▸ .neg hused⟩
    · rw [if_neg hneg] at h
      obtain ⟨used, htokens, hused⟩ := sound_primary hinner _ _ _ h
      exact ⟨used, htokens, .tighter (by decide) nofun hused⟩

theorem sound_additive (hinner : Sound .or inner) : Sound .additive (parseAdditive debug inner) :=
  sound_leftAssociative
    (sound_leftAssociative (sound_unary hinner) (by decide) (by decide)) (by decide) (by decide)

theorem negation_front (negated : Bool) (h : negated = true → keyword "NOT" tokens = true) :
    ∃ negation, Negation negated negation ∧
      tokens = negation ++ (if negated then tokens.tail else tokens) := by
  cases negated with
  | false => exact ⟨[], rfl, rfl⟩
  | true =>
    obtain ⟨token, hword, htokens⟩ := keyword_eq.mp (h rfl)
    exact ⟨[token], ⟨token, hword, rfl⟩, htokens⟩

theorem sound_is {word : Tok}
    (hleft : Derives .additive leftTokens left) (hword : isWord "IS" word = true)
    (h : parseIs left tokens = .ok (e, rest)) :
    ∃ used, word :: tokens = used ++ rest ∧ Derives .comparison (leftTokens ++ used) e := by
  rw [parseIs] at h
  obtain ⟨negation, hnegation, htokens⟩ :=
    negation_front (keyword "NOT" tokens) (fun h : keyword "NOT" tokens = true => h)
  generalize keyword "NOT" tokens = negated at *
  by_cases hnull : keyword "NULL" (if negated = true then tokens.tail else tokens) = true
  · rw [if_pos hnull] at h
    obtain ⟨null, hnullWord, hrest⟩ := keyword_eq.mp hnull
    cases h
    refine ⟨_, ?_, .isNull hleft hword hnegation hnullWord⟩
    nth_rewrite 1 [htokens, hrest]
    simp
  · rw [if_neg hnull] at h
    exact absurd h err_ne

theorem sound_in (hinner : Sound .or inner) {leftTokens negation : List Tok}
    {negated : Bool} {word : Tok} (hleft : Derives .additive leftTokens left)
    (hnegation : Negation negated negation) (hword : isWord "IN" word = true)
    (h : parseIn debug inner left negated tokens = .ok (e, rest)) :
    ∃ used, negation ++ word :: tokens = used ++ rest ∧
      Derives .comparison (leftTokens ++ used) e := by
  rw [parseIn] at h
  by_cases hopen : tokens.head? = some .openParen
  · rw [if_pos hopen] at h
    obtain ⟨⟨items, after⟩, hitems, hclose⟩ := bind_iff.mp h
    obtain ⟨parts, hne, hparts, rfl, htail⟩ := sound_parseItems (sound_additive hinner) hitems
    dsimp only at hclose
    by_cases hlast : after.head? = some .closeParen
    · rw [if_pos hlast] at hclose
      cases hclose
      refine ⟨_, ?_, .inList hleft hnegation hword hne hparts⟩
      rw [← cons_head?_tail hopen, htail]
      nth_rewrite 1 [← cons_head?_tail hlast]
      simp
    · rw [if_neg hlast] at hclose
      exact absurd hclose err_ne
  · rw [if_neg hopen] at h
    exact absurd h err_ne

theorem sound_like (hinner : Sound .or inner) {leftTokens negation : List Tok}
    {negated : Bool} {word : Tok} (hleft : Derives .additive leftTokens left)
    (hnegation : Negation negated negation) (hword : isWord "LIKE" word = true)
    (h : parseLike debug inner left negated tokens = .ok (e, rest)) :
    ∃ used, negation ++ word :: tokens = used ++ rest ∧
      Derives .comparison (leftTokens ++ used) e := by
  obtain ⟨⟨pattern, after⟩, hpattern, hok⟩ := bind_iff.mp h
  obtain ⟨used, rfl, hused⟩ := sound_additive hinner _ _ _ hpattern
  cases hok
  exact ⟨_, by simp, .like hleft hnegation hword hused⟩

theorem sound_operator (hinner : Sound .or inner) (hleft : Derives .additive leftTokens left)
    (h : parseOperator debug inner left tokens = .ok (e, rest)) :
    ∃ used, tokens = used ++ rest ∧ Derives .comparison (leftTokens ++ used) e := by
  have halone : Derives .comparison (leftTokens ++ []) left := by
    rw [append_nil]
    exact .tighter (by decide) nofun hleft
  cases tokens with
  | nil =>
    cases h
    exact ⟨[], rfl, halone⟩
  | cons token tail =>
    rw [parseOperator] at h
    cases hop : comparisonOp token with
    | none =>
      rw [hop] at h
      cases h
      exact ⟨[], rfl, halone⟩
    | some op =>
      rw [hop] at h
      obtain ⟨⟨right, after⟩, hright, hok⟩ := bind_iff.mp h
      obtain ⟨used, rfl, hused⟩ := sound_additive hinner _ _ _ hright
      cases hok
      exact ⟨token :: used, rfl, .comparison hop hleft hused⟩

theorem sound_comparison (hinner : Sound .or inner) :
    Sound .comparison (parseComparison debug inner) := by
  intro tokens e rest h
  obtain ⟨⟨left, after⟩, hin, htail⟩ := bind_iff.mp h
  obtain ⟨leftTokens, rfl, hleft⟩ := sound_additive hinner _ _ _ hin
  suffices hused : ∃ used, after = used ++ rest ∧ Derives .comparison (leftTokens ++ used) e by
    obtain ⟨used, rfl, hused⟩ := hused
    exact ⟨leftTokens ++ used, by simp, hused⟩
  dsimp only at htail
  by_cases his : keyword "IS" after = true
  · rw [if_pos his] at htail
    obtain ⟨word, hword, hafter⟩ := keyword_eq.mp his
    rw [hafter]
    exact sound_is hleft hword htail
  · rw [if_neg his] at htail
    obtain ⟨negation, hnegation, hafter⟩ := negation_front
      (keyword "NOT" after && (keyword "IN" after.tail || keyword "LIKE" after.tail))
      (fun h => (Bool.and_eq_true_iff.mp h).1)
    generalize (keyword "NOT" after && (keyword "IN" after.tail || keyword "LIKE" after.tail)) =
      negated at *
    by_cases hin : keyword "IN" (if negated = true then after.tail else after) = true
    · rw [if_pos hin] at htail
      obtain ⟨word, hword, hrest⟩ := keyword_eq.mp hin
      rw [hafter, hrest]
      exact sound_in hinner hleft hnegation hword htail
    · rw [if_neg hin] at htail
      by_cases hlike : keyword "LIKE" (if negated = true then after.tail else after) = true
      · rw [if_pos hlike] at htail
        obtain ⟨word, hword, hrest⟩ := keyword_eq.mp hlike
        rw [hafter, hrest]
        exact sound_like hinner hleft hnegation hword htail
      · rw [if_neg hlike] at htail
        cases negated with
        | true => exact absurd htail err_ne
        | false => exact sound_operator hinner hleft htail

theorem sound_not (hinner : Sound .or inner) : Sound .not (parseNot debug inner) := by
  intro tokens
  induction tokens with
  | nil =>
    intro e rest h
    exact absurd h err_ne
  | cons token tail ih =>
    intro e rest h
    rw [parseNot] at h
    by_cases hnot : isWord "NOT" token = true
    · rw [if_pos hnot] at h
      obtain ⟨⟨e', after⟩, hin, hok⟩ := bind_iff.mp h
      obtain ⟨used, rfl, hused⟩ := ih _ _ hin
      cases hok
      exact ⟨token :: used, rfl, .not hnot hused⟩
    · rw [if_neg hnot] at h
      obtain ⟨used, htokens, hused⟩ := sound_comparison hinner _ _ _ h
      refine ⟨used, htokens, .tighter (by decide) ?_ hused⟩
      intro _
      obtain ⟨first, others, rfl, -⟩ := hused.head
      obtain ⟨rfl, -⟩ := List.cons.inj htokens
      simpa [keyword] using hnot

theorem sound_or (hinner : Sound .or inner) : Sound .or (parseOr debug inner) :=
  sound_leftAssociative
    (sound_leftAssociative (sound_not hinner) (by decide) (by decide)) (by decide) (by decide)

theorem sound_parseTo (depth : Nat) : Sound .or (parseTo debug depth) := by
  induction depth with
  | zero =>
    intro tokens e rest h
    exact absurd h err_ne
  | succ depth ih => exact sound_or ih

end GeneGIS.Toolkit.Expression
