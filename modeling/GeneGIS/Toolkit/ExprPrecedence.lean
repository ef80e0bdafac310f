/-
A derivation is read off the front of the tokens, unless the next token binds at its level or
tighter.
-/
import GeneGIS.Toolkit.ExprGrammar

namespace GeneGIS.Toolkit.Expression

open List Option Bool Nat Text

variable {debug : Tok → String} {inner : Parse} {level : Level} {tokens rest : List Tok} {e : Expr}
  {token : Tok}

/-! ## Binding -/

def comparing (token : Tok) : Bool :=
  (comparisonOp token).isSome || isWord "IS" token || isWord "NOT" token || isWord "IN" token ||
    isWord "LIKE" token

/-- How tightly a token binds what stands before it. -/
def binds (token : Tok) : Nat :=
  if token = .openParen then 0
  else if (multiplicativeOp token).isSome then 1
  else if (additiveOp token).isSome then 2
  else if comparing token then 3
  else if (andOp token).isSome then 4
  else if (orOp token).isSome then 5
  else 6

/-- The tokens after an operand leave it alone. -/
def Stops (rank : Nat) (rest : List Tok) : Prop := ∀ token ∈ rest.head?, rank < binds token

namespace Level

def rank : Level → Nat
  | .or => 5
  | .and => 4
  | .not => 3
  | .comparison => 3
  | .additive => 2
  | .multiplicative => 1
  | .unary => 0
  | .primary => 0

/-- What may not follow the first operand of the level. -/
def reach : Level → Nat
  | .or => 4
  | .and => 3
  | .not => 3
  | .comparison => 3
  | .additive => 1
  | .multiplicative => 0
  | .unary => 0
  | .primary => 0

def parse (debug : Tok → String) (inner : Parse) : Level → Parse
  | .or => parseOr debug inner
  | .and => parseAnd debug inner
  | .not => parseNot debug inner
  | .comparison => parseComparison debug inner
  | .additive => parseAdditive debug inner
  | .multiplicative => parseMultiplicative debug inner
  | .unary => parseUnary debug inner
  | .primary => parsePrimary debug inner

end Level

variable {word : String}

theorem isWord_cases (h : isWord word token = true) : token = .op word ∨ ∃ w, token = .ident w ∧
      toAsciiLowercase w = toAsciiLowercase word := by
  cases token with
  | ident w => exact .inr ⟨w, rfl, of_decide_eq_true h⟩
  | op o => exact .inl (congrArg Tok.op (of_decide_eq_true h))
  | _ => cases h

theorem binds_comparing (h : comparing token = true) : binds token = 3 := by
  have hopen : token ≠ .openParen := by
    intro heq
    rw [heq] at h
    cases h
  have hmultiplicative : (multiplicativeOp token).isSome = false := by
    by_contra hsome
    unfold multiplicativeOp at hsome
    split at hsome
    · simp [comparing, comparisonOp, isWord] at h
    · simp [comparing, comparisonOp, isWord] at h
    · simp [comparing, comparisonOp, isWord] at h
    · exact hsome rfl
  have hadditive : (additiveOp token).isSome = false := by
    by_contra hsome
    unfold additiveOp at hsome
    split at hsome
    · simp [comparing, comparisonOp, isWord] at h
    · simp [comparing, comparisonOp, isWord] at h
    · exact hsome rfl
  simp [binds, hopen, hmultiplicative, hadditive, h]

theorem binds_ident {v w : String} (h : toAsciiLowercase v = toAsciiLowercase w) :
    binds (.ident v) = binds (.ident w) := by
  have hword : ∀ word, isWord word (.ident v) = isWord word (.ident w) := by
    intro word
    rw [isWord, isWord, h]
  simp only [binds, comparing, andOp, orOp, hword]
  rfl

theorem binds_word (h : isWord word token = true) :
    binds token = binds (.op word) ∨ binds token = binds (.ident word) := by
  rcases isWord_cases h with rfl | ⟨w, rfl, hw⟩
  · exact .inl rfl
  · exact .inr (binds_ident hw)

theorem binds_connectives : ∀ p ∈ [("OR", 5), ("または", 5), ("AND", 4), ("かつ", 4)],
    binds (.op p.1) = p.2 ∧ binds (.ident p.1) = p.2 := by decide +kernel

theorem binds_connective {rank : Nat} (h : isWord word token = true)
    (hrank : (word, rank) ∈ [("OR", 5), ("または", 5), ("AND", 4), ("かつ", 4)]) :
    binds token = rank := by
  obtain ⟨hop, hident⟩ := binds_connectives (word, rank) hrank
  rcases binds_word h with h | h
  · exact h.trans hop
  · exact h.trans hident

variable {op : BinaryOp}

theorem binds_orOp (h : orOp token = some op) : binds token = 5 := by
  rw [orOp, ite_none_right_eq_some, or_eq_true] at h
  rcases h.1 with h | h
  · exact binds_connective h (by simp)
  · exact binds_connective h (by simp)

theorem binds_andOp (h : andOp token = some op) : binds token = 4 := by
  rw [andOp, ite_none_right_eq_some, or_eq_true] at h
  rcases h.1 with h | h
  · exact binds_connective h (by simp)
  · exact binds_connective h (by simp)

theorem binds_additiveOp (h : additiveOp token = some op) : binds token = 2 := by
  unfold additiveOp at h
  split at h
  · simp [binds, multiplicativeOp, additiveOp]
  · simp [binds, multiplicativeOp, additiveOp]
  · cases h

theorem binds_multiplicativeOp (h : multiplicativeOp token = some op) : binds token = 1 := by
  unfold multiplicativeOp at h
  split at h
  · simp [binds, multiplicativeOp]
  · simp [binds, multiplicativeOp]
  · simp [binds, multiplicativeOp]
  · cases h

theorem binds_operator (h : level.operator token = some op) : binds token = level.rank := by
  cases level with
  | or => exact binds_orOp h
  | and => exact binds_andOp h
  | additive => exact binds_additiveOp h
  | multiplicative => exact binds_multiplicativeOp h
  | _ => cases h

theorem stops_operator (h : Stops level.rank rest) :
    ∀ token ∈ rest.head?, level.operator token = none := by
  intro token htoken
  cases hop : level.operator token with
  | none => rfl
  | some op =>
    have hlt := h token htoken
    rw [binds_operator hop] at hlt
    exact absurd hlt (lt_irrefl _)

theorem chain_stop {operator : Tok → Option BinaryOp} {operand : Parse}
    (h : ∀ token ∈ rest.head?, operator token = none) (rounds : Nat) (left : Expr) :
    chain operator operand rounds left rest = .ok (left, rest) := by
  cases rounds with
  | zero => rfl
  | succ rounds =>
    cases rest with
    | nil => rfl
    | cons token tail => rw [chain, h token rfl]

def Shortens (p : Parse) : Prop :=
  ∀ tokens e rest, p tokens = .ok (e, rest) → rest.length < tokens.length

theorem Sound.shortens {p : Parse} (h : Sound level p) : Shortens p := by
  intro tokens e rest hp
  obtain ⟨used, rfl, hused⟩ := h _ _ _ hp
  obtain ⟨first, others, rfl, -⟩ := hused.head
  rw [length_append, length_cons]
  omega

theorem chain_agree {operator : Tok → Option BinaryOp} {operand : Parse} (hop : Shortens operand)
    {n m : Nat} (hn : tokens.length ≤ n) (hm : tokens.length ≤ m) (left : Expr) :
    chain operator operand n left tokens = chain operator operand m left tokens := by
  induction n generalizing m tokens left with
  | zero =>
    obtain rfl := length_eq_zero_iff.mp (le_zero.mp hn)
    rw [chain_stop (by simp), chain_stop (by simp)]
  | succ n ih =>
    cases tokens with
    | nil => rw [chain_stop (by simp), chain_stop (by simp)]
    | cons token tail =>
      cases m with
      | zero => simp at hm
      | succ m =>
        rw [chain, chain]
        cases operator token with
        | none => rfl
        | some op =>
          dsimp only
          cases hright : operand tail with
          | error error => rfl
          | ok right =>
            have hless := hop tail right.1 right.2 hright
            rw [length_cons] at hn hm
            exact ih (by omega) (by omega) _

theorem sound_level (hinner : Sound .or inner) (level : Level) :
    Sound level (level.parse debug inner) := by
  cases level with
  | or => exact sound_or hinner
  | and => exact sound_leftAssociative (sound_not hinner) (by decide) (by decide)
  | not => exact sound_not hinner
  | comparison => exact sound_comparison hinner
  | additive => exact sound_additive hinner
  | multiplicative => exact sound_leftAssociative (sound_unary hinner) (by decide) (by decide)
  | unary => exact sound_unary hinner
  | primary => exact sound_primary hinner

/-- The tokens are read as the expression, whatever looser comes after them. -/
def Reads (debug : Tok → String) (level : Level) (tokens : List Tok) (e : Expr) : Prop :=
  ∀ depth rest, tokens.length ≤ depth → Stops level.rank rest →
    level.parse debug (parseTo debug depth) (tokens ++ rest) = .ok (e, rest)

/-- The tokens are read as the expression that the loop of the level goes on with. -/
def Starts (debug : Tok → String) (level : Level) (tokens : List Tok) (e : Expr) : Prop :=
  ∀ depth rest, tokens.length ≤ depth → Stops level.reach rest →
    level.parse debug (parseTo debug depth) (tokens ++ rest) =
      chain level.operator (level.next.parse debug (parseTo debug depth)) rest.length e rest

theorem Stops.mono {m n : Nat} (h : Stops n rest) (hmn : m ≤ n) : Stops m rest :=
  fun token htoken => lt_of_le_of_lt hmn (h token htoken)

theorem stops_cons {n : Nat} (h : n < binds token) : Stops n (token :: rest) := by
  intro t ht
  cases ht
  exact h

theorem Starts.reads (h : Starts debug level tokens e) : Reads debug level tokens e := by
  intro depth rest hlength hstops
  have hreach : level.reach ≤ level.rank := by cases level <;> decide
  rw [h depth rest hlength (hstops.mono hreach)]
  exact chain_stop (stops_operator hstops) _ _

theorem Reads.starts (h : Reads debug level tokens e) (hrank : level.reach = level.rank) :
    Starts debug level tokens e := by
  intro depth rest hlength hstops
  rw [hrank] at hstops
  rw [h depth rest hlength hstops, chain_stop (stops_operator hstops)]

theorem starts_binary {left right : List Tok} {l r : Expr}
    (hop : level.operator token = some op) (hl : Starts debug level left l)
    (hr : Reads debug level.next right r) :
    Starts debug level (left ++ token :: right) (.binary l op r) := by
  intro depth rest hlength hstops
  rw [length_append, length_cons] at hlength
  have hlevel : level.reach < level.rank ∧ level.next.rank = level.reach := by
    cases level <;> first | cases hop | decide
  have hbinds : level.reach < binds token := by
    rw [binds_operator hop]
    exact hlevel.1
  have hright : Stops level.next.rank rest := by
    rw [hlevel.2]
    exact hstops
  have hsound : Sound level.next (level.next.parse debug (parseTo debug depth)) :=
    sound_level (sound_parseTo depth) level.next
  rw [append_assoc, cons_append, hl depth _ (by omega) (stops_cons hbinds), length_cons, chain, hop]
  dsimp only
  rw [hr depth rest (by omega) hright]
  refine chain_agree hsound.shortens ?_ (le_refl _) _
  show rest.length ≤ (right ++ rest).length
  rw [length_append]
  omega

theorem starts_leftAssociative (hparse : ∀ inner, level.parse debug inner =
      leftAssociative level.operator (level.next.parse debug inner))
    (hrank : level.next.rank = level.reach) (h : Reads debug level.next tokens e) :
    Starts debug level tokens e := by
  intro depth rest hlength hstops
  rw [← hrank] at hstops
  rw [hparse, leftAssociative, h depth rest hlength hstops]
  rfl

/-! ## Comparisons -/

theorem parseComparison_of {left : Expr} {after : List Tok}
    (h : parseAdditive debug inner tokens = .ok (left, after)) :
    parseComparison debug inner tokens = if keyword "IS" after then parseIs left after.tail else
        let negated := keyword "NOT" after && (keyword "IN" after.tail || keyword "LIKE" after.tail)
        let tokens := if negated then after.tail else after
        if keyword "IN" tokens then parseIn debug inner left negated tokens.tail
        else if keyword "LIKE" tokens then parseLike debug inner left negated tokens.tail
        else if negated then err "expected IN or LIKE after NOT"
        else parseOperator debug inner left tokens := by
  rw [parseComparison, h]
  rfl

theorem isWord_other {word other : String} (h : isWord word token = true)
    (hne : toAsciiLowercase word ≠ toAsciiLowercase other) :
    isWord other token = false := by
  rcases isWord_cases h with rfl | ⟨w, rfl, hw⟩
  · refine decide_eq_false ?_
    intro heq
    exact hne (congrArg toAsciiLowercase heq)
  · refine decide_eq_false ?_
    rw [hw]
    exact hne

theorem words_apart : ∀ v ∈ ["IS", "NOT", "IN", "LIKE", "NULL"],
    ∀ w ∈ ["IS", "NOT", "IN", "LIKE", "NULL"], v ≠ w →
      toAsciiLowercase v ≠ toAsciiLowercase w := by decide +kernel

theorem isWord_apart {word other : String} (h : isWord word token = true)
    (hword : word ∈ ["IS", "NOT", "IN", "LIKE", "NULL"])
    (hother : other ∈ ["IS", "NOT", "IN", "LIKE", "NULL"]) (hne : word ≠ other) :
    isWord other token = false :=
  isWord_other h (words_apart word hword other hother hne)

@[simp] theorem keyword_cons : keyword word (token :: rest) = isWord word token := by
  simp [keyword]

theorem stops_comparing (h : Stops 3 rest) : ∀ token ∈ rest.head?, comparing token = false := by
  intro token htoken
  by_contra hcomparing
  rw [not_eq_false] at hcomparing
  have hlt := h token htoken
  rw [binds_comparing hcomparing] at hlt
  exact absurd hlt (lt_irrefl _)

theorem reads_operand (h : Reads debug .additive tokens e) : Reads debug .comparison tokens e := by
  intro depth rest hlength hstops
  have hleft := h depth rest hlength (hstops.mono (by decide))
  rw [Level.parse, parseComparison_of hleft]
  cases rest with
  | nil => rfl
  | cons token tail =>
    have hcomparing := stops_comparing hstops token rfl
    simp only [comparing, or_eq_false_iff, isSome_eq_false_iff, isNone_iff_eq_none] at hcomparing
    obtain ⟨⟨⟨⟨hop, his⟩, hnot⟩, hin⟩, hlike⟩ := hcomparing
    simp [his, hnot, hin, hlike, parseOperator, hop]

theorem comparisonOp_word (h : comparisonOp token = some op) :
    isWord "IS" token = false ∧ isWord "NOT" token = false ∧ isWord "IN" token = false ∧
      isWord "LIKE" token = false := by
  unfold comparisonOp at h
  split at h
  · simp [isWord]
  · simp [isWord]
  · simp [isWord]
  · simp [isWord]
  · simp [isWord]
  · simp [isWord]
  · cases h

theorem reads_comparison {left right : List Tok} {l r : Expr}
    (hop : comparisonOp token = some op) (hl : Reads debug .additive left l)
    (hr : Reads debug .additive right r) :
    Reads debug .comparison (left ++ token :: right) (.binary l op r) := by
  intro depth rest hlength hstops
  rw [length_append, length_cons] at hlength
  have hcomparing : comparing token = true := by
    simp [comparing, hop]
  have hleft := hl depth (token :: (right ++ rest)) (by omega)
    (stops_cons (by rw [binds_comparing hcomparing]; decide))
  rw [append_assoc, cons_append, Level.parse, parseComparison_of hleft]
  obtain ⟨his, hnot, hin, hlike⟩ := comparisonOp_word hop
  have hright := hr depth rest (by omega) (hstops.mono (by decide))
  rw [Level.parse] at hright
  simp [his, hnot, hin, hlike, parseOperator, hop, hright]

variable {negated : Bool} {negation after : List Tok}

theorem negation_read {word : Tok} (hnegation : Negation negated negation)
    (hword : isWord "IN" word = true ∨ isWord "LIKE" word = true) :
    ∃ first others, negation ++ word :: after = first :: others ∧ isWord "IS" first = false ∧
      comparing first = true ∧
      (isWord "NOT" first && (keyword "IN" others || keyword "LIKE" others)) = negated ∧
      (if negated then others else first :: others) = word :: after := by
  have hcomparing : comparing word = true := by
    rcases hword with hword | hword <;> simp [comparing, hword]
  cases negated with
  | false =>
    obtain rfl : negation = [] := hnegation
    have hother : isWord "IS" word = false ∧ isWord "NOT" word = false := by
      rcases hword with hword | hword
      · exact ⟨isWord_apart hword (by simp) (by simp) (by simp),
          isWord_apart hword (by simp) (by simp) (by simp)⟩
      · exact ⟨isWord_apart hword (by simp) (by simp) (by simp),
          isWord_apart hword (by simp) (by simp) (by simp)⟩
    exact ⟨word, after, rfl, hother.1, hcomparing, by rw [hother.2]; rfl, rfl⟩
  | true =>
    obtain ⟨not, hnot, rfl⟩ : ∃ token, isWord "NOT" token = true ∧ negation = [token] := hnegation
    refine ⟨not, word :: after, rfl, isWord_apart hnot (by simp) (by simp) (by simp), ?_, ?_, rfl⟩
    · simp [comparing, hnot]
    · rcases hword with hword | hword <;> simp [hnot, hword]

theorem stops_word {word : Tok} (hnegation : Negation negated negation)
    (hword : isWord "IN" word = true ∨ isWord "LIKE" word = true) :
    Stops 2 (negation ++ word :: after) := by
  obtain ⟨first, others, htokens, -, hcomparing, -⟩ := negation_read hnegation hword
  rw [htokens]
  exact stops_cons (by rw [binds_comparing hcomparing]; decide)

theorem reads_isNull {left negation : List Tok} {word null : Tok}
    (h : Reads debug .additive left e) (hword : isWord "IS" word = true)
    (hnegation : Negation negated negation) (hnull : isWord "NULL" null = true) :
    Reads debug .comparison (left ++ word :: (negation ++ [null])) (.isNull e negated) := by
  intro depth rest hlength hstops
  rw [length_append] at hlength
  have hcomparing : comparing word = true := by
    simp [comparing, hword]
  have hleft := h depth (word :: (negation ++ null :: rest)) (by omega)
    (stops_cons (by rw [binds_comparing hcomparing]; decide))
  have htokens : left ++ word :: (negation ++ [null]) ++ rest =
      left ++ word :: (negation ++ null :: rest) := by simp
  rw [htokens, Level.parse, parseComparison_of hleft, keyword_cons, if_pos hword, tail_cons,
    parseIs]
  cases negated with
  | false =>
    obtain rfl : negation = [] := hnegation
    have hnot : isWord "NOT" null = false := isWord_apart hnull (by simp) (by simp) (by simp)
    simp [hnot, hnull]
  | true =>
    obtain ⟨not, hnot, rfl⟩ : ∃ token, isWord "NOT" token = true ∧ negation = [token] := hnegation
    simp [hnot, hnull]

theorem parseComparison_word {left : Expr} {word : Tok}
    (h : parseAdditive debug inner tokens = .ok (left, negation ++ word :: after))
    (hnegation : Negation negated negation)
    (hword : isWord "IN" word = true ∨ isWord "LIKE" word = true) :
    parseComparison debug inner tokens =
      if isWord "IN" word then parseIn debug inner left negated after
      else parseLike debug inner left negated after := by
  obtain ⟨first, others, htokens, his, -, hnegated, hrest⟩ := negation_read hnegation hword
  rw [htokens] at h
  rw [parseComparison_of h, keyword_cons, his, tail_cons, keyword_cons, hnegated]
  dsimp only
  rw [hrest, keyword_cons, keyword_cons, tail_cons]
  rcases hword with hword | hword
  · simp [hword]
  · simp [hword]

theorem reads_like {left negation right : List Tok} {word : Tok} {pattern : Expr}
    (h : Reads debug .additive left e) (hnegation : Negation negated negation)
    (hword : isWord "LIKE" word = true) (hpattern : Reads debug .additive right pattern) :
    Reads debug .comparison (left ++ (negation ++ word :: right)) (.like e pattern negated) := by
  intro depth rest hlength hstops
  simp only [length_append, length_cons] at hlength
  have hleft := h depth (negation ++ word :: (right ++ rest)) (by omega)
    (stops_word hnegation (.inr hword))
  have hright := hpattern depth rest (by omega) (hstops.mono (by decide))
  have hin : isWord "IN" word = false := isWord_apart hword (by simp) (by simp) (by simp)
  have htokens : left ++ (negation ++ word :: right) ++ rest =
      left ++ (negation ++ word :: (right ++ rest)) := by simp
  rw [Level.parse] at hleft hright
  rw [htokens, Level.parse, parseComparison_word hleft hnegation (.inr hword), hin, parseLike,
    hright]
  rfl

/-! ## Lists of operands -/

theorem binds_comma : binds .comma = 6 := rfl

theorem binds_closeParen : binds .closeParen = 6 := rfl

theorem Level.rank_lt (level : Level) : level.rank < 6 := by
  cases level <;> decide

/-- The operands of a list are read one after the other, up to its end. -/
structure Listed (debug : Tok → String) (level : Level) (depth : Nat)
    (items : List (List Tok × Expr)) : Prop where
  short : ∀ item ∈ items, item.1.length ≤ depth
  reads : ∀ item ∈ items, Reads debug level item.1 item.2

theorem stops_more (more : List (List Tok × Expr)) :
    Stops level.rank (more.flatMap (fun m => .comma :: m.1) ++ .closeParen :: rest) := by
  have hrank := level.rank_lt
  cases more with
  | nil => exact stops_cons (by rw [binds_closeParen]; exact hrank)
  | cons next others => exact stops_cons (by rw [binds_comma]; exact hrank)

theorem Listed.tail {item : List Tok × Expr} {more : List (List Tok × Expr)} {depth : Nat}
    (h : Listed debug level depth (item :: more)) : Listed debug level depth more :=
  ⟨fun m hm => h.short m (mem_cons_of_mem _ hm), fun m hm => h.reads m (mem_cons_of_mem _ hm)⟩

variable {items : List (List Tok × Expr)}

theorem reads_moreItems {depth rounds : Nat} (hitems : Listed debug level depth items)
    (hrounds : items.length ≤ rounds) (done : List Expr) :
    moreItems (level.parse debug (parseTo debug depth)) rounds done
      (items.flatMap (fun m => .comma :: m.1) ++ .closeParen :: rest) =
      .ok (done ++ items.map Prod.snd, .closeParen :: rest) := by
  induction items generalizing done rounds with
  | nil =>
    cases rounds with
    | zero => simp [moreItems]
    | succ rounds => simp [moreItems]
  | cons item more ih =>
    cases rounds with
    | zero => simp at hrounds
    | succ rounds =>
      rw [length_cons] at hrounds
      have hitem := hitems.reads item mem_cons_self depth
        (more.flatMap (fun m => .comma :: m.1) ++ .closeParen :: rest)
        (hitems.short item mem_cons_self) (stops_more more)
      rw [flatMap_cons, cons_append, cons_append, append_assoc, moreItems,
        head?_cons, if_pos rfl, tail_cons, hitem]
      show moreItems _ rounds (done ++ [item.2]) _ = _
      rw [ih hitems.tail (by omega)]
      simp

theorem length_commas (more : List (List Tok)) :
    more.length ≤ (more.flatMap fun m => .comma :: m).length ∧
      ∀ item ∈ more, item.length ≤ (more.flatMap fun m => .comma :: m).length := by
  induction more with
  | nil => simp
  | cons first rest ih =>
    rw [flatMap_cons, length_append, length_cons, length_cons]
    refine ⟨by omega, ?_⟩
    intro item hitem
    rcases mem_cons.mp hitem with rfl | hitem
    · omega
    · have hrest := ih.2 item hitem
      omega

theorem reads_parseItems {depth : Nat} (hne : items ≠ [])
    (hitems : Listed debug level depth items) :
    parseItems (level.parse debug (parseTo debug depth))
      (separated (items.map Prod.fst) ++ .closeParen :: rest) =
      .ok (items.map Prod.snd, .closeParen :: rest) := by
  cases items with
  | nil => exact absurd rfl hne
  | cons item more =>
    have hitem := hitems.reads item mem_cons_self depth
      (more.flatMap (fun m => .comma :: m.1) ++ .closeParen :: rest)
      (hitems.short item mem_cons_self) (stops_more more)
    have hlength : more.length ≤
        (more.flatMap (fun m => .comma :: m.1) ++ .closeParen :: rest).length := by
      have hlong := (length_commas (more.map Prod.fst)).1
      rw [length_map, flatMap_map] at hlong
      rw [length_append]
      omega
    rw [map_cons, separated_cons, flatMap_map, append_assoc, parseItems, hitem]
    show moreItems _ _ [item.2] _ = _
    rw [reads_moreItems hitems.tail hlength]
    simp

theorem length_separated {items : List (List Tok)} {item : List Tok} (h : item ∈ items) :
    item.length ≤ (separated items).length := by
  cases items with
  | nil => cases h
  | cons first more =>
    rw [separated_cons, length_append]
    rcases mem_cons.mp h with rfl | h
    · omega
    · have hlong := (length_commas more).2 item h
      omega

theorem reads_inList {left negation : List Tok} {word : Tok} (h : Reads debug .additive left e)
    (hnegation : Negation negated negation) (hword : isWord "IN" word = true) (hne : items ≠ [])
    (hitems : ∀ item ∈ items, Reads debug .additive item.1 item.2) :
    Reads debug .comparison
      (left ++ (negation ++
        word :: .openParen :: (separated (items.map Prod.fst) ++ [.closeParen])))
      (.inList e (items.map Prod.snd) negated) := by
  intro depth rest hlength hstops
  simp only [length_append, length_cons] at hlength
  have hlisted : Listed debug .additive depth items := by
    refine ⟨?_, hitems⟩
    intro item hitem
    have hshort := length_separated (mem_map_of_mem hitem (f := Prod.fst))
    omega
  have hleft := h depth
    (negation ++ word :: .openParen :: (separated (items.map Prod.fst) ++ .closeParen :: rest))
    (by omega) (stops_word hnegation (.inl hword))
  have htokens : left ++ (negation ++
        word :: .openParen :: (separated (items.map Prod.fst) ++ [.closeParen])) ++ rest =
      left ++ (negation ++
        word :: .openParen :: (separated (items.map Prod.fst) ++ .closeParen :: rest)) := by simp
  have hread := @reads_parseItems _ _ rest _ _ hne hlisted
  rw [Level.parse] at hleft hread
  rw [htokens, Level.parse, parseComparison_word hleft hnegation (.inl hword), if_pos hword,
    parseIn, head?_cons, if_pos rfl, tail_cons, hread]
  rfl

/-! ## Operands -/

theorem parseTo_succ (depth : Nat) :
    parseTo debug (depth + 1) = Level.or.parse debug (parseTo debug depth) := rfl

theorem reads_paren (h : Reads debug .or tokens e) :
    Reads debug .primary (.openParen :: (tokens ++ [.closeParen])) e := by
  intro depth rest hlength _
  rw [length_cons, length_append] at hlength
  obtain ⟨inside, rfl⟩ : ∃ inside, depth = inside + 1 := ⟨depth - 1, by omega⟩
  have hread := h inside (.closeParen :: rest) (by omega)
    (stops_cons (by rw [binds_closeParen]; decide))
  have htokens : .openParen :: (tokens ++ [.closeParen]) ++ rest =
      Tok.openParen :: (tokens ++ .closeParen :: rest) := by simp
  rw [htokens, Level.parse, parsePrimary, parseTo_succ, hread]
  rfl

theorem reads_constant {v : Value} (h : constant word = some v) :
    Reads debug .primary [.ident word] (.literal v) := by
  intro depth rest _ _
  rw [singleton_append, Level.parse, parsePrimary, parseWord, h]

theorem reads_field (h : constant word = none) :
    Reads debug .primary [.ident word] (.field word) := by
  intro depth rest _ hstops
  have hopen : ¬ rest.head? = some .openParen := by
    intro hhead
    have hbinds := hstops .openParen (by rw [hhead]; rfl)
    exact absurd hbinds (by decide)
  rw [singleton_append, Level.parse, parsePrimary, parseWord, h]
  exact if_neg hopen

theorem reads_call {args : List (List Tok × Expr)} (h : constant word = none)
    (hderives : ∀ arg ∈ args, Derives .or arg.1 arg.2)
    (hargs : ∀ arg ∈ args, Reads debug .or arg.1 arg.2) :
    Reads debug .primary
      (.ident word :: .openParen :: (separated (args.map Prod.fst) ++ [.closeParen]))
      (.call (toAsciiLowercase word) (args.map Prod.snd)) := by
  intro depth rest hlength _
  simp only [length_cons, length_append] at hlength
  obtain ⟨inside, rfl⟩ : ∃ inside, depth = inside + 1 := ⟨depth - 1, by omega⟩
  have hread : parseArgs (parseTo debug (inside + 1))
      (separated (args.map Prod.fst) ++ .closeParen :: rest) =
      .ok (args.map Prod.snd, .closeParen :: rest) := by
    by_cases hne : args = []
    · rw [hne]
      rfl
    · have hfirst : ¬ (separated (args.map Prod.fst) ++ Tok.closeParen :: rest).head? =
          some .closeParen := by
        cases args with
        | nil => exact absurd rfl hne
        | cons first more =>
          obtain ⟨token, others, htokens, hclose⟩ := (hderives first mem_cons_self).head
          rw [map_cons, separated_cons, htokens]
          simpa using hclose
      have hlisted : Listed debug .or inside args := by
        refine ⟨?_, hargs⟩
        intro arg harg
        have hshort := length_separated (mem_map_of_mem harg (f := Prod.fst))
        omega
      rw [parseArgs, if_neg hfirst, parseTo_succ, reads_parseItems hne hlisted]
  have htokens : .ident word :: .openParen :: (separated (args.map Prod.fst) ++ [.closeParen]) ++
      rest = Tok.ident word ::
        .openParen :: (separated (args.map Prod.fst) ++ .closeParen :: rest) := by simp
  rw [htokens, Level.parse, parsePrimary, parseWord, h]
  dsimp only
  rw [head?_cons, if_pos rfl, tail_cons, hread]
  rfl

theorem reads_neg (h : Reads debug .unary tokens e) :
    Reads debug .unary (.op "-" :: tokens) (.unary .neg e) := by
  intro depth rest hlength hstops
  rw [length_cons] at hlength
  have hread := h depth rest (by omega) hstops
  rw [Level.parse] at hread
  rw [cons_append, Level.parse, parseUnary, if_pos rfl, hread]
  rfl

theorem reads_not (hword : isWord "NOT" token = true) (h : Reads debug .not tokens e) :
    Reads debug .not (token :: tokens) (.unary .not e) := by
  intro depth rest hlength hstops
  rw [length_cons] at hlength
  have hread := h depth rest (by omega) hstops
  rw [Level.parse] at hread
  rw [cons_append, Level.parse, parseNot, if_pos hword, hread]
  rfl

theorem Derives.primary_head (h : Derives level tokens e) (hlevel : level = .primary) :
    ∀ op, tokens.head? ≠ some (.op op) := by
  cases h with
  | binary hop _ _ =>
    rw [hlevel] at hop
    cases hop
  | tighter hne _ _ => exact absurd hlevel hne
  | not _ _ => cases hlevel
  | comparison _ _ _ => cases hlevel
  | isNull _ _ _ _ => cases hlevel
  | inList _ _ _ _ _ => cases hlevel
  | like _ _ _ _ => cases hlevel
  | neg _ => cases hlevel
  | _ => simp

theorem starts_tighter (hlevel : level ≠ .primary)
    (hnot : level = .not → keyword "NOT" tokens = false) (hderives : Derives level.next tokens e)
    (h : Reads debug level.next tokens e) : Starts debug level tokens e := by
  obtain ⟨first, others, htokens, -⟩ := hderives.head
  cases level with
  | or => exact starts_leftAssociative (fun _ => rfl) rfl h
  | and => exact starts_leftAssociative (fun _ => rfl) rfl h
  | additive => exact starts_leftAssociative (fun _ => rfl) rfl h
  | multiplicative => exact starts_leftAssociative (fun _ => rfl) rfl h
  | comparison => exact (reads_operand h).starts rfl
  | primary => exact absurd rfl hlevel
  | not =>
    refine Reads.starts ?_ rfl
    intro depth rest hlength hstops
    have hfirst := hnot rfl
    have hread := h depth rest hlength hstops
    rw [htokens, keyword_cons] at hfirst
    rw [htokens, cons_append] at hread ⊢
    rw [Level.parse, parseNot, hfirst]
    exact hread
  | unary =>
    refine Reads.starts ?_ rfl
    intro depth rest hlength hstops
    have hfirst := hderives.primary_head rfl "-"
    have hread := h depth rest hlength hstops
    rw [htokens, head?_cons] at hfirst
    rw [htokens, cons_append] at hread ⊢
    rw [Level.parse, parseUnary, if_neg (fun heq => hfirst (congrArg some heq))]
    exact hread

theorem Derives.starts (h : Derives level tokens e) : Starts debug level tokens e := by
  induction h with
  | binary hop _ _ ihl ihr => exact starts_binary hop ihl ihr.reads
  | tighter hlevel hnot h ih => exact starts_tighter hlevel hnot h ih.reads
  | not hword _ ih => exact (reads_not hword ih.reads).starts rfl
  | comparison hop _ _ ihl ihr => exact (reads_comparison hop ihl.reads ihr.reads).starts rfl
  | isNull _ hword hnegation hnull ih =>
    exact (reads_isNull ih.reads hword hnegation hnull).starts rfl
  | inList _ hnegation hword hne _ ih ihitems =>
    exact (reads_inList ih.reads hnegation hword hne fun item hitem =>
      (ihitems item hitem).reads).starts rfl
  | like _ hnegation hword _ ih ihpattern =>
    exact (reads_like ih.reads hnegation hword ihpattern.reads).starts rfl
  | neg _ ih => exact (reads_neg ih.reads).starts rfl
  | num n => exact Reads.starts (fun _ _ _ _ => rfl) rfl
  | str s => exact Reads.starts (fun _ _ _ _ => rfl) rfl
  | quoted name => exact Reads.starts (fun _ _ _ _ => rfl) rfl
  | constant hconstant => exact (reads_constant hconstant).starts rfl
  | field hconstant => exact (reads_field hconstant).starts rfl
  | paren _ ih => exact (reads_paren ih.reads).starts rfl
  | call hconstant hargs ih =>
    exact (reads_call hconstant hargs fun arg harg => (ih arg harg).reads).starts rfl

/-- The parser returns an expression exactly when the tokens of the text derive it. -/
theorem parse_ok {text : List Char} : parse debug text = .ok e ↔
      ∃ tokens, tokenize text = .ok tokens ∧ Derives .or tokens e := by
  rw [parse, Fallible.bind_iff]
  refine exists_congr fun tokens => and_congr_right fun _ => ?_
  constructor
  · intro h
    by_cases hempty : tokens.isEmpty = true
    · rw [if_pos hempty] at h
      exact absurd h err_ne
    · rw [if_neg hempty] at h
      obtain ⟨⟨e', rest⟩, hread, hend⟩ := Fallible.bind_iff.mp h
      obtain ⟨used, hused, hderives⟩ := sound_parseTo _ _ _ _ hread
      cases rest with
      | nil =>
        cases hend
        rw [append_nil] at hused
        rw [hused]
        exact hderives
      | cons token others => exact absurd hend err_ne
  · intro h
    obtain ⟨first, others, htokens, -⟩ := h.head
    have hreads : Reads debug .or tokens e := h.starts.reads
    have hread := hreads tokens.length [] (le_refl _) (by simp [Stops])
    rw [append_nil, ← parseTo_succ] at hread
    have hempty : tokens.isEmpty = false := by
      rw [htokens]
      rfl
    rw [hempty, hread]
    rfl

end GeneGIS.Toolkit.Expression
