/-
The text of `render` is cut into tokens that derive the expression as a primary.
-/
import GeneGIS.Toolkit.ExprRender

namespace GeneGIS.Toolkit.Expression

open List

open Derives (binary inList isNull like paren quoted)

variable {rest : List Char} {tokens : List Tok} {e : Expr}

/-! ## The tokens of the text -/

theorem oneWord_keyword {word : String}
    (h : word ∈ ["OR", "AND", "NOT", "IN", "LIKE", "IS", "NULL", "TRUE", "FALSE"]) :
    OneWord word := by
  simp only [mem_cons, not_mem_nil, or_false] at h
  rcases h with rfl | rfl | rfl | rfl | rfl | rfl | rfl | rfl | rfl
  all_goals exact ⟨_, _, rfl, by decide, by decide, by decide⟩

theorem tokenize_keyword {word : String}
    (h : word ∈ ["OR", "AND", "NOT", "IN", "LIKE", "IS", "NULL", "TRUE", "FALSE"])
    (hrest : Ends rest) : tokenize (word.toList ++ rest) = prepend [.ident word] (tokenize rest) :=
  tokenize_word (oneWord_keyword h) hrest

theorem ends_space : Ends (' ' :: rest) := ends_of (.inl rfl)

theorem ends_openParen : Ends ('(' :: rest) := ends_of (.inr (.inl rfl))

theorem ends_closeParen : Ends (')' :: rest) := ends_of (.inr (.inr (.inl rfl)))

theorem ends_comma : Ends (',' :: rest) := ends_of (.inr (.inr (.inr rfl)))

theorem tokenize_op (op : BinaryOp) :
    tokenize ((opText op).toList ++ ' ' :: rest) = prepend [opToken op] (tokenize rest) := by
  rw [← @tokenize_space rest]
  cases op with
  | or => exact tokenize_keyword (by decide) ends_space
  | and => exact tokenize_keyword (by decide) ends_space
  | _ => exact tokenize_next (by decide) rfl

theorem tokenize_not (negated : Bool) :
    tokenize (notText negated ++ rest) = prepend (notTokens negated) (tokenize rest) := by
  cases negated with
  | false => exact (prepend_nil _).symm
  | true =>
    show tokenize ("NOT".toList ++ [' '] ++ rest) = _
    rw [append_assoc, singleton_append, tokenize_keyword (by decide) ends_space, tokenize_space]
    rfl

theorem tokenize_literal {v : Value} (hrest : Ends rest) :
    tokenize (literalText v ++ rest) = prepend [literalToken v] (tokenize rest) := by
  rw [literalText, literalToken]
  split
  next s _ =>
    rw [cons_append, append_assoc]
    exact tokenize_string s hrest
  next n _ => exact tokenize_number n.toNat hrest
  next => exact tokenize_keyword (by decide) hrest
  next => exact tokenize_keyword (by decide) hrest
  next => exact tokenize_keyword (by decide) hrest

mutual
theorem tokenize_render : ∀ e : Expr, Renderable e → ∀ rest, Ends rest →
    tokenize (render e ++ rest) = prepend (tokensOf e) (tokenize rest)
  | .literal v, _, rest, hrest => by
    rw [render, tokensOf, tokenize_literal hrest]
  | .field name, h, rest, _ => by
    rw [Renderable] at h
    rw [render, tokensOf, tokenize_name h]
  | .unary .not e, h, rest, _ => by
    rw [Renderable] at h
    simp only [render, cons_append, append_assoc, nil_append]
    rw [tokenize_openParen, tokenize_keyword (by decide) ends_space, tokenize_space,
      tokenize_render e h _ ends_closeParen, tokenize_closeParen]
    simp [tokensOf]
  | .unary .neg e, h, rest, _ => by
    rw [Renderable] at h
    simp only [render, cons_append, append_assoc, nil_append]
    rw [tokenize_openParen, tokenize_minus, tokenize_render e h _ ends_closeParen,
      tokenize_closeParen]
    simp [tokensOf]
  | .binary a op b, h, rest, _ => by
    rw [Renderable] at h
    simp only [render, cons_append, append_assoc, nil_append]
    rw [tokenize_openParen, tokenize_render a h.1 _ ends_space, tokenize_space, tokenize_op,
      tokenize_render b h.2 _ ends_closeParen, tokenize_closeParen]
    simp [tokensOf]
  | .inList e items negated, h, rest, _ => by
    rw [Renderable] at h
    simp only [render, cons_append, append_assoc, nil_append]
    rw [tokenize_openParen, tokenize_render e h.1 _ ends_space, tokenize_space, tokenize_not,
      tokenize_keyword (by decide) ends_space, tokenize_space, tokenize_openParen,
      tokenize_list items h.2.2 _ ends_closeParen, tokenize_closeParen, tokenize_closeParen]
    simp [tokensOf]
  | .isNull e negated, h, rest, _ => by
    rw [Renderable] at h
    simp only [render, cons_append, append_assoc, nil_append]
    rw [tokenize_openParen, tokenize_render e h _ ends_space, tokenize_space,
      tokenize_keyword (by decide) ends_space, tokenize_space, tokenize_not,
      tokenize_keyword (by decide) ends_closeParen, tokenize_closeParen]
    simp [tokensOf]
  | .like e pattern negated, h, rest, _ => by
    rw [Renderable] at h
    simp only [render, cons_append, append_assoc, nil_append]
    rw [tokenize_openParen, tokenize_render e h.1 _ ends_space, tokenize_space, tokenize_not,
      tokenize_keyword (by decide) ends_space, tokenize_space,
      tokenize_render pattern h.2 _ ends_closeParen, tokenize_closeParen]
    simp [tokensOf]
  | .call name args, h, rest, _ => by
    rw [Renderable] at h
    simp only [render, cons_append, append_assoc, nil_append]
    rw [tokenize_word h.1.word ends_openParen, tokenize_openParen,
      tokenize_list args h.2 _ ends_closeParen, tokenize_closeParen]
    simp [tokensOf]

theorem tokenize_list : ∀ items : List Expr, RenderableAll items → ∀ rest, Ends rest →
    tokenize (listText (renderAll items) ++ rest) =
      prepend (separated (tokensAll items)) (tokenize rest)
  | [], _, rest, _ => (prepend_nil _).symm
  | [e], h, rest, hrest => by
    rw [RenderableAll] at h
    rw [renderAll, renderAll, listText, tokensAll, tokensAll, separated,
      tokenize_render e h.1 rest hrest]
  | e :: second :: others, h, rest, hrest => by
    rw [RenderableAll] at h
    have hothers := tokenize_list (second :: others) h.2 rest hrest
    rw [renderAll, tokensAll] at hothers
    rw [renderAll, renderAll, listText, tokensAll, tokensAll, separated, append_assoc,
      cons_append, cons_append, tokenize_render e h.1 _ ends_comma, tokenize_comma,
      tokenize_space, hothers]
    · simp
    · simp
    · simp
end

/-! ## The derivation of the tokens -/

theorem number_ofNat {n : Nat} (h : n < 9000000000000000) : number (.ofNat n) = .ofInt n := by
  have hbits : n < 2 ^ 53 := by omega
  obtain ⟨hfinite, -, hmagnitude⟩ := F64.ofNat_exact hbits
  have hwhole : isWhole (.ofNat n) = true := by
    rw [isWhole, hfinite, hmagnitude, Nat.mul_mod_left]
    rfl
  rw [number, hwhole, F64.abs_ofNat hbits, F64.lt_ofNat hbits (by decide), decide_eq_true h,
    F64.toI64_ofNat hbits]
  rfl

theorem derives_literal {v : Value} (h : LiteralOk v) :
    Derives .primary [literalToken v] (.literal v) := by
  cases hjson : v.json with
  | str s =>
    obtain rfl : v = .str s := Value.ext hjson
    exact .str s
  | num x =>
    rw [LiteralOk, hjson] at h
    rw [literalToken, hjson]
    cases x with
    | int n =>
      have hnat : ((n.toNat : Nat) : Int) = n := Int.toNat_of_nonneg h.1
      have hvalue : number (.ofNat n.toNat) = v := by
        rw [number_ofNat (by omega), hnat]
        exact (Value.ext hjson).symm
      rw [← hvalue]
      exact .num _
    | float x => exact h.elim
  | bool b =>
    obtain rfl : v = .bool b := Value.ext hjson
    cases b with
    | true => exact .constant rfl
    | false => exact .constant rfl
  | null =>
    obtain rfl : v = .null := Value.ext hjson
    exact .constant rfl
  | arr _ =>
    rw [LiteralOk, hjson] at h
    exact h.elim
  | obj _ =>
    rw [LiteralOk, hjson] at h
    exact h.elim

theorem Derives.not_or (h : Derives .not tokens e) : Derives .or tokens e :=
  .tighter nofun nofun (.tighter nofun nofun h)

theorem Derives.comparison_or (h : Derives .comparison tokens e)
    (hnot : keyword "NOT" tokens = false) : Derives .or tokens e :=
  not_or (.tighter nofun (fun _ => hnot) h)

theorem Derives.additive_or (h : Derives .additive tokens e) (hnot : keyword "NOT" tokens = false) :
    Derives .or tokens e :=
  comparison_or (.tighter nofun nofun h) hnot

theorem Derives.multiplicative_or (h : Derives .multiplicative tokens e)
    (hnot : keyword "NOT" tokens = false) : Derives .or tokens e :=
  additive_or (.tighter nofun nofun h) hnot

/-- What stands in parentheses, or is a single token, is an operand of every level. -/
theorem Derives.operand (h : Derives .primary tokens e) (hnot : keyword "NOT" tokens = false)
    (level : Level) : Derives level tokens e := by
  have hunary : Derives .unary tokens e := .tighter nofun nofun h
  have hmultiplicative : Derives .multiplicative tokens e := .tighter nofun nofun hunary
  have hadditive : Derives .additive tokens e := .tighter nofun nofun hmultiplicative
  have hcomparison : Derives .comparison tokens e := .tighter nofun nofun hadditive
  have hword : Derives .not tokens e := .tighter nofun (fun _ => hnot) hcomparison
  cases level with
  | or => exact hword.not_or
  | and => exact .tighter nofun nofun hword
  | not => exact hword
  | comparison => exact hcomparison
  | additive => exact hadditive
  | multiplicative => exact hmultiplicative
  | unary => exact hunary
  | primary => exact h

theorem keyword_tokensOf (h : Renderable e) : keyword "NOT" (tokensOf e) = false := by
  cases e with
  | literal v =>
    rw [tokensOf, literalToken]
    split <;> rfl
  | unary op e => cases op <;> rfl
  | call name args =>
    rw [Renderable] at h
    exact h.1.operator
  | _ => rfl

variable (items : List Expr)

/-- The tokens of the items, each with its item. -/
def paired : List (List Tok × Expr) := items.map fun e => (tokensOf e, e)

theorem paired_fst : (paired items).map Prod.fst = tokensAll items := by
  induction items with
  | nil => rfl
  | cons e rest ih =>
    rw [tokensAll, ← ih]
    rfl

theorem paired_snd : (paired items).map Prod.snd = items := by
  simp [paired, Function.comp_def]

theorem separated_paired :
    separated ((paired items).map Prod.fst) = separated (tokensAll items) := by
  rw [paired_fst]

theorem keyword_append {others : List Tok} (h : tokens ≠ []) :
    keyword "NOT" (tokens ++ others) = keyword "NOT" tokens := by
  rw [keyword, keyword, head?_append_of_ne_nil _ h]

theorem negation_notTokens (negated : Bool) : Negation negated (notTokens negated) := by
  cases negated with
  | false => rfl
  | true => exact ⟨_, by decide, rfl⟩

theorem tokensOf_ne (e : Expr) : tokensOf e ≠ [] := by
  cases e with
  | unary op e => cases op <;> simp [tokensOf]
  | _ => simp [tokensOf]

theorem keyword_front (h : Renderable e) (others : List Tok) :
    keyword "NOT" (tokensOf e ++ others) = false := by
  rw [keyword_append (tokensOf_ne e), keyword_tokensOf h]

theorem derives_binary {a b : Expr} (op : BinaryOp) (ha : Renderable a)
    (hleft : ∀ level, Derives level (tokensOf a) a)
    (hright : ∀ level, Derives level (tokensOf b) b) :
    Derives .or (tokensOf a ++ opToken op :: tokensOf b) (.binary a op b) := by
  have hnot := keyword_front ha (opToken op :: tokensOf b)
  cases op with
  | or => exact .binary (by decide) (hleft .or) (hright .and)
  | and => exact .tighter nofun nofun (.binary (by decide) (hleft .and) (hright .not))
  | add => exact (binary (by decide) (hleft .additive) (hright _)).additive_or hnot
  | sub => exact (binary (by decide) (hleft .additive) (hright _)).additive_or hnot
  | mul =>
    exact (binary (by decide) (hleft .multiplicative) (hright _)).multiplicative_or hnot
  | div =>
    exact (binary (by decide) (hleft .multiplicative) (hright _)).multiplicative_or hnot
  | rem =>
    exact (binary (by decide) (hleft .multiplicative) (hright _)).multiplicative_or hnot
  | _ =>
    exact (Derives.comparison (by decide) (hleft .additive) (hright .additive)).comparison_or hnot

mutual
theorem derives_tokensOf : ∀ e : Expr, Renderable e → ∀ level, Derives level (tokensOf e) e
  | .literal v, h, level => by
    rw [Renderable] at h
    have hprimary : Derives .primary (tokensOf (.literal v)) (.literal v) := by
      rw [tokensOf]
      exact derives_literal h
    exact hprimary.operand (keyword_tokensOf (by rwa [Renderable])) level
  | .field name, _, level => by
    rw [tokensOf]
    exact (quoted name).operand rfl level
  | .unary .not e, h, level => by
    rw [Renderable] at h
    have hinner : Derives .not (.ident "NOT" :: tokensOf e) (.unary .not e) :=
      .not (by decide) (derives_tokensOf e h .not)
    rw [tokensOf]
    exact (paren hinner.not_or).operand rfl level
  | .unary .neg e, h, level => by
    rw [Renderable] at h
    have hinner : Derives .unary (.op "-" :: tokensOf e) (.unary .neg e) :=
      .neg (derives_tokensOf e h .unary)
    have houter : Derives .multiplicative (.op "-" :: tokensOf e) (.unary .neg e) :=
      .tighter nofun nofun hinner
    rw [tokensOf]
    exact (paren (houter.multiplicative_or rfl)).operand rfl level
  | .binary a op b, h, level => by
    rw [Renderable] at h
    have hleft := derives_tokensOf a h.1
    have hright := derives_tokensOf b h.2
    have hparen := paren (derives_binary op h.1 hleft hright)
    rw [append_assoc, cons_append] at hparen
    rw [tokensOf]
    exact hparen.operand rfl level
  | .inList e items negated, h, level => by
    rw [Renderable] at h
    have hne : paired items ≠ [] := by simpa [paired] using h.2.1
    have hword : isWord "IN" (.ident "IN") = true := by decide
    have hinner := inList (derives_tokensOf e h.1 .additive) (negation_notTokens negated)
      hword hne (derives_all items h.2.2 .additive)
    rw [separated_paired, paired_snd] at hinner
    have hparen := paren (hinner.comparison_or (keyword_front h.1 _))
    simp only [append_assoc, cons_append, nil_append] at hparen
    rw [tokensOf]
    exact hparen.operand rfl level
  | .isNull e negated, h, level => by
    rw [Renderable] at h
    have hword : isWord "IS" (.ident "IS") = true := by decide
    have hnull : isWord "NULL" (.ident "NULL") = true := by decide
    have hinner := isNull (derives_tokensOf e h .additive) hword (negation_notTokens negated) hnull
    have hparen := paren (hinner.comparison_or (keyword_front h _))
    simp only [append_assoc, cons_append, nil_append] at hparen
    rw [tokensOf]
    exact hparen.operand rfl level
  | .like e pattern negated, h, level => by
    rw [Renderable] at h
    have hword : isWord "LIKE" (.ident "LIKE") = true := by decide
    have hinner := like (derives_tokensOf e h.1 .additive) (negation_notTokens negated)
      hword (derives_tokensOf pattern h.2 .additive)
    have hparen := paren (hinner.comparison_or (keyword_front h.1 _))
    simp only [append_assoc, cons_append] at hparen
    rw [tokensOf]
    exact hparen.operand rfl level
  | .call name args, h, level => by
    rw [Renderable] at h
    have hcall := Derives.call h.1.constant (derives_all args h.2 .or)
    rw [separated_paired, paired_snd, h.1.lower] at hcall
    rw [tokensOf]
    exact hcall.operand h.1.operator level

theorem derives_all : ∀ items : List Expr, RenderableAll items → ∀ level,
    ∀ item ∈ paired items, Derives level item.1 item.2
  | [], _, _ => by simp [paired]
  | e :: rest, h, level => by
    rw [RenderableAll] at h
    rw [paired, map_cons, forall_mem_cons]
    exact ⟨derives_tokensOf e h.1 level, derives_all rest h.2 level⟩
end

variable (debug : Tok → String)

theorem tokenize_rendered (h : Renderable e) : tokenize (render e) = .ok (tokensOf e) := by
  have htokens := tokenize_render e h [] (by simp [Ends])
  rw [append_nil] at htokens
  rw [htokens]
  show Except.ok (tokensOf e ++ []) = _
  rw [append_nil]

/-- The text of an expression is read as the expression, and any text as the one that the grammar
gives it. -/
theorem parse_render_precedence : (∀ e, Renderable e → parse debug (render e) = .ok e) ∧
      ∀ text e, parse debug text = .ok e ↔
        ∃ tokens, tokenize text = .ok tokens ∧ Derives .or tokens e := by
  refine ⟨fun e h => ?_, fun text e => parse_ok⟩
  exact parse_ok.mpr ⟨tokensOf e, tokenize_rendered h, derives_tokensOf e h .or⟩

theorem callable_upper : Callable "upper" where
  word := ⟨'u', _, rfl, by decide, by decide, by decide⟩
  lower := by decide
  constant := rfl
  operator := by decide

/-- `(upper("it's") OR (NOT (["a"] NOT IN ('b''c', 17))))`. -/
theorem parse_render_precedence_not_in : parse (fun _ => "") (render
      (.binary (.call "upper" [.field "it's"]) .or (.unary .not
        (.inList (.field "\"a\"") [.literal (.str "b'c"), .literal (.ofInt 17)] true)))) =
      .ok (.binary (.call "upper" [.field "it's"]) .or (.unary .not
        (.inList (.field "\"a\"") [.literal (.str "b'c"), .literal (.ofInt 17)] true))) := by
  refine (parse_render_precedence fun _ => "").1 _ ?_
  have hquoted : Quotable "it's" := ⟨('"', '"'), by decide, by decide⟩
  have hbracket : Quotable "\"a\"" := ⟨('[', ']'), by decide, by decide⟩
  have hnumber : LiteralOk (.ofInt 17) := ⟨by decide, by decide⟩
  have hstring : LiteralOk (.str "b'c") := trivial
  simp [Renderable, RenderableAll, callable_upper, hquoted, hbracket, hnumber, hstring]

theorem parsed_ne {r : Except ToolkitError Expr} (shape : Expr → Bool) (he : shape e = true)
    (hr : r.toOption.any shape = false) : r ≠ .ok e := by
  intro h
  rw [h] at hr
  exact absurd (he.symm.trans hr) nofun

def isInteger : Expr → Bool
  | .literal ⟨.num (.int _), _⟩ => true
  | _ => false

def isInList : Expr → Bool
  | .inList _ _ _ => true
  | _ => false

def isCall (named : String → Bool) : Expr → Bool
  | .call name _ => named name
  | _ => false

theorem parse_render_excluded : parse (fun _ => "") (render (.literal (.ofInt 9000000000000000))) ≠
        .ok (.literal (.ofInt 9000000000000000)) ∧
      parse (fun _ => "") (render (.inList (.field "a") [] false)) ≠
        .ok (.inList (.field "a") [] false) ∧
      parse (fun _ => "") (render (.call "not" [.field "a"])) ≠ .ok (.call "not" [.field "a"]) ∧
      parse (fun _ => "") (render (.call "true" [])) ≠ .ok (.call "true" []) ∧
      parse (fun _ => "") (render (.call "ABS" [])) ≠ .ok (.call "ABS" []) ∧
      parse (fun _ => "") (render (.call "a b" [])) ≠ .ok (.call "a b" []) := by
  refine ⟨?_, ?_, ?_, ?_, ?_, ?_⟩
  · exact parsed_ne isInteger rfl (by decide +kernel)
  · exact parsed_ne isInList rfl (by rfl)
  · exact parsed_ne (isCall fun _ => true) rfl (by rfl)
  · exact parsed_ne (isCall fun _ => true) rfl (by rfl)
  · exact parsed_ne (isCall (· == "ABS")) rfl (by decide +kernel)
  · exact parsed_ne (isCall (· == "a b")) rfl (by rfl)

end GeneGIS.Toolkit.Expression
