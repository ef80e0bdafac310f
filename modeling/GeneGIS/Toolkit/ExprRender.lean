/-
`render` writes an expression with a parenthesis around every operation, so that the parser has
nothing to decide.
-/
import GeneGIS.Toolkit.ExprPrecedence

namespace GeneGIS.Toolkit.Expression

open List Nat Text

/-- A quote inside a string literal is doubled. -/
def doubled (c : Char) : List Char := if c = '\x27' then ['\x27', '\x27'] else [c]

/-- There are literals of strings, natural numbers, truth values and of `NULL`. -/
def literalText (v : Value) : List Char :=
  match v.json with
  | .str s => '\x27' :: (s.toList.flatMap doubled ++ ['\x27'])
  | .num (.int n) => n.toNat.repr.toList
  | .bool true => "TRUE".toList
  | .bool false => "FALSE".toList
  | _ => "NULL".toList

/-- A field name in the first quotes that do not end in it. -/
def quotedName (name : String) : List Char :=
  match nameQuotes.find? fun q => !name.toList.contains q.2 with
  | some (opening, closing) => opening :: (name.toList ++ [closing])
  | none => name.toList

def opText : BinaryOp → String
  | .or => "OR"
  | .and => "AND"
  | .eq => "="
  | .ne => "!="
  | .lt => "<"
  | .le => "<="
  | .gt => ">"
  | .ge => ">="
  | .add => "+"
  | .sub => "-"
  | .mul => "*"
  | .div => "/"
  | .rem => "%"

/-- The word `NOT` and a space, where it is wanted. -/
def notText (negated : Bool) : List Char := if negated then "NOT".toList ++ [' '] else []

def listText : List (List Char) → List Char
  | [] => []
  | [item] => item
  | item :: rest => item ++ ',' :: ' ' :: listText rest

mutual
def render : Expr → List Char
  | .literal v => literalText v
  | .field name => quotedName name
  | .unary .not e => '(' :: ("NOT".toList ++ ' ' :: (render e ++ [')']))
  | .unary .neg e => '(' :: '-' :: (render e ++ [')'])
  | .binary a op b =>
    '(' :: (render a ++ ' ' :: ((opText op).toList ++ ' ' :: (render b ++ [')'])))
  | .inList e items negated =>
    '(' :: (render e ++ ' ' :: (notText negated ++ ("IN".toList ++
      ' ' :: '(' :: (listText (renderAll items) ++ [')', ')']))))
  | .isNull e negated =>
    '(' :: (render e ++ ' ' :: ("IS".toList ++ ' ' ::
      (notText negated ++ ("NULL".toList ++ [')']))))
  | .like e pattern negated =>
    '(' :: (render e ++ ' ' :: (notText negated ++
      ("LIKE".toList ++ ' ' :: (render pattern ++ [')']))))
  | .call name args => name.toList ++ '(' :: (listText (renderAll args) ++ [')'])

def renderAll : List Expr → List (List Char)
  | [] => []
  | e :: rest => render e :: renderAll rest
end

/-- A literal of the language; a number beyond the bound is read as a floating-point number. -/
def LiteralOk (v : Value) : Prop :=
  match v.json with
  | .str _ => True
  | .num (.int n) => 0 ≤ n ∧ n < 9000000000000000
  | .bool _ => True
  | .null => True
  | _ => False

/-- Some quotes do not end in the name. -/
def Quotable (name : String) : Prop := ∃ q ∈ nameQuotes, name.toList.contains q.2 = false

/-- The text is one word: no part of it is cut off as an operator or a number. -/
def OneWord (word : String) : Prop :=
  ∃ c rest, word.toList = c :: rest ∧ (∀ d ∈ c :: rest, inWord d = true) ∧
    doubleOps.lookup (c :: rest.take 1) = none ∧ startsNumber c rest = false

/-- The name is one word in lower case, and none that stands for something else. -/
structure Callable (name : String) : Prop where
  word : OneWord name
  lower : toAsciiLowercase name = name
  constant : constant name = none
  operator : isWord "NOT" (.ident name) = false

mutual
/-- The expressions that `render` can write down. -/
def Renderable : Expr → Prop
  | .literal v => LiteralOk v
  | .field name => Quotable name
  | .unary _ e => Renderable e
  | .binary a _ b => Renderable a ∧ Renderable b
  | .inList e items _ => Renderable e ∧ items ≠ [] ∧ RenderableAll items
  | .isNull e _ => Renderable e
  | .like e pattern _ => Renderable e ∧ Renderable pattern
  | .call name args => Callable name ∧ RenderableAll args

def RenderableAll : List Expr → Prop
  | [] => True
  | e :: rest => Renderable e ∧ RenderableAll rest
end

def literalToken (v : Value) : Tok :=
  match v.json with
  | .str s => .str s
  | .num (.int n) => .num (.ofNat n.toNat)
  | .bool true => .ident "TRUE"
  | .bool false => .ident "FALSE"
  | _ => .ident "NULL"

def opToken : BinaryOp → Tok
  | .or => .ident "OR"
  | .and => .ident "AND"
  | op => .op (opText op)

def notTokens (negated : Bool) : List Tok := if negated then [.ident "NOT"] else []

mutual
def tokensOf : Expr → List Tok
  | .literal v => [literalToken v]
  | .field name => [.quoted name]
  | .unary .not e => .openParen :: .ident "NOT" :: (tokensOf e ++ [.closeParen])
  | .unary .neg e => .openParen :: .op "-" :: (tokensOf e ++ [.closeParen])
  | .binary a op b => .openParen :: (tokensOf a ++ opToken op :: (tokensOf b ++ [.closeParen]))
  | .inList e items negated =>
    .openParen :: (tokensOf e ++ (notTokens negated ++
      .ident "IN" :: .openParen :: (separated (tokensAll items) ++ [.closeParen, .closeParen])))
  | .isNull e negated =>
    .openParen :: (tokensOf e ++ .ident "IS" :: (notTokens negated ++ [.ident "NULL", .closeParen]))
  | .like e pattern negated =>
    .openParen :: (tokensOf e ++ (notTokens negated ++
      .ident "LIKE" :: (tokensOf pattern ++ [.closeParen])))
  | .call name args =>
    .ident name :: .openParen :: (separated (tokensAll args) ++ [.closeParen])

def tokensAll : List Expr → List (List Tok)
  | [] => []
  | e :: rest => tokensOf e :: tokensAll rest
end

/-! ## Cutting the text -/

variable {rest text : List Char} {c : Char} {token : Tok} {tokens : List Tok} {e : Expr}

theorem length_readString {s t : List Char} (h : readString s text = some (t, rest)) :
    rest.length ≤ text.length := by
  fun_induction readString s text with
  | case1 => cases h
  | case2 s tail ih =>
    have hle := ih h
    simp only [List.length_cons]
    omega
  | case3 s tail _ =>
    cases h
    simp
  | case4 s c tail _ _ ih =>
    have hle := ih h
    rw [List.length_cons]
    omega

theorem length_numberTail (previous : Char) (text : List Char) :
    (numberTail previous text).2.length ≤ text.length := by
  induction text generalizing previous with
  | nil => exact le_refl _
  | cons c tail ih =>
    rw [numberTail]
    by_cases hc : continuesNumber previous c = true
    · rw [if_pos hc]
      exact le_succ_of_le (ih c)
    · rw [if_neg hc]

/-- What is left of a text after a token is no longer than it. -/
def Within (text : List Char) (r : Except ToolkitError (Tok × List Char)) : Prop :=
  ∀ token rest, r = .ok (token, rest) → rest.length ≤ text.length

theorem within_ok (h : rest.length ≤ text.length) : Within text (.ok (token, rest)) := by
  intro t r heq
  obtain ⟨-, rfl⟩ := Prod.mk.inj (Except.ok.inj heq)
  exact h

theorem within_stringToken : Within text (stringToken text) := by
  rw [stringToken]
  cases hread : readString [] text with
  | none => exact fun _ _ h => absurd h err_ne
  | some read => exact within_ok (length_readString (s := []) (t := read.1) hread)

theorem within_nameToken {close : Char} : Within text (nameToken close text) := by
  rw [nameToken]
  by_cases hclose : text.contains close = true
  · rw [if_pos hclose]
    refine within_ok ?_
    have hle := (dropWhile_suffix (l := text) (· != close)).length_le
    rw [length_drop]
    omega
  · rw [if_neg hclose]
    exact fun _ _ h => absurd h err_ne

theorem within_numberToken : Within text (numberToken c text) := by
  rw [numberToken]
  cases F64.parse (c :: (numberTail c text).1) with
  | none => exact fun _ _ h => absurd h err_ne
  | some n => exact within_ok (length_numberTail c text)

theorem within_nextToken : Within text (nextToken c text) := by
  unfold nextToken
  split
  next => exact within_ok (by simp)
  next =>
    repeat' split
    · exact within_ok (le_refl _)
    · exact within_ok (le_refl _)
    · exact within_ok (le_refl _)
    · exact within_ok (le_refl _)
    · exact within_stringToken
    · exact within_nameToken
    · exact within_numberToken
    · exact within_ok (dropWhile_suffix inWord).length_le

theorem tokenizeTo_agree {n m : Nat} (hn : text.length ≤ n) (hm : text.length ≤ m) :
    tokenizeTo n text = tokenizeTo m text := by
  induction n generalizing m text with
  | zero =>
    obtain rfl := length_eq_zero_iff.mp (le_zero.mp hn)
    cases m <;> rfl
  | succ n ih =>
    cases text with
    | nil => cases m <;> rfl
    | cons c text =>
      cases m with
      | zero => simp at hm
      | succ m =>
        rw [List.length_cons] at hn hm
        rw [tokenizeTo, tokenizeTo]
        by_cases hspace : isWhitespace c = true
        · rw [if_pos hspace, if_pos hspace]
          exact ih (by omega) (by omega)
        · rw [if_neg hspace, if_neg hspace]
          cases hnext : nextToken c text with
          | error error => rfl
          | ok next =>
            have hle := within_nextToken next.1 next.2 hnext
            show (tokenizeTo n next.2 >>= _) = (tokenizeTo m next.2 >>= _)
            rw [ih (m := m) (by omega) (by omega)]

/-- Tokens in front of those that are still to come. -/
def prepend (tokens : List Tok) (r : Except ToolkitError (List Tok)) :
    Except ToolkitError (List Tok) := r.map fun others => tokens ++ others

@[simp] theorem prepend_prepend (l m : List Tok) (r : Except ToolkitError (List Tok)) :
    prepend l (prepend m r) = prepend (l ++ m) r := by
  cases r <;> simp [prepend, Except.map]

@[simp] theorem prepend_nil (r : Except ToolkitError (List Tok)) : prepend [] r = r := by
  cases r <;> rfl

theorem tokenize_next (hspace : isWhitespace c = false)
    (h : nextToken c text = .ok (token, rest)) :
    tokenize (c :: text) = prepend [token] (tokenize rest) := by
  have hle := within_nextToken token rest h
  rw [tokenize, List.length_cons, tokenizeTo, hspace, if_neg Bool.false_ne_true, h]
  show (tokenizeTo text.length rest >>= _) = _
  rw [tokenizeTo_agree hle (le_refl rest.length), ← tokenize]
  cases tokenize rest <;> rfl

theorem tokenize_space : tokenize (' ' :: text) = tokenize text := by
  rw [tokenize, List.length_cons, tokenizeTo, if_pos (by decide), tokenize]

theorem tokenize_openParen : tokenize ('(' :: text) = prepend [.openParen] (tokenize text) :=
  tokenize_next (by decide) (by cases text <;> rfl)

theorem tokenize_closeParen : tokenize (')' :: text) = prepend [.closeParen] (tokenize text) :=
  tokenize_next (by decide) (by cases text <;> rfl)

theorem tokenize_comma : tokenize (',' :: text) = prepend [.comma] (tokenize text) :=
  tokenize_next (by decide) (by cases text <;> rfl)

theorem tokenize_minus : tokenize ('-' :: text) = prepend [.op "-"] (tokenize text) :=
  tokenize_next (by decide) (by cases text <;> rfl)

/-- What may follow a word, a number or a quoted text. -/
def Ends (rest : List Char) : Prop := ∀ c ∈ rest.head?, c = ' ' ∨ c = '(' ∨ c = ')' ∨ c = ','

theorem ends_of {d : Char} (h : d = ' ' ∨ d = '(' ∨ d = ')' ∨ d = ',') : Ends (d :: rest) := by
  intro c hc
  cases hc
  exact h

/-! ## Words and numbers -/

theorem lookup_none {α β : Type} [BEq α] [LawfulBEq α] {l : List (α × β)} {a : α}
    (h : ∀ p ∈ l, p.1 ≠ a) : l.lookup a = none := by
  rw [lookup_eq_none_iff]
  intro p hp
  simpa using fun heq => h p hp heq.symm

theorem lookup_first (h : ∀ p ∈ doubleOps, p.1.head? ≠ some c) :
    doubleOps.lookup (c :: text) = none :=
  lookup_none fun p hp heq => h p hp (by rw [heq]; rfl)

theorem nextToken_word (hword : inWord c = true)
    (hdouble : doubleOps.lookup (c :: text.take 1) = none) :
    nextToken c text =
      if startsNumber c text then numberToken c text else .ok (wordToken c text) := by
  have hother : ∀ d : Char, inWord d = false → c ≠ d := by
    intro d hd heq
    rw [heq, hd] at hword
    cases hword
  have hsingle : singleOps.lookup c = none := lookup_none fun p hp heq =>
    hother p.1 ((by decide : ∀ p ∈ singleOps, inWord p.1 = false) p hp) heq.symm
  have hquotes : nameQuotes.lookup c = none := lookup_none fun p hp heq =>
    hother p.1 ((by decide : ∀ p ∈ nameQuotes, inWord p.1 = false) p hp) heq.symm
  rw [nextToken, hdouble]
  dsimp only
  rw [if_neg (not_or.mpr ⟨hother '(' (by decide), hother '（' (by decide)⟩),
    if_neg (not_or.mpr ⟨hother ')' (by decide), hother '）' (by decide)⟩),
    if_neg (not_or.mpr ⟨hother ',' (by decide), hother '、' (by decide)⟩), hsingle]
  dsimp only
  rw [if_neg (hother '\x27' (by decide)), hquotes]

theorem Ends.inWord (h : Ends rest) : ∀ c ∈ rest.head?, inWord c = false := by
  intro c hc
  rcases h c hc with rfl | rfl | rfl | rfl <;> decide

theorem span_word {tail : List Char} (htail : ∀ d ∈ tail, inWord d = true) (hrest : Ends rest) :
    (tail ++ rest).takeWhile inWord = tail ∧ (tail ++ rest).dropWhile inWord = rest := by
  have hstop : rest.takeWhile inWord = [] ∧ rest.dropWhile inWord = rest := by
    cases rest with
    | nil => exact ⟨rfl, rfl⟩
    | cons c others =>
      have hc := hrest.inWord c rfl
      rw [takeWhile_cons, dropWhile_cons, hc]
      exact ⟨rfl, rfl⟩
  rw [takeWhile_append_of_pos htail, dropWhile_append_of_pos htail, hstop.1, hstop.2, append_nil]
  exact ⟨rfl, rfl⟩

theorem lookup_append {tail : List Char} (h : doubleOps.lookup (c :: tail.take 1) = none)
    (hrest : Ends rest) : doubleOps.lookup (c :: (tail ++ rest).take 1) = none := by
  cases tail with
  | cons d tail => exact h
  | nil =>
    cases rest with
    | nil => exact h
    | cons d others =>
      refine lookup_none ?_
      intro p hp heq
      have hsecond : ∀ p ∈ doubleOps, ∀ d ∈ p.1.drop 1,
          ¬ (d = ' ' ∨ d = '(' ∨ d = ')' ∨ d = ',') := by decide
      exact hsecond p hp d (by rw [heq]; simp) (hrest d rfl)

theorem startsNumber_append {tail : List Char} (h : startsNumber c tail = false)
    (hrest : Ends rest) : startsNumber c (tail ++ rest) = false := by
  cases tail with
  | cons d tail => exact h
  | nil =>
    cases rest with
    | nil => exact h
    | cons d others =>
      have hd : d.isDigit = false := by
        rcases hrest d rfl with rfl | rfl | rfl | rfl <;> decide
      simp only [startsNumber, Bool.or_eq_false_iff] at h
      simp [startsNumber, h.1, hd]

theorem tokenize_word {word : String} (hword : OneWord word) (hrest : Ends rest) :
    tokenize (word.toList ++ rest) = prepend [.ident word] (tokenize rest) := by
  obtain ⟨c, tail, htext, hall, hdouble, hnumber⟩ := hword
  have hspan := span_word (fun d hd => hall d (mem_cons_of_mem _ hd)) hrest
  have hin := hall c mem_cons_self
  have hspace : isWhitespace c = false := by
    rw [inWord, Bool.and_eq_true, Bool.not_eq_true'] at hin
    exact hin.1
  rw [htext, cons_append]
  refine tokenize_next hspace ?_
  rw [nextToken_word hin (lookup_append hdouble hrest), startsNumber_append hnumber hrest,
    wordToken, hspan.1, hspan.2, ← htext, String.ofList_toList]
  rfl

theorem inWord_digit (h : c.isDigit = true) : inWord c = true := by
  have hstops : ∀ d ∈ wordStops, d.isDigit = false := by decide
  have hspace : isWhitespace c = false := by
    simp only [Char.isDigit, Bool.and_eq_true, decide_eq_true_eq, UInt32.le_iff_toNat_le] at h
    have hlow : 48 ≤ c.toNat := h.1
    have hhigh : c.toNat ≤ 57 := h.2
    simp only [isWhitespace, Bool.or_eq_false_iff, Bool.and_eq_false_iff,
      decide_eq_false_iff_not, beq_eq_false_iff_ne]
    omega
  rw [inWord, hspace, Bool.not_false, Bool.true_and, Bool.not_eq_true', ← Bool.not_eq_true,
    contains_iff_mem]
  intro hmem
  rw [hstops c hmem] at h
  cases h

theorem numberTail_digits {previous : Char} {tail : List Char}
    (htail : ∀ d ∈ tail, d.isDigit = true) (hrest : Ends rest) :
    numberTail previous (tail ++ rest) = (tail, rest) := by
  induction tail generalizing previous with
  | nil =>
    cases rest with
    | nil => rfl
    | cons d others =>
      have hstop : continuesNumber previous d = false := by
        rcases hrest d rfl with rfl | rfl | rfl | rfl <;> rfl
      rw [List.nil_append, numberTail, hstop, if_neg Bool.false_ne_true]
  | cons d tail ih =>
    have hd : continuesNumber previous d = true := by
      rw [continuesNumber, htail d mem_cons_self]
      rfl
    rw [cons_append, numberTail, if_pos hd, ih fun b hb => htail b (mem_cons_of_mem _ hb)]

theorem tokenize_number (n : Nat) (hrest : Ends rest) :
    tokenize (n.repr.toList ++ rest) = prepend [.num (.ofNat n)] (tokenize rest) := by
  have hdigits : ∀ c ∈ n.repr.toList, c.isDigit = true := fun c hc => Json.isDigit_of_mem_natChars hc
  have hparse := F64.parse_repr n
  have hne : n.repr.toList ≠ [] := by
    rw [toList_repr]
    exact toDigits_ne_nil
  generalize n.repr.toList = digits at hdigits hparse hne
  obtain ⟨c, tail, rfl⟩ := exists_cons_of_ne_nil hne
  have hc := hdigits c mem_cons_self
  have hin := inWord_digit hc
  have hdouble : doubleOps.lookup (c :: (tail ++ rest).take 1) = none := by
    refine lookup_first ?_
    intro p hp heq
    have hfirst : ∀ p ∈ doubleOps, ∀ d ∈ p.1.head?, d.isDigit = false := by decide
    rw [hfirst p hp c heq] at hc
    cases hc
  have hspace : isWhitespace c = false := by
    rw [inWord, Bool.and_eq_true, Bool.not_eq_true'] at hin
    exact hin.1
  rw [cons_append]
  refine tokenize_next hspace ?_
  have hstarts : startsNumber c (tail ++ rest) = true := by
    rw [startsNumber, hc]
    rfl
  have htail : numberTail c (tail ++ rest) = (tail, rest) :=
    numberTail_digits (fun d hd => hdigits d (mem_cons_of_mem _ hd)) hrest
  rw [nextToken_word hin hdouble, if_pos hstarts, numberToken, htail, hparse]

theorem readString_doubled {s done : List Char} (hrest : Ends rest) :
    readString done (s.flatMap doubled ++ '\x27' :: rest) = some (done ++ s, rest) := by
  induction s generalizing done with
  | nil =>
    cases rest with
    | nil => simp [readString]
    | cons d others =>
      rw [flatMap_nil, List.nil_append, readString, if_pos rfl, append_nil]
      intro tail _ heq
      have hquote := hrest d rfl
      rw [(List.cons.inj heq).1] at hquote
      revert hquote
      decide
  | cons c s ih =>
    rw [flatMap_cons, append_assoc]
    by_cases hquote : c = '\x27'
    · rw [hquote, doubled, if_pos rfl]
      show readString done ('\x27' :: '\x27' :: (s.flatMap doubled ++ '\x27' :: rest)) = _
      rw [readString, ih]
      simp
    · rw [doubled, if_neg hquote, singleton_append, readString, if_neg hquote, ih]
      · simp
      · intro tail heq _
        exact hquote heq

theorem tokenize_string (s : String) (hrest : Ends rest) :
    tokenize ('\x27' :: (s.toList.flatMap doubled ++ '\x27' :: rest)) =
      prepend [.str s] (tokenize rest) := by
  refine tokenize_next (by decide) ?_
  rw [nextToken, lookup_first (by decide)]
  show stringToken _ = _
  rw [stringToken, readString_doubled hrest]
  dsimp only
  rw [List.nil_append, String.ofList_toList]

theorem tokenize_name {name : String} (h : Quotable name) (rest : List Char) :
    tokenize (quotedName name ++ rest) = prepend [.quoted name] (tokenize rest) := by
  rw [quotedName]
  cases hfind : nameQuotes.find? fun q => !name.toList.contains q.2 with
  | none =>
    obtain ⟨q, hq, hfree⟩ := h
    have hnone := find?_eq_none.mp hfind q hq
    rw [hfree] at hnone
    exact absurd rfl hnone
  | some q =>
    obtain ⟨opening, closing⟩ := q
    have hq := mem_of_find?_eq_some hfind
    have hfree := find?_some hfind
    rw [Bool.not_eq_true', ← Bool.not_eq_true, contains_iff_mem] at hfree
    have hkeep : ∀ c ∈ name.toList, (c != closing) = true := by
      intro c hc
      rw [bne_iff_ne]
      intro heq
      exact hfree (heq ▸ hc)
    have htoken :
        nameToken closing (name.toList ++ closing :: rest) = .ok (.quoted name, rest) := by
      have hclose : (name.toList ++ closing :: rest).contains closing = true := by simp
      rw [nameToken, if_pos hclose, takeWhile_append_of_pos hkeep,
        dropWhile_append_of_pos hkeep, takeWhile_cons, dropWhile_cons,
        bne_self_eq_false]
      simp
    have hstart : isWhitespace opening = false ∧
        ∀ text, nextToken opening text = nameToken closing text := by
      have hcases : (opening, closing) = ('"', '"') ∨ (opening, closing) = ('[', ']') ∨
          (opening, closing) = ('\x60', '\x60') := by
        simpa [nameQuotes] using hq
      rcases hcases with heq | heq | heq
      all_goals
        cases heq
        refine ⟨by decide, fun text => ?_⟩
        rw [nextToken, lookup_first (by decide)]
        rfl
    show tokenize (opening :: (name.toList ++ [closing]) ++ rest) = _
    rw [cons_append, append_assoc, singleton_append]
    refine tokenize_next hstart.1 ?_
    rw [hstart.2, htoken]

end GeneGIS.Toolkit.Expression
