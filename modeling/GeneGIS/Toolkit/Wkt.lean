/-
Printing and parsing a finite number is that of the platform; the other numbers are printed as
words.
-/
import GeneGIS.Data.Reads
import GeneGIS.Toolkit.Geometry

namespace GeneGIS.Toolkit

open Fallible

/-- `Display` and `FromStr` of `f64`, the first for finite numbers. -/
structure Decimal where
  display : F64 → List Char
  parse : List Char → Option F64

namespace Wkt

inductive Kind where
  | point
  | lineString
  | polygon
  | multiPoint
  | multiLineString
  | multiPolygon
  | collection
  deriving DecidableEq

namespace Kind

def keyword : Kind → String
  | .point => "POINT"
  | .lineString => "LINESTRING"
  | .polygon => "POLYGON"
  | .multiPoint => "MULTIPOINT"
  | .multiLineString => "MULTILINESTRING"
  | .multiPolygon => "MULTIPOLYGON"
  | .collection => "GEOMETRYCOLLECTION"

def ofKeyword? (word : String) : Option Kind :=
  [point, lineString, polygon, multiPoint, multiLineString, multiPolygon, collection].find?
    fun kind => kind.keyword = word

end Kind

variable (decimal : Decimal) (outlines : Outlines)

def num (x : F64) : List Char :=
  if x.isFinite then decimal.display x
  else if x.isNan then "NaN".toList
  else if x.sign then "-inf".toList
  else "inf".toList

def separated (parts : List (List Char)) : List Char := ", ".toList.intercalate parts

def parenthesised (text : List Char) : List Char := '(' :: (text ++ [')'])

def writeCoord (c : Coord) : List Char := num decimal c.x ++ ' ' :: num decimal c.y

def coords (line : LineString) : List Char := separated (line.map (writeCoord decimal))

def polygon (p : Polygon) : List Char :=
  separated ((p.exterior :: p.interiors).map fun r => parenthesised (coords decimal r.coords))

def tagged (kind : Kind) (body : List Char) : List Char :=
  kind.keyword.toList ++ ' ' :: parenthesised body

mutual
def write : Geometry → List Char
  | .point p => tagged .point (writeCoord decimal p)
  | .lineString l => tagged .lineString (coords decimal l)
  | .line start stop => tagged .lineString (coords decimal [start, stop])
  | .polygon p => tagged .polygon (polygon decimal p)
  | .rect r => tagged .polygon (polygon decimal (outlines.ofRect r))
  | .triangle t => tagged .polygon (polygon decimal (outlines.ofTriangle t))
  | .multiPoint points =>
    tagged .multiPoint (separated (points.map fun p => parenthesised (writeCoord decimal p)))
  | .multiLineString lines =>
    tagged .multiLineString (separated (lines.map fun l => parenthesised (coords decimal l)))
  | .multiPolygon polygons =>
    tagged .multiPolygon (separated (polygons.map fun p => parenthesised (polygon decimal p)))
  | .collection parts => tagged .collection (separated (writeParts parts))

def writeParts : List Geometry → List (List Char)
  | [] => []
  | part :: rest => write part :: writeParts rest
end

inductive Token where
  | word (text : String)
  | number (value : F64)
  | openParen
  | closeParen
  | comma
  deriving DecidableEq

inductive WktError where
  | unexpectedCharacter (c : Char)
  | invalidNumber (literal : List Char)
  | expected (token : Token) (found : Option Token)
  | fewOrdinates
  | noKeyword
  | unsupported (keyword : String)
  | trailing
  deriving DecidableEq

def isBlank (c : Char) : Bool := c = ' ' || c = '\t' || c = '\n' || c = '\r'

def startsNumber (c : Char) : Bool := c.isDigit || c = '-' || c = '+' || c = '.'

/-- The character goes on with a literal that so far ends in `previous`. -/
def continues (previous c : Char) : Bool := c.isDigit || (c = '.' || c = 'e' || c = 'E') ||
    ((c = '-' || c = '+') && (previous = 'e' || previous = 'E'))

/-- The rest of a literal and what follows it. -/
def literalTail (previous : Char) : List Char → List Char × List Char
  | [] => ([], [])
  | c :: rest =>
    if continues previous c then (c :: (literalTail c rest).1, (literalTail c rest).2)
    else ([], c :: rest)

/-- Every token takes a character, so the length of the text is enough. -/
def tokenizeTo : Nat → List Char → Except WktError (List Token)
  | 0, _ => .ok []
  | _ + 1, [] => .ok []
  | fuel + 1, c :: rest =>
    if isBlank c then tokenizeTo fuel rest
    else if c = '(' then return .openParen :: (← tokenizeTo fuel rest)
    else if c = ')' then return .closeParen :: (← tokenizeTo fuel rest)
    else if c = ',' then return .comma :: (← tokenizeTo fuel rest)
    else if c.isAlpha then
      let word := String.ofList ((c :: rest.takeWhile Char.isAlpha).map Char.toUpper)
      return .word word :: (← tokenizeTo fuel (rest.dropWhile Char.isAlpha))
    else if startsNumber c then
      let literal := c :: (literalTail c rest).1
      match decimal.parse literal with
      | some value => return .number value :: (← tokenizeTo fuel (literalTail c rest).2)
      | none => .error (.invalidNumber literal)
    else .error (.unexpectedCharacter c)

def tokenize (text : List Char) : Except WktError (List Token) :=
  tokenizeTo decimal text.length text

/-! ## Reading -/

abbrev Parser (α : Type) := Fallible WktError (List Token) α

def expect (token : Token) : Parser Unit := fun tokens =>
  match tokens with
  | found :: rest =>
    if found = token then .ok () rest else .error (.expected token (some found)) rest
  | [] => .error (.expected token none) []

/-- Skip dimension qualifiers and tell whether `EMPTY` follows. -/
def skipQualifiers : List Token → Bool × List Token
  | .word w :: rest =>
    if w = "Z" || w = "M" || w = "ZM" then skipQualifiers rest
    else if w = "EMPTY" then (true, rest)
    else (false, .word w :: rest)
  | tokens => (false, tokens)

def qualifiers : Parser Bool := fun tokens =>
  .ok (skipQualifiers tokens).1 (skipQualifiers tokens).2

def numbers : List Token → List F64 × List Token
  | .number x :: rest => (x :: (numbers rest).1, (numbers rest).2)
  | tokens => ([], tokens)

def coord : Parser Coord := fun tokens =>
  match (numbers tokens).1 with
  | x :: y :: _ => .ok { x := x, y := y } (numbers tokens).2
  | _ => .error .fewOrdinates (numbers tokens).2

/-- The items after the first.  Each follows a comma, so the number of tokens is enough. -/
def more {α : Type} (item : Parser α) : Nat → Parser (List α)
  | 0 => pure []
  | fuel + 1 => fun tokens =>
    match tokens with
    | .comma :: rest => (do
      let a ← item
      let others ← more item fuel
      return a :: others : Parser (List α)) rest
    | tokens => .ok [] tokens

def list {α : Type} (item : Parser α) : Parser (α × List α) := do
  expect .openParen
  let first ← item
  let others ← fun tokens => more item tokens.length tokens
  expect .closeParen
  return (first, others)

def line : Parser LineString := do
  let (first, others) ← list coord
  return first :: others

def readPolygon : Parser Polygon := do
  let (exterior, interiors) ← list line
  return Polygon.new exterior interiors

def parenthesisedCoord : Parser Coord := do
  expect .openParen
  let c ← coord
  expect .closeParen
  return c

def multipointMember : Parser Coord := fun tokens =>
  if tokens.head? = some .openParen then parenthesisedCoord tokens else coord tokens

/-- An empty point and an empty polygon have no geometry of their own kind. -/
def emptyGeometry : Kind → Geometry
  | .point | .multiPoint => .multiPoint []
  | .lineString => .lineString []
  | .polygon | .multiPolygon => .multiPolygon []
  | .multiLineString => .multiLineString []
  | .collection => .collection []

def body (geometry : Parser Geometry) : Kind → Parser Geometry
  | .point => do
    let c ← parenthesisedCoord
    return .point c
  | .lineString => do
    let l ← line
    return .lineString l
  | .polygon => do
    let p ← readPolygon
    return .polygon p
  | .multiPoint => do
    let (first, others) ← list multipointMember
    return .multiPoint (first :: others)
  | .multiLineString => do
    let (first, others) ← list line
    return .multiLineString (first :: others)
  | .multiPolygon => do
    let (first, others) ← list readPolygon
    return .multiPolygon (first :: others)
  | .collection => do
    let (first, others) ← list geometry
    return .collection (first :: others)

def keyword : Parser String := fun tokens =>
  match tokens with
  | .word w :: rest => .ok w rest
  | _ :: rest => .error .noKeyword rest
  | [] => .error .noKeyword []

/-- The depth is that of nested collections, and each takes a token. -/
def geometryTo : Nat → Parser Geometry
  | 0 => throw .noKeyword
  | depth + 1 => do
    let word ← keyword
    let empty ← qualifiers
    match Kind.ofKeyword? word with
    | some kind => if empty then return emptyGeometry kind else body (geometryTo depth) kind
    | none => throw (.unsupported word)

def geometry : Parser Geometry := fun tokens => geometryTo tokens.length tokens

/-- Without an `SRID=…;` in front. -/
def withoutSrid (text : String) : List Char :=
  let trimmed := (Text.trim text).toList
  let lead := trimmed.takeWhile fun c => c != ';'
  let upper := (Text.toAsciiUppercase (Text.trim (String.ofList lead))).toList
  if ';' ∈ trimmed && "SRID=".toList.isPrefixOf upper then trimmed.drop (lead.length + 1)
  else text.toList

def readTokens (tokens : List Token) : Except WktError Geometry :=
  match geometry tokens with
  | .ok g [] => .ok g
  | .ok _ (_ :: _) => .error .trailing
  | .error e _ => .error e

def read (text : String) : Except WktError Geometry := do
  readTokens (← tokenize decimal (withoutSrid text))

variable {α : Type} {k : Nat} {item item' : Parser α}

end Wkt
end GeneGIS.Toolkit

/-! ## The tokens of a written geometry

Each piece is cut into its own tokens as long as what follows does not run into it. -/

namespace GeneGIS.Toolkit

open List Nat
open Bool hiding false_ne_true

/-- What is assumed of printing and parsing: a finite number has a text of digits that is parsed
back, and a sign is no number. -/
structure Decimal.Exact (decimal : Decimal) : Prop where
  digits : ∀ x : F64, x.isFinite = true → ∃ lead tail, decimal.display x = lead :: tail ∧
    (lead.isDigit = true ∨ lead = '-') ∧ ∀ c ∈ tail, c.isDigit = true ∨ c = '.'
  parsed : ∀ x : F64, x.isFinite = true → decimal.parse (decimal.display x) = some x
  sign : decimal.parse ['-'] = none

namespace Wkt

variable {decimal : Decimal} {outlines : Outlines}

/-! ## One token after the other -/

theorem length_literalTail (previous : Char) (text : List Char) :
    (literalTail previous text).2.length ≤ text.length := by
  induction text generalizing previous with
  | nil => exact le_refl _
  | cons c rest ih =>
    rw [literalTail]
    by_cases h : continues previous c = true
    · rw [if_pos h]
      exact le_succ_of_le (ih c)
    · rw [if_neg h]

theorem tokenizeTo_eq {fuel : Nat} {text : List Char} (h : text.length ≤ fuel) :
    tokenizeTo decimal fuel text = tokenize decimal text := by
  have hagree : ∀ (n fuel fuel' : Nat) (text : List Char), text.length ≤ n → n ≤ fuel →
      n ≤ fuel' → tokenizeTo decimal fuel text = tokenizeTo decimal fuel' text := by
    intro n
    induction n with
    | zero =>
      intro fuel fuel' text htext _ _
      rw [length_eq_zero_iff.mp (le_zero.mp htext)]
      cases fuel <;> cases fuel' <;> rfl
    | succ n ih =>
      intro fuel fuel' text htext hfuel hfuel'
      obtain ⟨fuel, rfl⟩ : ∃ k, fuel = k + 1 := ⟨fuel - 1, by omega⟩
      obtain ⟨fuel', rfl⟩ : ∃ k, fuel' = k + 1 := ⟨fuel' - 1, by omega⟩
      cases text with
      | nil => rfl
      | cons c rest =>
        rw [List.length_cons] at htext
        have hsame : ∀ l : List Char, l.length ≤ rest.length →
            tokenizeTo decimal fuel l = tokenizeTo decimal fuel' l :=
          fun l hl => ih fuel fuel' l (by omega) (by omega) (by omega)
        rw [tokenizeTo, tokenizeTo, hsame rest (le_refl _),
          hsame _ (dropWhile_sublist _).length_le, hsame _ (length_literalTail c rest)]
  exact hagree text.length fuel text.length text (le_refl _) h (le_refl _)

def ahead (tokens : List Token) (others : Except WktError (List Token)) :
    Except WktError (List Token) :=
  others.map (tokens ++ ·)

theorem ahead_ahead (tokens tokens' : List Token) (others : Except WktError (List Token)) :
    ahead tokens (ahead tokens' others) = ahead (tokens ++ tokens') others := by
  cases others with
  | error e => rfl
  | ok l => rw [ahead, ahead, ahead, Except.map, Except.map, Except.map, append_assoc]

variable (rest : List Char)

theorem tokenize_blank : tokenize decimal (' ' :: rest) = tokenize decimal rest := rfl

theorem tokenize_openParen :
    tokenize decimal ('(' :: rest) = ahead [.openParen] (tokenize decimal rest) := rfl

theorem tokenize_closeParen :
    tokenize decimal (')' :: rest) = ahead [.closeParen] (tokenize decimal rest) := rfl

theorem tokenize_comma :
    tokenize decimal (',' :: rest) = ahead [.comma] (tokenize decimal rest) := rfl

/-- The next character ends a word or a number. -/
def Ends : Prop := ∀ c, rest.head? = some c → c = ' ' ∨ c = '(' ∨ c = ')' ∨ c = ','

theorem tokenize_word {word rest : List Char} (hne : word ≠ [])
    (hword : ∀ c ∈ word, c.isAlpha = true) (hrest : Ends rest) :
    tokenize decimal (word ++ rest) =
      ahead [.word (String.ofList (word.map Char.toUpper))] (tokenize decimal rest) := by
  obtain ⟨c, tail, rfl⟩ := exists_cons_of_ne_nil hne
  have hc : c.isAlpha = true := hword c mem_cons_self
  have htail : ∀ d ∈ tail, d.isAlpha = true := fun d hd => hword d (mem_cons_of_mem _ hd)
  have hstop : rest.takeWhile Char.isAlpha = [] := by
    cases rest with
    | nil => rfl
    | cons d others =>
      have hd : d.isAlpha = false := by
        rcases hrest d rfl with rfl | rfl | rfl | rfl <;> rfl
      rw [takeWhile_cons_of_neg (by rw [hd]; exact Bool.false_ne_true)]
  have htake : (tail ++ rest).takeWhile Char.isAlpha = tail := by
    rw [takeWhile_append_of_pos htail, hstop, append_nil]
  have hdrop : (tail ++ rest).dropWhile Char.isAlpha = rest := by
    rw [dropWhile_append_of_pos htail]
    have hsplit := takeWhile_append_dropWhile (p := Char.isAlpha) (l := rest)
    rw [hstop, List.nil_append] at hsplit
    exact hsplit
  have hblank : isBlank c = false := by
    rw [isBlank]
    by_contra hbad
    simp only [not_eq_false, or_eq_true, decide_eq_true_eq] at hbad
    rcases hbad with ((rfl | rfl) | rfl) | rfl <;> exact absurd hc (by decide)
  have hother : ∀ d : Char, d.isAlpha = false → c ≠ d := fun d hd h => by
    rw [h, hd] at hc
    exact Bool.false_ne_true hc
  rw [List.cons_append, tokenize, List.length_cons, tokenizeTo, hblank, if_neg Bool.false_ne_true,
    if_neg (hother '(' rfl), if_neg (hother ')' rfl), if_neg (hother ',' rfl), if_pos hc, htake, hdrop,
    tokenizeTo_eq (by rw [length_append]; omega)]
  rfl

theorem tokenize_literal {lead : Char} {tail rest : List Char}
    (hlead : lead.isDigit = true ∨ lead = '-')
    (htail : literalTail lead (tail ++ rest) = (tail, rest)) :
    tokenize decimal (lead :: (tail ++ rest)) = match decimal.parse (lead :: tail) with
      | some value => ahead [.number value] (tokenize decimal rest)
      | none => .error (.invalidNumber (lead :: tail)) := by
  have hne : ∀ d : Char, d.isDigit = false → d ≠ '-' → lead ≠ d := by
    intro d hd hsign h
    rcases hlead with hlead | hlead
    · rw [h, hd] at hlead
      exact Bool.false_ne_true hlead
    · exact hsign (h.symm.trans hlead)
  have hblank : isBlank lead = false := by
    rw [isBlank]
    simp only [hne ' ' rfl (by decide), hne '\t' rfl (by decide), hne '\n' rfl (by decide),
      hne '\r' rfl (by decide)]
    rfl
  have hletter : lead.isAlpha = false := by
    rcases hlead with hlead | rfl
    · have hnine : '9'.val.toNat = 57 := rfl
      have hupper : 'A'.val.toNat = 65 := rfl
      have hlower : 'a'.val.toNat = 97 := rfl
      delta Char.isAlpha Char.isUpper Char.isLower
      simp only [Char.isDigit, and_eq_true, decide_eq_true_eq, or_eq_false_iff, and_eq_false_iff, decide_eq_false_iff_not,
        UInt32.le_iff_toNat_le, ge_iff_le] at hlead ⊢
      omega
    · rfl
  have hstarts : startsNumber lead = true := by
    rw [startsNumber]
    rcases hlead with hlead | rfl
    · rw [hlead]
      rfl
    · rfl
  rw [tokenize, List.length_cons, tokenizeTo, hblank, if_neg Bool.false_ne_true,
    if_neg (hne '(' rfl (by decide)), if_neg (hne ')' rfl (by decide)),
    if_neg (hne ',' rfl (by decide)), hletter, if_neg Bool.false_ne_true, if_pos hstarts, htail]
  show (match decimal.parse (lead :: tail) with
    | some value => do
      return Token.number value :: (← tokenizeTo decimal (tail ++ rest).length rest)
    | none => .error (.invalidNumber (lead :: tail)) : Except WktError (List Token)) = _
  rw [tokenizeTo_eq (by rw [length_append]; omega)]
  rfl

/-! ## Pieces -/

/-- The text is cut into the tokens, or it is not good and not cut at all. -/
def Lexes (decimal : Decimal) (after : List Char → Prop) (good : Prop) (text : List Char)
    (tokens : List Token) : Prop :=
  ∀ rest, after rest → tokenize decimal (text ++ rest) = ahead tokens (tokenize decimal rest) ∨
      ¬ good ∧ ∃ e, tokenize decimal (text ++ rest) = .error e

namespace Lexes

variable {after before : List Char → Prop} {good good' : Prop} {text text' : List Char}
  {tokens tokens' : List Token}

theorem append (h : Lexes decimal before good text tokens)
    (h' : Lexes decimal after good' text' tokens')
    (hnext : ∀ rest, after rest → before (text' ++ rest)) :
    Lexes decimal after (good ∧ good') (text ++ text') (tokens ++ tokens') := by
  intro rest hrest
  rw [append_assoc]
  rcases h _ (hnext rest hrest) with hfirst | ⟨hbad, he⟩
  · rw [hfirst]
    rcases h' rest hrest with hlast | ⟨hbad, e, hlast⟩
    · rw [hlast, ahead_ahead]
      exact .inl rfl
    · rw [hlast]
      exact .inr ⟨fun hg => hbad hg.2, e, rfl⟩
  · exact .inr ⟨fun hg => hbad hg.1, he⟩

theorem congr (h : Lexes decimal after good text tokens) (hgood : good' → good) :
    Lexes decimal after good' text tokens := fun rest hrest =>
  (h rest hrest).imp_right fun hbad => ⟨fun hg => hbad.1 (hgood hg), hbad.2⟩

theorem openParen : Lexes decimal after True ['('] [.openParen] :=
  fun rest _ => .inl (tokenize_openParen rest)

theorem closeParen : Lexes decimal after True [')'] [.closeParen] :=
  fun rest _ => .inl (tokenize_closeParen rest)

theorem comma : Lexes decimal after True [',', ' '] [.comma] :=
  fun rest _ => .inl (tokenize_comma (' ' :: rest))

theorem blank : Lexes decimal after True [' '] [] := by
  intro rest _
  refine .inl ?_
  rw [singleton_append, tokenize_blank]
  cases tokenize decimal rest <;> rfl

theorem nil : Lexes decimal after True [] [] := by
  intro rest _
  refine .inl ?_
  rw [List.nil_append]
  cases tokenize decimal rest <;> rfl

end Lexes

def numToken (x : F64) : Token :=
  if x.isFinite then .number x
  else if x.isNan then .word "NAN"
  else .word "INF"

theorem ends_cons {c : Char} {rest : List Char}
    (h : c = ' ' ∨ c = '(' ∨ c = ')' ∨ c = ',') : Ends (c :: rest) := by
  intro d hd
  rw [head?_cons, Option.some.injEq] at hd
  rw [← hd]
  exact h

theorem literalTail_append {previous : Char} {tail rest : List Char}
    (htail : ∀ c ∈ tail, c.isDigit = true ∨ c = '.') (hrest : Ends rest) :
    literalTail previous (tail ++ rest) = (tail, rest) := by
  induction tail generalizing previous with
  | nil =>
    cases rest with
    | nil => rfl
    | cons c others =>
      have hstop : continues previous c = false := by
        rcases hrest c rfl with rfl | rfl | rfl | rfl <;> rfl
      rw [List.nil_append, literalTail, hstop, if_neg Bool.false_ne_true]
  | cons c tail ih =>
    have hgoes : continues previous c = true := by
      rcases htail c mem_cons_self with hc | rfl
      · rw [continues, hc]
        rfl
      · rfl
    rw [List.cons_append, literalTail, if_pos hgoes, ih fun d hd => htail d (mem_cons_of_mem _ hd)]

theorem lexes_num (hd : decimal.Exact) (x : F64) :
    Lexes decimal Ends (x.isFinite = true) (num decimal x) [numToken x] := by
  intro rest hrest
  by_cases hfinite : x.isFinite = true
  · obtain ⟨lead, tail, hdisplay, hlead, htail⟩ := hd.digits x hfinite
    have hparse := hd.parsed x hfinite
    rw [hdisplay] at hparse
    rw [num, if_pos hfinite, hdisplay, numToken, if_pos hfinite, List.cons_append,
      tokenize_literal hlead (literalTail_append htail hrest), hparse]
    exact .inl rfl
  · rw [num, if_neg hfinite, numToken, if_neg hfinite]
    by_cases hnan : x.isNan = true
    · rw [if_pos hnan, if_pos hnan]
      exact .inl (tokenize_word (by decide) (by decide) hrest)
    · rw [if_neg hnan, if_neg hnan]
      by_cases hsign : x.sign = true
      · rw [if_pos hsign]
        have hliteral : literalTail '-' ([] ++ ("inf".toList ++ rest)) =
            ([], "inf".toList ++ rest) := rfl
        have htokens : tokenize decimal _ = _ := tokenize_literal (.inr rfl) hliteral
        rw [hd.sign] at htokens
        exact .inr ⟨hfinite, _, htokens⟩
      · rw [if_neg hsign]
        exact .inl (tokenize_word (by decide) (by decide) hrest)

def commaTokens (parts : List (List Token)) : List Token := [Token.comma].intercalate parts

def parenTokens (tokens : List Token) : List Token := .openParen :: (tokens ++ [.closeParen])

def ReadableList {α : Type} (good : α → Prop) (l : List α) : Prop := l ≠ [] ∧ ∀ a ∈ l, good a

theorem lexes_separated {α : Type} {good : α → Prop} {write : α → List Char}
    {tokens : α → List Token} {l : List α}
    (h : ∀ a ∈ l, Lexes decimal Ends (good a) (write a) (tokens a)) :
    Lexes decimal Ends (∀ a ∈ l, good a) (separated (l.map write))
      (commaTokens (l.map tokens)) := by
  induction l with
  | nil => exact Lexes.nil.congr fun _ => trivial
  | cons a rest ih =>
    have hfirst := h a mem_cons_self
    have hothers := ih fun b hb => h b (mem_cons_of_mem _ hb)
    cases rest with
    | nil =>
      rw [map_cons, map_nil, separated, intercalate_singleton, map_cons,
        map_nil, commaTokens, intercalate_singleton]
      exact hfirst.congr fun hall => hall a mem_cons_self
    | cons b rest =>
      have hcomma : Lexes decimal (fun _ => True) True [',', ' '] [.comma] := Lexes.comma
      have hlater := hcomma.append hothers fun _ _ => trivial
      have hboth := hfirst.append hlater fun _ _ => ends_cons (.inr (.inr (.inr rfl)))
      have htext : separated ((a :: b :: rest).map write) =
          write a ++ ([',', ' '] ++ separated ((b :: rest).map write)) := by
        rw [separated, map_cons, map_cons, intercalate_cons_cons, append_assoc]
        rfl
      have htokens : commaTokens ((a :: b :: rest).map tokens) =
          tokens a ++ ([.comma] ++ commaTokens ((b :: rest).map tokens)) := by
        rw [commaTokens, map_cons, map_cons, intercalate_cons_cons, append_assoc]
        rfl
      rw [htext, htokens]
      exact hboth.congr fun hall =>
        ⟨hall a mem_cons_self, trivial, fun c hc => hall c (mem_cons_of_mem _ hc)⟩

theorem lexes_parenthesised {after : List Char → Prop} {good : Prop} {text : List Char}
    {tokens : List Token} (h : Lexes decimal Ends good text tokens) :
    Lexes decimal after good (parenthesised text) (parenTokens tokens) := by
  have hopen : Lexes decimal (fun _ => True) True ['('] [.openParen] := Lexes.openParen
  have hclose : Lexes decimal after True [')'] [.closeParen] := Lexes.closeParen
  have hclosed := h.append hclose fun _ _ => ends_cons (.inr (.inr (.inl rfl)))
  have hboth := hopen.append hclosed fun _ _ => trivial
  exact hboth.congr fun hg => ⟨trivial, hg, trivial⟩

theorem lexes_tagged {after : List Char → Prop} {good : Prop} {kind : Kind} {text : List Char}
    {tokens : List Token} (h : Lexes decimal Ends good text tokens) :
    Lexes decimal after good (tagged kind text) (.word kind.keyword :: parenTokens tokens) := by
  have hkeyword : Lexes decimal Ends True kind.keyword.toList [.word kind.keyword] := by
    intro rest hrest
    have hword : tokenize decimal (kind.keyword.toList ++ rest) = _ :=
      tokenize_word (by cases kind <;> decide) (by cases kind <;> decide) hrest
    have hupper : String.ofList (kind.keyword.toList.map Char.toUpper) = kind.keyword := by
      cases kind <;> decide
    rw [hupper] at hword
    exact .inl hword
  have hblank : Lexes decimal (fun _ => True) True [' '] [] := Lexes.blank
  have hbody : Lexes decimal after good (parenthesised text) (parenTokens tokens) :=
    lexes_parenthesised h
  have hspaced := hblank.append hbody fun _ _ => trivial
  have hboth := hkeyword.append hspaced fun _ _ => ends_cons (.inl rfl)
  exact hboth.congr fun hg => ⟨trivial, trivial, hg⟩

/-! ## Geometries -/

def FiniteCoord (c : Coord) : Prop := c.x.isFinite = true ∧ c.y.isFinite = true

def coordTokens (c : Coord) : List Token := [numToken c.x, numToken c.y]

def lineTokens (line : LineString) : List Token := commaTokens (line.map coordTokens)

def ringTokens (ring : Ring) : List Token := parenTokens (lineTokens ring.coords)

def polygonTokens (p : Polygon) : List Token :=
  commaTokens ((p.exterior :: p.interiors).map ringTokens)

def ReadablePolygon (p : Polygon) : Prop :=
  ∀ r ∈ p.exterior :: p.interiors, ReadableList FiniteCoord r.coords

section

variable (outlines : Outlines)

mutual
def tokens : Geometry → List Token
  | .point p => .word Kind.point.keyword :: parenTokens (coordTokens p)
  | .lineString l => .word Kind.lineString.keyword :: parenTokens (lineTokens l)
  | .line start stop => .word Kind.lineString.keyword :: parenTokens (lineTokens [start, stop])
  | .polygon p => .word Kind.polygon.keyword :: parenTokens (polygonTokens p)
  | .rect r => .word Kind.polygon.keyword :: parenTokens (polygonTokens (outlines.ofRect r))
  | .triangle t =>
    .word Kind.polygon.keyword :: parenTokens (polygonTokens (outlines.ofTriangle t))
  | .multiPoint points => .word Kind.multiPoint.keyword ::
    parenTokens (commaTokens (points.map fun p => parenTokens (coordTokens p)))
  | .multiLineString lines => .word Kind.multiLineString.keyword ::
    parenTokens (commaTokens (lines.map fun l => parenTokens (lineTokens l)))
  | .multiPolygon polygons => .word Kind.multiPolygon.keyword ::
    parenTokens (commaTokens (polygons.map fun p => parenTokens (polygonTokens p)))
  | .collection parts =>
    .word Kind.collection.keyword :: parenTokens (commaTokens (partTokens parts))

def partTokens : List Geometry → List (List Token)
  | [] => []
  | part :: rest => tokens part :: partTokens rest
end

end

mutual
/-- No list is empty, every number is finite and every shape is one that is read. -/
def Readable : Geometry → Prop
  | .point p => FiniteCoord p
  | .lineString l => ReadableList FiniteCoord l
  | .polygon p => ReadablePolygon p
  | .multiPoint points => ReadableList FiniteCoord points
  | .multiLineString lines => ReadableList (ReadableList FiniteCoord) lines
  | .multiPolygon polygons => ReadableList ReadablePolygon polygons
  | .collection parts => parts ≠ [] ∧ ReadableAll parts
  | .line _ _ | .rect _ | .triangle _ => False

def ReadableAll : List Geometry → Prop
  | [] => True
  | part :: rest => Readable part ∧ ReadableAll rest
end

theorem readableAll_iff {parts : List Geometry} :
    ReadableAll parts ↔ ∀ part ∈ parts, Readable part := by
  induction parts with
  | nil => simp [ReadableAll]
  | cons part rest ih => rw [ReadableAll, ih, forall_mem_cons]

theorem writeParts_eq_map (parts : List Geometry) :
    writeParts decimal outlines parts = parts.map (write decimal outlines) := by
  induction parts with
  | nil => rfl
  | cons part rest ih => rw [writeParts, ih, map_cons]

theorem partTokens_eq_map (parts : List Geometry) :
    partTokens outlines parts = parts.map (tokens outlines) := by
  induction parts with
  | nil => rfl
  | cons part rest ih => rw [partTokens, ih, map_cons]

theorem lexes_coord (hd : decimal.Exact) (c : Coord) :
    Lexes decimal Ends (FiniteCoord c) (writeCoord decimal c) (coordTokens c) := by
  have hblank : Lexes decimal (fun _ => True) True [' '] [] := Lexes.blank
  have hy := hblank.append (lexes_num hd c.y) fun _ _ => trivial
  have hboth := (lexes_num hd c.x).append hy fun _ _ => ends_cons (.inl rfl)
  exact hboth.congr fun hg => ⟨hg.1, trivial, hg.2⟩

theorem lexes_line (hd : decimal.Exact) (line : LineString) :
    Lexes decimal Ends (ReadableList FiniteCoord line) (coords decimal line) (lineTokens line) :=
  (lexes_separated fun c _ => lexes_coord hd c).congr fun hg => hg.2

theorem lexes_polygon (hd : decimal.Exact) (p : Polygon) :
    Lexes decimal Ends (ReadablePolygon p) (polygon decimal p) (polygonTokens p) :=
  lexes_separated fun r _ => lexes_parenthesised (lexes_line hd r.coords)

mutual
theorem lexes_write (hd : decimal.Exact) : ∀ (after : List Char → Prop) (g : Geometry),
    Lexes decimal after (Readable (g.normalise outlines)) (write decimal outlines g)
      (tokens outlines g)
  | _, .point p => lexes_tagged (lexes_coord hd p)
  | _, .lineString l => lexes_tagged (lexes_line hd l)
  | _, .line start stop => lexes_tagged (lexes_line hd [start, stop])
  | _, .polygon p => lexes_tagged (lexes_polygon hd p)
  | _, .rect r => lexes_tagged (lexes_polygon hd (outlines.ofRect r))
  | _, .triangle t => lexes_tagged (lexes_polygon hd (outlines.ofTriangle t))
  | _, .multiPoint points => lexes_tagged
    ((lexes_separated fun p _ => lexes_parenthesised (lexes_coord hd p)).congr fun hg => hg.2)
  | _, .multiLineString lines => lexes_tagged
    ((lexes_separated fun l _ => lexes_parenthesised (lexes_line hd l)).congr fun hg => hg.2)
  | _, .multiPolygon polygons => lexes_tagged
    ((lexes_separated fun p _ => lexes_parenthesised (lexes_polygon hd p)).congr fun hg => hg.2)
  | _, .collection parts => by
    have hparts := lexes_separated (lexes_parts hd parts)
    rw [write, tokens, writeParts_eq_map, partTokens_eq_map]
    refine lexes_tagged (hparts.congr fun hg => ?_)
    have hall := readableAll_iff.mp hg.2
    rw [Geometry.normaliseAll_eq_map] at hall
    exact fun part hpart => hall _ (mem_map_of_mem hpart)

theorem lexes_parts (hd : decimal.Exact) : ∀ (parts : List Geometry), ∀ part ∈ parts,
    Lexes decimal Ends (Readable (part.normalise outlines)) (write decimal outlines part)
      (tokens outlines part)
  | [], _, h => by cases h
  | first :: rest, part, h => by
    rcases mem_cons.mp h with h | h
    · rw [h]
      exact lexes_write hd Ends first
    · exact lexes_parts hd rest part h
end

theorem tokenize_write (hd : decimal.Exact) (g : Geometry) :
    tokenize decimal (write decimal outlines g) = .ok (tokens outlines g) ∨
      ¬ Readable (g.normalise outlines) ∧
        ∃ e, tokenize decimal (write decimal outlines g) = .error e := by
  have hlex : _ ∨ ¬ Readable (g.normalise outlines) ∧ _ :=
    lexes_write hd (fun _ => True) g [] trivial
  have hnil : ahead (tokens outlines g) (tokenize decimal []) =
      .ok (tokens outlines g) :=
    congrArg Except.ok (append_nil _)
  rw [append_nil, hnil] at hlex
  exact hlex

end Wkt
end GeneGIS.Toolkit
