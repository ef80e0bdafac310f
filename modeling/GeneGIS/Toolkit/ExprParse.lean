/-
Every level of precedence reads an operand of the level from the front of the tokens; `inner`
stands for the lowest level, one parenthesis further in.
-/
import GeneGIS.Toolkit.Expr

namespace GeneGIS.Toolkit.Expression

open Text

inductive Tok where
  | num (n : F64)
  | str (s : String)
  | ident (word : String)
  | quoted (name : String)
  | op (op : String)
  | openParen
  | closeParen
  | comma
  deriving DecidableEq

def doubleOps : List (List Char × String) :=
  [(['<', '='], "<="), (['>', '='], ">="), (['!', '='], "!="), (['<', '>'], "!="),
    (['=', '='], "="), (['&', '&'], "AND"), (['|', '|'], "OR")]

def singleOps : List (Char × String) :=
  [('=', "="), ('<', "<"), ('>', ">"), ('+', "+"), ('-', "-"), ('*', "*"), ('/', "/"),
    ('%', "%"), ('!', "NOT")]

/-- The quotes of a field name, each with the one that closes it. -/
def nameQuotes : List (Char × Char) := [('"', '"'), ('[', ']'), ('\x60', '\x60')]

/-- Where a word ends, unless it ends in a space. -/
def wordStops : List Char :=
  ['(', ')', '（', '）', ',', '、', '=', '<', '>', '!', '+', '-', '*', '/', '%', '\x27', '"', '[',
    '\x60']

/-- The rest of a string literal and what follows it.  A doubled quote is one quote. -/
def readString : List Char → List Char → Option (List Char × List Char)
  | _, [] => none
  | s, '\x27' :: '\x27' :: rest => readString (s ++ ['\x27']) rest
  | s, c :: rest => if c = '\x27' then some (s, rest) else readString (s ++ [c]) rest

/-- The character goes on with a number that so far ends in `previous`. -/
def continuesNumber (previous c : Char) : Bool := c.isDigit || c = '.' || c = 'e' || c = 'E' ||
    ((c = '+' || c = '-') && (previous = 'e' || previous = 'E'))

def numberTail (previous : Char) : List Char → List Char × List Char
  | [] => ([], [])
  | c :: rest =>
    if continuesNumber previous c then
      let tail := numberTail c rest
      (c :: tail.1, tail.2)
    else ([], c :: rest)

variable (c : Char) (rest : List Char)

def startsNumber : Bool := c.isDigit || (c = '.' && rest.head?.any Char.isDigit)

def inWord : Bool := !isWhitespace c && !wordStops.contains c

/-- After the quote that opens a string literal. -/
def stringToken : Except ToolkitError (Tok × List Char) :=
  match readString [] rest with
  | none => err "unterminated string literal"
  | some (s, rest) => .ok (.str (String.ofList s), rest)

def nameToken (close : Char) (rest : List Char) : Except ToolkitError (Tok × List Char) :=
  if rest.contains close then
    .ok (.quoted (String.ofList (rest.takeWhile (· != close))),
      (rest.dropWhile (· != close)).drop 1)
  else err "unterminated quoted field name"

def numberToken : Except ToolkitError (Tok × List Char) :=
  let literal := c :: (numberTail c rest).1
  match F64.parse literal with
  | none => err ("invalid number " ++ String.ofList literal)
  | some n => .ok (.num n, (numberTail c rest).2)

def wordToken : Tok × List Char :=
  (.ident (String.ofList (c :: rest.takeWhile inWord)), rest.dropWhile inWord)

/-- The token that starts with `c`, which is no space. -/
def nextToken : Except ToolkitError (Tok × List Char) :=
  match doubleOps.lookup (c :: rest.take 1) with
  | some op => .ok (.op op, rest.drop 1)
  | none =>
    if c = '(' ∨ c = '（' then .ok (.openParen, rest)
    else if c = ')' ∨ c = '）' then .ok (.closeParen, rest)
    else if c = ',' ∨ c = '、' then .ok (.comma, rest)
    else
      match singleOps.lookup c with
      | some op => .ok (.op op, rest)
      | none =>
        if c = '\x27' then stringToken rest
        else
          match nameQuotes.lookup c with
          | some close => nameToken close rest
          | none => if startsNumber c rest then numberToken c rest else .ok (wordToken c rest)

def tokenizeTo : Nat → List Char → Except ToolkitError (List Tok)
  | 0, _ => .ok []
  | _ + 1, [] => .ok []
  | rounds + 1, c :: rest =>
    if isWhitespace c then tokenizeTo rounds rest
    else do
      let (token, rest) ← nextToken c rest
      return token :: (← tokenizeTo rounds rest)

def tokenize (text : List Char) : Except ToolkitError (List Tok) := tokenizeTo text.length text

/-! ## Levels -/

/-- An operand from the front of the tokens, and the tokens after it. -/
abbrev Parse := List Tok → Except ToolkitError (Expr × List Tok)

variable (word : String)

def isWord : Tok → Bool
  | .ident w => toAsciiLowercase w = toAsciiLowercase word
  | .op op => op = word
  | _ => false

def keyword (tokens : List Tok) : Bool := tokens.head?.any (isWord word)

def orOp (token : Tok) : Option BinaryOp :=
  if isWord "OR" token || isWord "または" token then some .or else none

def andOp (token : Tok) : Option BinaryOp :=
  if isWord "AND" token || isWord "かつ" token then some .and else none

def comparisonOp : Tok → Option BinaryOp
  | .op "=" => some .eq
  | .op "!=" => some .ne
  | .op "<" => some .lt
  | .op "<=" => some .le
  | .op ">" => some .gt
  | .op ">=" => some .ge
  | _ => none

def additiveOp : Tok → Option BinaryOp
  | .op "+" => some .add
  | .op "-" => some .sub
  | _ => none

def multiplicativeOp : Tok → Option BinaryOp
  | .op "*" => some .mul
  | .op "/" => some .div
  | .op "%" => some .rem
  | _ => none

/-- The loop of a level of operators that associate to the left. -/
def chain (operator : Tok → Option BinaryOp) (operand : Parse) : Nat → Expr → Parse
  | 0, left, tokens => .ok (left, tokens)
  | _ + 1, left, [] => .ok (left, [])
  | rounds + 1, left, token :: rest =>
    match operator token with
    | none => .ok (left, token :: rest)
    | some op => do
      let (right, rest) ← operand rest
      chain operator operand rounds (.binary left op right) rest

def leftAssociative (operator : Tok → Option BinaryOp) (operand : Parse) : Parse := fun tokens => do
  let (left, rest) ← operand tokens
  chain operator operand rest.length left rest

def moreItems (item : Parse) : Nat → List Expr → List Tok →
    Except ToolkitError (List Expr × List Tok)
  | 0, items, tokens => .ok (items, tokens)
  | rounds + 1, items, tokens =>
    if tokens.head? = some .comma then do
      let (e, rest) ← item tokens.tail
      moreItems item rounds (items ++ [e]) rest
    else .ok (items, tokens)

def parseItems (item : Parse) (tokens : List Tok) : Except ToolkitError (List Expr × List Tok) := do
  let (first, rest) ← item tokens
  moreItems item rest.length [first] rest

def constant : Option Value :=
  let upper := toAsciiUppercase word
  if upper = "TRUE" then some (.bool true)
  else if upper = "FALSE" then some (.bool false)
  else if upper = "NULL" then some .null
  else none

def parseArgs (inner : Parse) (tokens : List Tok) : Except ToolkitError (List Expr × List Tok) :=
  if tokens.head? = some .closeParen then .ok ([], tokens) else parseItems inner tokens

def parseWord (inner : Parse) (word : String) (rest : List Tok) :
    Except ToolkitError (Expr × List Tok) :=
  match constant word with
  | some v => .ok (.literal v, rest)
  | none =>
    if rest.head? = some .openParen then do
      let (args, rest) ← parseArgs inner rest.tail
      if rest.head? = some .closeParen then
        return (.call (toAsciiLowercase word) args, rest.tail)
      else err ("missing ) after arguments to " ++ word)
    else .ok (.field word, rest)

-- `debug` is the `{:?}` text of a token.
variable (debug : Tok → String)

def parsePrimary (inner : Parse) : Parse
  | [] => err "unexpected end of expression"
  | .num n :: rest => .ok (.literal (number n), rest)
  | .str s :: rest => .ok (.literal (.str s), rest)
  | .quoted name :: rest => .ok (.field name, rest)
  | .openParen :: rest => do
    let (e, rest) ← inner rest
    if rest.head? = some .closeParen then return (e, rest.tail)
    else err "missing closing parenthesis"
  | .ident word :: rest => parseWord inner word rest
  | token :: _ => err ("unexpected token " ++ debug token)

def parseUnary (inner : Parse) : Parse
  | [] => parsePrimary debug inner []
  | token :: rest =>
    if token = .op "-" then do
      let (e, rest) ← parseUnary inner rest
      return (.unary .neg e, rest)
    else parsePrimary debug inner (token :: rest)

def parseMultiplicative (inner : Parse) : Parse :=
  leftAssociative multiplicativeOp (parseUnary debug inner)

def parseAdditive (inner : Parse) : Parse :=
  leftAssociative additiveOp (parseMultiplicative debug inner)

/-- After `IS`. -/
def parseIs (left : Expr) (tokens : List Tok) : Except ToolkitError (Expr × List Tok) :=
  let negated := keyword "NOT" tokens
  let tokens := if negated then tokens.tail else tokens
  if keyword "NULL" tokens then .ok (.isNull left negated, tokens.tail)
  else err "expected NULL after IS"

/-- After `IN`. -/
def parseIn (inner : Parse) (left : Expr) (negated : Bool) (tokens : List Tok) :
    Except ToolkitError (Expr × List Tok) :=
  if tokens.head? = some .openParen then do
    let (items, rest) ← parseItems (parseAdditive debug inner) tokens.tail
    if rest.head? = some .closeParen then return (.inList left items negated, rest.tail)
    else err "expected ) to close IN list"
  else err "expected ( after IN"

/-- After `LIKE`. -/
def parseLike (inner : Parse) (left : Expr) (negated : Bool) : Parse := fun tokens => do
  let (pattern, rest) ← parseAdditive debug inner tokens
  return (.like left pattern negated, rest)

def parseOperator (inner : Parse) (left : Expr) : Parse
  | [] => .ok (left, [])
  | token :: rest =>
    match comparisonOp token with
    | none => .ok (left, token :: rest)
    | some op => do
      let (right, rest) ← parseAdditive debug inner rest
      return (.binary left op right, rest)

def parseComparison (inner : Parse) : Parse := fun tokens => do
  let (left, tokens) ← parseAdditive debug inner tokens
  if keyword "IS" tokens then parseIs left tokens.tail
  else
    let negated := keyword "NOT" tokens && (keyword "IN" tokens.tail || keyword "LIKE" tokens.tail)
    let tokens := if negated then tokens.tail else tokens
    if keyword "IN" tokens then parseIn debug inner left negated tokens.tail
    else if keyword "LIKE" tokens then parseLike debug inner left negated tokens.tail
    else if negated then err "expected IN or LIKE after NOT"
    else parseOperator debug inner left tokens

def parseNot (inner : Parse) : Parse
  | [] => parseComparison debug inner []
  | token :: rest =>
    if isWord "NOT" token then do
      let (e, rest) ← parseNot inner rest
      return (.unary .not e, rest)
    else parseComparison debug inner (token :: rest)

def parseAnd (inner : Parse) : Parse := leftAssociative andOp (parseNot debug inner)

def parseOr (inner : Parse) : Parse := leftAssociative orOp (parseAnd debug inner)

/-- A level of nesting takes a token at least. -/
def parseTo : Nat → Parse
  | 0 => fun _ => err "unexpected end of expression"
  | depth + 1 => parseOr debug (parseTo depth)

def parse (text : List Char) : Except ToolkitError Expr := do
  let tokens ← tokenize text
  if tokens.isEmpty then err "expression is empty"
  else
    let (e, rest) ← parseTo debug (tokens.length + 1) tokens
    match rest with
    | [] => return e
    | token :: _ => err ("unexpected token " ++ debug token)

end GeneGIS.Toolkit.Expression
