/-
`AND`, `OR` and `IN` stop at the first operand that decides them; every other operand is evaluated.
-/
import GeneGIS.Toolkit.Layer

namespace GeneGIS.Toolkit

inductive UnaryOp where
  | not
  | neg

inductive BinaryOp where
  | or
  | and
  | eq
  | ne
  | lt
  | le
  | gt
  | ge
  | add
  | sub
  | mul
  | div
  | rem
  deriving DecidableEq

inductive Expr where
  | literal (value : Value)
  | field (name : String)
  | unary (op : UnaryOp) (e : Expr)
  | binary (left : Expr) (op : BinaryOp) (right : Expr)
  | inList (e : Expr) (items : List Expr) (negated : Bool)
  | isNull (e : Expr) (negated : Bool)
  | like (e pattern : Expr) (negated : Bool)
  | call (name : String) (args : List Expr)

abbrev Properties := Std.ExtTreeMap String Value

namespace Expression

def err {α : Type} (reason : String) : Except ToolkitError α := .error (.expression reason)

/-- What libraries do with numbers and text. -/
structure Platform where
  floatText : F64 → String
  sqrt : F64 → F64
  powi : F64 → Int → F64
  lower : String → String
  upper : String → String

/-- `as f64` of an integer. -/
def ofInt (n : Int) : F64 := if n < 0 then .neg (.ofNat n.natAbs) else .ofNat n.natAbs

/-- `n.fract() == 0.0`. -/
def isWhole (x : F64) : Bool := x.isFinite && x.magnitude % 2 ^ 1074 == 0

/-- A finite number with `whole` as its absolute value. -/
def integral (negative : Bool) (whole : Nat) : F64 := .round negative (whole * 2 ^ 1074) 1

def floor (x : F64) : F64 :=
  if !x.isFinite then x
  else if x.sign then integral true ((x.magnitude + 2 ^ 1074 - 1) / 2 ^ 1074)
  else integral false (x.magnitude / 2 ^ 1074)

def ceil (x : F64) : F64 :=
  if !x.isFinite then x
  else if x.sign then integral true (x.magnitude / 2 ^ 1074)
  else integral false ((x.magnitude + 2 ^ 1074 - 1) / 2 ^ 1074)

/-- `%`, which has the sign of the dividend. -/
def rem (x y : F64) : F64 :=
  if x.isNan || y.isNan || !x.isFinite || F64.eq y .zero then .nan
  else if !y.isFinite then x
  else .round x.sign (x.magnitude % y.magnitude) 1

/-- `as i32`. -/
def toI32 (x : F64) : Int := Max.max (-(2 ^ 31)) (Min.min (2 ^ 31 - 1) x.toI64)

/-- A whole number of moderate size becomes an integer. -/
def number (n : F64) : Value :=
  if isWhole n && F64.lt n.abs (.ofNat 9000000000000000) then .ofInt n.toI64 else .ofF64 n

/-- `f64::partial_cmp`. -/
def partialCmp (x y : F64) : Option Ordering :=
  if F64.lt x y then some .lt
  else if F64.eq x y then some .eq
  else if F64.lt y x then some .gt
  else none

variable (platform : Platform) (v : Value)

def isNullValue : Bool :=
  match v.json with
  | .null => true
  | _ => false

def asStr : Option String :=
  match v.json with
  | .str s => some s
  | _ => none

def asF64 : Option F64 :=
  match v.json with
  | .num (.int n) => some (ofInt n)
  | .num (.float x _) => some x
  | .bool b => some (if b then .ofNat 1 else .zero)
  | .str s => F64.parse (Text.trim s).toList
  | _ => none

def truthy : Bool :=
  match v.json with
  | .null => false
  | .bool b => b
  | .num (.int n) => n != 0
  | .num (.float x _) => !F64.eq x .zero
  | .str s => !s.isEmpty
  | _ => true

/-- `Value::to_string`. -/
def display : String := String.ofList (v.json.compactChars platform.floatText)

def textOf : String := (asStr v).getD (display platform v)

/-- Text is compared with text as text, and with a number as a number. -/
def compareValues (a b : Value) : Option Ordering :=
  let texts :=
    match asStr a, asStr b with
    | some x, some y => Ord.compare x y
    | _, _ => Ord.compare (display platform a) (display platform b)
  if isNullValue a || isNullValue b then none
  else
    match asF64 a, asF64 b with
    | some x, some y => if (asStr a).isSome && (asStr b).isSome then some texts else partialCmp x y
    | _, _ => some texts

/-- The wildcards are `%` for any text and `_` for one character. -/
def likeGo : List Char → List Char → Bool
  | [], [] => true
  | _ :: _, [] => false
  | t, '%' :: p =>
    likeGo t p ||
      match t with
      | [] => false
      | _ :: rest => likeGo rest ('%' :: p)
  | [], _ :: _ => false
  | tc :: t, pc :: p => if pc = '_' ∨ pc = tc then likeGo t p else false
termination_by t p => t.length + p.length

/-! ## Operators and functions -/

variable (op : BinaryOp)

def accepts (ordering : Ordering) : Bool :=
  match op with
  | .eq => ordering = .eq
  | .ne => ordering ≠ .eq
  | .lt => ordering = .lt
  | .le => ordering ≠ .gt
  | .gt => ordering = .gt
  | _ => ordering ≠ .lt

def arithmetic (left right : Value) : Value :=
  match asF64 left, asF64 right with
  | some x, some y =>
    match op with
    | .add => number (.add x y)
    | .sub => number (.sub x y)
    | .mul => number (.mul x y)
    | .div => if F64.eq y .zero then .null else .ofF64 (.div x y)
    | _ => if F64.eq y .zero then .null else number (rem x y)
  | _, _ => .null

def strict (left right : Value) : Value :=
  match op with
  | .eq | .ne | .lt | .le | .gt | .ge =>
    .bool (match compareValues platform left right with
      | none => false
      | some ordering => accepts op ordering)
  | .add =>
    match asStr left with
    | some text => .str (text ++ textOf platform right)
    | none => arithmetic op left right
  | _ => arithmetic op left right

def likeValue (value pattern : Value) (negated : Bool) : Except ToolkitError Value :=
  if isNullValue value || isNullValue pattern then .ok (.bool false)
  else
    match asStr pattern with
    | some p => .ok (.bool (likeGo (textOf platform value).toList p.toList != negated))
    | none => err "LIKE needs a string pattern"

def float (v : Option F64) : Value := v.elim .null .ofF64

/-- `round(v, digits)`. -/
def round (v digits : Option F64) : Value :=
  let d := toI32 (digits.getD .zero)
  let factor := platform.powi (.ofNat 10) d
  let rounded := v.map fun x => F64.div (F64.roundHalfAway (F64.mul x factor)) factor
  if d ≤ 0 then rounded.elim .null number else float rounded

def call (name : String) (args : List Value) : Except ToolkitError Value :=
  let arg := fun i : Nat => args.getD i .null
  let num := fun i : Nat => asF64 (arg i)
  let text := fun f : String → Value => (asStr (arg 0)).elim Value.null f
  if name = "abs" then .ok (float ((num 0).map F64.abs))
  else if name = "round" then .ok (round platform (num 0) (num 1))
  else if name = "floor" then .ok ((num 0).elim .null fun v => number (floor v))
  else if name = "ceil" then .ok ((num 0).elim .null fun v => number (ceil v))
  else if name = "sqrt" then
    .ok (float (((num 0).filter fun v => F64.le .zero v).map platform.sqrt))
  else if name = "lower" then .ok (text fun s => .str (platform.lower s))
  else if name = "upper" then .ok (text fun s => .str (platform.upper s))
  else if name = "length" ∨ name = "len" then .ok (text fun s => .ofNat s.length)
  else if name = "coalesce" then .ok ((args.find? fun v => !isNullValue v).getD .null)
  else if name = "number" ∨ name = "to_number" then .ok (float (num 0))
  else if name = "text" ∨ name = "to_text" then
    .ok (if isNullValue (arg 0) then .null else .str (textOf platform (arg 0)))
  else err ("unknown function " ++ name)

mutual
def collectFields : Expr → List String
  | .literal _ => []
  | .field name => [name]
  | .unary _ e => collectFields e
  | .isNull e _ => collectFields e
  | .binary a _ b => collectFields a ++ collectFields b
  | .like a b _ => collectFields a ++ collectFields b
  | .inList e items _ => collectFields e ++ collectAll items
  | .call _ args => collectAll args

def collectAll : List Expr → List String
  | [] => []
  | e :: rest => collectFields e ++ collectAll rest
end

/-- `Vec::dedup`: of equal neighbours the first stays. -/
def dedup : List String → List String
  | a :: b :: rest => if a = b then dedup (b :: rest) else a :: dedup (b :: rest)
  | l => l

/-- The field names of the expression, sorted and without repetition. -/
def fields (e : Expr) : List String := dedup ((collectFields e).mergeSort (· ≤ ·))

mutual
def eval (properties : Properties) : Expr → Except ToolkitError Value
  | .literal v => .ok v
  | .field name =>
    match properties[name]? with
    | some v => .ok v
    | none => err ("unknown field " ++ name)
  | .unary .not e => do return .bool (!truthy (← eval properties e))
  | .unary .neg e => do
    match asF64 (← eval properties e) with
    | some v => return number (.neg v)
    | none => return .null
  | .binary a .and b => do
    if truthy (← eval properties a) then return .bool (truthy (← eval properties b))
    else return .bool false
  | .binary a .or b => do
    if truthy (← eval properties a) then return .bool true
    else return .bool (truthy (← eval properties b))
  | .binary a op b => do
    let left ← eval properties a
    let right ← eval properties b
    return strict platform op left right
  | .inList e items negated => do
    let value ← eval properties e
    if isNullValue value then return .bool false
    else return .bool ((← evalAny properties value items) != negated)
  | .isNull e negated => do return .bool (isNullValue (← eval properties e) != negated)
  | .like e pattern negated => do
    let value ← eval properties e
    let pattern ← eval properties pattern
    likeValue platform value pattern negated
  | .call name args => do call platform name (← evalAll properties args)

/-- Whether an item equals the value; the items after it are not evaluated. -/
def evalAny (properties : Properties) (value : Value) : List Expr → Except ToolkitError Bool
  | [] => .ok false
  | item :: rest => do
    if compareValues platform value (← eval properties item) = some .eq then return true
    else evalAny properties value rest

def evalAll (properties : Properties) : List Expr → Except ToolkitError (List Value)
  | [] => .ok []
  | arg :: rest => do
    let v ← eval properties arg
    return v :: (← evalAll properties rest)
end

end Expression
end GeneGIS.Toolkit
