/-
The operations of the geometric code, over binary64 and over exact numbers with the same infinities
and the same results that are no number.
-/
import GeneGIS.Data.F64Order
import GeneGIS.Toolkit.Expr
import Mathlib.Algebra.Order.Floor.Defs

namespace GeneGIS

class Arithmetic (F : Type) where
  ofNat : Nat → F
  infinity : Bool → F
  epsilon : F
  add : F → F → F
  sub : F → F → F
  mul : F → F → F
  div : F → F → F
  floor : F → F
  ceil : F → F
  min : F → F → F
  max : F → F → F
  lt : F → F → Bool
  le : F → F → Bool
  /-- `as usize`: towards zero, saturating, and zero for what is no number. -/
  toUsize : F → Nat

class SquareRoot (F : Type) where
  sqrt : F → F

/-- `usize::MAX`. -/
def usizeMax : Nat := 2 ^ 64 - 1

namespace F64

/-- `f64::min`, which drops a NaN operand. -/
def min (x y : F64) : F64 :=
  if x.isNan then y else if y.isNan then x else if lt y x then y else x

def toUsize (x : F64) : Nat :=
  if x.isNan then 0 else Min.min usizeMax (x.rank.tdiv (2 ^ 1074)).toNat

/-- The correctly rounded root: half a unit stands for whatever is left of it. -/
def sqrt (x : F64) : F64 :=
  if x.isNan || x.magnitude == 0 then x
  else if x.sign then nan
  else if !x.isFinite then x
  else
    let units := x.magnitude * 2 ^ 1074
    let root := Nat.sqrt units
    round false (2 * root + if root * root = units then 0 else 1) 2

instance : Arithmetic F64 where
  ofNat := ofNat
  infinity := infinity
  epsilon := epsilon
  add := add
  sub := sub
  mul := mul
  div := div
  floor := Toolkit.Expression.floor
  ceil := Toolkit.Expression.ceil
  min := min
  max := max
  lt := lt
  le := le
  toUsize := toUsize

instance : SquareRoot F64 := ⟨sqrt⟩

end F64

example : F64.sqrt (.ofNat 2) = ⟨0x3ff6a09e667f3bcd#64⟩ := by decide +kernel

inductive Exact (α : Type) where
  | finite (a : α)
  | infinity (negative : Bool)
  | nan

namespace Exact

variable {α : Type} [Field α] [LinearOrder α]

def add : Exact α → Exact α → Exact α
  | .finite a, .finite b => .finite (a + b)
  | .nan, _ => .nan
  | _, .nan => .nan
  | .infinity s, .infinity t => if s = t then .infinity s else .nan
  | .infinity s, _ => .infinity s
  | _, .infinity t => .infinity t

def neg : Exact α → Exact α
  | .finite a => .finite (-a)
  | .infinity s => .infinity (!s)
  | .nan => .nan

variable (x y : Exact α)

def sub : Exact α := add x (neg y)

def grow (s : Bool) (a : α) : Exact α :=
  if a = 0 then .nan else .infinity (s != decide (a < 0))

def mul : Exact α → Exact α → Exact α
  | .finite a, .finite b => .finite (a * b)
  | .nan, _ => .nan
  | _, .nan => .nan
  | .infinity s, .infinity t => .infinity (s != t)
  | .infinity s, .finite b => grow s b
  | .finite a, .infinity t => grow t a

def div : Exact α → Exact α → Exact α
  | .finite a, .finite b =>
    if b = 0 then if a = 0 then .nan else .infinity (decide (a < 0)) else .finite (a / b)
  | .nan, _ => .nan
  | _, .nan => .nan
  | .infinity _, .infinity _ => .nan
  | .infinity s, .finite b => .infinity (s != decide (b < 0))
  | .finite _, .infinity _ => .finite 0

def le : Exact α → Exact α → Bool
  | .finite a, .finite b => decide (a ≤ b)
  | .nan, _ => false
  | _, .nan => false
  | .infinity s, .infinity t => s || !t
  | .infinity s, .finite _ => s
  | .finite _, .infinity t => !t

def lt : Bool := le x y && !le y x

def min : Exact α :=
  match x, y with
  | .nan, _ => y
  | _, .nan => x
  | _, _ => if lt y x then y else x

def max : Exact α :=
  match x, y with
  | .nan, _ => y
  | _, .nan => x
  | _, _ => if lt x y then y else x

variable [FloorRing α]

def floor : Exact α → Exact α
  | .finite a => .finite ⌊a⌋
  | x => x

def ceil : Exact α → Exact α
  | .finite a => .finite ⌈a⌉
  | x => x

def toUsize : Exact α → Nat
  | .finite a => Min.min usizeMax ⌊a⌋.toNat
  | .infinity s => if s then 0 else usizeMax
  | .nan => 0

local instance atLeastTwo : Nat.AtLeastTwo 2 := inferInstance

instance : Arithmetic (Exact α) where
  ofNat n := .finite n
  infinity := .infinity
  epsilon := .finite (1 / 2 ^ 52)
  add := add
  sub := sub
  mul := mul
  div := div
  floor := floor
  ceil := ceil
  min := min
  max := max
  lt := lt
  le := le
  toUsize := toUsize

end Exact
end GeneGIS
