/-
  Regrid.Binary64 — the arithmetic of binary64 numbers.

  Powers with exponent one, and powers of one, are taken from the rule itself: they are
  the base, and one. All others are the machine's, which nothing here looks into: the
  arithmetic is written for any (`arithmetic`), and the running program takes `Float.pow`.
-/

import Regrid.Arith

namespace Regrid.Binary64

open Decimal (Shape)

def infinity : Float := (1.0 : Float) / 0.0

def ofInt (n : Int) : Except Fault Float :=
  let x := Decimal.ofInt n
  if x.isInf then .error .tooLarge else .ok x

/-- The whole part, toward zero. -/
def wholePart : Shape → Except Fault Int
  | .nan => .error .nanToInteger
  | .infinite _ => .error .tooLarge
  | .finite negative b => .ok (if negative then -(b.floor : Int) else b.floor)

def toInt (x : Float) : Except Fault Int := wholePart (Shape.ofFloat x)

def isWhole (x : Float) : Bool := x.floor == x

section

variable (pow : Float → Float → Float)

def power (x y : Float) : Float :=
  if y == 1.0 then x else if x == 1.0 then 1.0 else pow x y

/-- A power of finite numbers that is infinite is refused. -/
def finitePower (x y : Float) : Except Fault Float :=
  let r := power pow x y
  if r.isInf && x.isFinite && y.isFinite then .error .powerOverflow else .ok r

/-- The magnitude of a power that is no real number has to be in range too. -/
def checkedPower (x y : Float) : Except Fault (Option Float) :=
  if x == 0.0 && y < 0.0 && y.isFinite then .error .divisionByZero
  else if x < 0.0 && x.isFinite && y.isFinite && !isWhole y then (finitePower pow x.abs y).map fun _ => none
  else (finitePower pow x y).map some

end

/-- Rounds to a width; a binary64 number has the greatest one already. -/
def round : RealWidth → Float → Float
  | .double, x => x
  | w, x => w.format.round x

@[reducible] def arithmetic (pow : Float → Float → Float) : Arith Float where
  narrow := Shape.toFloat
  zero := 0.0
  one := 1.0
  neg := Float.neg
  abs := Float.abs
  add := Float.add
  mul := Float.mul
  div := Float.div
  lt x y := decide (x < y)
  le x y := decide (x ≤ y)
  eq x y := x == y
  isFinite := Float.isFinite
  ofInt := ofInt
  toInt := toInt
  ltInt x n := (Shape.ofFloat x).lessThanInt n
  gtInt x n := (Shape.ofFloat x).greaterThanInt n
  round := round
  power := power pow
  checkedPower := checkedPower pow

instance : Arith Float := arithmetic Float.pow

/-- A norm exponent given as a number: an infinite one of either sign means the maximum. -/
def exponent (p : Float) : Exponent Float := if p.isInf then .infinite else .finite p

def exponentValue : Exponent Float → Float
  | .infinite => infinity
  | .finite p => p

end Regrid.Binary64
