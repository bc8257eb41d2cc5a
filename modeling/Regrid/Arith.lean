/-
  Regrid.Arith — the arithmetic that marking and de-refinement need.

  Everything that computes with errors is written once, over a type `R` of real numbers
  and the operations of `Arith R`. The running program takes binary64 numbers
  (`Regrid.Binary64`); laws about exact numbers take a type where the operations are
  exact. Nothing here assumes a law: NaN compares false with everything, and conversions
  and powers may fail.

  A number (`Number`) is converted, added, compared and tested by the rules below: whole
  numbers stay whole among themselves, a whole and a real number add as reals and compare
  exactly. Of two real numbers the maximum is the first unless the second is greater, and
  the minimum the first unless the second is less.
-/

import Regrid.Fault

namespace Regrid

class Arith (R : Type) extends Narrow R where
  zero : R
  one : R
  neg : R → R
  abs : R → R
  add : R → R → R
  mul : R → R → R
  div : R → R → R
  lt : R → R → Bool
  le : R → R → Bool
  eq : R → R → Bool
  isFinite : R → Bool
  /-- The nearest real number; a whole number past the range is refused. -/
  ofInt : Int → Except Fault R
  /-- The whole part, toward zero; NaN and the infinities are refused. -/
  toInt : R → Except Fault Int
  ltInt : R → Int → Bool
  gtInt : R → Int → Bool
  /-- The nearest number of the width; exact numbers may stay as they are. -/
  round : RealWidth → R → R
  /-- A power of one entry of a vector, which never fails. -/
  power : R → R → R
  /-- A power of a single number: an overflow and zero to a negative power are refused, and
      a fractional power of a negative number is no real number. -/
  checkedPower : R → R → Except Fault (Option R)

/-- The exponent of a norm: infinite for the maximum norm. -/
inductive Exponent (R : Type) where
  | finite (p : R)
  | infinite
  deriving DecidableEq, Repr

namespace Arith

variable {R : Type} [Arith R]

/-- The first number unless the second is greater. -/
def max (a b : R) : R := if lt a b then b else a

/-- The first number unless the second is less. -/
def min (a b : R) : R := if lt b a then b else a

/-- The sum, entry by entry. Sums of vectors are taken in pairs from eight entries on, and may differ from it in
    the last bits where additions round; no law depends on the order. -/
def sum (xs : List R) : R := xs.foldl add zero

/-- The greatest entry; one that is not a number outlasts all others. -/
def peakOf (x : R) (xs : List R) : R :=
  xs.foldl (fun m y => if lt m y || !eq y y then y else m) x

/-- The reciprocal of a number; zero has none. -/
def reciprocal (p : R) : Except Fault R :=
  if eq p zero then .error .divisionByZero else .ok (div one p)

end Arith

namespace Number

variable {R : Type} [Arith R]

def toReal : Number R → Except Fault R
  | .int n => Arith.ofInt n
  | .real x => .ok x

def toInt : Number R → Except Fault Int
  | .int n => .ok n
  | .real x => Arith.toInt x

def add : Number R → Number R → Except Fault (Number R)
  | .int a, .int b => .ok (.int (a + b))
  | .int a, .real y => (Arith.ofInt a).map fun x => .real (Arith.add x y)
  | .real x, .int b => (Arith.ofInt b).map fun y => .real (Arith.add x y)
  | .real x, .real y => .ok (.real (Arith.add x y))

def lt : Number R → Number R → Bool
  | .int a, .int b => a < b
  | .int a, .real y => Arith.gtInt y a
  | .real x, .int b => Arith.ltInt x b
  | .real x, .real y => Arith.lt x y

/-- Equality of the numbers, whole or real; NaN equals nothing. -/
def equals : Number R → Number R → Bool
  | .int a, .int b => a == b
  | .int a, .real y | .real y, .int a => Arith.eq y y && !Arith.ltInt y a && !Arith.gtInt y a
  | .real x, .real y => Arith.eq x y

/-- Equal to zero; NaN is not. -/
def isZero : Number R → Bool
  | .int n => n == 0
  | .real x => Arith.eq x Arith.zero

def isPositive (a : Number R) : Bool := lt (.int 0) a

end Number

end Regrid
