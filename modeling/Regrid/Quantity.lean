/-
  Regrid.Quantity — numbers and truths, of any size or of limited width.

  A quantity is a truth, a number without a limit, or a sized one: a truth, a whole
  number or a real number of a width that it keeps when it is added to others. 0.1 of
  single width is another number than 0.1.

  The widest real numbers, the long ones, are carried taken apart, for no type of real
  numbers here has to hold them. The long number itself is meant where a setting is
  admitted (`Given`), where a value is asked for its truth or its whole part, and where it
  stands for a member of an enumeration. Wherever it becomes one number among others it is
  the nearest of those (`Narrow`): one that is too small becomes zero, one that is too
  large infinite. So it takes part as a double number in reductions, which workers of this
  library never enter with a long one.

  A number is whole or real. Counts are whole, errors are real, and a global reduction may
  meet both: a whole number stays whole as long as every contribution to it is.

  `value` is the number that a quantity amounts to, where a truth counts as one or zero;
  everything that is decided is decided by it. `number?` knows no truths. `R` is the type
  of real numbers, which holds those of every width.
-/

import Regrid.Decimal.Binary

namespace Regrid

open Decimal (Format Shape)

inductive Number (R : Type) where
  | int (n : Int)
  | real (x : R)
  deriving DecidableEq, Repr

/-- The widths of those real numbers that `R` holds; the widest are `Sized.long`. -/
inductive RealWidth where
  | half
  | single
  | double
  deriving DecidableEq, Repr

inductive IntWidth where
  | w32
  | w64
  deriving DecidableEq, Repr

def RealWidth.format : RealWidth → Format
  | .half => .half
  | .single => .single
  | .double => .double

def IntWidth.bits : IntWidth → Nat
  | .w32 => 32
  | .w64 => 64

/-- A quantity that keeps to its width. -/
inductive Sized (R : Type) where
  | truth (b : Bool)
  | int (w : IntWidth) (n : Int)
  | real (w : RealWidth) (x : R)
  | long (x : Shape)
  deriving DecidableEq, Repr

inductive Quantity (R : Type) where
  | truth (b : Bool)
  | number (n : Number R)
  | sized (s : Sized R)
  deriving DecidableEq, Repr

/-- Real numbers among which each long number has a nearest one. -/
class Narrow (R : Type) where
  narrow : Shape → R

instance : Narrow Float := ⟨Shape.toFloat⟩

/-- A number as a caller gives it. -/
inductive Given where
  | number (n : Number Float)
  | long (x : Shape)
  deriving DecidableEq, Repr

variable {R : Type}

def Number.ofTruth (b : Bool) : Number R := .int (if b then 1 else 0)

section

variable [Narrow R]

/-- The quantity without its width. -/
def Sized.unlimited : Sized R → Quantity R
  | .truth b => .truth b
  | .int _ n => .number (.int n)
  | .real _ x => .number (.real x)
  | .long x => .number (.real (Narrow.narrow x))

def Sized.value : Sized R → Number R
  | .truth b => Number.ofTruth b
  | .int _ n => .int n
  | .real _ x => .real x
  | .long x => .real (Narrow.narrow x)

end

namespace Quantity

@[match_pattern] abbrev int (n : Int) : Quantity R := .number (.int n)
@[match_pattern] abbrev real (x : R) : Quantity R := .number (.real x)

variable [Narrow R]

/-- The number a quantity amounts to. -/
def value : Quantity R → Number R
  | .truth b => Number.ofTruth b
  | .number n => n
  | .sized s => s.value

/-- The number a quantity is; a truth is none. -/
def number? : Quantity R → Option (Number R)
  | .truth _ | .sized (.truth _) => none
  | q => some q.value

end Quantity

end Regrid
