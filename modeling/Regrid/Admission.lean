/-
  Regrid.Admission — which values a setting takes.

  Each check takes the name of a setting and a value, and yields the number admitted, as
  it was given, or the fault. A truth value is never a number. The checks run in this
  order: is it a number, is it NaN, is it in range. Testing for NaN, and for an infinity,
  converts the number, so a whole number past the range of binary64 is refused there as
  too large, before its range is looked at, and a long number past it counts as infinite.
  The range is that of the number given, not of the number it is converted to when it is
  stored: a long number above zero is admitted as positive, and may become zero there. The
  integer checks convert nothing and take whole numbers of any size.

  Numbers in a report are taken to be written out, whatever their length; what becomes of
  the report where there is a limit to that is told by `Fault.raised`.
-/

import Regrid.Value.Order

namespace Regrid

namespace Given

def toReal : Given → Except Fault Float
  | .number n => n.toReal
  | .long x => .ok x.toFloat

def ltInt (k : Int) : Given → Bool
  | .number n => n.lt (.int k)
  | .long x => x.lessThanInt k

def gtInt (k : Int) : Given → Bool
  | .number n => Number.lt (.int k) n
  | .long x => x.greaterThanInt k

/-- Whole numbers are numbers; a long one is converted first. -/
def isNaN : Given → Bool
  | .number (.int _) => false
  | .number (.real x) => x.isNaN
  | .long x => x.toFloat.isNaN

/-- Whole numbers are finite; a long one is converted first. -/
def isInfinite : Given → Bool
  | .number (.int _) => false
  | .number (.real x) => x.isInf
  | .long x => x.toFloat.isInf

end Given

namespace Admission

def refuse {α : Type} (name : String) (why : Refusal) : Except Fault α := .error (.setting name why)

/-- A number that is not NaN. -/
def numeric (name : String) (v : Value) : Except Fault Given :=
  match v.given? with
  | none => refuse name (.notNumeric v)
  | some (.number (.int n)) => (Binary64.ofInt n).map fun _ => .number (.int n)
  | some g => if g.isNaN then refuse name .isNaN else .ok g

/-- A finite number that is not negative. -/
def nonNegative (name : String) (v : Value) : Except Fault Given := do
  let g ← numeric name v
  if g.isInfinite then refuse name (.infinite v)
  else if g.ltInt 0 then refuse name (.negative v)
  else .ok g

/-- A number from zero to one. -/
def fraction (name : String) (v : Value) : Except Fault Given := do
  let g ← numeric name v
  if g.ltInt 0 || g.gtInt 1 then refuse name (.outsideUnit v) else .ok g

/-- A positive number, infinity included. -/
def exponent (name : String) (v : Value) : Except Fault Given := do
  let g ← numeric name v
  if g.gtInt 0 then .ok g else refuse name (.notPositive v)

/-- A whole number that is at least `least`, whatever value that is. -/
def integer (name : String) (least : Value) (v : Value) : Except Fault Int :=
  match v.integer? with
  | none => refuse name (.notInteger v)
  | some n => do if ← v.lt least then refuse name (.below least v) else .ok n

/-- Of whole numbers, those from the least one on are admitted. -/
theorem integer_ok {name : String} {v : Value} {least k : Int} :
    integer name (.int least) v = .ok k ↔ v.integer? = some k ∧ least ≤ k := by
  unfold integer
  cases hv : v.integer? with
  | none => exact ⟨nofun, fun h => nomatch h.1⟩
  | some m =>
    simp only [Value.lt_of_integer hv, Bind.bind, Except.bind, Option.some.injEq]
    by_cases below : m < least
    · simp only [decide_eq_true below, if_true]
      refine ⟨nofun, fun ⟨same, h⟩ => ?_⟩
      omega
    · simp only [decide_eq_false below]
      refine ⟨fun h => ?_, fun ⟨same, _⟩ => same ▸ rfl⟩
      cases h
      exact ⟨rfl, Int.not_lt.mp below⟩

def positiveInteger (name : String) (v : Value) : Except Fault Int := integer name (.int 1) v

def nonNegativeInteger (name : String) (v : Value) : Except Fault Int := integer name (.int 0) v

/-- A vector has one entry per element; the count of elements is a value like any other. -/
def checkSize (what : Delivery) (context : String) (expected : Value) (length : Nat) : Except Fault Unit := do
  if !(← expected.equals (.int length)) then throw (.wrongSize what length expected context)

/-- One finite error per element. -/
def errorVector {R : Type} [Arith R] (context : String) (expected : Value) (errors : List R) :
    Except Fault (List R) := do
  checkSize .errors context expected errors.length
  if errors.all Arith.isFinite then return errors else throw (.notFinite context)

/-- One flag per element. -/
def flagVector (context : String) (expected : Value) (flags : List Int) : Except Fault (List Int) := do
  checkSize .flags context expected flags.length
  return flags

end Admission

end Regrid
