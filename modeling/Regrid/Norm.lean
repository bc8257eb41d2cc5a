/-
  Regrid.Norm — the total error: a norm of the errors on all workers.

  The norm with exponent p of errors e is (Σ |e|^p)^(1/p), and the greatest |e| for the
  maximum norm. The errors are divided by their common maximum m before the powers are
  taken and the root is multiplied by m afterwards, so that large errors and large
  exponents do not overflow on the way. Where m is zero nothing is left to sum.

  A root of a negative sum, which peers may bring about, can be no real number; then there
  is a total all the same (`none`), for whoever does not look at it.

  An exponent that is handed in as a value is looked at once m is known (`totalOf`). With
  a sized exponent the root is taken, and multiplied, in the width of the exponent, and
  nothing on the way is refused: a root that is no number or too large is the result.
-/

import Regrid.Bench

namespace Regrid.Norm

variable {R W : Type} [Arith R]

/-- The greatest magnitude; zero for no errors. -/
def peak (errors : List R) : R :=
  match errors.map Arith.abs with
  | [] => Arith.zero
  | x :: xs => Arith.peakOf x xs

/-- The sum of the powers of the magnitudes relative to m. -/
def powerSum (errors : List R) (m p : R) : R :=
  Arith.sum (errors.map fun e => Arith.power (Arith.div (Arith.abs e) m) p)

/-- m times the p-th root of the sum of all workers. -/
def root (m p whole : R) : Except Fault (Option R) := do
  let inverse ← Arith.reciprocal p
  return (← Arith.checkedPower whole inverse).map (Arith.mul m)

/-- The width in which a power is taken before it is rounded to the given one. -/
def powerWidth : RealWidth → RealWidth
  | .half | .single => .single
  | .double => .double

/-- The same in a width, to which every number on the way is rounded. -/
def sizedRoot (w : RealWidth) (m p whole : R) : R :=
  let inverse := Arith.round w (Arith.div Arith.one p)
  let power := Arith.round w (Arith.round (powerWidth w) (Arith.power (Arith.round w whole) inverse))
  Arith.round w (Arith.mul (Arith.round w m) power)

/-- The greatest magnitude over the workers that share the mesh. -/
def commonPeak (site : Site R W) (mesh : MeshId) (errors : List R) : Act R W R := do
  Act.check (← Collective.max site mesh (.real (peak errors))).toReal

/-- The norm with exponent p, given the common maximum and how the root is taken. -/
def scaled (site : Site R W) (mesh : MeshId) (errors : List R) (m p : R)
    (rootOf : R → Except Fault (Option R)) : Act R W (Option R) := do
  if Arith.eq m Arith.zero then return some m
  let whole ← Act.check (← Collective.sum site mesh (.real (powerSum errors m p))).toReal
  Act.check (rootOf whole)

/-- The norm over the workers that share the mesh. -/
def total (site : Site R W) (mesh : MeshId) (errors : List R) (exponent : Exponent R) :
    Act R W (Option R) := do
  let m ← commonPeak site mesh errors
  match exponent with
  | .infinite => return some m
  | .finite p => scaled site mesh errors m p (root m p)

/-! ## Exponents as values -/

/-- The width of a root with this exponent: its own if it is real, and double otherwise, for a long one too. -/
def rootWidth : Sized R → RealWidth
  | .real w _ => w
  | .truth _ | .int _ _ | .long _ => .double

def rootFor (m p : R) : Quantity R → R → Except Fault (Option R)
  | .sized s => fun whole => .ok (some (sizedRoot (rootWidth s) m p whole))
  | _ => root m p

/-- The norm with the exponent that a value is; an infinite one means the maximum. -/
def totalOf (site : Site Float W) (mesh : MeshId) (errors : List Float) (exponent : Value) :
    Act Float W (Option Float) := do
  let m ← commonPeak site mesh errors
  match exponent.quantity? with
  | none => Act.fail .wrongType
  | some q =>
    let p ← Act.check q.value.toReal
    match Binary64.exponent p with
    | .infinite => return some m
    | .finite p => scaled site mesh errors m p (rootFor m p q)

end Regrid.Norm
