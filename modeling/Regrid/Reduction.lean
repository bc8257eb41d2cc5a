/-
  Regrid.Reduction — the ways workers combine their contributions to one quantity.

  Quantities combine as they do everywhere. Workers of a caller's own making may contribute
  other values too. Of these texts and lists are summed by putting one behind the other, a
  sized quantity is added to every entry of rows, and the greatest or least is found in the
  order of values. Contributions that cannot be combined are refused; only a sized quantity
  to which a text is to be added looks for what they could have in common.
-/

import Regrid.Value.Order

namespace Regrid

inductive Reduction where
  | sum
  | max
  | min
  deriving DecidableEq, Repr

namespace Reduction

def label : Reduction → String
  | .sum => "sum"
  | .max => "max"
  | .min => "min"

/-- A reduction is asked for by its label; no other value names one. -/
def ofValue : Value → Except Fault Reduction
  | .text s =>
    if s == "sum" then .ok .sum
    else if s == "max" then .ok .max
    else if s == "min" then .ok .min
    else .error (.unknownReduction (.text s))
  | v => .error (.unknownReduction v)

variable {R : Type} [Arith R]

/-- One worker's contribution combined with a peer's. -/
def combine : Reduction → Quantity R → Quantity R → Except Fault (Quantity R)
  | .sum, a, b => a.add b
  | .max, a, b => a.max b
  | .min, a, b => a.min b

end Reduction

def Value.add : Value → Value → Except Fault Value
  | .quantity a, .quantity b => (a.add b).map .quantity
  | .quantity (.sized s), .list rows | .list rows, .quantity (.sized s) => Rows.add s rows
  | .sized _, .text _ => .error .noCommonKind
  | .text s, .text t => .ok (.text (s ++ t))
  | .list xs, .list ys => .ok (.list (xs ++ ys))
  | _, _ => .error .incomparable

/-- One worker's contribution combined with a peer's. -/
def Reduction.combineValues : Reduction → Value → Value → Except Fault Value
  | .sum, a, b => a.add b
  | .max, a, b => a.max b
  | .min, a, b => a.min b

end Regrid
