/-
  Regrid.Quantity.Width — quantities of different widths added and compared.

  A sized quantity decides how it is added to another one or compared with it. Among
  sized ones a truth takes the kind of the other, of two widths the wider counts, and a
  whole and a real number meet as real numbers of double width. A quantity without a
  limit takes the kind of the sized one beside it where it can: a whole number takes the
  width of any number, a real number that of any real number; beside a truth a whole
  number has 64 bits, and beside a truth or a whole number a real number is double. A
  long number takes part as the double one it is nearest to. Without a sized quantity
  nothing is limited.

  (1) `add`: truths of limited width add to a truth, whole numbers wrap around in their
      width, real numbers are rounded to it. A whole number that does not fit in the
      common width is refused.
  (2) `lt` and `equals`: real numbers are compared once both are rounded to the common
      width, all others exactly; but beside a truth of limited width a whole number has
      to fit in its 64 bits, and is refused otherwise.
  (3) `max` and `min`: the first quantity as it is, unless the second is greater, or less.
-/

import Regrid.Arith

namespace Regrid

/-- What a sized quantity keeps to. -/
inductive Kind where
  | truth
  | int (w : IntWidth)
  | real (w : RealWidth)
  deriving DecidableEq, Repr

def IntWidth.wider : IntWidth → IntWidth → IntWidth
  | .w32, w => w
  | .w64, _ => .w64

def RealWidth.wider : RealWidth → RealWidth → RealWidth
  | .half, w | w, .half => w
  | .single, w | w, .single => w
  | .double, .double => .double

/-- The number in the range of the width that differs by a multiple of its size. -/
def IntWidth.wrap (w : IntWidth) (n : Int) : Int := n.bmod (Nat.pow 2 w.bits)

def IntWidth.fit (w : IntWidth) (n : Int) : Except Fault Int :=
  if w.wrap n = n then .ok n else .error .tooLarge

/-- The kind two sized quantities have in common. -/
def Kind.join : Kind → Kind → Kind
  | .truth, k | k, .truth => k
  | .int a, .int b => .int (a.wider b)
  | .real a, .real b => .real (a.wider b)
  | .int _, .real _ | .real _, .int _ => .real .double

variable {R : Type}

def Sized.kind : Sized R → Kind
  | .truth _ => .truth
  | .int w _ => .int w
  | .real w _ => .real w
  | .long _ => .real .double

namespace Quantity

/-- The kind a quantity has in common with a sized one. -/
def kindBeside (k : Kind) : Quantity R → Kind
  | .sized s => k.join s.kind
  | .truth _ => k
  | .int _ =>
    match k with
    | .truth => .int .w64
    | k => k
  | .real _ =>
    match k with
    | .real w => .real w
    | _ => .real .double

def commonKind (a b : Quantity R) : Option Kind :=
  match a, b with
  | .sized s, q | q, .sized s => some (q.kindBeside s.kind)
  | _, _ => none

variable [Arith R]

/-- The real number of a width that a quantity takes part as. -/
def toWidth (w : RealWidth) (q : Quantity R) : Except Fault R := q.value.toReal.map (Arith.round w)

/-- The whole number of a width that a quantity takes part as. -/
def toWord (w : IntWidth) (q : Quantity R) : Except Fault Int := q.value.toInt.bind w.fit

/-- The sum of two quantities that both take part as the kind. -/
def addAs (k : Kind) (a b : Quantity R) : Except Fault (Quantity R) :=
  match k with
  | .truth => .ok (.sized (.truth (!a.value.isZero || !b.value.isZero)))
  | .int w => do return .sized (.int w (w.wrap ((← a.toWord w) + (← b.toWord w))))
  | .real w => do return .sized (.real w (Arith.round w (Arith.add (← a.toWidth w) (← b.toWidth w))))

def add (a b : Quantity R) : Except Fault (Quantity R) :=
  match commonKind a b with
  | none => (a.value.add b.value).map .number
  | some k => addAs k a b

def isSizedTruth : Quantity R → Bool
  | .sized (.truth _) => true
  | _ => false

/-- The numbers that two quantities are compared as. -/
def compared (a b : Quantity R) : Except Fault (Number R × Number R) :=
  match commonKind a b with
  | some (.real w) => do return (.real (← a.toWidth w), .real (← b.toWidth w))
  | some (.int w) =>
    if a.isSizedTruth || b.isSizedTruth then do return (.int (← a.toWord w), .int (← b.toWord w))
    else .ok (a.value, b.value)
  | _ => .ok (a.value, b.value)

def lt (a b : Quantity R) : Except Fault Bool := do
  let (x, y) ← compared a b
  return x.lt y

def equals (a b : Quantity R) : Except Fault Bool := do
  let (x, y) ← compared a b
  return x.equals y

def max (a b : Quantity R) : Except Fault (Quantity R) := do return if ← lt a b then b else a

def min (a b : Quantity R) : Except Fault (Quantity R) := do return if ← lt b a then b else a

end Quantity

end Regrid
