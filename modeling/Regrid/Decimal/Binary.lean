/-
  Regrid.Decimal.Binary — a binary number taken apart.

  A finite number of a binary format is ± m · 2^q, with m below 2^bits and q between
  the format's least and greatest exponent. A caller may use `half`, `single` and `double`,
  where a number of the narrower two is carried in a `Float`, which holds it exactly; and
  `extended`, which no `Float` holds. `Shape.ofFloat` takes a `Float` apart and
  `Shape.toFloat` puts the nearest one together, a half going to the even neighbour.
  `Format.fit` gives m · 2^q with the significand the format would use, and
  `Format.round` rounds a `Float` into a narrower format in the same way.

  Whole numbers are compared with binary ones exactly, through m and q, never by
  rounding the whole number first (`Shape.lessThanInt`, `Shape.greaterThanInt`).
-/

namespace Regrid.Decimal

open Float.Model (UnpackedFloat)

/-- A binary format: bits of the significand, least and greatest exponent of its last bit,
    and the power of ten from which on its numbers are written with an exponent. -/
structure Format where
  bits : Nat
  low : Int
  high : Int
  plain : Nat
  deriving DecidableEq, Repr

def Format.half : Format := ⟨11, -24, 5, 3⟩
def Format.single : Format := ⟨24, -149, 104, 6⟩
def Format.double : Format := ⟨53, -1074, 971, 16⟩
def Format.extended : Format := ⟨64, -16445, 16320, 16⟩

/-- The magnitude m · 2^q. -/
structure Binary where
  m : Nat
  q : Int
  deriving DecidableEq, Repr

/-- What a number is: no number, an infinity, or a signed magnitude. -/
inductive Shape
  | nan
  | infinite (negative : Bool)
  | finite (negative : Bool) (value : Binary)
  deriving DecidableEq, Repr

def Shape.ofFloat (x : Float) : Shape :=
  let bits := x.toBits
  let negative := bits >>> 63 == 1
  let exponent := ((bits >>> 52) &&& 0x7FF).toNat
  let fraction := (bits &&& 0xFFFFFFFFFFFFF).toNat
  if exponent == 0x7FF then (if fraction == 0 then .infinite negative else .nan)
  else if exponent == 0 then .finite negative ⟨fraction, -1074⟩
  else .finite negative ⟨0x10000000000000 + fraction, (exponent : Int) - 1075⟩

/-- The nearest `Float`; past the largest one it is infinite. -/
def Binary.nearest (b : Binary) : Float :=
  if b.m = 0 then 0.0
  else .ofBits (.ofBitVec (UnpackedFloat.pack .binary64 (UnpackedFloat.round .binary64 .positive b.m b.q)))

def Shape.toFloat : Shape → Float
  | .nan => (0.0 : Float) / 0.0
  | .infinite negative => if negative then (-1.0 : Float) / 0.0 else (1.0 : Float) / 0.0
  | .finite negative b => if negative then -b.nearest else b.nearest

def Shape.isZero : Shape → Bool
  | .finite _ b => b.m == 0
  | _ => false

/-- Number of binary digits. -/
def bitLength (n : Nat) : Nat := if n = 0 then 0 else n.log2 + 1

/-- The exponent the format gives the last bit of a magnitude. -/
def Format.exponentOf (f : Format) (b : Binary) : Int :=
  max f.low (b.q + bitLength b.m - f.bits)

/-- m · 2^q / 2^e, rounded to the nearest whole number, a half to the even one. -/
def Binary.atExponent (b : Binary) (e : Int) : Nat :=
  if e ≤ b.q then b.m * Nat.pow 2 (b.q - e).toNat
  else
    let d := Nat.pow 2 (e - b.q).toNat
    let k := b.m / d
    let r := b.m % d
    if 2 * r < d ∨ (2 * r = d ∧ k % 2 = 0) then k else k + 1

/-- The same magnitude, or its nearest neighbour, with the significand the format uses. -/
def Format.fit (f : Format) (b : Binary) : Binary :=
  let e := f.exponentOf b
  ⟨b.atExponent e, e⟩

/-- The magnitude as a `Float`; past the largest one it is infinite. -/
def Binary.toFloat (b : Binary) : Float :=
  if 0 ≤ b.q then Float.ofScientific (b.m * Nat.pow 2 b.q.toNat) false 0
  else Float.ofScientific (b.m * Nat.pow 5 (-b.q).toNat) true (-b.q).toNat

/-- A whole number as the nearest `Float`. -/
def ofInt (n : Int) : Float :=
  let x := Float.ofScientific n.natAbs false 0
  if n < 0 then -x else x

/-- Rounds into a narrower format; past its largest number the result is infinite. -/
def Format.round (f : Format) (x : Float) : Float :=
  match Shape.ofFloat x with
  | .finite negative b =>
    let r := f.fit b
    let e := f.exponentOf r
    let y := if e > f.high then (1.0 : Float) / 0.0 else r.toFloat
    if negative then -y else y
  | _ => x

/-- Order of m · 2^q and a natural number. -/
def Binary.compareNat (b : Binary) (n : Nat) : Ordering :=
  if 0 ≤ b.q then compare (b.m * Nat.pow 2 b.q.toNat) n else compare b.m (n * Nat.pow 2 (-b.q).toNat)

/-- Order of a number that is not NaN and a whole number. -/
def Shape.compareInt : Shape → Int → Option Ordering
  | .nan, _ => none
  | .infinite negative, _ => some (if negative then .lt else .gt)
  | .finite negative b, n =>
    some <|
      if n < 0 then (if negative then (b.compareNat n.natAbs).swap else .gt)
      else if negative ∧ b.m ≠ 0 then .lt
      else b.compareNat n.natAbs

def Shape.lessThanInt (s : Shape) (n : Int) : Bool := s.compareInt n == some .lt
def Shape.greaterThanInt (s : Shape) (n : Int) : Bool := s.compareInt n == some .gt
def Shape.equalsInt (s : Shape) (n : Int) : Bool := s.compareInt n == some .eq

/-- The whole part of m · 2^q. -/
def Binary.floor (b : Binary) : Nat :=
  if 0 ≤ b.q then b.m * Nat.pow 2 b.q.toNat else b.m / Nat.pow 2 (-b.q).toNat

end Regrid.Decimal
