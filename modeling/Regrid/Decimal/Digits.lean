/-
  Regrid.Decimal.Digits — decimal digits of a binary number, and their layout.

  Two ways to choose digits, both by exact arithmetic on m · 2^q:
  (1) `shortest`: the fewest digits that read back as the same number of the format,
      and of those the nearest one, an exact tie going to the even digit. A decimal
      reads back when it lies between the midpoints to the two neighbours; the
      midpoints count when the significand is even (`readsBack`).
  (2) `significant`: a fixed count of digits, a half going to the even digit.

  And one layout each: `shortestText` writes plain notation for zero and for numbers from
  10^-4 up to the power of ten of their format, and always keeps a digit after the point
  there; `scientificText` always writes an exponent of at least two digits.
-/

import Regrid.Decimal.Binary

namespace Regrid.Decimal

/-- The decimal digits · 10^exp. -/
structure Dec where
  digits : Nat
  exp : Int
  deriving DecidableEq, Repr

/-- Order of a · 10^i and n · 2^j. -/
def compareScaled (a : Nat) (i : Int) (n : Nat) (j : Int) : Ordering :=
  compare (a * Nat.pow 10 i.toNat * Nat.pow 2 (-j).toNat) (n * Nat.pow 2 j.toNat * Nat.pow 10 (-i).toNat)

/-- The gap below is half the gap above: the significand is the least of its binade. -/
def Format.narrowBelow (f : Format) (b : Binary) : Bool :=
  b.m == Nat.pow 2 (f.bits - 1) && f.low < b.q

/-- The decimal rounds to the number `b` of the format. -/
def Format.readsBack (f : Format) (b : Binary) (d : Dec) : Bool :=
  let below := if f.narrowBelow b then 4 * b.m - 1 else 4 * b.m - 2
  let above := 4 * b.m + 2
  let even := b.m % 2 == 0
  let low := compareScaled d.digits d.exp below (b.q - 2)
  let high := compareScaled d.digits d.exp above (b.q - 2)
  (low == .gt || (even && low == .eq)) && (high == .lt || (even && high == .eq))

/-- The least k with the magnitude below 10^k. -/
def Binary.scale (b : Binary) : Int :=
  let guess := ((b.q + bitLength b.m - 1) * 30103).fdiv 100000 - 1
  (([guess, guess + 1, guess + 2] : List Int).find? fun k => compareScaled 1 k b.m b.q == .gt).getD (guess + 3)

/-- Whole part, remainder and divisor of the magnitude over 10^g. -/
def Binary.overPower (b : Binary) (g : Int) : Nat × Nat × Nat :=
  let num := b.m * Nat.pow 2 b.q.toNat * Nat.pow 10 (-g).toNat
  let den := Nat.pow 2 (-b.q).toNat * Nat.pow 10 g.toNat
  (num / den, num % den, den)

/-- The nearest decimal on the grid 10^g that reads back, of the two around the number. -/
def Format.onGrid (f : Format) (b : Binary) (g : Int) : Option Dec :=
  let (k, r, d) := b.overPower g
  let lower : Dec := ⟨k, g⟩
  let upper : Dec := ⟨k + 1, g⟩
  match f.readsBack b lower, f.readsBack b upper with
  | true, true => some (if 2 * r < d ∨ (2 * r = d ∧ k % 2 = 0) then lower else upper)
  | true, false => some lower
  | false, true => some upper
  | false, false => none

/-- The fewest digits that read back, for a magnitude that is not zero. -/
def Format.shortest (f : Format) (b : Binary) : Dec :=
  let top := b.scale
  ((List.range 21).findSome? fun n => f.onGrid b (top - (n + 1 : Nat))).getD
    (if 0 ≤ b.q then ⟨b.m * Nat.pow 2 b.q.toNat, 0⟩ else ⟨b.m * Nat.pow 5 (-b.q).toNat, b.q⟩)

/-- Exactly `count` digits (at least one), a half going to the even digit. -/
def Binary.significant (b : Binary) (count : Nat) : Dec :=
  let g := b.scale - count
  let (k, r, d) := b.overPower g
  let k := if 2 * r < d ∨ (2 * r = d ∧ k % 2 = 0) then k else k + 1
  if k = Nat.pow 10 count then ⟨Nat.pow 10 (count - 1), g + 1⟩ else ⟨k, g⟩

def digitChars (n : Nat) : List Char := Nat.toDigits 10 n

def intText (n : Int) : String :=
  (if n < 0 then "-" else "") ++ String.ofList (digitChars n.natAbs)

/-- The most digits that a whole number is written with, unless a program is set up otherwise. -/
def mostDigits : Nat := 4300

/-- A whole number has no more digits than may be written. -/
def isWritten (limit : Option Nat) (n : Int) : Bool := limit.all fun most => (digitChars n.natAbs).length ≤ most

def exponentText (e : Int) : String :=
  let ds := digitChars e.natAbs
  (if e < 0 then "-" else "+") ++ String.ofList (if ds.length < 2 then '0' :: ds else ds)

/-- One digit, the point, the rest, the exponent; without rest there is no point. -/
def scientific (ds : List Char) (e : Int) : String :=
  match ds with
  | [] => ""
  | d :: rest => String.ofList (if rest.isEmpty then [d] else d :: '.' :: rest) ++ "e" ++ exponentText e

/-- Plain notation of 0.ddd · 10^point. -/
def positional (ds : List Char) (point : Int) : String :=
  if point ≤ 0 then "0." ++ String.ofList (List.replicate (-point).toNat '0' ++ ds)
  else
    let n := point.toNat
    if ds.length ≤ n then String.ofList (ds ++ List.replicate (n - ds.length) '0') ++ ".0"
    else String.ofList (ds.take n ++ '.' :: ds.drop n)

def dropZeros (ds : List Char) : List Char := (ds.reverse.dropWhile (· == '0')).reverse

/-- The magnitude is at least 10^-4 and below the power of ten of the format. -/
def Format.isPlain (f : Format) (b : Binary) : Bool :=
  compareScaled 1 (-4) b.m b.q != .gt && compareScaled 1 f.plain b.m b.q == .gt

/-- Text of a magnitude by its shortest digits. -/
def Format.magnitudeText (f : Format) (b : Binary) : String :=
  if b.m = 0 then "0.0"
  else
    let d := f.shortest (f.fit b)
    let all := digitChars d.digits
    let point := d.exp + all.length
    let ds := dropZeros all
    if f.isPlain b then positional ds point else scientific ds (point - 1)

def Format.shapeText (f : Format) : Shape → String
  | .nan => "nan"
  | .infinite negative => if negative then "-inf" else "inf"
  | .finite negative b => (if negative then "-" else "") ++ f.magnitudeText b

def shortestText (f : Format) (x : Float) : String := f.shapeText (Shape.ofFloat x)

/-- Scientific notation with `places` digits after the point. -/
def scientificText (places : Nat) (x : Float) : String :=
  match Shape.ofFloat x with
  | .nan => "nan"
  | .infinite negative => if negative then "-inf" else "inf"
  | .finite negative b =>
    let text :=
      if b.m = 0 then scientific (List.replicate (places + 1) '0') 0
      else
        let d := b.significant (places + 1)
        scientific (digitChars d.digits) (d.exp + places)
    (if negative then "-" else "") ++ text

end Regrid.Decimal
