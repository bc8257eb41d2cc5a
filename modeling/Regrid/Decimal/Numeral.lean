/-
  Regrid.Decimal.Numeral — reading numbers from text.

  Blanks around a numeral are dropped, decimal digits of every script of Unicode 14.0
  count as digits, and one underscore may stand between two digits. A real numeral is an
  optional sign and then `inf`, `infinity` or `nan` in any case, or digits with an
  optional point (on at least one side of which a digit stands) and an optional exponent.
  A whole numeral is an optional sign and any number of digits.
-/

import Regrid.Decimal.Binary

namespace Regrid.Decimal

/-- Blank characters, as ranges of code points; the ASCII separators 0x1C to 0x1F are none. -/
def blankRanges : List (Nat × Nat) :=
  [(0x09, 0x0D), (0x20, 0x20), (0x85, 0x85), (0xA0, 0xA0), (0x1680, 0x1680), (0x2000, 0x200A),
   (0x2028, 0x2029), (0x202F, 0x202F), (0x205F, 0x205F), (0x3000, 0x3000)]

def isBlank (c : Char) : Bool := blankRanges.any fun (lo, hi) => lo ≤ c.toNat && c.toNat ≤ hi

/-- Code points of the digit zero, one per script; the other nine digits follow it. -/
def zeroPoints : List Nat :=
  [0x30, 0x660, 0x6F0, 0x7C0, 0x966, 0x9E6, 0xA66, 0xAE6, 0xB66, 0xBE6, 0xC66, 0xCE6, 0xD66, 0xDE6,
   0xE50, 0xED0, 0xF20, 0x1040, 0x1090, 0x17E0, 0x1810, 0x1946, 0x19D0, 0x1A80, 0x1A90, 0x1B50,
   0x1BB0, 0x1C40, 0x1C50, 0xA620, 0xA8D0, 0xA900, 0xA9D0, 0xA9F0, 0xAA50, 0xABF0, 0xFF10, 0x104A0,
   0x10D30, 0x11066, 0x110F0, 0x11136, 0x111D0, 0x112F0, 0x11450, 0x114D0, 0x11650, 0x116C0,
   0x11730, 0x118E0, 0x11950, 0x11C50, 0x11D50, 0x11DA0, 0x16A60, 0x16AC0, 0x16B50,
   0x1D7CE, 0x1D7D8, 0x1D7E2, 0x1D7EC, 0x1D7F6, 0x1E140, 0x1E2F0, 0x1E950, 0x1FBF0]

def digitValue? (c : Char) : Option Nat :=
  zeroPoints.findSome? fun z => if z ≤ c.toNat ∧ c.toNat < z + 10 then some (c.toNat - z) else none

def isDigit (c : Char) : Bool := (digitValue? c).isSome

def trimBlanks (cs : List Char) : List Char :=
  ((cs.dropWhile isBlank).reverse.dropWhile isBlank).reverse

/-- Drops underscores, each of which must stand between two digits. -/
def joinDigits : Bool → List Char → Option (List Char)
  | _, [] => some []
  | afterDigit, '_' :: rest =>
    match rest with
    | [] => none
    | c :: _ => if afterDigit && isDigit c then joinDigits false rest else none
  | _, c :: rest => (joinDigits (isDigit c) rest).map (c :: ·)

def digitsValue (cs : List Char) : Nat :=
  cs.foldl (fun n c => 10 * n + (digitValue? c).getD 0) 0

/-- The sign in front, true for a minus, and what follows it. -/
def takeSign : List Char → Bool × List Char
  | '-' :: rest => (true, rest)
  | '+' :: rest => (false, rest)
  | cs => (false, cs)

def readInt (s : String) : Option Int := do
  let cs ← joinDigits false (trimBlanks s.toList)
  let (negative, ds) := takeSign cs
  if ds.isEmpty || !ds.all isDigit then none
  else some (if negative then -(digitsValue ds : Int) else digitsValue ds)

/-- The exponent part: nothing, or a mark, an optional sign and digits to the end. -/
def readExponent : List Char → Option Int
  | [] => some 0
  | c :: rest =>
    if c == 'e' || c == 'E' then
      let (negative, ds) := takeSign rest
      if ds.isEmpty || !ds.all isDigit then none
      else some (if negative then -(digitsValue ds : Int) else digitsValue ds)
    else none

/-- m · 10^e as the nearest `Float`, without ever writing out a hopeless power of ten. -/
def scaleDecimal (m : Nat) (count : Nat) (e : Int) : Float :=
  if m = 0 then 0.0
  else if e + count > 400 then (1.0 : Float) / 0.0
  else if e + count < -400 then 0.0
  else Float.ofScientific m (e < 0) e.natAbs

def readMagnitude (cs : List Char) : Option Float :=
  let word := String.ofList (cs.map Char.toLower)
  if word == "inf" || word == "infinity" then some ((1.0 : Float) / 0.0)
  else if word == "nan" then some ((0.0 : Float) / 0.0)
  else
    let whole := cs.takeWhile isDigit
    let rest := cs.dropWhile isDigit
    let (fraction, tail) :=
      match rest with
      | '.' :: more => (more.takeWhile isDigit, more.dropWhile isDigit)
      | _ => ([], rest)
    if whole.isEmpty && fraction.isEmpty then none
    else do
      let e ← readExponent tail
      let ds := whole ++ fraction
      let count := (ds.dropWhile fun c => digitValue? c == some 0).length
      some (scaleDecimal (digitsValue ds) count (e - fraction.length))

def readReal (s : String) : Option Float := do
  let cs ← joinDigits false (trimBlanks s.toList)
  let (negative, rest) := takeSign cs
  let x ← readMagnitude rest
  some (if negative then -x else x)

end Regrid.Decimal
