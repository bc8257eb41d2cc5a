/-
  Regrid.Value.Vector — reading a value as a vector.

  A scalar is a vector of one entry; nested lists are read row by row. The rows of each
  level must have one shape, and at most `maxLevels` levels are taken; both are settled
  before any entry is read. Then the entries are read from left to right and the first
  that cannot be read decides the fault. As an error, nothing is NaN and text is a real
  numeral; as a flag, a number loses its fraction, text is a whole numeral, and the
  result must fit in 64 bits.
-/

import Regrid.Binary64
import Regrid.Decimal.Numeral

namespace Regrid.Value

def maxLevels : Nat := 64

mutual

/-- The lengths of the levels of nested lists, outermost first. -/
def shape : Value → Except Fault (List Nat)
  | .list items => do
    let inner ← shapeOfRows items
    .ok (items.length :: inner)
  | _ => .ok []

/-- The one shape of all rows; no rows have the shape of a scalar. -/
def shapeOfRows : List Value → Except Fault (List Nat)
  | [] => .ok []
  | [v] => shape v
  | v :: rest => do
    let first ← shape v
    let others ← shapeOfRows rest
    if first == others then .ok first else .error .unevenRows

end

mutual

def entries : Value → List Value
  | .list items => entriesOfRows items
  | v => [v]

def entriesOfRows : List Value → List Value
  | [] => []
  | v :: rest => entries v ++ entriesOfRows rest

end

/-- The entries of a value whose rows are even. -/
def vector (v : Value) : Except Fault (List Value) := do
  let levels ← shape v
  if maxLevels < levels.length then .error .tooManyLevels else .ok (entries v)

def realEntry : Value → Except Fault Float
  | .null => .ok ((0.0 : Float) / 0.0)
  | .quantity q => q.value.toReal
  | .text s =>
    match Decimal.readReal s with
    | some x => .ok x
    | none => .error .noNumeral
  | .list _ | .record _ => .error .wrongType

/-- The range of a 64-bit whole number. -/
def fits64 (n : Int) : Bool := -0x8000000000000000 ≤ n && n < 0x8000000000000000

/-- A whole number of 64 bits without a sign that is past those with one. -/
def isHigh (n : Int) : Bool := 0x8000000000000000 ≤ n && n < 0x10000000000000000

def word (n : Int) : Except Fault Int := if fits64 n then .ok n else .error .tooLarge

def wordEntry : Value → Except Fault Int
  | .sized (.long x) => (Binary64.wholePart x).bind word
  | .quantity q => q.value.toInt.bind word
  | .text s =>
    match Decimal.readInt s with
    | some n => word n
    | none => .error .noNumeral
  | .null | .list _ | .record _ => .error .wrongType

def reals (v : Value) : Except Fault (List Float) := do (← vector v).mapM realEntry

def words (v : Value) : Except Fault (List Int) := do (← vector v).mapM wordEntry

/-- Direction flags: a value of length zero means that there are none. -/
def directionFlags (v : Value) : Except Fault (Option (List Int)) :=
  match v.length? with
  | none => .error .wrongType
  | some 0 => .ok none
  | some _ => (words v).map some

end Regrid.Value
