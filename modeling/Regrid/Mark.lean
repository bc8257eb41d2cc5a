/-
  Regrid.Mark — one element to be refined, and the directions to split it in.

  Directions are a set of bits: X, Y and Z are 1, 2 and 4, and the undirected split is
  all three. Higher bits have no meaning here and are kept. A negative number stands
  for a set of bits too: it is completed to the next power of two that leaves it none
  of its sign bits (`Directions.ofInt`). Any other value stands for the named set whose
  number it equals.
-/

import Regrid.Fault

namespace Regrid

structure Directions where
  bits : Nat
  deriving DecidableEq, Repr

namespace Directions

def x : Directions := ⟨1⟩
def y : Directions := ⟨2⟩
def z : Directions := ⟨4⟩
def xy : Directions := ⟨3⟩
def xz : Directions := ⟨5⟩
def yz : Directions := ⟨6⟩
/-- The undirected split. -/
def xyz : Directions := ⟨7⟩

/-- The named sets, with their names. -/
def named : List (String × Directions) :=
  [("X", x), ("Y", y), ("Z", z), ("XY", xy), ("XZ", xz), ("YZ", yz), ("XYZ", xyz)]

def ofInt (n : Int) : Directions :=
  if 0 ≤ n then ⟨n.toNat⟩
  else if -8 ≤ n then ⟨(n + 8).toNat⟩
  else ⟨((Nat.pow 2 (Decimal.bitLength n.natAbs) : Int) + n).toNat⟩

def ofValue : Value → Except Fault Directions
  | .int n => .ok (ofInt n)
  | .bool b => .ok (ofInt (if b then 1 else 0))
  | v =>
    match named.find? fun (_, d) => v.equalsInt d.bits with
    | some (_, d) => .ok d
    | none => .error .noSuchMember

/-- Every bit of the second set is in the first. -/
def includes (d part : Directions) : Bool := d.bits &&& part.bits == part.bits

/-- The named sets contained in this one. -/
def parts (d : Directions) : List String := (named.filter fun (_, p) => d.includes p).map (·.1)

end Directions

structure Mark where
  index : Int
  directions : Directions := Directions.xyz
  deriving DecidableEq, Repr

/-- The mark splits in every direction. -/
def Mark.isIsotropic (m : Mark) : Bool := m.directions == Directions.xyz

end Regrid
