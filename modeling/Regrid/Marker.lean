/-
  Regrid.Marker — markers and their settings.

  A threshold marker is told an estimator and five settings; a caller's own marker is
  known by a number and a label. Either keeps its last marking with the mesh version it
  was made for, and counts the elements marked by all passes so far.

  Every setting is admitted before it is stored, so a refused value leaves all settings
  as they were. The threshold for an error total e over n elements is the greater of the
  local goal and e · fraction · n^(-1/p); the power drops out for the maximum norm, is
  taken as zero without elements, and with fraction zero the local goal stands alone. Only
  there does it not matter whether the total is a real number.
-/

import Regrid.Admission
import Regrid.Site
import Regrid.Stamped

namespace Regrid

structure Settings (R : Type) where
  exponent : Exponent R
  totalGoal : R
  fraction : R
  localGoal : R
  maxElements : Int
  deriving DecidableEq, Repr

/-- One setting of a threshold marker with the value a caller gives it. -/
inductive MarkerSetting where
  | exponent (v : Value)
  | totalGoal (v : Value)
  | fraction (v : Value)
  | localGoal (v : Value)
  | maxElements (v : Value)

/-! Settings in force until a caller changes them. -/

namespace Defaults

def normExponent : Float := Binary64.infinity
def totalErrorGoal : Float := 0.0
def totalErrorFraction : Float := 0.5
def localErrorGoal : Float := 0.0
def maxElements : Int := 0x7fffffffffffffff
def unsetVersion : Int := Stamped.unset

end Defaults

namespace Settings

def default : Settings Float where
  exponent := Binary64.exponent Defaults.normExponent
  totalGoal := Defaults.totalErrorGoal
  fraction := Defaults.totalErrorFraction
  localGoal := Defaults.localErrorGoal
  maxElements := Defaults.maxElements

def tune (s : Settings Float) : MarkerSetting → Except Fault (Settings Float)
  | .exponent v => do
    let p ← (← Admission.exponent "total_norm_p" v).toReal
    return { s with exponent := Binary64.exponent p }
  | .totalGoal v => do
    return { s with totalGoal := ← (← Admission.nonNegative "total_error_goal" v).toReal }
  | .fraction v => do
    return { s with fraction := ← (← Admission.fraction "total_error_fraction" v).toReal }
  | .localGoal v => do
    return { s with localGoal := ← (← Admission.nonNegative "local_error_goal" v).toReal }
  | .maxElements v => do
    return { s with maxElements := ← Admission.positiveInteger "max_elements" v }

variable {R : Type} [Arith R]

def needReal : Option R → Except Fault R
  | some x => .ok x
  | none => .error .notReal

/-- The factor n^(-1/p) of the global term. -/
def scaling (s : Settings R) (elements : Int) : Except Fault R :=
  match s.exponent with
  | .infinite => .ok Arith.one
  | .finite p =>
    if 0 < elements then do
      if Arith.eq p Arith.zero then throw .divisionByZero
      needReal (← Arith.checkedPower (← Arith.ofInt elements) (Arith.div (Arith.neg Arith.one) p))
    else .ok Arith.zero

def threshold (s : Settings R) (totalError : Option R) (elements : Int) : Except Fault R :=
  if Arith.eq s.fraction Arith.zero then .ok s.localGoal
  else do
    let factor ← s.scaling elements
    let error ← needReal totalError
    return Arith.max (Arith.mul (Arith.mul error s.fraction) factor) s.localGoal

/-- The error total is within its goal, or the mesh has its elements; the total comes first. -/
def stops (s : Settings R) (m : Marking R) : Except Fault Bool := do
  let error ← needReal m.totalError
  return Arith.le error s.totalGoal || decide (s.maxElements ≤ m.elements)

end Settings

inductive Source (R : Type) where
  | threshold (estimator : EstimatorId) (settings : Settings R)
  | foreign (k : Nat) (label : String)
  deriving DecidableEq, Repr

def Source.label {R : Type} : Source R → String
  | .threshold _ _ => "ThresholdMarker"
  | .foreign _ label => label

structure Marker (R : Type) where
  mesh : MeshId
  source : Source R
  cache : Stamped (Marking R)
  tally : Int
  deriving DecidableEq, Repr

namespace Marker

variable {R : Type}

def new (mesh : MeshId) (source : Source R) : Marker R := ⟨mesh, source, Stamped.empty, 0⟩

/-- Drops the kept marking; the next read makes one. -/
def forget (m : Marker R) : Marker R := { m with cache := m.cache.forget }

/-- Changes one setting and drops the kept marking. -/
def tune (m : Marker Float) (change : MarkerSetting) : Except Fault (Marker Float) :=
  match m.source with
  | .foreign _ _ => .error .missing
  | .threshold estimator settings => do
    let settings ← settings.tune change
    return { m with source := .threshold estimator settings }.forget

end Marker

end Regrid
