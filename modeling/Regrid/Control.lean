/-
  Regrid.Control — controls and their settings.

  A control applies one strategy to a mesh per update and remembers the decision it
  took last; that decision is all a caller can ask it for. Strategies:
  - `refine`: refine what a marker marks;
  - `coarsen`: merge sibling groups whose combined error is at most a threshold;
  - `coarsenLimited`: the same without regard to the limit on levels, and then, stage by
    stage, refine until the limit holds;
  - `rebalance`: rebalance a distributed mesh;
  - `rotation`: the members of a sequence in turn, with a cursor to the one asked last;
  - `foreign`: a caller's own control, known by a number and a label.

  A value for a setting is admitted before anything is stored.
-/

import Regrid.Marker

namespace Regrid

/-- How the errors of sibling elements make the error of their parent. -/
inductive Combine where
  | least
  | sum
  | greatest
  deriving DecidableEq, Repr

namespace Combine

def code : Combine → Int
  | .least => 0
  | .sum => 1
  | .greatest => 2

def label : Combine → String
  | .least => "MIN"
  | .sum => "SUM"
  | .greatest => "MAX"

def all : List Combine := [.least, .sum, .greatest]

/-- The way whose number the value equals. -/
def ofValue (v : Value) : Except Fault Combine :=
  match all.find? fun c => v.equalsInt c.code with
  | some c => .ok c
  | none => .error (.unknownCombination v)

end Combine

/-- Settings of a de-refinement control. -/
structure Coarsening (R : Type) where
  estimator : EstimatorId
  threshold : R
  limit : Int
  combine : Combine
  deriving DecidableEq, Repr

/-- What a limited de-refinement does next. -/
inductive Stage where
  | coarsen
  | limit
  deriving DecidableEq, Repr

def Stage.code : Stage → Int
  | .coarsen => 0
  | .limit => 1

inductive Strategy (R : Type) where
  | refine (marker : MarkerId) (mode : Mode) (limit : Int)
  | coarsen (how : Coarsening R)
  | coarsenLimited (how : Coarsening R) (stage : Stage)
  | rebalance
  | rotation (cursor : Int) (members : List ControlId)
  | foreign (k : Nat) (label : String)
  deriving DecidableEq, Repr

namespace Strategy

variable {R : Type}

def label : Strategy R → String
  | .refine _ _ _ => "RefinementControl"
  | .coarsen _ => "ThresholdDerefineControl"
  | .coarsenLimited _ _ => "ThresholdDerefineControl2"
  | .rebalance => "RebalanceControl"
  | .rotation _ _ => "MeshControlSequence"
  | .foreign _ label => label

/-- What a reset leaves of a strategy: its settings and members, with progress undone. -/
def restart : Strategy R → Strategy R
  | .coarsenLimited how _ => .coarsenLimited how .coarsen
  | .rotation _ members => .rotation (-1) members
  | s => s

def members : Strategy R → List ControlId
  | .rotation _ members => members
  | _ => []

end Strategy

structure Control (R : Type) where
  last : Decision
  strategy : Strategy R
  deriving DecidableEq, Repr

/-- One setting of a control with the value a caller gives it. -/
inductive ControlSetting where
  | mode (mode : Mode) (limit : Value)
  | threshold (v : Value)
  | combine (v : Value)
  | limit (v : Value)

namespace Defaults

def derefineThreshold : Float := 0.0
/-- No limit on the difference of levels. -/
def limit : Int := 0

end Defaults

namespace Coarsening

def new (estimator : EstimatorId) : Coarsening Float where
  estimator := estimator
  threshold := Defaults.derefineThreshold
  limit := Defaults.limit
  combine := .sum

def tune (c : Coarsening Float) : ControlSetting → Except Fault (Coarsening Float)
  | .threshold v => do
    return { c with threshold := ← (← Admission.nonNegative "threshold" v).toReal }
  | .combine v => do return { c with combine := ← Combine.ofValue v }
  | .limit v => do return { c with limit := ← Admission.nonNegativeInteger "nc_limit" v }
  | .mode _ _ => .error .missing

end Coarsening

namespace Control

variable {R : Type}

def new (s : Strategy R) : Control R := ⟨.idle, s⟩

def refining (marker : MarkerId) : Strategy R := .refine marker .conforming Defaults.limit

def emptyRotation : Strategy R := .rotation (-1) []

/-- Changes one setting; a strategy that does not have it is left alone. -/
def tune (c : Control Float) (change : ControlSetting) : Except Fault (Control Float) :=
  match c.strategy, change with
  | .refine marker _ _, .mode mode v => do
    let limit ← Admission.nonNegativeInteger "nc_limit" v
    return { c with strategy := .refine marker mode limit }
  | .coarsen how, _ => do return { c with strategy := .coarsen (← how.tune change) }
  | .coarsenLimited how stage, _ => do
    return { c with strategy := .coarsenLimited (← how.tune change) stage }
  | _, _ => .error .missing

end Control

end Regrid
