/-
  Regrid.Site — the surroundings of the decisions.

  Meshes, error estimators, communicators, and markers and controls of a caller's own
  making belong to somebody else. A site tells how they answer: each is a function of
  the state `W` of the surroundings, and a call may change that state and may fail. No
  law is assumed of them; a mesh may answer as it likes.

  What passes between the decisions and a site is recorded as events: calls to a mesh or
  its communicator, requests to an estimator, visits of a rotation to its members, and
  notes for the journal.
-/

import Regrid.Group
import Regrid.Journal
import Regrid.Mark

namespace Regrid

abbrev MeshId := Nat
abbrev EstimatorId := Nat
abbrev ControlId := Nat
abbrev MarkerId := Nat

/-- How a mesh is to refine: conforming where its elements allow it, or not. -/
inductive Mode where
  | conforming
  | nonconforming
  deriving DecidableEq, Repr

def Mode.code : Mode → Int
  | .conforming => -1
  | .nonconforming => 1

/-- The outcome of one marking pass over an error vector. -/
structure Marking (R : Type) where
  marks : List Mark
  threshold : R
  /-- None where the total is no real number. -/
  totalError : Option R
  elements : Int
  marked : Int
  deriving DecidableEq, Repr

inductive Call (R : Type) where
  | refine (marks : List Mark) (mode : Mode) (limit : Int)
  | derefine (errors : List R) (threshold : R) (limit : Int)
  | violations (limit : Int) (found : List Int)
  | rebalance
  | reduce (op : Reduction) (own : Quantity R)
  deriving DecidableEq, Repr

inductive Event (R : Type) where
  | call (mesh : MeshId) (call : Call R)
  | estimate (estimator : EstimatorId)
  /-- A rotation is about to update the member at a position. -/
  | visit (rotation : ControlId) (position : Nat) (member : ControlId)
  | note (note : Note R)
  deriving DecidableEq, Repr

structure Site (R W : Type) where
  /-- A counter that every change of the mesh is meant to raise. -/
  version : MeshId → W → Int
  elements : MeshId → W → Int
  isNonconforming : MeshId → W → Bool
  isDistributed : MeshId → W → Bool
  /-- The mesh has a communicator. -/
  isConnected : MeshId → W → Bool
  allreduce : MeshId → Reduction → Quantity R → EStateM Fault W (Quantity R)
  refine : MeshId → List Mark → Mode → Int → EStateM Fault W Unit
  /-- The groups of sibling elements that can be merged. -/
  groups : MeshId → W → List Group
  /-- Merges groups by error, threshold and limit; the answer tells whether any were. -/
  derefine : MeshId → List R → R → Int → EStateM Fault W Bool
  /-- The elements to refine so that levels differ by no more than the limit. -/
  violations : MeshId → Int → EStateM Fault W (List Mark)
  rebalance : MeshId → EStateM Fault W Unit
  errors : EstimatorId → EStateM Fault W (List R)
  /-- Direction flags, where the estimator has any to give. -/
  flags : EstimatorId → EStateM Fault W (Option (List Int))
  /-- The marking pass of a caller's own marker. -/
  marking : Nat → EStateM Fault W (Marking R)
  /-- One update of a caller's own control. -/
  decide : Nat → EStateM Fault W Decision
  reset : Nat → EStateM Fault W Unit

end Regrid
