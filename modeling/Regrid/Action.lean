/-
  Regrid.Action — the two halves of a decision.

  An action tells the caller what to do next, a change tells what happened to the mesh.
  Both have a number: the action fills the low two bits of a decision's code, the change
  the bits above them. `Action.needsUpdate` is the low bit: function spaces have to be
  rebuilt before anything else happens.
-/

namespace Regrid

inductive Action where
  /-- The mesh is untouched; computations go on. -/
  | idle
  /-- Rebuild spaces, then go on computing. -/
  | proceed
  /-- A stopping criterion holds. -/
  | stop
  /-- Rebuild spaces, then ask again at once. -/
  | again
  deriving DecidableEq, Repr

inductive Change where
  | refine
  | derefine
  | rebalance
  deriving DecidableEq, Repr

namespace Action

def code : Action → Int
  | .idle => 0
  | .proceed => 1
  | .stop => 2
  | .again => 3

def label : Action → String
  | .idle => "NONE"
  | .proceed => "CONTINUE"
  | .stop => "STOP"
  | .again => "AGAIN"

def needsUpdate : Action → Bool
  | .proceed | .again => true
  | .idle | .stop => false

def all : List Action := [.idle, .proceed, .stop, .again]

end Action

namespace Change

def code : Change → Int
  | .refine => 4
  | .derefine => 8
  | .rebalance => 12

def ofCode? (n : Int) : Option Change :=
  if n = 4 then some .refine
  else if n = 8 then some .derefine
  else if n = 12 then some .rebalance
  else none

def label : Change → String
  | .refine => "REFINE"
  | .derefine => "DEREFINE"
  | .rebalance => "REBALANCE"

def all : List Change := [.refine, .derefine, .rebalance]

end Change

end Regrid
