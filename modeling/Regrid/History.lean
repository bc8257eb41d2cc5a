/-
  Regrid.History — the updates of a run, in order.

  A record holds the outer iteration, the mesh as the update left it, and the decision.
  The column view lists each field over all records; a number outside 64 bits has no
  place in a column.
-/

import Regrid.Decision
import Regrid.Value.Vector

namespace Regrid

structure Record where
  iteration : Int
  version : Int
  elements : Int
  decision : Decision
  deriving DecidableEq, Repr

structure History where
  records : List Record
  iteration : Int
  deriving DecidableEq, Repr

structure Columns where
  iteration : List Int
  version : List Int
  elements : List Int
  code : List Int
  deriving DecidableEq, Repr

namespace History

def empty : History := ⟨[], 0⟩

def record (h : History) (version elements : Int) (d : Decision) : History :=
  { h with records := h.records ++ [⟨h.iteration, version, elements, d⟩] }

def length (h : History) : Nat := h.records.length

/-- How many updates made the change. -/
def count (h : History) (c : Change) : Nat := h.records.countP fun r => r.decision.change? == some c

def isStopped (h : History) : Bool :=
  match h.records.getLast? with
  | some r => r.decision.isStop
  | none => false

def finalDecision (h : History) : Decision :=
  match h.records.getLast? with
  | some r => r.decision
  | none => .idle

def columns (h : History) : Except Fault Columns := do
  return {
    iteration := ← h.records.mapM fun r => Value.word r.iteration
    version := ← h.records.mapM fun r => Value.word r.version
    elements := ← h.records.mapM fun r => Value.word r.elements
    code := ← h.records.mapM fun r => Value.word r.decision.code }

end History

end Regrid
