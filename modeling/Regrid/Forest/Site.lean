/-
  Regrid.Forest.Site — one forest as the only mesh, without a communicator.

  The estimators are left open: they see the forest, keep a state `E` of their own, and
  may deliver anything or fail. Markers and controls of a caller's own making work on that
  state too. Nobody but the forest's own operations changes the forest.
-/

import Regrid.Forest
import Regrid.Site

namespace Regrid

/-- A forest among estimators with state `around`. -/
structure Stand (E : Type) where
  forest : Forest
  isNonconforming : Bool
  isDistributed : Bool
  around : E

namespace Stand

variable {E : Type} {α : Type}

def changeForest (f : Forest → Forest) : EStateM Fault (Stand E) Unit :=
  modify fun s => { s with forest := f s.forest }

/-- Lets those around answer; the forest stays as it is. -/
def ask (q : Forest → EStateM Fault E α) : EStateM Fault (Stand E) α := fun s =>
  match q s.forest s.around with
  | .ok a e => .ok a { s with around := e }
  | .error f e => .error f { s with around := e }

/-- What those around a forest answer. -/
structure Company (R E : Type) where
  errors : EstimatorId → Forest → EStateM Fault E (List R)
  flags : EstimatorId → Forest → EStateM Fault E (Option (List Int))
  marking : Nat → Forest → EStateM Fault E (Marking R)
  decide : Nat → Forest → EStateM Fault E Decision
  reset : Nat → Forest → EStateM Fault E Unit

variable {R : Type} [Arith R]

def site (c : Company R E) : Site R (Stand E) where
  version _ s := s.forest.version
  elements _ s := s.forest.leaves.length
  isNonconforming _ s := s.isNonconforming
  isDistributed _ s := s.isDistributed
  isConnected _ _ := false
  allreduce _ _ own := pure own
  refine _ marks _ _ := changeForest fun f => f.refine marks
  groups _ s := s.forest.groups
  derefine _ errors threshold limit := do
    let (changed, f) := (← get).forest.derefine errors threshold limit
    changeForest fun _ => f
    return changed
  violations _ limit := do return (← get).forest.violations limit
  rebalance _ := changeForest Forest.rebalance
  errors e := ask (c.errors e)
  flags e := ask (c.flags e)
  marking k := ask (c.marking k)
  decide k := ask (c.decide k)
  reset k := ask (c.reset k)

end Stand

end Regrid
