/-
  Regrid.Cycle — computing and adapting in turn.

  `apply` updates a control until the caller can compute again: after an update that
  needs spaces rebuilt the caller is told, and while the control then does not say that
  computations proceed, it is updated once more. Every update is recorded before the
  caller is told of it. `run` computes and applies, iteration after iteration, until a
  decision to stop or until the iterations are used up, and returns the history.

  Both work over any state `S` through a `Handle`, and callbacks may do to that state
  whatever they like; the control is asked for its decision again after a callback. How
  often a control may ask to be applied again is bounded by the caller's patience. The
  history of a run is out of the callbacks' reach and is lost when a callback or an
  update fails; the state then stays as it was when it failed.
-/

import Regrid.History
import Regrid.Journal

namespace Regrid

def Defaults.maxIterations : Int := 100

namespace Cycle

/-- How a run reaches its control and its mesh in a state. -/
structure Handle (R S : Type) where
  update : EStateM Fault S Bool
  decision : S → Decision
  version : S → Int
  elements : S → Int
  note : Note R → S → S

variable {R S : Type}

def apply (h : Handle R S) (keep onUpdate : Decision → EStateM Fault S Unit) : Nat → EStateM Fault S Decision
  | 0 => throw .endless
  | patience + 1 => do
    let needsUpdate ← h.update
    let d := h.decision (← get)
    keep d
    if !needsUpdate then return d
    onUpdate d
    if (h.decision (← get)).isProceed then return d
    apply h keep onUpdate patience

/-! ## A run with its history -/

structure Logged (S : Type) where
  state : S
  history : History

namespace Logged

def lift {α : Type} (x : EStateM Fault S α) : EStateM Fault (Logged S) α := fun l =>
  match x l.state with
  | .ok a s => .ok a { l with state := s }
  | .error f s => .error f { l with state := s }

def handle (h : Handle R S) : Handle R (Logged S) where
  update := lift h.update
  decision l := h.decision l.state
  version l := h.version l.state
  elements l := h.elements l.state
  note n l := { l with state := h.note n l.state }

/-- Records a decision with the mesh as it is now. -/
def keep (h : Handle R S) (d : Decision) : EStateM Fault (Logged S) Unit :=
  modify fun l => { l with history := l.history.record (h.version l.state) (h.elements l.state) d }

end Logged

/-- Outer iterations from number `k` on, at most `remaining` of them. -/
def iterate (h : Handle R S) (compute : EStateM Fault S Unit) (onUpdate : Decision → EStateM Fault S Unit)
    (patience : Nat) : Nat → Int → EStateM Fault (Logged S) Unit
  | 0, k => modify fun l => { l with state := h.note (.exhausted k) l.state }
  | remaining + 1, k => do
    modify fun l => { l with history := { l.history with iteration := k } }
    Logged.lift compute
    let d ← apply (Logged.handle h) (Logged.keep h) (fun d => Logged.lift (onUpdate d)) patience
    modify fun l => { l with state := h.note (.iterated k d (h.elements l.state)) l.state }
    if d.isStop then modify fun l => { l with state := h.note (.stopped (k + 1)) l.state }
    else iterate h compute onUpdate patience remaining (k + 1)

/-- At most `iterations` outer iterations, starting from an empty history. -/
def run (h : Handle R S) (compute : EStateM Fault S Unit) (onUpdate : Decision → EStateM Fault S Unit)
    (patience iterations : Nat) : EStateM Fault S History := fun s =>
  match iterate h compute onUpdate patience iterations 0 ⟨s, History.empty⟩ with
  | .ok _ l => .ok l.history l.state
  | .error f l => .error f l.state

end Cycle

end Regrid
