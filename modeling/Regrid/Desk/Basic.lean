/-
  Regrid.Desk.Basic — named objects on a desk, and how sessions reach them.

  A desk holds a bench in a rig, histories, and names. A name stands for one object; used
  again it stands for the new object and keeps its place in the order of names, while
  whoever refers to the old object still does. An operation of a session that fails
  leaves what it had changed; its fault is the result.
-/

import Regrid.Control.Update
import Regrid.History
import Regrid.Rig

namespace Regrid

inductive Ref where
  | mesh (k : MeshId)
  | estimator (k : EstimatorId)
  | marker (k : MarkerId)
  | control (k : ControlId)
  | history (k : Nat)
  deriving DecidableEq, Repr

/-- A call of a callback, with what it was told. -/
inductive Callback where
  | compute (elements : Int)
  | update (decision : Decision) (version : Int)
  deriving DecidableEq, Repr

structure Desk where
  bench : Bench Float Rig
  histories : List History
  names : List (String × Ref)
  callbacks : List Callback

/-- What a desk shows of an object. -/
inductive Status where
  | mesh (version elements : Int) (levels : Option (List Int)) (calls : List (Call Float))
  | estimator (requests : Nat)
  | marker (stamp : Int) (builds : Nat) (tally : Int)
  | control (code : Int) (detail : Option Int)
  | history (length : Nat) (iteration : Int)

abbrev Session := EStateM Fault Desk

namespace Desk

def empty : Desk := ⟨⟨Rig.empty, [], [], []⟩, [], [], []⟩

def bind (d : Desk) (name : String) (ref : Ref) : Desk :=
  if d.names.any (·.1 == name) then
    { d with names := d.names.map fun (n, r) => if n == name then (n, ref) else (n, r) }
  else { d with names := d.names ++ [(name, ref)] }

def find (d : Desk) (name : String) : Option Ref := (d.names.find? (·.1 == name)).map (·.2)

/-- The first name of an object. -/
def nameOf (d : Desk) (ref : Ref) : Option String := (d.names.find? (·.2 == ref)).map (·.1)

def setRig (d : Desk) (r : Rig) : Desk := { d with bench := { d.bench with world := r } }

/-- The trace in the order of events. -/
def events (d : Desk) : List (Event Float) := d.bench.trace.reverse

def notes (d : Desk) : List (Note Float) :=
  d.events.filterMap fun e => match e with
    | .note n => some n
    | _ => none

/-- The calls a mesh and its communicator received. -/
def callsTo (d : Desk) (k : MeshId) : List (Call Float) :=
  d.events.filterMap fun e => match e with
    | .call m c => if m == k then some c else none
    | _ => none

def clearTrace (d : Desk) : Desk := { d with bench := { d.bench with trace := [] } }

def controlDetail (d : Desk) (c : Control Float) : Option Int :=
  match c.strategy with
  | .coarsenLimited _ stage => some stage.code
  | .rotation cursor _ => some cursor
  | .foreign k _ => (d.bench.world.controls[k]?).map fun s => (s.resets : Int)
  | _ => none

def status (d : Desk) : Ref → Option Status
  | .mesh k => (d.bench.world.meshes[k]?).map fun m =>
    let levels := match m.body with
      | .forest f => some f.levels
      | .scripted _ => none
    .mesh m.version m.elements levels (d.callsTo k)
  | .estimator k => (d.bench.world.estimators[k]?).map fun e => .estimator e.requests
  | .marker k => (d.bench.markers[k]?).map fun m => .marker m.cache.stamp m.cache.builds m.tally
  | .control k => (d.bench.controls[k]?).map fun c => .control c.last.code (d.controlDetail c)
  | .history k => (d.histories[k]?).map fun h => .history h.length h.iteration

/-- All named objects as they are now. -/
def overview (d : Desk) : List (String × Status) :=
  d.names.filterMap fun (n, r) => (d.status r).map fun s => (n, s)

end Desk

namespace Session

def act {α : Type} (x : Act Float Rig α) : Session α := fun d =>
  match x d.bench with
  | .ok a b => .ok a { d with bench := b }
  | .error f b => .error f { d with bench := b }

def name (n : String) (ref : Ref) : Session Unit := modify fun d => d.bind n ref

def resolve (n : String) : Session Ref := do
  match (← get).find n with
  | some r => return r
  | none => throw .missing

def mesh (n : String) : Session MeshId := do
  match ← resolve n with
  | .mesh k => return k
  | _ => throw .missing

def estimator (n : String) : Session EstimatorId := do
  match ← resolve n with
  | .estimator k => return k
  | _ => throw .missing

def marker (n : String) : Session MarkerId := do
  match ← resolve n with
  | .marker k => return k
  | _ => throw .missing

def control (n : String) : Session ControlId := do
  match ← resolve n with
  | .control k => return k
  | _ => throw .missing

def history (n : String) : Session Nat := do
  match ← resolve n with
  | .history k => return k
  | _ => throw .missing

def rig : Session Rig := do return (← get).bench.world

def setRig (r : Rig) : Session Unit := modify fun d => d.setRig r

end Session

end Regrid
