/-
  Regrid.Bench — the state in which decisions are taken, and actions on it.

  A bench holds the state of the surroundings, all markers and controls by number, and
  the trace of events, newest first. Controls refer to markers and to each other by
  number, so that one marker can serve several controls and one control can stand in
  several sequences, or twice in one.

  An action (`Act`) changes a bench and yields a value or a fault. A fault keeps the bench
  as it was when it arose: whatever was changed before stays changed. A fault with a
  report is noted where it arises, whether here or in the surroundings.

  Some quantities are agreed on by all workers that share a mesh (`Collective`). Every
  worker enters the same reductions in the same order; what is compared afterwards is the
  combined quantity, never a worker's own. A mesh without a communicator is alone and keeps
  its quantity.
-/

import Regrid.Control

namespace Regrid

structure Bench (R W : Type) where
  world : W
  markers : List (Marker R)
  controls : List (Control R)
  trace : List (Event R)

abbrev Act (R W : Type) := EStateM Fault (Bench R W)

namespace Bench

variable {R W : Type}

def record (b : Bench R W) (e : Event R) : Bench R W := { b with trace := e :: b.trace }

/-- The note of a fault, where it has a report. -/
def noteFault (b : Bench R W) (f : Fault) : Bench R W :=
  match f.report? with
  | some r => b.record (.note (.fault r))
  | none => b

def setMarker (b : Bench R W) (k : MarkerId) (m : Marker R) : Bench R W :=
  { b with markers := b.markers.set k m }

def setControl (b : Bench R W) (k : ControlId) (c : Control R) : Bench R W :=
  { b with controls := b.controls.set k c }

end Bench

namespace Act

variable {R W : Type} {α : Type}

def record (e : Event R) : Act R W Unit := modify fun b => b.record e

def note (n : Note R) : Act R W Unit := record (.note n)

def call (mesh : MeshId) (c : Call R) : Act R W Unit := record (.call mesh c)

/-- Fails, and notes the fault if it has a report. -/
def fail (f : Fault) : Act R W α := do
  modify fun b => b.noteFault f
  throw f

def check : Except Fault α → Act R W α
  | .ok a => pure a
  | .error f => fail f

/-- Looks at the surroundings. -/
def look (f : W → α) : Act R W α := do return f (← get).world

/-- Lets the surroundings answer. -/
def ask (q : EStateM Fault W α) : Act R W α := fun b =>
  match q b.world with
  | .ok a w => .ok a { b with world := w }
  | .error f w => .error f ({ b with world := w }.noteFault f)

def marker (k : MarkerId) : Act R W (Marker R) := do
  match (← get).markers[k]? with
  | some m => return m
  | none => throw .missing

def control (k : ControlId) : Act R W (Control R) := do
  match (← get).controls[k]? with
  | some c => return c
  | none => throw .missing

def putMarker (k : MarkerId) (m : Marker R) : Act R W Unit := modify fun b => b.setMarker k m

def putControl (k : ControlId) (c : Control R) : Act R W Unit := modify fun b => b.setControl k c

/-- Changes a marker by an operation that may refuse; refused, it stays as it was. -/
def changeMarker (k : MarkerId) (f : Marker R → Except Fault (Marker R)) : Act R W Unit := do
  putMarker k (← check (f (← marker k)))

def changeControl (k : ControlId) (f : Control R → Except Fault (Control R)) : Act R W Unit := do
  putControl k (← check (f (← control k)))

end Act

/-! ## Quantities of all workers -/

namespace Collective

variable {R W : Type}

def reduce (site : Site R W) (mesh : MeshId) (op : Reduction) (own : Quantity R) : Act R W (Quantity R) := do
  if ← Act.look (site.isConnected mesh) then
    Act.call mesh (.reduce op own)
    let whole ← Act.ask (site.allreduce mesh op own)
    Act.note (.reduced op own whole)
    return whole
  else return own

variable [Narrow R]

/-- The sum of a number over all workers, as a number. -/
def sum (site : Site R W) (mesh : MeshId) (own : Number R) : Act R W (Number R) := do
  return (← reduce site mesh .sum (.number own)).value

/-- The greatest number of all workers, as a number. -/
def max (site : Site R W) (mesh : MeshId) (own : Number R) : Act R W (Number R) := do
  return (← reduce site mesh .max (.number own)).value

def count (site : Site R W) (mesh : MeshId) (own : Nat) : Act R W (Number R) :=
  sum site mesh (.int own)

end Collective

end Regrid
