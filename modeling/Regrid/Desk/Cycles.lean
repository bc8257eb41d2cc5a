/-
  Regrid.Desk.Cycles — histories and cycles on a desk.

  Callbacks of a cycle are operations of the session. They are given as a list: the k-th
  call runs the k-th operation, and none when the list has run out. Each call is logged
  before its operation runs; a cycle inside a callback keeps a log of its own.
-/

import Regrid.Desk.Basic
import Regrid.Cycle
import Regrid.History.Summary

namespace Regrid.Session

/-! ## Histories -/

def insertHistory (h : History) : Session Nat := do
  let hs := (← get).histories
  modify fun d => { d with histories := hs ++ [h] }
  return hs.length

def addHistory (n : String) : Session Unit := do name n (.history (← insertHistory History.empty))

def historyAt (k : Nat) : Session History := do
  match (← get).histories[k]? with
  | some h => return h
  | none => throw .missing

def changeHistory (k : Nat) (f : History → History) : Session Unit :=
  modify fun d => { d with histories := d.histories.modify k f }

def historyOf (n : String) : Session History := do historyAt (← history n)

def setIteration (n : String) (i : Int) : Session Unit := do
  let k ← history n
  changeHistory k fun h => { h with iteration := i }

def meshView (d : Desk) (k : MeshId) : Int × Int :=
  (Rig.site.version k d.bench.world, Rig.site.elements k d.bench.world)

def recordIn (h : Nat) (m : MeshId) (x : Decision) : Session Unit := do
  let (version, elements) := meshView (← get) m
  changeHistory h fun r => r.record version elements x

/-- Records a decision, given by its code, with the mesh as it is. -/
def record (n m : String) (code : Value) : Session Nat := do
  let h ← history n
  let k ← mesh m
  recordIn h k (← act (Act.check (Decision.ofValue code)))
  return (← historyAt h).length

def chart (n : String) (size : Value) (isLogarithmic : Bool) : Session (Option History.Chart) := do
  let h ← historyOf n
  let c ← act (Act.check (h.chart size isLogarithmic))
  if c.isNone then act (Act.note .emptyChart)
  return c

/-! ## Cycles -/

/-- The decision a control took last, and idle where there is no control. -/
def lastOf (d : Desk) (k : ControlId) : Decision :=
  match d.bench.controls[k]? with
  | some c => c.last
  | none => .idle

def handle (k : ControlId) (m : MeshId) : Cycle.Handle Float Desk where
  update := act (Update.update Rig.site Update.maxDepth k m)
  decision d := lastOf d k
  version d := (meshView d m).1
  elements d := (meshView d m).2
  note n d := { d with bench := d.bench.record (.note n) }

def isCompute : Callback → Bool
  | .compute _ => true
  | .update _ _ => false

/-- Logs a callback and runs its operation, the k-th of its kind for the k-th call. -/
def callBack (operations : List (Session Unit)) (c : Callback) : Session Unit := do
  let earlier := (← get).callbacks.countP fun x => isCompute x == isCompute c
  modify fun d => { d with callbacks := d.callbacks ++ [c] }
  match operations[earlier]? with
  | some x => x
  | none => return

def computing (m : MeshId) (operations : List (Session Unit)) : Session Unit := do
  callBack operations (.compute (meshView (← get) m).2)

def informing (m : MeshId) (operations : Option (List (Session Unit))) (x : Decision) : Session Unit := do
  match operations with
  | none => return
  | some ops => callBack ops (.update x (meshView (← get) m).1)

/-- Records a decision in a history, if there is one. -/
def keeping (h : Option Nat) (m : MeshId) (x : Decision) : Session Unit := do
  match h with
  | none => return
  | some i => recordIn i m x

/-- Runs an operation apart, and returns its outcome and the callbacks it made. -/
def apart {α : Type} (x : Session α) : Session (Except Fault α × List Callback) := fun d =>
  match x { d with callbacks := [] } with
  | .ok a e => .ok (.ok a, e.callbacks) { e with callbacks := d.callbacks }
  | .error f e => .ok (.error f, e.callbacks) { e with callbacks := d.callbacks }

/-- How often a control may ask to be applied again within one iteration. -/
def patience : Nat := 1000000

def applyControl (n m : String) (h : Option String) (onUpdate : Option (List (Session Unit))) :
    Session (Except Fault Decision × List Callback) := do
  let k ← control n
  let mesh ← mesh m
  let kept ← h.mapM history
  apart (Cycle.apply (handle k mesh) (keeping kept mesh) (informing mesh onUpdate) patience)

/-- Runs the adaptive cycle; a run that ends leaves its history under the given name. -/
def runCycle (n m : String) (iterations : Value) (compute : List (Session Unit))
    (onUpdate : Option (List (Session Unit))) (h : Option String) :
    Session (Except Fault History × List Callback) := do
  let k ← control n
  let mesh ← mesh m
  let (outcome, callbacks) ← apart do
    let most ← act (Act.check (Admission.positiveInteger "max_iterations" iterations))
    Cycle.run (handle k mesh) (computing mesh compute) (informing mesh onUpdate) patience most.toNat
  match outcome, h with
  | .ok history, some h => name h (.history (← insertHistory history))
  | _, _ => pure ()
  return (outcome, callbacks)

end Regrid.Session
