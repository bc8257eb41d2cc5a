/-
  Regrid.Rig — surroundings whose every answer is laid down beforehand.

  A rig holds meshes, estimators, and the controls and markers of a caller's own making.
  - A mesh is a forest, or follows a script: each refinement and each merge takes the next
    reaction, which may fail, may replace the element count and the sibling groups, and
    raises the version. A script that has run out reacts with a plain raise by one.
  - A communicator takes the next contribution of its peers for each reduction, and
    returns a worker's own when none is left.
  - An estimator delivers a given vector, with or without direction flags, or computes its
    errors from the leaves of a forest; it counts how often it was asked.
  - A scripted control takes the next of its replies and is idle when they run out; it
    counts its resets. A listed marker delivers the next of its markings, the last for ever;
    one that cannot be made fails when its turn comes.
-/

import Regrid.Forest
import Regrid.Control
import Regrid.Reduction

namespace Regrid

/-- What a scripted mesh does on one call. -/
structure Reaction where
  failure : Option String := none
  elements : Option Int := none
  groups : Option (List Group) := none
  bump : Int := 1
  answer : Bool := false

structure Script where
  elements : Int
  version : Int
  groups : List Group
  refinements : List Reaction
  merges : List Reaction
  violations : List (List Int)

inductive Body where
  | forest (f : Forest)
  | scripted (s : Script)

structure RigMesh where
  body : Body
  isNonconforming : Bool
  isDistributed : Bool
  /-- What the peers contribute to coming reductions, if there is a communicator. -/
  peers : Option (List Value)

/-- How an estimator computes an error from a leaf's centre and length. -/
inductive LeafError where
  | scale
  | left
  | point
  | ramp
  | dist
  deriving DecidableEq, Repr

inductive Estimate where
  | vector (errors : Value)
  | directed (errors flags : Value)
  | leaves (mesh : MeshId) (rule : LeafError) (a b : Number Float)

structure RigEstimator where
  estimate : Estimate
  requests : Nat

inductive Reply where
  | code (v : Value)
  | failure (text : String)

structure RigControl where
  replies : List Reply
  resets : Nat

structure Rig where
  meshes : List RigMesh
  estimators : List RigEstimator
  controls : List RigControl
  markers : List (List (Except Fault (Marking Float)))

/-- The head of a script and the rest of it. -/
def uncons {α : Type} (default : α) : List α → α × List α
  | [] => (default, [])
  | a :: rest => (a, rest)

/-- A failure that a script laid down. -/
def Fault.scripted (text : String) : Fault := .outside ("scripted: " ++ text)

namespace RigMesh

def version (m : RigMesh) : Int :=
  match m.body with
  | .forest f => f.version
  | .scripted s => s.version

def elements (m : RigMesh) : Int :=
  match m.body with
  | .forest f => f.leaves.length
  | .scripted s => s.elements

def groups (m : RigMesh) : List Group :=
  match m.body with
  | .forest f => f.groups
  | .scripted s => s.groups

def leaves (m : RigMesh) : List Leaf :=
  match m.body with
  | .forest f => f.leaves
  | .scripted _ => []

def setVersion (m : RigMesh) (version : Int) : RigMesh :=
  match m.body with
  | .forest f => { m with body := .forest { f with version := version } }
  | .scripted s => { m with body := .scripted { s with version := version } }

/-- Assigns to the element count of a scripted mesh; that of a forest is its leaves'. -/
def setElements (m : RigMesh) (n : Int) : Except Fault RigMesh :=
  match m.body with
  | .forest _ => .error .missing
  | .scripted s => .ok { m with body := .scripted { s with elements := n } }

/-- Assigns to the groups of a scripted mesh; a forest finds its own. -/
def setGroups (m : RigMesh) (groups : List Group) : RigMesh :=
  match m.body with
  | .forest _ => m
  | .scripted s => { m with body := .scripted { s with groups := groups } }

end RigMesh

/-- The effect of a reaction that does not fail. -/
def Script.react (s : Script) (r : Reaction) : Script :=
  { s with
    elements := r.elements.getD s.elements
    groups := r.groups.getD s.groups
    version := s.version + r.bump }

namespace LeafError

/-- How many intervals of a level there are in a unit, less than one below level zero. A
    count past the range of binary64 is refused, and so is one that is too small for it, or
    a level below zero past that range. -/
def intervals (level : Int) : Except Fault Float :=
  if level < 0 then do
    let n := Binary64.power Float.pow 2.0 (← Binary64.ofInt level)
    if n == 0.0 then throw .divisionByZero else return n
  else if level < 1024 then Binary64.ofInt (Nat.pow 2 level.toNat)
  else .error .tooLarge

def centre (l : Leaf) : Except Fault Float := do
  return (← Binary64.ofInt l.root) + ((← Binary64.ofInt l.pos) + 0.5) / (← intervals l.level)

def error (rule : LeafError) (a b : Number Float) (l : Leaf) : Except Fault Float := do
  let h := 1.0 / (← intervals l.level)
  let c ← centre l
  match rule with
  | .scale => return (← a.toReal) * h
  | .left => if Number.lt (.real c) a then return h else b.toReal
  | .point => if (c - (← a.toReal)).abs ≤ h / 2.0 then return h else b.toReal
  | .ramp => return ((← a.toReal) * c) * h
  | .dist => return h / (1.0 + (c - (← a.toReal)).abs)

end LeafError

namespace Rig

def empty : Rig := ⟨[], [], [], []⟩

abbrev Answer := EStateM Fault Rig

def mesh (k : MeshId) : Answer RigMesh := do
  match (← get).meshes[k]? with
  | some m => return m
  | none => throw .missing

def putMesh (k : MeshId) (m : RigMesh) : Answer Unit := modify fun r => { r with meshes := r.meshes.set k m }

def orFail {α : Type} : Except Fault α → Answer α
  | .ok a => pure a
  | .error f => throw f

/-- A worker's contribution combined with that of its peers. -/
def exchange (k : MeshId) (op : Reduction) (own : Value) : Answer Value := do
  let m ← mesh k
  match m.peers with
  | none | some [] => return own
  | some (p :: rest) =>
    putMesh k { m with peers := some rest }
    orFail (op.combineValues own p)

def allreduce (k : MeshId) (op : Reduction) (own : Quantity Float) : Answer (Quantity Float) := do
  match (← exchange k op (.quantity own)).quantity? with
  | some whole => return whole
  | none => throw .incomparable

def refine (k : MeshId) (marks : List Mark) : Answer Unit := do
  let m ← mesh k
  match m.body with
  | .forest f => putMesh k { m with body := .forest (f.refine marks) }
  | .scripted s =>
    let (r, rest) := uncons {} s.refinements
    let s := { s with refinements := rest }
    putMesh k { m with body := .scripted s }
    if let some text := r.failure then throw (.scripted text)
    putMesh k { m with body := .scripted (s.react r) }

def derefine (k : MeshId) (errors : List Float) (threshold : Float) (limit : Int) : Answer Bool := do
  let m ← mesh k
  match m.body with
  | .forest f =>
    let (changed, f) := f.derefine errors threshold limit
    putMesh k { m with body := .forest f }
    return changed
  | .scripted s =>
    let (r, rest) := uncons {} s.merges
    let s := { s with merges := rest }
    putMesh k { m with body := .scripted s }
    if let some text := r.failure then throw (.scripted text)
    putMesh k { m with body := .scripted (s.react r) }
    return r.answer

def violations (k : MeshId) (limit : Int) : Answer (List Mark) := do
  let m ← mesh k
  match m.body with
  | .forest f => return f.violations limit
  | .scripted s =>
    let (found, rest) := uncons [] s.violations
    putMesh k { m with body := .scripted { s with violations := rest } }
    return found.map fun i => ⟨i, Directions.xyz⟩

def rebalance (k : MeshId) : Answer Unit := do
  let m ← mesh k
  putMesh k (m.setVersion (m.version + 1))

def estimator (k : EstimatorId) : Answer RigEstimator := do
  match (← get).estimators[k]? with
  | some e => return e
  | none => throw .missing

def putEstimator (k : EstimatorId) (e : RigEstimator) : Answer Unit :=
  modify fun r => { r with estimators := r.estimators.set k e }

def errors (k : EstimatorId) : Answer (List Float) := do
  let e ← estimator k
  putEstimator k { e with requests := e.requests + 1 }
  match e.estimate with
  | .vector v | .directed v _ => orFail v.reals
  | .leaves m rule a b => do orFail ((← mesh m).leaves.mapM (rule.error a b))

def flags (k : EstimatorId) : Answer (Option (List Int)) := do
  match (← estimator k).estimate with
  | .directed _ v => orFail v.directionFlags
  | .vector _ | .leaves _ _ _ _ => return none

def marking (k : Nat) : Answer (Marking Float) := do
  let r ← get
  match r.markers[k]? with
  | none => throw .missing
  | some [] => throw (.noSuchElement 0)
  | some [m] => orFail m
  | some (m :: rest) =>
    set { r with markers := r.markers.set k rest }
    orFail m

def decide (k : Nat) : Answer Decision := do
  let r ← get
  match r.controls[k]? with
  | none => throw .missing
  | some c =>
    match c.replies with
    | [] => return .idle
    | reply :: rest =>
      set { r with controls := r.controls.set k { c with replies := rest } }
      match reply with
      | .code v => orFail (Decision.ofValue v)
      | .failure text => throw (.scripted text)

def reset (k : Nat) : Answer Unit := do
  modify fun r => { r with controls := r.controls.modify k fun c => { c with resets := c.resets + 1 } }

/-- What a mesh shows, and a default where there is no mesh. -/
def ofMesh {α : Type} (default : α) (f : RigMesh → α) (k : MeshId) (r : Rig) : α :=
  match r.meshes[k]? with
  | some m => f m
  | none => default

def site : Site Float Rig where
  version := ofMesh 0 RigMesh.version
  elements := ofMesh 0 RigMesh.elements
  isNonconforming := ofMesh false RigMesh.isNonconforming
  isDistributed := ofMesh false RigMesh.isDistributed
  isConnected := ofMesh false fun m => m.peers.isSome
  allreduce := allreduce
  refine k marks _ _ := refine k marks
  groups := ofMesh [] RigMesh.groups
  derefine := derefine
  violations := violations
  rebalance := rebalance
  errors := errors
  flags := flags
  marking := marking
  decide := decide
  reset := reset

end Rig

end Regrid
