/-
  Regrid.Desk.Objects — making objects, and building sequences of controls.

  An object is named once it is made; a marker whose settings are refused is not made. A
  sequence takes any control but itself, any number of times.
-/

import Regrid.Desk.Basic

namespace Regrid

/-- Settings given when a threshold marker is made; the others keep their defaults. -/
structure MarkerArguments where
  exponent : Option Value := none
  totalGoal : Option Value := none
  fraction : Option Value := none
  localGoal : Option Value := none
  maxElements : Option Value := none

/-- The given settings in the order in which they are admitted. -/
def MarkerArguments.settings (a : MarkerArguments) : List MarkerSetting :=
  [a.exponent.map .exponent, a.totalGoal.map .totalGoal, a.fraction.map .fraction,
   a.localGoal.map .localGoal, a.maxElements.map .maxElements].reduceOption

namespace Session

def addMesh (n : String) (m : RigMesh) : Session Unit := do
  let r ← rig
  setRig { r with meshes := r.meshes ++ [m] }
  name n (.mesh r.meshes.length)

def addEstimator (n : String) (e : Estimate) : Session Unit := do
  let r ← rig
  setRig { r with estimators := r.estimators ++ [⟨e, 0⟩] }
  name n (.estimator r.estimators.length)

/-- An estimator of the leaves of a named forest. -/
def addLeafEstimator (n m : String) (rule : LeafError) (a b : Number Float) : Session Unit := do
  addEstimator n (.leaves (← mesh m) rule a b)

def insertMarker (n : String) (m : Marker Float) : Session Unit := do
  let ms := (← get).bench.markers
  modify fun d => { d with bench := { d.bench with markers := ms ++ [m] } }
  name n (.marker ms.length)

/-- A threshold marker; one whose settings are refused is not made. -/
def addMarker (n m e : String) (a : MarkerArguments) : Session Unit := do
  let start := Marker.new (← mesh m) (.threshold (← estimator e) Settings.default)
  let made ← act (Act.check (a.settings.foldlM Marker.tune start))
  insertMarker n made

def listedLabel : String := "ListMarker"

/-- A caller's own marker that delivers the listed markings. -/
def addListedMarker (n m : String) (markings : List (Except Fault (Marking Float))) : Session Unit := do
  let k ← mesh m
  let r ← rig
  setRig { r with markers := r.markers ++ [markings] }
  insertMarker n (Marker.new k (.foreign r.markers.length listedLabel))

def insertControl (n : String) (s : Strategy Float) : Session Unit := do
  let cs := (← get).bench.controls
  modify fun d => { d with bench := { d.bench with controls := cs ++ [Control.new s] } }
  name n (.control cs.length)

def addRefine (n m : String) : Session Unit := do insertControl n (Control.refining (← marker m))

def addCoarsen (n e : String) : Session Unit := do
  insertControl n (.coarsen (Coarsening.new (← estimator e)))

def addCoarsenLimited (n e : String) : Session Unit := do
  insertControl n (.coarsenLimited (Coarsening.new (← estimator e)) .coarsen)

def addRebalance (n : String) : Session Unit := insertControl n .rebalance

def scriptedLabel : String := "ScriptedControl"

def addScripted (n : String) (replies : List Reply) : Session Unit := do
  let r ← rig
  setRig { r with controls := r.controls ++ [⟨replies, 0⟩] }
  insertControl n (.foreign r.controls.length scriptedLabel)

/-! ## Sequences -/

def append (n what : String) : Session Nat := do
  let k ← control n
  act (Rotation.append k (← control what))

/-- A sequence of named controls, in order. -/
def addSequence (n : String) (members : List String) : Session Unit := do
  let ks ← members.mapM control
  let k := (← get).bench.controls.length
  modify fun d => { d with bench := { d.bench with controls := d.bench.controls ++ [Control.new Control.emptyRotation] } }
  ks.forM fun m => discard (act (Rotation.append k m))
  name n (.control k)

/-- Drops all members. -/
def clear (n : String) : Session Unit := do act (Rotation.clear (← control n))

/-- The members of a sequence by their first names; no other control has a length. -/
def members (n : String) : Session (List (Option String)) := do
  match (← act (Act.control (← control n))).strategy with
  | .rotation _ ks => do
    let d ← get
    return ks.map fun k => d.nameOf (.control k)
  | _ => throw .wrongType

/-- A control can be copied unless it owns members. -/
def copy (n : String) : Session Unit := do
  match (← act (Act.control (← control n))).strategy with
  | .rotation _ _ => throw .ownsMembers
  | _ => return

end Session

end Regrid
