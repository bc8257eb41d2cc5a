/-
  Regrid.Desk.Operations — settings, reads, updates, and what a caller does to the surroundings.
-/

import Regrid.Desk.Basic

namespace Regrid

/-- What can be read off a marker. -/
inductive Reading where
  | marks (marks : List Mark)
  | marking (m : Marking Float)
  | number (x : Float)
  | truth (b : Bool)

/-- A reduction asked for by name: what was sent to the peers, and what came of it. -/
structure Exchange where
  sent : Option (Reduction × Value)
  outcome : Except Fault Value

namespace Session

/-! ## Settings -/

def tuneMarker (n : String) (s : MarkerSetting) : Session Unit := do
  let k ← marker n
  act (Act.changeMarker k fun m => m.tune s)

def tuneControl (n : String) (s : ControlSetting) : Session Unit := do
  let k ← control n
  act (Act.changeControl k fun c => c.tune s)

/-! ## Markers -/

inductive Question where
  | marks
  | marking
  | threshold
  | totalError
  | stops

/-- A number read off a threshold marker; a caller's own marker shows none. -/
def readNumber (k : MarkerId) (f : Marking Float → Except Fault Float) : Session Reading := do
  match (← act (Act.marker k)).source with
  | .foreign _ _ => throw .missing
  | .threshold _ _ => return .number (← act (Act.check (f (← act (Marking.read Rig.site k)))))

/-- A total that is no real number cannot be shown. -/
def read (n : String) (q : Question) : Session Reading := do
  let k ← marker n
  match q with
  | .marks => return .marks (← act (Marking.read Rig.site k)).marks
  | .marking =>
    let m ← act (Marking.read Rig.site k)
    discard (act (Act.check (Settings.needReal m.totalError)))
    return .marking m
  | .stops => return .truth (← act (Marking.stops Rig.site k))
  | .threshold => readNumber k fun m => .ok m.threshold
  | .totalError => readNumber k fun m => Settings.needReal m.totalError

def forgetMarking (n : String) : Session Unit := do
  let k ← marker n
  act (Act.changeMarker k fun m => .ok m.forget)

/-! ## Controls and meshes -/

def update (n m : String) : Session Bool := do
  let k ← control n
  act (Update.update Rig.site Update.maxDepth k (← mesh m))

def decision (n : String) : Session Decision := do return (← act (Act.control (← control n))).last

def resetControl (n : String) : Session Unit := do
  let k ← control n
  act (Update.reset Rig.site Update.maxResetDepth k)

/-- A refinement asked for by the caller, conforming where possible and without limit. -/
def refineMesh (m : String) (positions : List Int) : Session Unit := do
  let k ← mesh m
  act (Coarsen.refine Rig.site k (positions.map fun i => ⟨i, Directions.xyz⟩) .conforming Defaults.limit)

/-- Reduces whatever a worker contributes on a mesh. The name of the reduction is looked up
    first; a worker without a communicator keeps its value. -/
def reduce (m : String) (name own : Value) : Session Exchange := do
  let k ← mesh m
  let r ← rig
  match Reduction.ofValue name with
  | .error f => return ⟨none, .error f⟩
  | .ok op =>
    if !Rig.site.isConnected k r then return ⟨none, .ok own⟩
    match Rig.exchange k op own r with
    | .ok whole r => do setRig r; return ⟨some (op, own), .ok whole⟩
    | .error f r => do setRig r; return ⟨some (op, own), .error f⟩

/-- The total error of a vector of errors on a mesh, in the norm whose exponent a value gives. -/
def totalError (m : String) (errors : List Float) (p : Value) : Session Float := do
  let e ← act (Norm.totalOf Rig.site (← mesh m) errors p)
  act (Act.check (Settings.needReal e))

/-- Changes a mesh behind everybody's back. -/
def changeMesh (m : String) (f : RigMesh → Except Fault RigMesh) : Session Unit := do
  let k ← mesh m
  let r ← rig
  match r.meshes[k]? with
  | none => throw .missing
  | some old =>
    let new ← act (Act.check (f old))
    setRig { r with meshes := r.meshes.set k new }

/-- Gives an estimator other answers. -/
def changeEstimate (e : String) (f : Estimate → Estimate) : Session Unit := do
  let k ← estimator e
  let r ← rig
  setRig { r with estimators := r.estimators.modify k fun x => { x with estimate := f x.estimate } }

end Session

end Regrid
