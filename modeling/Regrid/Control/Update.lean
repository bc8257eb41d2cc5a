/-
  Regrid.Control.Update — one update of a control, and a reset.

  An update applies the control's strategy and remembers the decision. A strategy that
  fails leaves the remembered decision, and a limited control its stage, as they were.
  A reset forgets the decision and undoes the progress of the strategy, of the members of
  a rotation first and then of the rotation itself.

  Members are updated and reset in turn, down to a given depth of nesting; sequences that
  contain each other run into it.
-/

import Regrid.Control.Coarsen
import Regrid.Control.Rotation

namespace Regrid.Update

variable {R W : Type} [Arith R]

/-- Stops when a criterion holds or nothing is marked on any worker, refines otherwise. -/
def applyRefine (site : Site R W) (marker : MarkerId) (mode : Mode) (limit : Int) (mesh : MeshId) :
    Act R W Decision := do
  let marks := (← Marking.read site marker).marks
  if ← Marking.stops site marker then
    Act.note .criterionMet
    return .stop
  if (← Collective.count site mesh marks.length).isZero then
    Act.note .nothingMarked
    return .stop
  Coarsen.refine site mesh marks mode limit
  Act.note (.refined marks.length)
  return .proceed (some .refine)

/-- Rebalances a distributed mesh. -/
def applyRebalance (site : Site R W) (mesh : MeshId) : Act R W Decision := do
  if !(← Act.look (site.isDistributed mesh)) then return .idle
  Act.call mesh .rebalance
  Act.ask (site.rebalance mesh)
  Act.note .rebalanced
  return .proceed (some .rebalance)

/-- The decision of control `k` on a mesh, given how members are updated. -/
def apply (site : Site R W) (visit : ControlId → Act R W Unit) (k : ControlId) (mesh : MeshId) :
    Act R W Decision := do
  let c ← Act.control k
  match c.strategy with
  | .refine marker mode limit => applyRefine site marker mode limit mesh
  | .coarsen how => Coarsen.apply site how c.strategy.label mesh
  | .coarsenLimited how stage => do
    let (d, stage) ← Coarsen.applyLimited site how stage c.strategy.label mesh
    Act.putControl k { c with strategy := .coarsenLimited how stage }
    return d
  | .rebalance => applyRebalance site mesh
  | .rotation _ members => Rotation.turn visit k members.length members.length
  | .foreign f _ => Act.ask (site.decide f)

def remember (k : ControlId) (d : Decision) : Act R W Unit := do
  Act.putControl k { ← Act.control k with last := d }

/-- Updates control `k`, with members nested at most `depth` deep. -/
def update (site : Site R W) : Nat → ControlId → MeshId → Act R W Bool
  | 0, _, _ => throw .tooDeep
  | depth + 1, k, mesh => do
    let d ← apply site (fun m => discard (update site depth m mesh)) k mesh
    remember k d
    return d.needsUpdate

/-- Resets control `k` and its members: no decision, first stage, cursor in front. -/
def reset (site : Site R W) : Nat → ControlId → Act R W Unit
  | 0, _ => throw .tooDeep
  | depth + 1, k => do
    remember k .idle
    match (← Act.control k).strategy with
    | .rotation _ members => do
      members.forM (reset site depth)
      discard (Rotation.moveCursor k fun _ => -1)
    | .foreign f _ => Act.ask (site.reset f)
    | s => Act.putControl k ⟨.idle, s.restart⟩

/-- The deepest nesting that is followed. -/
def maxDepth : Nat := 480

/-- A reset, which decides nothing, goes twice as deep. -/
def maxResetDepth : Nat := 2 * maxDepth

end Regrid.Update
