/-
  Regrid.Control.Coarsen — merging sibling groups, and restoring the limit on levels.

  The error of a group is its members' errors combined. A pass merges nothing unless,
  over all workers, some group is at most at the threshold, and it has changed the mesh
  when any worker did.

  The limited control merges without regard to the limit first. If the mesh then breaks
  the limit, the control asks to be applied again, and each later update refines what the
  mesh names as violations, until none is left on any worker. Limit zero is no limit.
-/

import Regrid.Marking

namespace Regrid.Coarsen

variable {R W : Type} [Arith R]

/-- The combined error of a group; only a sum can be taken of no errors. -/
def combined (c : Combine) (errors : List R) : Except Fault R :=
  match c, errors with
  | .sum, es => .ok (Arith.sum es)
  | _, [] => .error .emptyGroup
  | .least, e :: es => .ok (es.foldl Arith.min e)
  | .greatest, e :: es => .ok (es.foldl Arith.max e)

def groupError (c : Combine) (errors : List R) (group : Group) : Except Fault R := do
  combined c (← group.select errors)

/-- One error per group, in the order of the groups. -/
def groupErrors (c : Combine) (errors : List R) (groups : List Group) : Except Fault (List R) :=
  groups.mapM (groupError c errors)

/-- How many group errors are at most the threshold. -/
def countUnder (threshold : R) (errors : List R) : Nat :=
  errors.countP fun e => Arith.le e threshold

/-- Merges every group under the threshold; tells whether any worker's mesh changed. -/
def pass (site : Site R W) (how : Coarsening R) (label : String) (mesh : MeshId) (limit : Int) :
    Act R W Bool := do
  let delivered ← Marking.askErrors site how.estimator
  let errors ← Act.check (Admission.errorVector label (.int (← Act.look (site.elements mesh))) delivered)
  let groups ← Act.look (site.groups mesh)
  let combined ← Act.check (groupErrors how.combine errors groups)
  let under := countUnder how.threshold combined
  if (← Collective.count site mesh under).isZero then
    Act.note (.nothingUnder how.threshold)
    return false
  Act.call mesh (.derefine combined how.threshold limit)
  let changed ← Act.ask (site.derefine mesh combined how.threshold limit)
  let anywhere ← Collective.max site mesh (.int (if changed then 1 else 0))
  if anywhere.isZero then return false
  Act.note (.derefined under)
  return true

/-- One update of a control that merges. -/
def apply (site : Site R W) (how : Coarsening R) (label : String) (mesh : MeshId) : Act R W Decision := do
  if !(← Act.look (site.isNonconforming mesh)) then return .idle
  if ← pass site how label mesh how.limit then return .proceed (some .derefine)
  return .idle

/-- The violations of a limit that the mesh names. -/
def violations (site : Site R W) (mesh : MeshId) (limit : Int) : Act R W (List Mark) := do
  let found ← Act.ask (site.violations mesh limit)
  Act.call mesh (.violations limit (found.map (·.index)))
  return found

/-- The limit is broken on some worker. -/
def isBroken (site : Site R W) (mesh : MeshId) (limit : Int) : Act R W Bool := do
  if limit ≤ 0 then return false
  let found ← violations site mesh limit
  return (← Collective.count site mesh found.length).isPositive

def refine (site : Site R W) (mesh : MeshId) (marks : List Mark) (mode : Mode) (limit : Int) : Act R W Unit := do
  Act.call mesh (.refine marks mode limit)
  Act.ask (site.refine mesh marks mode limit)

/-- One update of a control that merges and then restores the limit, with the stage it leaves. -/
def applyLimited (site : Site R W) (how : Coarsening R) (stage : Stage) (label : String) (mesh : MeshId) :
    Act R W (Decision × Stage) := do
  if !(← Act.look (site.isNonconforming mesh)) then return (.idle, stage)
  match stage with
  | .coarsen =>
    if !(← pass site how label mesh 0) then return (.idle, .coarsen)
    if ← isBroken site mesh how.limit then return (.again (some .derefine), .limit)
    return (.proceed (some .derefine), .coarsen)
  | .limit =>
    let found ← violations site mesh how.limit
    refine site mesh found .nonconforming 0
    Act.note (.limitRestored found.length)
    if ← isBroken site mesh how.limit then return (.again (some .refine), .limit)
    return (.proceed (some .derefine), .coarsen)

end Regrid.Coarsen
