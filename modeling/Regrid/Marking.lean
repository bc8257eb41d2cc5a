/-
  Regrid.Marking — marking passes and reads of a marker.

  A pass reads the error vector, agrees on the number of elements and the error total
  with all workers, and marks the elements whose error is above the threshold; direction
  flags, where there are any, say how each is to be split. A total that is no real number
  is not noted. A read answers from the marking kept for the live mesh, and runs a pass
  first when there is none.
-/

import Regrid.Norm

namespace Regrid.Marking

variable {R W : Type} [Arith R]

/-- The positions of the errors above a threshold, in order. -/
def above (errors : List R) (threshold : R) : List Nat :=
  (errors.zipIdx.filter fun (e, _) => Arith.lt threshold e).map (·.2)

/-- One mark per position; without flags it is undirected. -/
def marksOf (positions : List Nat) (flags : Option (List Int)) : List Mark :=
  match flags with
  | none => positions.map fun (i : Nat) => ⟨i, Directions.xyz⟩
  | some fs => positions.map fun (i : Nat) => ⟨i, Directions.ofInt (fs[i]?.getD 0)⟩

/-- What an estimator delivers, before its size and its entries are checked. -/
def askErrors (site : Site R W) (estimator : EstimatorId) : Act R W (List R) := do
  Act.record (.estimate estimator)
  Act.ask (site.errors estimator)

def readFlags (site : Site R W) (estimator : EstimatorId) (elements : Int) (context : String) :
    Act R W (Option (List Int)) := do
  match ← Act.ask (site.flags estimator) with
  | none => return none
  | some flags => return some (← Act.check (Admission.flagVector context (.int elements) flags))

def context : String := "ThresholdMarker"

/-- A pass of a threshold marker. -/
def pass (site : Site R W) (mesh : MeshId) (estimator : EstimatorId) (s : Settings R) :
    Act R W (Marking R) := do
  let own ← Act.look (site.elements mesh)
  let delivered ← askErrors site estimator
  let errors ← Act.check (Admission.errorVector context (.int own) delivered)
  let elements ← Act.check (← Collective.sum site mesh (.int own)).toInt
  let error ← Norm.total site mesh errors s.exponent
  let threshold ← Act.check (s.threshold error elements)
  let flags ← readFlags site estimator own context
  let marks := marksOf (above errors threshold) flags
  let marked ← Act.check (← Collective.count site mesh marks.length).toInt
  if let some error := error then Act.note (.marked marked elements error threshold)
  return ⟨marks, threshold, error, elements, marked⟩

/-- A pass of any marker, counted in its tally. -/
def run (site : Site R W) (k : MarkerId) : Act R W (Marking R) := do
  let m ← Act.marker k
  let marking ←
    match m.source with
    | .threshold estimator settings => pass site m.mesh estimator settings
    | .foreign f _ => Act.ask (site.marking f)
  let m ← Act.marker k
  Act.putMarker k { m with tally := m.tally + marking.marked }
  return marking

/-- How a bench keeps the marking of marker `k`, whose present state is `m`. -/
def keeper (site : Site R W) (k : MarkerId) (m : Marker R) : Stamped.Keeper (Bench R W) (Marking R) where
  cache b := (b.markers[k]?.getD m).cache
  put c b := b.setMarker k { b.markers[k]?.getD m with cache := c }
  live b := site.version m.mesh b.world
  build := run site k
  owner := m.source.label
  onRefuse f b := b.noteFault f
  onBuild live b := b.record (.note (.rebuilt m.source.label live))

/-- The marking for the live mesh. -/
def read (site : Site R W) (k : MarkerId) : Act R W (Marking R) := do
  Stamped.read (keeper site k (← Act.marker k))

/-- A stopping criterion holds for the marking of the live mesh; a caller's own marker has none. -/
def stops (site : Site R W) (k : MarkerId) : Act R W Bool := do
  match (← Act.marker k).source with
  | .foreign _ _ => return false
  | .threshold _ settings => Act.check (settings.stops (← read site k))

end Regrid.Marking
