/-
  Regrid.Proofs.Reads — what reading leaves alone, and what changing a mesh does.

  A pass changes the trace and whatever an estimator or a communicator keeps for itself
  (`Silent`); a marker that is read keeps its marking, too (`Blind`). A relation of before
  and after that looks at none of these holds over every read. One that holds over reads
  and over the changes of a mesh (`Mild`) holds over every update of a control without
  members, and if it does not look at controls (`Aloof`), over all updates and resets.
-/

import Regrid.Control.Update
import Regrid.Proofs.Outcome

namespace Regrid

variable {R W α : Type}

def Event.isVisit : Event R → Bool
  | .visit _ _ _ => true
  | _ => false

/-- The event is neither a visit nor the refinement of a mesh. -/
def Event.isPlain : Event R → Bool
  | .visit _ _ _ | .call _ (.refine _ _ _) => false
  | _ => true

theorem Event.isVisit_of_isPlain {e : Event R} (h : e.isPlain = true) : e.isVisit = false := by
  cases e with
  | visit _ _ _ => cases h
  | call _ _ | estimate _ | note _ => rfl

/-- The relation holds over what is recorded, visits and refinements apart, and over what estimators
    and communicators do when they are asked. -/
structure Silent (site : Site R W) (r : Bench R W → Bench R W → Prop) : Prop where
  record : ∀ b e, e.isPlain = true → r b (b.record e)
  errors : ∀ e, Keeps r (Act.ask (site.errors e))
  flags : ∀ e, Keeps r (Act.ask (site.flags e))
  allreduce : ∀ mesh op own, Keeps r (Act.ask (site.allreduce mesh op own))

/-- The relation holds over changes of markers as well. -/
structure Blind (site : Site R W) (r : Bench R W → Bench R W → Prop) : Prop extends Silent site r where
  setMarker : ∀ b k m, r b (b.setMarker k m)
  marking : ∀ k, Keeps r (Act.ask (site.marking k))

/-- The relation holds over reads, and over changes of a mesh as well. -/
structure Mild [Arith R] (site : Site R W) (r : Bench R W → Bench R W → Prop) : Prop
    extends Silent site r where
  read : ∀ k, Keeps r (Marking.read site k)
  violations : ∀ mesh limit, Keeps r (Act.ask (site.violations mesh limit))
  refineMesh : ∀ mesh marks mode limit, Keeps r (Coarsen.refine site mesh marks mode limit)
  derefine : ∀ mesh errors threshold limit, Keeps r (Act.ask (site.derefine mesh errors threshold limit))
  rebalance : ∀ mesh, Keeps r (Act.ask (site.rebalance mesh))

/-- The relation holds over changes of controls as well, and over what a caller's own do. -/
structure Aloof [Arith R] (site : Site R W) (r : Bench R W → Bench R W → Prop) : Prop
    extends Mild site r where
  visit : ∀ b k i m, r b (b.record (.visit k i m))
  setControl : ∀ b k c, r b (b.setControl k c)
  decide : ∀ f, Keeps r (Act.ask (site.decide f))
  reset : ∀ f, Keeps r (Act.ask (site.reset f))

namespace Silent

variable {site : Site R W} {r : Bench R W → Bench R W → Prop} [Lasting r] (h : Silent site r)
include h

theorem noteFault (b : Bench R W) (e : Fault) : r b (b.noteFault e) :=
  b.noteFault_of_record (I := fun t => r b t) e (Lasting.refl b) fun _ => h.record b _ rfl

omit [Lasting r] in
theorem note (n : Note R) : Keeps r (Act.note n) := fun b => h.record b _ rfl

omit [Lasting r] in
theorem call (mesh : MeshId) (c : Call R) (hc : (Event.call mesh c).isPlain = true) :
    Keeps r (Act.call mesh c) := fun b => h.record b _ hc

theorem fail (e : Fault) : Keeps r (Act.fail e : Act R W α) := fun b => h.noteFault b e

theorem check (v : Except Fault α) : Keeps r (Act.check v : Act R W α) :=
  match v with
  | .ok a => .pure a
  | .error e => h.fail e

omit h in
theorem look (g : W → α) : Keeps r (Act.look g : Act R W α) := fun b => Lasting.refl b

omit h in
theorem marker (k : MarkerId) : Keeps r (Act.marker k : Act R W (Marker R)) := by
  intro b
  cases hk : b.markers[k]? with
  | none => exact (Act.ends_marker_none hk).mpr (Lasting.refl b)
  | some m => exact (Act.ends_marker_some hk).mpr (Lasting.refl b)

omit h in
theorem control (k : ControlId) : Keeps r (Act.control k : Act R W (Control R)) := by
  intro b
  cases hk : b.controls[k]? with
  | none => exact (Act.ends_control_none hk).mpr (Lasting.refl b)
  | some c => exact (Act.ends_control_some hk).mpr (Lasting.refl b)

/-! ## Reductions and the norm -/

theorem reduce (mesh : MeshId) (op : Reduction) (own : Quantity R) :
    Keeps r (Collective.reduce site mesh op own) :=
  (look _).bind fun _ => .ite
    ((h.call _ _ rfl).bind fun _ => (h.allreduce _ _ _).bind fun _ => (h.note _).bind fun _ => .pure _)
    (.pure _)

variable [Arith R]

theorem sum (mesh : MeshId) (own : Number R) : Keeps r (Collective.sum site mesh own) :=
  (h.reduce _ _ _).bind fun _ => .pure _

theorem max (mesh : MeshId) (own : Number R) : Keeps r (Collective.max site mesh own) :=
  (h.reduce _ _ _).bind fun _ => .pure _

theorem count (mesh : MeshId) (own : Nat) : Keeps r (Collective.count site mesh own) := h.sum _ _

theorem scaled (mesh : MeshId) (errors : List R) (m p : R) (rootOf : R → Except Fault (Option R)) :
    Keeps r (Norm.scaled site mesh errors m p rootOf) :=
  .ite (.pure _) ((h.sum _ _).bind fun _ => (h.check _).bind fun _ => h.check _)

theorem total (mesh : MeshId) (errors : List R) (exponent : Exponent R) :
    Keeps r (Norm.total site mesh errors exponent) :=
  ((h.max _ _).bind fun _ => h.check _).bind fun _ =>
    match exponent with
    | .infinite => .pure _
    | .finite _ => h.scaled _ _ _ _ _

/-! ## Markings -/

omit [Arith R] in
theorem askErrors (estimator : EstimatorId) : Keeps r (Marking.askErrors site estimator) :=
  .bind (fun b => h.record b _ rfl) fun _ => h.errors _

omit [Arith R] in
theorem readFlags (estimator : EstimatorId) (elements : Int) (context : String) :
    Keeps r (Marking.readFlags site estimator elements context) :=
  (h.flags _).bind fun flags =>
    match flags with
    | none => .pure _
    | some _ => (h.check _).bind fun _ => .pure _

theorem pass (mesh : MeshId) (estimator : EstimatorId) (s : Settings R) :
    Keeps r (Marking.pass site mesh estimator s) :=
  (look _).bind fun _ => (h.askErrors _).bind fun _ => (h.check _).bind fun _ =>
    (h.sum _ _).bind fun _ => (h.check _).bind fun _ => (h.total _ _ _).bind fun error =>
    (h.check _).bind fun _ => (h.readFlags _ _ _).bind fun _ => (h.count _ _).bind fun _ =>
    (h.check _).bind fun _ =>
      match error with
      | none => .pure _
      | some _ => (h.note _).bind fun _ => .pure _

/-- A criterion is judged by the marking that is read. -/
theorem stops {k : MarkerId} (read : Keeps r (Marking.read site k)) : Keeps r (Marking.stops site k) :=
  (marker k).bind fun m =>
    match m.source with
    | .foreign _ _ => .pure _
    | .threshold _ _ => read.bind fun _ => h.check _

/-- A read changes the marker that is read. -/
theorem run {k : MarkerId} (setMarker : ∀ b m, r b (b.setMarker k m))
    (marking : ∀ f, Keeps r (Act.ask (site.marking f))) : Keeps r (Marking.run site k) := by
  have counted (m : Marking R) : Keeps r (do
      let old ← Act.marker k
      Act.putMarker k { old with tally := old.tally + m.marked }
      return m : Act R W (Marking R)) :=
    (marker k).bind fun _ => .bind (fun b => setMarker b _) fun _ => .pure _
  refine (marker k).bind fun m => ?_
  cases m.source with
  | threshold e s => exact (h.pass _ _ _).bind counted
  | foreign n l => exact (marking _).bind counted

theorem readOf {k : MarkerId} (setMarker : ∀ b m, r b (b.setMarker k m))
    (marking : ∀ f, Keeps r (Act.ask (site.marking f))) : Keeps r (Marking.read site k) := by
  refine (marker k).bind fun m b => ?_
  simp only [Stamped.read, ends_bind, ends_get, Marking.keeper]
  split
  · exact Lasting.refl b
  · exact h.noteFault b _
  · simp only [ends_bind, ends_modify, ends_pure]
    refine (h.run setMarker marking b).mono (fun v t ht => ?_) fun _ _ ht => ht
    exact Lasting.trans ht (Lasting.trans (setMarker _ _) (h.record _ _ rfl))

/-! ## Merging, and asking for violations -/

theorem coarsenPass {mesh : MeshId}
    (derefine : ∀ errors threshold limit, Keeps r (Act.ask (site.derefine mesh errors threshold limit)))
    (how : Coarsening R) (label : String) (limit : Int) : Keeps r (Coarsen.pass site how label mesh limit) :=
  (h.askErrors _).bind fun _ => (look _).bind fun _ => (h.check _).bind fun _ =>
    (look _).bind fun _ => (h.check _).bind fun _ => (h.count _ _).bind fun _ =>
    .ite ((h.note _).bind fun _ => .pure _)
      ((h.call _ _ rfl).bind fun _ => (derefine _ _ _).bind fun _ => (h.max _ _).bind fun _ =>
        .ite (.pure _) ((h.note _).bind fun _ => .pure _))

omit [Arith R] in
theorem violationsOf {mesh : MeshId} {limit : Int} (violations : Keeps r (Act.ask (site.violations mesh limit))) :
    Keeps r (Coarsen.violations site mesh limit) :=
  violations.bind fun _ => (h.call _ _ rfl).bind fun _ => .pure _

theorem isBroken {mesh : MeshId} {limit : Int} (violations : Keeps r (Act.ask (site.violations mesh limit))) :
    Keeps r (Coarsen.isBroken site mesh limit) :=
  .ite (.pure _) ((h.violationsOf violations).bind fun _ => (h.count _ _).bind fun _ => .pure _)

end Silent

theorem Blind.read {site : Site R W} {r : Bench R W → Bench R W → Prop} [Lasting r] [Arith R]
    (h : Blind site r) (k : MarkerId) : Keeps r (Marking.read site k) :=
  h.readOf (fun b m => h.setMarker b k m) h.marking

/-! ## Updates of controls without members -/

namespace Mild

variable {site : Site R W} {r : Bench R W → Bench R W → Prop} [Arith R] [Lasting r] (h : Mild site r)
include h

theorem violationsOf (mesh : MeshId) (limit : Int) : Keeps r (Coarsen.violations site mesh limit) :=
  h.toSilent.violationsOf (h.violations _ _)

theorem isBroken (mesh : MeshId) (limit : Int) : Keeps r (Coarsen.isBroken site mesh limit) :=
  h.toSilent.isBroken (h.violations _ _)

theorem applyRebalance (mesh : MeshId) : Keeps r (Update.applyRebalance site mesh) :=
  (Silent.look _).bind fun _ => .ite (.pure _)
    ((h.call _ _ rfl).bind fun _ => (h.rebalance _).bind fun _ => (h.note _).bind fun _ => .pure _)

theorem pass (how : Coarsening R) (label : String) (mesh : MeshId) (limit : Int) :
    Keeps r (Coarsen.pass site how label mesh limit) :=
  h.coarsenPass (h.derefine mesh) how label limit

theorem coarsen (how : Coarsening R) (label : String) (mesh : MeshId) :
    Keeps r (Coarsen.apply site how label mesh) :=
  (Silent.look _).bind fun _ => .ite (.pure _) ((h.pass _ _ _ _).bind fun _ => .ite (.pure _) (.pure _))

theorem coarsenLimited (how : Coarsening R) (stage : Stage) (label : String) (mesh : MeshId) :
    Keeps r (Coarsen.applyLimited site how stage label mesh) :=
  (Silent.look _).bind fun _ => .ite (.pure _) <|
    match stage with
    | .coarsen => (h.pass _ _ _ _).bind fun _ => .ite (.pure _)
        ((h.isBroken _ _).bind fun _ => .ite (.pure _) (.pure _))
    | .limit => (h.violationsOf _ _).bind fun _ => (h.refineMesh _ _ _ _).bind fun _ =>
      (h.note _).bind fun _ =>
        (h.isBroken _ _).bind fun _ => .ite (.pure _) (.pure _)

theorem applyRefine (marker : MarkerId) (mode : Mode) (limit : Int) (mesh : MeshId) :
    Keeps r (Update.applyRefine site marker mode limit mesh) :=
  (h.read _).bind fun _ => (h.stops (h.read _)).bind fun _ => .ite ((h.note _).bind fun _ => .pure _)
    ((h.count _ _).bind fun _ => .ite ((h.note _).bind fun _ => .pure _)
      ((h.refineMesh _ _ _ _).bind fun _ => (h.note _).bind fun _ => .pure _))

end Mild

/-! ## Updates and resets of all controls -/

namespace Aloof

variable {site : Site R W} {r : Bench R W → Bench R W → Prop} [Arith R] [Lasting r] (h : Aloof site r)
include h

omit [Lasting r] in
theorem putControl (k : ControlId) (c : Control R) : Keeps r (Act.putControl k c) :=
  fun b => h.setControl b k c

theorem remember (k : ControlId) (d : Decision) : Keeps r (Update.remember k d : Act R W Unit) :=
  (Silent.control k).bind fun _ => h.putControl _ _

theorem moveCursor (k : ControlId) (f : Int → Int) : Keeps r (Rotation.moveCursor k f : Act R W Int) :=
  (Silent.control k).bind fun _ => (h.putControl _ _).bind fun _ => .pure _

theorem turn {visit : ControlId → Act R W Unit} (hv : ∀ m, Keeps r (visit m)) (k : ControlId)
    (size turns : Nat) : Keeps r (Rotation.turn visit k size turns) := by
  induction turns with
  | zero => exact .pure _
  | succ turns ih =>
    refine (h.moveCursor k _).bind fun cursor => (Silent.control k).bind fun c => ?_
    split
    · exact .throw _
    · refine .bind (fun b => h.visit b _ _ _) fun _ => (hv _).bind fun _ => (Silent.control _).bind fun c => ?_
      split
      · exact ih
      · refine (Silent.control k).bind fun _ => (h.note _).bind fun _ => ?_
        split
        · exact (h.moveCursor k _).discard.bind fun _ => .pure _
        · exact .pure _

theorem apply {visit : ControlId → Act R W Unit} (hv : ∀ m, Keeps r (visit m)) (k : ControlId)
    (mesh : MeshId) : Keeps r (Update.apply site visit k mesh) := by
  refine (Silent.control k).bind fun c => ?_
  cases c.strategy with
  | refine marker mode limit => exact h.applyRefine _ _ _ _
  | coarsen how => exact h.coarsen _ _ _
  | coarsenLimited how stage =>
    exact (h.coarsenLimited _ _ _ _).bind fun _ => (h.putControl _ _).bind fun _ => .pure _
  | rebalance => exact h.applyRebalance _
  | rotation cursor members => exact h.turn hv _ _ _
  | foreign f label => exact h.decide f

theorem update (depth : Nat) (k : ControlId) (mesh : MeshId) : Keeps r (Update.update site depth k mesh) := by
  induction depth generalizing k with
  | zero => exact .throw _
  | succ depth ih =>
    exact (h.apply (fun m => (ih m).discard) k mesh).bind fun _ => (h.remember k _).bind fun _ => .pure _

theorem resets (depth : Nat) (k : ControlId) : Keeps r (Update.reset site depth k) := by
  induction depth generalizing k with
  | zero => exact .throw _
  | succ depth ih =>
    refine (h.remember k _).bind fun _ => (Silent.control k).bind fun c => ?_
    cases c.strategy with
    | rotation cursor members => exact (Keeps.forM ih members).bind fun _ => (h.moveCursor k _).discard
    | foreign f label => exact h.reset f
    | refine _ _ _ | coarsen _ | coarsenLimited _ _ | rebalance => exact h.putControl k _

end Aloof

end Regrid
