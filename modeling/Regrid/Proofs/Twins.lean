/-
  Regrid.Proofs.Twins — benches that differ in their past only.

  Two benches are twins if they have the same markers and controls, in surroundings that
  cannot be told apart, and have recorded the same events since some moment of their own.
  What came before that moment is never looked at again: every action does the same on both
  (`Uniform`), so it returns or fails alike, records the same, and leaves twins.
-/

import Regrid.Proofs.Mimics

namespace Regrid

variable {R W α β : Type}

/-- The benches have the same, and have recorded the same since each had its own past. -/
structure Twins (rel : W → W → Prop) (past past' : List (Event R)) (b b' : Bench R W) : Prop where
  world : rel b.world b'.world
  markers : b.markers = b'.markers
  controls : b.controls = b'.controls
  events : ∃ new, b.trace = new ++ past ∧ b'.trace = new ++ past'

namespace Twins

variable {rel : W → W → Prop} {past past' : List (Event R)} {b b' : Bench R W}

theorem record (h : Twins rel past past' b b') (e : Event R) :
    Twins rel past past' (b.record e) (b'.record e) := by
  obtain ⟨new, hb, hb'⟩ := h.events
  exact ⟨h.world, h.markers, h.controls, e :: new, congrArg (e :: ·) hb, congrArg (e :: ·) hb'⟩

theorem setMarker (h : Twins rel past past' b b') (k : MarkerId) (m : Marker R) :
    Twins rel past past' (b.setMarker k m) (b'.setMarker k m) :=
  ⟨h.world, congrArg (List.set · k m) h.markers, h.controls, h.events⟩

theorem setControl (h : Twins rel past past' b b') (k : ControlId) (c : Control R) :
    Twins rel past past' (b.setControl k c) (b'.setControl k c) :=
  ⟨h.world, h.markers, congrArg (List.set · k c) h.controls, h.events⟩

theorem elsewhere (h : Twins rel past past' b b') {w w' : W} (hw : rel w w') :
    Twins rel past past' { b with world := w } { b' with world := w' } :=
  ⟨hw, h.markers, h.controls, h.events⟩

theorem likeness : Likeness rel (Twins rel past past' : Bench R W → Bench R W → Prop) where
  world h := h.world
  markers h := h.markers
  elsewhere h hw := h.elsewhere hw
  setMarker k m h := h.setMarker k m
  record e _ h := h.record e

theorem faithful {site : Site R W} (indistinct : Indistinct site rel) :
    Faithful site rel (Twins rel past past') := { indistinct, likeness with }

/-- The controls of twins have the same numbers. -/
theorem renumbers : Renumbers id (fun _ => True) (Twins rel past past' : Bench R W → Bench R W → Prop) where
  control {b b' k} h _ := by
    have same : (Control.rename id : Control R → Control R) = id := funext Control.rename_id
    rw [same, Option.map_id, h.controls]
    rfl
  member _ _ _ _ := trivial
  setControl {b b' k c} h _ _ := by
    rw [Control.rename_id]
    exact h.setControl k c
  visit i h _ _ := h.record _

end Twins

/-- The action does the same on twins. -/
def Uniform (rel : W → W → Prop) (x : Act R W α) : Prop :=
  ∀ past past' b b', Twins rel past past' b b' →
    outcome x b = outcome x b' ∧ Twins rel past past' (stateAfter x b) (stateAfter x b')

namespace Uniform

variable {rel : W → W → Prop}

theorem mimics {x : Act R W α} (h : Uniform rel x) (past past' : List (Event R)) :
    Mimics (Twins rel past past') x x := h past past'

theorem pure (a : α) : Uniform rel (Pure.pure a : Act R W α) := fun _ _ => Mimics.pure a

theorem throw (f : Fault) : Uniform rel (MonadExcept.throw f : Act R W α) := fun _ _ => Mimics.throw f

theorem bind {x : Act R W α} {y : α → Act R W β} (hx : Uniform rel x) (hy : ∀ a, Uniform rel (y a)) :
    Uniform rel (x >>= y) := fun past past' => (hx.mimics past past').bind fun a => (hy a).mimics past past'

theorem discard {x : Act R W α} (hx : Uniform rel x) : Uniform rel (discard x) :=
  fun past past' => (hx.mimics past past').discard

theorem modified {f : Bench R W → Bench R W}
    (h : ∀ {past past' b b'}, Twins rel past past' b b' → Twins rel past past' (f b) (f b')) :
    Uniform rel (modify f : Act R W PUnit) := fun _ _ => Mimics.modified h

/-! ## Changes of markers and controls -/

theorem check (v : Except Fault α) : Uniform rel (Act.check v : Act R W α) := fun _ _ => Twins.likeness.check v

theorem marker (k : MarkerId) : Uniform rel (Act.marker k : Act R W (Marker R)) :=
  fun _ _ => Twins.likeness.marker k

theorem putMarker (k : MarkerId) (m : Marker R) : Uniform rel (Act.putMarker k m : Act R W Unit) :=
  modified fun h => h.setMarker k m

theorem putControl (k : ControlId) (c : Control R) : Uniform rel (Act.putControl k c : Act R W Unit) :=
  modified fun h => h.setControl k c

theorem control_bind (k : ControlId) {y : Control R → Act R W α} (hy : ∀ c, Uniform rel (y c)) :
    Uniform rel (Act.control k >>= y) := by
  intro past past'
  refine Twins.renumbers.control_bind (k := k) trivial fun c _ => ?_
  rw [Control.rename_id]
  exact (hy c).mimics past past'

theorem changeMarker (k : MarkerId) (f : Marker R → Except Fault (Marker R)) :
    Uniform rel (Act.changeMarker k f : Act R W Unit) :=
  (marker k).bind fun _ => (check _).bind fun _ => putMarker k _

theorem changeControl (k : ControlId) (f : Control R → Except Fault (Control R)) :
    Uniform rel (Act.changeControl k f : Act R W Unit) :=
  control_bind k fun _ => (check _).bind fun _ => putControl k _

theorem membersOf (k : ControlId) : Uniform rel (Rotation.membersOf k : Act R W (List ControlId)) := by
  refine control_bind k fun c => ?_
  split
  · exact .pure _
  · exact .throw _

theorem append (k member : ControlId) : Uniform rel (Rotation.append k member : Act R W Nat) := by
  refine (membersOf k).bind fun _ => ?_
  split
  · exact .throw _
  · exact control_bind k fun _ => (putControl _ _).bind fun _ => .pure _

theorem clear (k : ControlId) : Uniform rel (Rotation.clear k : Act R W Unit) :=
  (membersOf k).discard.bind fun _ => control_bind k fun _ => putControl _ _

end Uniform

/-! ## Reads, updates and resets -/

namespace Indistinct

variable {site : Site R W} {rel : W → W → Prop} (h : Indistinct site rel)
include h

theorem refineMesh (mesh : MeshId) (marks : List Mark) (mode : Mode) (limit : Int) :
    Uniform rel (Coarsen.refine site mesh marks mode limit) :=
  fun _ _ => (Twins.faithful h).refineMesh mesh marks mode limit

theorem resets (depth : Nat) (k : ControlId) : Uniform rel (Update.reset site depth k) :=
  fun _ _ => (Twins.faithful h).resets Twins.renumbers depth trivial

variable [Arith R]

theorem read (k : MarkerId) : Uniform rel (Marking.read site k) := fun _ _ => (Twins.faithful h).read k

theorem stops (k : MarkerId) : Uniform rel (Marking.stops site k) := fun _ _ => (Twins.faithful h).stops k

theorem update (depth : Nat) (k : ControlId) (mesh : MeshId) : Uniform rel (Update.update site depth k mesh) :=
  fun _ _ => (Twins.faithful h).update Twins.renumbers depth trivial mesh

end Indistinct

end Regrid
