/-
  Regrid.Proofs.Passes — what a read of a threshold marker does.

  A read answers from the kept marking, refuses, or runs a pass; which of them is told by
  the stamp and the live version (`Stamped.probe`). A pass asks the estimator first of all
  and leaves markers and controls alone. If it fails, so does the read, and nothing is
  kept. If it returns, its marking is the answer, it is kept with the version from before
  the pass, and the marker counts one more build and the elements that were marked.

  What was handed to a mesh to refine is told by the trace (`Bench.refinements`); neither a pass
  nor anything else but a refinement adds to it.

  The marks of a pass are in order and name elements of the mesh: there was one error for
  each element the mesh had, and nothing else is ever marked.
-/

import Regrid.Proofs.Crew
import Regrid.Proofs.Reads
import Regrid.Proofs.Stamps

namespace Regrid

variable {R W α : Type}

/-! ## What a pass leaves alone -/

/-- The markers and the controls. -/
def Bench.objects (b : Bench R W) : List (Marker R) × List (Control R) := (b.markers, b.controls)

theorem Bench.noteFault_world (b : Bench R W) (f : Fault) : (b.noteFault f).world = b.world :=
  b.noteFault_of_record (I := fun t => t.world = b.world) f rfl fun _ => rfl

theorem Bench.noteFault_objects (b : Bench R W) (f : Fault) : (b.noteFault f).objects = b.objects :=
  b.noteFault_of_record (I := fun t => t.objects = b.objects) f rfl fun _ => rfl

theorem objects_ask (q : EStateM Fault W α) : Keeps (Unseen Bench.objects) (Act.ask q : Act R W α) := by
  intro b
  rw [Act.ends_ask]
  unfold Ends
  cases q b.world with
  | ok a w => rfl
  | error f w => exact Bench.noteFault_objects _ f

theorem silent_objects (site : Site R W) : Silent site (Unseen Bench.objects) where
  record _ _ _ := rfl
  errors _ := objects_ask _
  flags _ := objects_ask _
  allreduce _ _ _ := objects_ask _

/-- The trace goes on from what it was. -/
def Bench.Onward (b t : Bench R W) : Prop := b.trace <:+ t.trace

instance : Lasting (Bench.Onward (R := R) (W := W)) where
  refl _ := List.suffix_refl _
  trans := List.IsSuffix.trans

theorem Bench.onward_record (b : Bench R W) (e : Event R) : b.Onward (b.record e) := List.suffix_cons _ _

theorem Bench.onward_noteFault (b : Bench R W) (f : Fault) : b.Onward (b.noteFault f) :=
  b.noteFault_of_record (I := fun t => b.Onward t) f (List.suffix_refl _) fun _ => b.onward_record _

theorem onward_ask (q : EStateM Fault W α) : Keeps Bench.Onward (Act.ask q : Act R W α) := by
  intro b
  rw [Act.ends_ask]
  unfold Ends
  cases q b.world with
  | ok a w => exact List.suffix_refl b.trace
  | error f w => exact Bench.onward_noteFault { b with world := w } f

theorem silent_onward (site : Site R W) : Silent site Bench.Onward where
  record b e _ := b.onward_record e
  errors _ := onward_ask _
  flags _ := onward_ask _
  allreduce _ _ _ := onward_ask _

/-! ## What was refined -/

/-- A list of marks that was handed to a mesh. -/
structure Refinement where
  mesh : MeshId
  marks : List Mark
  mode : Mode
  limit : Int
  deriving DecidableEq, Repr

def Event.refinement? : Event R → Option Refinement
  | .call mesh (.refine marks mode limit) => some ⟨mesh, marks, mode, limit⟩
  | _ => none

/-- The refinements of all meshes, the latest first. -/
def Bench.refinements (b : Bench R W) : List Refinement := b.trace.filterMap Event.refinement?

/-- The controls, and what was refined. -/
def Bench.chosen (b : Bench R W) : List (Control R) × List Refinement := (b.controls, b.refinements)

theorem Event.refinement?_of_isPlain {e : Event R} (h : e.isPlain = true) : e.refinement? = none := by
  cases e with
  | call mesh c =>
    cases c with
    | refine marks mode limit => cases h
    | derefine _ _ _ | violations _ _ | rebalance | reduce _ _ => rfl
  | estimate _ | visit _ _ _ | note _ => rfl

theorem Bench.chosen_record (b : Bench R W) {e : Event R} (h : e.isPlain = true) :
    (b.record e).chosen = b.chosen := by
  simp [Bench.chosen, Bench.refinements, Event.refinement?_of_isPlain h]

theorem chosen_ask (q : EStateM Fault W α) : Keeps (Unseen Bench.chosen) (Act.ask q : Act R W α) := by
  intro b
  rw [Act.ends_ask]
  unfold Ends
  cases q b.world with
  | ok a w => rfl
  | error f w =>
    exact Bench.noteFault_of_record (I := fun t => t.chosen = b.chosen) { b with world := w } f rfl
      fun _ => Bench.chosen_record _ rfl

theorem silent_chosen (site : Site R W) : Silent site (Unseen Bench.chosen) where
  record b _ he := b.chosen_record he
  errors _ := chosen_ask _
  flags _ := chosen_ask _
  allreduce _ _ _ := chosen_ask _

theorem refine_ends {site : Site R W} {mesh : MeshId} {b : Bench R W} (marks : List Mark) (mode : Mode)
    (limit : Int) :
    Ends (Coarsen.refine site mesh marks mode limit) b
      (fun _ t => t.chosen = (b.controls, ⟨mesh, marks, mode, limit⟩ :: b.refinements))
      (fun _ t => t.chosen = (b.controls, ⟨mesh, marks, mode, limit⟩ :: b.refinements)) := by
  simp only [Coarsen.refine, ends_bind, Act.ends_call]
  exact chosen_ask _ (b.record (.call mesh (.refine marks mode limit)))

/-! ## Reductions -/

/-- A worker with a communicator enters a reduction and notes what came of it. -/
theorem reduce_apply {site : Site R W} {mesh : MeshId} {op : Reduction} {own whole : Quantity R}
    {b : Bench R W} {w : W} (connected : site.isConnected mesh b.world = true)
    (h : site.allreduce mesh op own b.world = .ok whole w) :
    Collective.reduce site mesh op own b =
      .ok whole ({ b.record (.call mesh (.reduce op own)) with world := w }.record
        (.note (.reduced op own whole))) := by
  have looked : Act.look (site.isConnected mesh) b = .ok true b := by
    rw [← connected]
    rfl
  have answered := Act.ask_of_ok (b := b.record (.call mesh (.reduce op own))) h
  rw [Collective.reduce, bind_of_ok looked, if_pos rfl]
  exact (bind_of_ok (Act.call_apply _ _)).trans ((bind_of_ok answered).trans rfl)

/-! ## Reads -/

namespace Marking

/-- A marking that was just made is kept. -/
def keepMarking (k : MarkerId) (m : Marker R) (live : Int) (v : Marking R) (b : Bench R W) : Bench R W :=
  (b.setMarker k { b.markers[k]?.getD m with cache := (b.markers[k]?.getD m).cache.store live v }).record
    (.note (.rebuilt m.source.label live))

variable [Arith R] {site : Site R W} {k : MarkerId} {m : Marker R} {b : Bench R W}

def rebuild (site : Site R W) (k : MarkerId) (m : Marker R) (live : Int) : Act R W (Marking R) := do
  let v ← Marking.run site k
  modify (keepMarking k m live v)
  return v

theorem read_apply (site : Site R W) (hk : b.markers[k]? = some m) :
    Marking.read site k b =
      match m.cache.probe (site.version m.mesh b.world) with
      | .answer v => .ok v b
      | .refuse =>
        .error (.stale (site.version m.mesh b.world) m.cache.stamp m.source.label)
          (b.noteFault (.stale (site.version m.mesh b.world) m.cache.stamp m.source.label))
      | .build => rebuild site k m (site.version m.mesh b.world) b := by
  rw [Marking.read, bind_of_ok (Act.marker_apply hk)]
  rw [Stamped.read_apply]
  simp only [Marking.keeper, hk, Option.getD_some]
  cases m.cache.probe (site.version m.mesh b.world) <;> rfl

end Marking

/-- The marker with the marking of one more pass. -/
def Marker.passed (m : Marker R) (live : Int) (v : Marking R) : Marker R :=
  { m with tally := m.tally + v.marked, cache := m.cache.store live v }

/-- The bench once marker `k`, which was `m`, keeps the marking of one more pass. -/
def Bench.passed (b : Bench R W) (k : MarkerId) (m : Marker R) (live : Int) (v : Marking R) : Bench R W :=
  (b.setMarker k (m.passed live v)).record (.note (.rebuilt m.source.label live))

namespace Marking

variable [Arith R] {site : Site R W} {k : MarkerId} {m : Marker R} {b : Bench R W} {estimator : EstimatorId}
    {settings : Settings R}

theorem read_answer {v : Marking R} (hk : b.markers[k]? = some m)
    (hp : m.cache.probe (site.version m.mesh b.world) = .answer v) : Marking.read site k b = .ok v b := by
  rw [read_apply site hk, hp]

/-- A pass that is run is all that happens, but for what is kept of it. -/
theorem read_build (hk : b.markers[k]? = some m) (hs : m.source = .threshold estimator settings)
    (hp : m.cache.probe (site.version m.mesh b.world) = .build) :
    Marking.read site k b =
      match Marking.pass site m.mesh estimator settings b with
      | .ok v t => .ok v (t.passed k m (site.version m.mesh b.world) v)
      | .error f t => .error f t := by
  have alone := ((silent_objects site).pass m.mesh estimator settings).after b
  simp only [read_apply site hk, hp, rebuild, Marking.run, bind_assoc, bind_of_ok (Act.marker_apply hk), hs]
  unfold stateAfter at alone
  cases hpass : Marking.pass site m.mesh estimator settings b with
  | error f t => rw [bind_of_error hpass]
  | ok v t =>
    rw [hpass] at alone
    have hmarkers : t.markers = b.markers := congrArg Prod.fst alone
    have ht : t.markers[k]? = some m := hmarkers ▸ hk
    have hput := Bench.setMarker_get (n := { m with tally := m.tally + v.marked }) ht
    rw [bind_of_ok hpass, bind_of_ok (Act.marker_apply ht)]
    show EStateM.Result.ok v (keepMarking k m _ v (t.setMarker k { m with tally := m.tally + v.marked })) = _
    simp only [keepMarking, hput, Option.getD_some, Bench.passed, Marker.passed]
    simp only [Bench.setMarker, List.set_set]

theorem ends_read_build {P : Marking R → Bench R W → Prop} {Q : Fault → Bench R W → Prop}
    (hk : b.markers[k]? = some m) (hs : m.source = .threshold estimator settings)
    (hp : m.cache.probe (site.version m.mesh b.world) = .build) :
    Ends (Marking.read site k) b P Q ↔
      Ends (Marking.pass site m.mesh estimator settings) b
        (fun v t => P v (t.passed k m (site.version m.mesh b.world) v)) Q := by
  unfold Ends
  rw [read_build hk hs hp]
  cases Marking.pass site m.mesh estimator settings b <;> rfl

/-- A marker with these settings reads for the mesh, and this is what its next read does. -/
def Next (site : Site R W) (k : MarkerId) (mesh : MeshId) (estimator : EstimatorId) (settings : Settings R)
    (probe : Stamped.Probe (Marking R)) (b : Bench R W) : Prop :=
  ∃ m, b.markers[k]? = some m ∧ m.mesh = mesh ∧ m.source = .threshold estimator settings ∧
    m.cache.probe (site.version mesh b.world) = probe

/-- What was read is read again, unless the mesh has another version by then. -/
theorem Next.again {mesh : MeshId} {probe : Stamped.Probe (Marking R)} {v : Marking R} {t : Bench R W}
    (h : Next site k mesh estimator settings probe b) (run : Marking.read site k b = .ok v t)
    (same : site.version mesh t.world = site.version mesh b.world) :
    Next site k mesh estimator settings (.answer v) t := by
  obtain ⟨m, hk, rfl, hs, hp⟩ := h
  cases probe with
  | refuse =>
    rw [read_apply site hk, hp] at run
    cases run
  | answer v' =>
    rw [read_answer hk hp] at run
    cases run
    exact ⟨m, hk, rfl, hs, hp⟩
  | build =>
    have alone := ((silent_objects site).pass m.mesh estimator settings).after b
    unfold stateAfter at alone
    rw [read_build hk hs hp] at run
    cases hpass : Marking.pass site m.mesh estimator settings b with
    | error f u =>
      rw [hpass] at run
      cases run
    | ok v' u =>
      rw [hpass] at run alone
      cases run
      have hu : u.markers[k]? = some m := (congrArg (·.1[k]?) alone).trans hk
      exact ⟨_, Bench.setMarker_get hu, rfl, hs, Stamped.probe_answer.mpr ⟨rfl, same.symm⟩⟩

theorem stops_apply (hk : b.markers[k]? = some m) (hs : m.source = .threshold estimator settings) :
    Marking.stops site k b =
      (Marking.read site k >>= fun v => Act.check (settings.stops v)) b := by
  rw [Marking.stops, bind_of_ok (Act.marker_apply hk), hs]

/-- The marking that is kept is the one that is judged. -/
theorem Next.stops {mesh : MeshId} {v : Marking R} (h : Next site k mesh estimator settings (.answer v) b) :
    Marking.stops site k b = Act.check (settings.stops v) b := by
  obtain ⟨m, hk, rfl, hs, hp⟩ := h
  rw [stops_apply hk hs, bind_of_ok (read_answer hk hp)]

/-- The estimator is asked first of all. -/
theorem pass_asks (mesh : MeshId) (estimator : EstimatorId) (settings : Settings R) (b : Bench R W) :
    (b.record (.estimate estimator)).Onward (stateAfter (Marking.pass site mesh estimator settings) b) := by
  have h := silent_onward site
  unfold Marking.pass Marking.askErrors
  simp only [bind_assoc]
  rw [stateAfter_bind (Act.look_apply (site.elements mesh))]
  refine Keeps.after_bind (r := Bench.Onward) (x := Act.record (.estimate estimator)) (fun _ => ?_) b
  refine (h.errors _).bind fun _ => (h.check _).bind fun _ => (h.sum _ _).bind fun _ =>
    (h.check _).bind fun _ => (h.total _ _ _).bind fun error => (h.check _).bind fun _ =>
    (h.readFlags _ _ _).bind fun _ => (h.count _ _).bind fun _ => (h.check _).bind fun _ => ?_
  cases error with
  | none => exact Keeps.pure _
  | some x => exact (h.note _).bind fun _ => Keeps.pure _

/-! ## Marks -/

omit [Arith R] in
theorem marksOf_index (positions : List Nat) (flags : Option (List Int)) :
    (marksOf positions flags).map Mark.index = positions.map fun (i : Nat) => (i : Int) := by
  cases flags with
  | none => simp [marksOf]
  | some fs => simp [marksOf]

theorem mem_above {errors : List R} {threshold : R} {i : Nat} :
    i ∈ above errors threshold ↔ ∃ e, errors[i]? = some e ∧ Arith.lt threshold e = true := by
  simp only [above, List.mem_map, List.mem_filter, List.mem_zipIdx_iff_getElem?, Prod.exists, exists_eq_right]

theorem above_increasing (errors : List R) (threshold : R) : (above errors threshold).Pairwise (· < ·) := by
  have positions : (errors.zipIdx.map (·.2)).Pairwise (· < ·) := by
    rw [List.zipIdx_map_snd]
    exact List.pairwise_lt_range'
  exact positions.sublist (List.filter_sublist.map _)

theorem above_inside {errors : List R} {threshold : R} {i : Nat} (h : i ∈ above errors threshold) :
    i < errors.length := by
  obtain ⟨⟨e, j⟩, hmem, rfl⟩ := List.mem_map.mp h
  have hplace := List.mem_zipIdx' (List.mem_filter.mp hmem).1
  exact hplace.1

/-- The indices are strictly increasing, and there is an element for each. -/
structure WellFormed (elements : Int) (marks : List Mark) : Prop where
  increasing : (marks.map Mark.index).Pairwise (· < ·)
  inside : ∀ mark ∈ marks, 0 ≤ mark.index ∧ mark.index < elements

theorem marksOf_wellFormed (errors : List R) (threshold : R) (flags : Option (List Int)) :
    WellFormed errors.length (marksOf (above errors threshold) flags) := by
  have indices := marksOf_index (above errors threshold) flags
  refine ⟨?_, fun mark hmark => ?_⟩
  · rw [indices, List.pairwise_map]
    exact (above_increasing errors threshold).imp Int.ofNat_lt.mpr
  · have hindex : mark.index ∈ (above errors threshold).map fun (i : Nat) => (i : Int) := by
      rw [← indices]
      exact List.mem_map_of_mem hmark
    obtain ⟨i, hi, hmark⟩ := List.mem_map.mp hindex
    have := above_inside hi
    omega

theorem pass_wellFormed (mesh : MeshId) (estimator : EstimatorId) (settings : Settings R) :
    Ends (Marking.pass site mesh estimator settings) b
      (fun v _ => WellFormed (site.elements mesh b.world) v.marks) (fun _ _ => True) := by
  unfold Marking.pass
  simp only [ends_bind, Act.ends_look]
  refine ends_true.mono (fun delivered t₁ _ => ?_) fun _ _ h => h
  refine Act.ends_check_of fun errors herrors => ?_
  obtain ⟨rfl, hlength, -⟩ := Admission.errorVector_valid herrors
  refine ends_true.mono (fun sum t₂ _ => ?_) fun _ _ h => h
  refine Act.ends_check_of fun elements _ => ?_
  refine ends_true.mono (fun error t₃ _ => ?_) fun _ _ h => h
  refine Act.ends_check_of fun threshold _ => ?_
  refine ends_true.mono (fun flags t₄ _ => ?_) fun _ _ h => h
  refine ends_true.mono (fun count t₅ _ => ?_) fun _ _ h => h
  refine Act.ends_check_of fun marked _ => ?_
  rw [← hlength]
  cases error with
  | none => exact marksOf_wellFormed errors threshold flags
  | some x => exact marksOf_wellFormed errors threshold flags

end Marking

end Regrid
