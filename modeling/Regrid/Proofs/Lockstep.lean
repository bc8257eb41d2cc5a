/-
  Regrid.Proofs.Lockstep — workers that share a mesh update in lockstep.

  One rule for each function of an update says that workers that are abreast end it together
  and abreast: what decides whether a reduction is entered or a mesh changed is never a
  worker's own. By induction on the depth of nesting this holds of updates, and along a run
  of any number of them every worker enters the same reductions and asks for the same changes
  in the same order, returns the same, and stands at the same decisions, stages and cursors.
-/

import Regrid.Proofs.Passes
import Regrid.Proofs.Together

namespace Regrid

variable {ι R W : Type}

namespace Crew

variable [Arith R] [Nontrivial ι] {crew : Crew ι R W} {ne : ι → Int} (served : crew.Served)
include served

/-! ## Reductions and the norm -/

theorem goes_reduce (op : Reduction) (own : ι → Quantity R) :
    crew.Goes (crew.With ne) (fun i => Collective.reduce (crew.site i) crew.mesh op (own i))
      (Common fun _ => crew.With ne) := by
  refine (Goes.reads [(crew.mesh, .reduce op (.int 0))] (fun whole => [(op, whole)]) (fun _ _ => True)
    (fun i s => ?_) fun _ _ => rfl).mono (fun _ h => h) fun a t ⟨same, _, ht⟩ => ?_
  · obtain ⟨whole, w, hall, past, elements, -⟩ := (served.worker i).allreduce op (own i) s.world
    have connected := served.connected inferInstance i s.world
    have entered := adds_record (crew.past i) s (.call crew.mesh (.reduce op (own i)))
    have past' : crew.past i w = crew.past i s.world ++ [] := by rw [past, List.append_nil]
    have agreed := (entered.trans (adds_world past')).trans
      (adds_record _ _ (.note (.reduced op (own i) whole)))
    exact ⟨whole, _, reduce_apply connected hall, agreed, elements, trivial⟩
  · obtain ⟨i⟩ : Nonempty ι := inferInstance
    refine ⟨a i, fun j => ?_, ht⟩
    simpa using same j i

theorem goes_sum (own : ι → Number R) :
    crew.Goes (crew.With ne) (fun i => Collective.sum (crew.site i) crew.mesh (own i))
      (Common fun _ => crew.With ne) :=
  (goes_reduce served .sum _).bind_common fun _ => .pure_common fun _ h => h

theorem goes_max (own : ι → Number R) :
    crew.Goes (crew.With ne) (fun i => Collective.max (crew.site i) crew.mesh (own i))
      (Common fun _ => crew.With ne) :=
  (goes_reduce served .max _).bind_common fun _ => .pure_common fun _ h => h

theorem goes_count (own : ι → Nat) :
    crew.Goes (crew.With ne) (fun i => Collective.count (crew.site i) crew.mesh (own i))
      (Common fun _ => crew.With ne) := goes_sum served _

theorem goes_scaled (errors : ι → List R) (m p : R) (rootOf : R → Except Fault (Option R)) :
    crew.Goes (crew.With ne) (fun i => Norm.scaled (crew.site i) crew.mesh (errors i) m p rootOf)
      (Common fun _ => crew.With ne) := by
  unfold Norm.scaled
  split
  · exact .pure_common fun _ h => h
  · exact (goes_sum served _).bind_common fun _ => (Goes.check _).bind_common fun _ => .check _

theorem goes_total (errors : ι → List R) (exponent : Exponent R) :
    crew.Goes (crew.With ne) (fun i => Norm.total (crew.site i) crew.mesh (errors i) exponent)
      (Common fun _ => crew.With ne) := by
  refine Goes.bind_common ((goes_max served _).bind_common fun _ => .check _) fun m => ?_
  cases exponent with
  | infinite => exact .pure_common fun _ h => h
  | finite p => exact goes_scaled served errors m p _

/-! ## Markings -/

omit [Nontrivial ι] in
theorem goes_askErrors (estimator : EstimatorId) :
    crew.Goes (crew.With ne) (fun i => Marking.askErrors (crew.site i) estimator) fun errors t =>
      (∀ i, ValidErrors (ne i) (errors i)) ∧ crew.With ne t :=
  (Goes.record [] (fun _ => rfl) fun _ => rfl).bind fun _ =>
    .ask fun i => (served.worker i).errors estimator

omit [Nontrivial ι] in
theorem goes_readFlags (estimator : EstimatorId) (context : String) :
    crew.Goes (crew.With ne) (fun i => Marking.readFlags (crew.site i) estimator (ne i) context)
      fun _ t => crew.With ne t := by
  refine (Goes.ask fun i => (served.worker i).flags estimator).bind fun flags => ?_
  -- some workers may have flags and others none
  refine (Goes.passes (fun i => ?_) fun b hb i => ?_).mono (fun _ h => h) fun _ _ h => h.2
  · cases flags i with
    | none => exact .pure _
    | some fs => exact (Goes.onward_check i _).bind fun _ => .pure _
  · cases hf : flags i with
    | none => exact ⟨none, rfl⟩
    | some fs =>
      have admitted := Admission.flagVector_ok context (hb.1 i fs hf)
      exact ⟨some fs, bind_of_ok (Act.check_of_ok admitted)⟩

/-- All have markings that are alike but for the marks. -/
def Marked (crew : Crew ι R W) (ne : ι → Int) (m : ι → Marking R) (b : ι → Bench R W) : Prop :=
  (∀ i j, (m i).bare = (m j).bare) ∧ crew.With ne b

theorem goes_pass (estimator : EstimatorId) (settings : Settings R) :
    crew.Goes (crew.With ne) (fun i => Marking.pass (crew.site i) crew.mesh estimator settings)
      (crew.Marked ne) := by
  refine (Goes.look_elements (p := fun _ => True) (Q := crew.Marked) fun ne => ?_).mono
    (fun _ h => ⟨trivial, h⟩) fun _ _ h => h
  refine .drop ((goes_askErrors served estimator).bind fun delivered => ?_)
  refine (Goes.check_ok fun b hb i => ⟨_, Admission.errorVector_ok _ (hb.1 i)⟩).bind fun errors => ?_
  refine .drop (.drop ?_)
  refine (goes_sum served _).bind_common fun whole => (Goes.check _).bind_common fun elements => ?_
  refine (goes_total served errors settings.exponent).bind_common fun error =>
    (Goes.check _).bind_common fun threshold => ?_
  refine (goes_readFlags served estimator _).bind fun flags => ?_
  refine (goes_count served _).bind_common fun count => (Goes.check _).bind_common fun marked => ?_
  cases error with
  | none => exact .pure fun _ h => ⟨fun _ _ => rfl, h⟩
  | some e => exact (Goes.note fun _ => rfl).bind fun _ => .pure fun _ h => ⟨fun _ _ => rfl, h⟩

theorem goes_run (k : MarkerId) :
    crew.Goes (crew.With ne) (fun i => Marking.run (crew.site i) k) (crew.Marked ne) := by
  have counted (m : ι → Marking R) : crew.Goes (crew.Marked ne m) (fun i => do
      let old ← Act.marker k
      Act.putMarker k { old with tally := old.tally + (m i).marked }
      return m i) (crew.Marked ne) := by
    have put : crew.Goes (crew.Marked ne m) (fun i => do
        let old ← Act.marker k
        Act.putMarker k { old with tally := old.tally + (m i).marked }) fun _ => crew.Marked ne m :=
      .changeMarker (f := fun i old => { old with tally := old.tally + (m i).marked }) (fun _ _ => rfl)
        (fun _ _ => rfl) fun alike i j old old' hold => by
          have marked : (m i).marked = (m j).marked := (congrArg Marking.marked (alike i j) :)
          rw [marked]
          exact (congrArg (fun o : Marker R => { o with tally := o.tally + (m j).marked }) hold :)
    simpa only [bind_assoc] using put.bind fun _ => .pure (a := m) fun _ h => h
  refine Goes.marker (fun _ h => h.1) (fun i m m' h => ?_) fun m e settings hmesh hsource => ?_
  · simp only [Marker.mesh_of_bare h, Marker.source_of_bare h]
  · simp only [hmesh, hsource]
    exact (goes_pass served e settings).bind counted

theorem goes_rebuild (k : MarkerId) (m : ι → Marker R) (live : Int) :
    crew.Goes (crew.With ne) (fun i => Marking.rebuild (crew.site i) k (m i) live) (crew.Marked ne) := by
  refine (goes_run served k).bind fun v => ?_
  have keep : crew.Goes (crew.Marked ne v)
      (fun i => (modify (Marking.keepMarking k (m i) live (v i)) : Act R W PUnit))
      fun _ => crew.Marked ne v := by
    refine ⟨fun i s => ?_, fun b _ hb _ => ?_⟩
    · refine Lasting.trans (r := crew.Onward i) (onward_setMarker i fun m' hm' => ?_)
        (adds_record _ _ _).onward
      rw [hm']
      exact ⟨rfl, rfl⟩
    · have noted (i : ι) : Adds (crew.past i) [] [] [] _ (Marking.keepMarking k (m i) live (v i) (b i)) :=
        adds_record (crew.past i) _ (.note (.rebuilt (m i).source.label live))
      refine .inl ⟨_, _, fun _ => rfl, hb.1, Abreast.adds ?_ noted (fun _ _ => rfl) fun _ _ => rfl, hb.2.2⟩
      rcases hb.2.1.marker k with none | ⟨old, hold, alike⟩
      · simpa only [setMarker_missing (none _)] using hb.2.1
      · simp only [hold, Option.getD_some]
        refine hb.2.1.setMarker k fun i j => ?_
        exact (congrArg₂ (fun (o : Marker R) w => { o with cache := ⟨some w, live, o.cache.builds + 1⟩ })
          (alike i j) (hb.1 i j) :)
  exact keep.bind fun _ => .pure fun _ h => h

omit [Nontrivial ι] in
/-- Workers that are abreast see the mesh alike. -/
theorem same_view {b : ι → Bench R W} (h : crew.Abreast b) (i j : ι) :
    (crew.site i).view crew.mesh (b i).world = (crew.site j).view crew.mesh (b j).world := by
  have last := (served.worker i).present (b i).world
  rw [h.views i j, (served.worker j).present] at last
  exact (Option.some.inj last).symm

omit [Arith R] served in
/-- Markers that are alike but for the marks they keep answer alike. -/
theorem probe_alike {m : ι → Marker R} (alike : ∀ i j, (m i).bare = (m j).bare) (live : Int) :
    (∀ i, (m i).cache.probe live = .refuse) ∨ (∀ i, (m i).cache.probe live = .build) ∨
      ∃ v : ι → Marking R, (∀ i, (m i).cache.probe live = .answer (v i)) ∧
        ∀ i j, (v i).bare = (v j).bare := by
  obtain ⟨i⟩ : Nonempty ι := inferInstance
  have stamp (j : ι) : (m j).cache.stamp = (m i).cache.stamp := Marker.stamp_of_bare (alike j i)
  have value (j : ι) : (m j).cache.value.map Marking.bare = (m i).cache.value.map Marking.bare :=
    Marker.value_of_bare (alike j i)
  by_cases older : live < (m i).cache.stamp
  · exact .inl fun j => by rw [Stamped.probe, stamp j, if_pos older]
  · cases hv : (m i).cache.value with
    | none =>
      refine .inr (.inl fun j => ?_)
      have hj : (m j).cache.value = none := by simpa [hv] using value j
      rw [Stamped.probe, stamp j, if_neg older, hj]
    | some v =>
      have each (j : ι) : ∃ w, (m j).cache.value = some w ∧ w.bare = v.bare := by
        have hj := value j
        rw [hv] at hj
        exact Option.map_eq_some_iff.mp hj
      choose w hw bare using each
      by_cases newer : (m i).cache.stamp < live
      · refine .inr (.inl fun j => ?_)
        simp only [Stamped.probe, stamp j, older, hw j, newer, if_true, if_false]
      · refine .inr (.inr ⟨w, fun j => ?_, fun j j' => (bare j).trans (bare j').symm⟩)
        simp only [Stamped.probe, stamp j, older, hw j, newer, if_false]

theorem goes_read (k : MarkerId) :
    crew.Goes (crew.With ne) (fun i => Marking.read (crew.site i) k) (crew.Marked ne) := by
  refine ⟨fun i s => ends_stateAfter.mpr ?_, fun b fit hb hc => ?_⟩
  · cases hk : s.markers[k]? with
    | none =>
      rw [stateAfter, Marking.read, bind_of_error (Act.marker_missing hk)]
      exact Lasting.refl s
    | some m =>
      have run := Marking.read_apply (crew.site i) hk
      cases hp : m.cache.probe ((crew.site i).version m.mesh s.world) with
      | refuse =>
        rw [stateAfter, run, hp]
        exact onward_noteFault i s _
      | answer v =>
        rw [stateAfter, run, hp]
        exact Lasting.refl s
      | build =>
        rw [hp] at run
        simp only [stateAfter, run]
        have goes (live : Int) :
            crew.Goes (crew.With ne) (fun i => Marking.rebuild (crew.site i) k m live) (crew.Marked ne) :=
          goes_rebuild served k (fun _ => m) live
        exact ((goes _).onward i).after s
  · rcases hb.1.marker k with none | ⟨m, hm, alike⟩
    · exact .inr ⟨.missing, b, fun i => bind_of_error (Act.marker_missing (none i)), hb.1⟩
    · obtain ⟨i⟩ : Nonempty ι := inferInstance
      have live (j : ι) : (crew.site j).version (m j).mesh (b j).world =
          (crew.site i).version crew.mesh (b i).world := by
        rw [((fit j).markers (m j) (List.mem_of_getElem? (hm j))).1]
        exact congrArg View.version (same_view served hb.1 j i)
      have label (j : ι) : (m j).source.label = (m i).source.label :=
        congrArg Source.label (Marker.source_of_bare (alike j i))
      have stamp (j : ι) : (m j).cache.stamp = (m i).cache.stamp := Marker.stamp_of_bare (alike j i)
      have run (j : ι) := Marking.read_apply (crew.site j) (hm j)
      simp only [live, label, stamp] at run
      rcases probe_alike alike ((crew.site i).version crew.mesh (b i).world) with
        refuse | build | ⟨v, answer, bare⟩
      · simp only [refuse] at run
        exact .inr ⟨_, _, run, hb.1.noteFault _⟩
      · simp only [build] at run
        simp only [stateAfter, run] at hc
        simpa only [Together, run] using (goes_rebuild served k m _).together b fit hb hc
      · simp only [answer] at run
        exact .inl ⟨v, b, run, bare, hb⟩

theorem goes_stops (k : MarkerId) :
    crew.Goes (crew.With ne) (fun i => Marking.stops (crew.site i) k) (Common fun _ => crew.With ne) := by
  refine Goes.marker (fun _ h => h.1) (fun i m m' h => ?_) fun m e settings hmesh hsource => ?_
  · simp only [Marker.source_of_bare h]
  · simp only [hsource]
    refine (goes_read served k).bind fun v => ?_
    refine (Goes.check_same (fun _ h => h.2.1) fun _ h i j => ?_).mono (fun _ h => h)
      fun a t ⟨w, ha, ht⟩ => ⟨w, ha, ht.2⟩
    exact (congrArg (Settings.stops settings) (h.1 i j) :)

/-! ## Changes of the mesh -/

omit [Nontrivial ι] in
theorem goes_violations (limit : Int) :
    crew.Goes (crew.With ne) (fun i => Coarsen.violations (crew.site i) crew.mesh limit) fun _ t =>
      crew.With ne t :=
  (Goes.ask fun i => (served.worker i).violations limit).bind fun _ =>
    .drop ((Goes.call _ (.violations limit []) fun _ => rfl).bind fun _ => .pure fun _ h => h)

theorem goes_isBroken (limit : Int) :
    crew.Goes (crew.With ne) (fun i => Coarsen.isBroken (crew.site i) crew.mesh limit)
      (Common fun _ => crew.With ne) := by
  unfold Coarsen.isBroken
  split
  · exact .pure_common fun _ h => h
  · exact (goes_violations served limit).bind fun _ => (goes_count served _).bind_common fun _ =>
      .pure_common fun _ h => h

omit [Nontrivial ι] in
theorem goes_refine (marks : ι → List Mark) (mode : Mode) (limit : Int) :
    crew.Goes (crew.With ne) (fun i => Coarsen.refine (crew.site i) crew.mesh (marks i) mode limit)
      fun _ t => crew.Abreast t :=
  (Goes.call _ (.refine [] mode limit) fun _ => rfl).bind fun _ =>
    .ask_change fun i => (served.worker i).refine (marks i) mode limit

/-- Merging: nobody merges unless some worker has a group under the threshold. -/
theorem goes_merge (how : Coarsening R) (label : String) (limit : Int) :
    crew.Goes (crew.With ne)
      (fun i => Coarsen.pass (crew.site i) how label crew.mesh limit) crew.Decided := by
  refine (goes_askErrors served how.estimator).bind fun delivered => ?_
  refine Goes.look_elements (p := fun ne => ∀ i, ValidErrors (ne i) (delivered i))
    (Q := fun _ => crew.Decided) fun ne => ?_
  refine (Goes.check_ok fun b hb i => ⟨_, Admission.errorVector_ok _ (hb.1 i)⟩).bind fun errors => ?_
  refine (Goes.look _).bind fun groups => ?_
  refine Goes.bind (Goes.check_ok fun b hb i => ?_) fun combined => ?_
  · obtain ⟨hgroups, herrors, valid, abreast, hne⟩ := hb
    have same : delivered i = errors i :=
      Except.ok.inj ((Admission.errorVector_ok _ (valid i)).symm.trans (herrors i))
    rw [← same]
    refine Coarsen.groupErrors_ok how.combine fun g hg => ?_
    rw [hgroups i] at hg
    rw [(valid i).1, ← hne i]
    exact (served.worker i).groups _ g hg
  refine Goes.mono (P := crew.With ne) ?_ (fun _ h => h.2.2.2.2) fun _ _ h => h
  refine (goes_count served _).bind_common fun under => ?_
  split
  · exact (Goes.note fun _ => rfl).bind fun _ => .decides fun _ h => h.1
  · refine (Goes.call _ (.derefine [] how.threshold limit) fun _ => rfl).bind fun _ => ?_
    refine (Goes.ask_change fun i =>
      (served.worker i).derefine (combined i) how.threshold limit).bind fun changed => ?_
    refine Goes.of_abreast fun ne => (goes_max served _).bind_common fun anywhere => ?_
    split
    · exact .decides fun _ h => h.1
    · exact (Goes.note fun _ => rfl).bind fun _ => .decides fun _ h => h.1

/-! ## Controls without members -/

theorem goes_nonconforming :
    crew.Goes (crew.With ne) (fun i => Act.look ((crew.site i).isNonconforming crew.mesh))
    (Common fun _ => crew.With ne) :=
  .look_common fun _ h i j => congrArg View.isNonconforming (same_view served h.1 i j)

theorem goes_coarsen (how : Coarsening R) (label : String) :
    crew.Goes crew.Abreast (fun i => Coarsen.apply (crew.site i) how label crew.mesh) crew.Decided := by
  refine Goes.of_abreast fun ne => (goes_nonconforming served).bind_common fun nonconforming => ?_
  split
  · exact .decides fun _ h => h.1
  · refine (goes_merge served how label how.limit).bind_common fun merged => ?_
    split <;> exact .decides fun _ h => h

theorem goes_coarsenLimited (how : Coarsening R) (stage : Stage) (label : String) :
    crew.Goes crew.Abreast
      (fun i => Coarsen.applyLimited (crew.site i) how stage label crew.mesh) crew.Decided := by
  refine Goes.of_abreast fun ne => (goes_nonconforming served).bind_common fun nonconforming => ?_
  split
  · exact .decides fun _ h => h.1
  · -- whether the limit is broken is agreed on in either stage
    have agreed {no yes : Decision × Stage} : crew.Goes crew.Abreast (fun i => do
        if ← Coarsen.isBroken (crew.site i) crew.mesh how.limit then return yes
        return no) crew.Decided := by
      refine Goes.of_abreast fun ne => (goes_isBroken served how.limit).bind_common fun broken => ?_
      split <;> exact .decides fun _ h => h.1
    cases stage with
    | coarsen =>
      refine (goes_merge served how label 0).bind_common fun merged => ?_
      split
      · exact .decides fun _ h => h
      · exact agreed
    | limit =>
      refine (goes_violations served how.limit).bind fun found => ?_
      refine (goes_refine served found .nonconforming 0).bind fun _ => ?_
      exact (Goes.note_abreast fun _ => rfl).bind fun _ => agreed

theorem goes_applyRebalance :
    crew.Goes crew.Abreast (fun i => Update.applyRebalance (crew.site i) crew.mesh) crew.Decided := by
  have distributed : crew.Goes crew.Abreast (fun i => Act.look ((crew.site i).isDistributed crew.mesh))
      (Common fun _ => crew.Abreast) :=
    .look_common fun _ h i j => congrArg View.isDistributed (same_view served h i j)
  refine distributed.bind_common fun isDistributed => ?_
  split
  · exact .decides fun _ h => h
  · refine Goes.of_abreast fun ne => (Goes.call _ .rebalance fun _ => rfl).bind fun _ => ?_
    refine (Goes.ask_change fun i => (served.worker i).rebalance).bind fun _ => ?_
    exact (Goes.note_abreast fun _ => rfl).bind fun _ => .decides fun _ h => h

theorem goes_applyRefine (marker : MarkerId) (mode : Mode) (limit : Int) :
    crew.Goes crew.Abreast
      (fun i => Update.applyRefine (crew.site i) marker mode limit crew.mesh) crew.Decided := by
  refine Goes.of_abreast fun ne => (goes_read served marker).bind fun v => .drop ?_
  refine (goes_stops served marker).bind_common fun stops => ?_
  split
  · exact (Goes.note fun _ => rfl).bind fun _ => .decides fun _ h => h.1
  · refine (goes_count served _).bind_common fun count => ?_
    split
    · exact (Goes.note fun _ => rfl).bind fun _ => .decides fun _ h => h.1
    · refine (goes_refine served (fun i => (v i).marks) mode limit).bind fun _ => ?_
      exact (Goes.note_abreast fun _ => rfl).bind fun _ => .decides fun _ h => h

/-! ## Rotations -/

section

omit [Arith R] served

theorem goes_moveCursor (k : ControlId) (f : Int → Int) :
    crew.Goes crew.Abreast (fun _ => Rotation.moveCursor k f) crew.Decided := by
  refine Goes.control (fun _ h => h) fun c hc => ?_
  refine (Goes.putControl k fun f' label h => ?_).bind fun _ => .decides fun _ h => h
  cases hs : c.strategy with
  | foreign f'' label' => exact hc f'' label' hs
  | _ => rw [hs] at h; cases h

/-- Members that keep workers abreast keep their rotation so. -/
theorem goes_turn {visit : ι → ControlId → Act R W Unit}
    (hv : ∀ m, crew.Goes crew.Abreast (fun i => visit i m) fun _ t => crew.Abreast t)
    (k : ControlId) (size turns : Nat) :
    crew.Goes crew.Abreast (fun i => Rotation.turn (visit i) k size turns) crew.Decided := by
  induction turns with
  | zero => exact .decides fun _ h => h
  | succ turns ih =>
    refine (goes_moveCursor k _).bind_common fun cursor => Goes.control (fun _ h => h) fun c _ => ?_
    split
    · exact .throw _ fun _ h => h
    · rename_i member _
      refine (Goes.record_abreast [] (fun _ => rfl) fun _ => rfl).bind fun _ => (hv member).bind fun _ => ?_
      refine Goes.control (fun _ h => h) fun c _ => ?_
      split
      · exact ih
      · refine Goes.control (fun _ h => h) fun _ _ => ?_
        refine (Goes.note_abreast fun _ => rfl).bind fun _ => ?_
        split
        · exact (goes_moveCursor k _).discard.bind fun _ => .decides fun _ h => h
        · exact .decides fun _ h => h

end

/-! ## Updates -/

theorem goes_apply {visit : ι → ControlId → Act R W Unit}
    (hv : ∀ m, crew.Goes crew.Abreast (fun i => visit i m) fun _ t => crew.Abreast t) (k : ControlId) :
    crew.Goes crew.Abreast (fun i => Update.apply (crew.site i) (visit i) k crew.mesh) crew.Decided := by
  refine Goes.control (fun _ h => h) fun c hc => ?_
  obtain ⟨last, strategy⟩ := c
  cases strategy with
  | refine marker mode limit => exact goes_applyRefine served marker mode limit
  | coarsen how => exact goes_coarsen served how _
  | coarsenLimited how stage =>
    refine (goes_coarsenLimited served how stage _).bind_common fun r => ?_
    exact (Goes.putControl k fun _ _ h => by cases h).bind fun _ => .decides fun _ h => h
  | rebalance => exact goes_applyRebalance served
  | rotation cursor members => exact goes_turn hv k _ _
  | foreign f label => exact absurd rfl (hc f label)

theorem goes_update (depth : Nat) (k : ControlId) :
    crew.Goes crew.Abreast (fun i => Update.update (crew.site i) depth k crew.mesh) crew.Decided := by
  induction depth generalizing k with
  | zero => exact .throw _ fun _ h => h
  | succ depth ih =>
    refine (goes_apply served (fun m => (ih m).discard) k).bind_common fun d => ?_
    have remembered : crew.Goes crew.Abreast (fun _ => Update.remember k d) fun _ t => crew.Abreast t :=
      Goes.control (fun _ h => h) fun c hc => .putControl k hc
    exact remembered.bind fun _ => .decides fun _ h => h

end Crew

/-! ## Runs -/

/-- A number of updates of a control: what each returned and the controls it left, and the bench
    at the end. A caller may go on after a fault. -/
def updates [Arith R] (site : Site R W) (depth : Nat) (k : ControlId) (mesh : MeshId) :
    Nat → Bench R W → List (Except Fault Bool × List (Control R)) × Bench R W
  | 0, b => ([], b)
  | n + 1, b =>
    let t := stateAfter (Update.update site depth k mesh) b
    let later := updates site depth k mesh n t
    ((outcome (Update.update site depth k mesh) b, t.controls) :: later.1, later.2)

namespace Crew

variable [Arith R] {crew : Crew ι R W} (served : crew.Served)
include served

theorem updates_onward [Nontrivial ι] (depth : Nat) (k : ControlId) (n : Nat) (i : ι) (b : Bench R W) :
    crew.Onward i b (updates (crew.site i) depth k crew.mesh n b).2 := by
  induction n generalizing b with
  | zero => exact Lasting.refl b
  | succ n ih => exact Lasting.trans (((goes_update served depth k).onward i).after b) (ih _)

/-- One update after another keeps workers abreast. -/
theorem updates_abreast [Nontrivial ι] (depth : Nat) (k : ControlId) (n : Nat) {b : ι → Bench R W}
    (fit : ∀ i, Fit crew.mesh (b i)) (abreast : crew.Abreast b)
    (concord : crew.Concord fun i => (updates (crew.site i) depth k crew.mesh n (b i)).2) :
    (∀ i j, (updates (crew.site i) depth k crew.mesh n (b i)).1 =
      (updates (crew.site j) depth k crew.mesh n (b j)).1) ∧
      crew.Abreast fun i => (updates (crew.site i) depth k crew.mesh n (b i)).2 := by
  induction n generalizing b with
  | zero => exact ⟨fun _ _ => rfl, abreast⟩
  | succ n ih =>
    have goes := goes_update served depth k
    have fit_t (i : ι) : Fit crew.mesh (stateAfter (Update.update (crew.site i) depth k crew.mesh) (b i)) :=
      ((goes.onward i).after (b i) (fit i)).1
    have concord_t := concord.of_onward fit_t fun i => updates_onward served depth k n i _
    have ends : (∀ i j, outcome (Update.update (crew.site i) depth k crew.mesh) (b i) =
        outcome (Update.update (crew.site j) depth k crew.mesh) (b j)) ∧
        crew.Abreast fun i => stateAfter (Update.update (crew.site i) depth k crew.mesh) (b i) := by
      rcases goes.together b fit abreast concord_t with
        ⟨a, t, ht, d, same, abreast_t⟩ | ⟨f, t, ht, abreast_t⟩
      · simpa only [outcome, stateAfter, ht, same, implies_true, true_and] using abreast_t
      · simpa only [outcome, stateAfter, ht, implies_true, true_and] using abreast_t
    obtain ⟨reports, abreast_n⟩ := ih fit_t ends.2 concord
    refine ⟨fun i j => ?_, abreast_n⟩
    simp only [updates, ends.1 i j, ends.2.controls i j, reports i j]

/-- Workers that start abreast return the same from every update and have the same decisions,
    stages and cursors after it, fault or not. They enter the same reductions and ask for the
    same changes, all in one order, and every reduction comes out alike. -/
theorem lockstep (depth : Nat) (k : ControlId) (n : Nat) {b : ι → Bench R W}
    (fit : ∀ i, Fit crew.mesh (b i)) (abreast : crew.Abreast b)
    (concord : crew.Concord fun i => (updates (crew.site i) depth k crew.mesh n (b i)).2)
    (i j : ι) :
    (updates (crew.site i) depth k crew.mesh n (b i)).1 =
      (updates (crew.site j) depth k crew.mesh n (b j)).1 ∧
      (updates (crew.site i) depth k crew.mesh n (b i)).2.entered =
        (updates (crew.site j) depth k crew.mesh n (b j)).2.entered ∧
      (updates (crew.site i) depth k crew.mesh n (b i)).2.agreed =
        (updates (crew.site j) depth k crew.mesh n (b j)).2.agreed := by
  rcases subsingleton_or_nontrivial ι with _ | _
  · obtain rfl := Subsingleton.elim i j
    exact ⟨rfl, rfl, rfl⟩
  · obtain ⟨reports, abreast_n⟩ := updates_abreast served depth k n fit abreast concord
    exact ⟨reports i j, abreast_n.entered i j, abreast_n.agreed i j⟩

end Crew

/-! ## A pair of workers -/

namespace Crew

/-- A worker's mesh, as the errors of its elements (large or none), and what the other worker
    puts into the reductions to come. -/
structure Mate where
  large : List Bool
  version : Int
  seen : List View
  other : List (Quantity Float)

namespace Mate

def view (w : Mate) : View := ⟨w.version, true, true⟩

def past (w : Mate) : List View := w.seen ++ [w.view]

/-- The mesh gets other elements and a new version. -/
def become (w : Mate) (large : List Bool) : Mate := ⟨large, w.version + 1, w.past, w.other⟩

def site : Site Float Mate where
  version _ w := w.version
  elements _ w := w.large.length
  isNonconforming _ _ := true
  isDistributed _ _ := true
  isConnected _ _ := true
  allreduce _ op own w :=
    match w.other with
    | [] => .ok own w
    | q :: qs => .ok ((op.combine own q).toOption.getD own) { w with other := qs }
  refine _ marks _ _ w := .ok ⟨⟩ (w.become (marks.foldl (fun es m => es.set m.index.toNat false) w.large))
  groups _ _ := []
  derefine _ _ _ _ w := .ok false (w.become w.large)
  violations _ _ w := .ok [] w
  rebalance _ w := .ok ⟨⟩ (w.become w.large)
  errors _ w := .ok (w.large.map fun l => if l then 4 else 0) w
  flags _ w := .ok none w
  marking _ := throw .missing
  decide _ := throw .missing
  reset _ := throw .missing

theorem past_become (w : Mate) (large : List Bool) :
    (w.become large).past = w.past ++ [(w.become large).view] := rfl

theorem worker : Worker site 0 past where
  present w := by simp [past, view, Site.view, site]
  refine marks _ _ w := ⟨_, ⟨⟩, _, rfl, w.past_become _⟩
  derefine _ _ _ w := ⟨_, false, _, rfl, w.past_become _⟩
  rebalance w := ⟨_, ⟨⟩, _, rfl, w.past_become _⟩
  groups _ _ h := nomatch h
  errors _ w := by
    refine ⟨_, w, rfl, rfl, rfl, by simp [site], List.all_eq_true.mpr fun x hx => ?_⟩
    obtain ⟨l, -, rfl⟩ := List.mem_map.mp hx
    cases l <;> rfl
  flags _ w := ⟨none, w, rfl, rfl, rfl, nofun⟩
  violations _ w := ⟨[], w, rfl, rfl, rfl, trivial⟩
  allreduce op own w := by
    simp only [site]
    cases w.other with
    | nil => exact ⟨own, w, rfl, rfl, rfl, trivial⟩
    | cons q qs => exact ⟨_, { w with other := qs }, rfl, rfl, rfl, trivial⟩

end Mate

def pair : Crew Bool Float Mate := ⟨fun _ => Mate.site, 0, fun _ => Mate.past⟩

theorem pair_served : pair.Served := ⟨fun _ => Mate.worker, fun _ _ _ => rfl⟩

/-- A rotation that refines and rebalances in turn. -/
def pairBench (large : List Bool) (other : List (Quantity Float)) : Bench Float Mate where
  world := ⟨large, 0, [], other⟩
  markers := [.new 0 (.threshold 0 ⟨.infinite, 0, 0.5, 0, 100⟩)]
  controls := [.new (.rotation (-1) [1, 2]), .new (.refine 0 .conforming 0), .new .rebalance]
  trace := []

/-- Only the first worker has an element with a large error. -/
def pairStart : Bool → Bench Float Mate
  | true => pairBench [true, false] [.int 3, .real 0, .int 0, .int 0]
  | false => pairBench [false, false, false] [.int 2, .real 4, .int 1, .int 1]

theorem pairBench_fit (large : List Bool) (other : List (Quantity Float)) :
    Fit 0 (pairBench large other) := by
  refine ⟨fun m hm => ?_, fun c hc f label h => ?_⟩
  · obtain rfl := List.mem_singleton.mp hm
    exact ⟨rfl, _, _, rfl⟩
  · simp only [pairBench, List.mem_cons, List.not_mem_nil, or_false] at hc
    rcases hc with rfl | rfl | rfl <;> cases h

set_option maxRecDepth 20000 in
theorem pair_concord : pair.Concord fun i => (updates (pair.site i) 2 0 pair.mesh 2 (pairStart i)).2 := by
  refine ⟨Consent.of_eq fun i j => ?_, Consent.of_eq fun i j => ?_⟩
  · cases i <;> cases j <;> rfl
  · cases i <;> cases j <;> rfl

set_option maxRecDepth 20000 in
theorem lockstep_of_pair :
    (updates Mate.site 2 0 0 2 (pairStart true)).1 = (updates Mate.site 2 0 0 2 (pairStart false)).1 ∧
      (updates Mate.site 2 0 0 2 (pairStart true)).2.entered =
        (updates Mate.site 2 0 0 2 (pairStart false)).2.entered ∧
      (updates Mate.site 2 0 0 2 (pairStart true)).2.agreed =
        (updates Mate.site 2 0 0 2 (pairStart false)).2.agreed ∧
      (updates Mate.site 2 0 0 2 (pairStart false)).2.agreed =
        [(.sum, .int 5), (.max, .real 4), (.sum, .int 1), (.sum, .int 1)] := by
  have fit : ∀ i, Fit pair.mesh (pairStart i) := fun i => by cases i <;> exact pairBench_fit _ _
  have abreast : pair.Abreast pairStart := by
    refine ⟨fun i j => ?_, fun i j => ?_, fun i j => ?_, fun i j => ?_, fun i j => ?_⟩ <;>
      cases i <;> cases j <;> rfl
  obtain ⟨reports, entered, agreed⟩ := lockstep pair_served 2 0 2 fit abreast pair_concord true false
  exact ⟨reports, entered, agreed, rfl⟩

end Crew

end Regrid
