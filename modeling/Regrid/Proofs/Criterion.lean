/-
  Regrid.Proofs.Criterion — when a control that refines stops.

  An update of such a control reads the marking, judges it by the criteria of the marker and
  counts the marks of all workers (`Update.judge`); then it refines or it stops. It stops where
  nothing is marked, too, so a criterion that is not told anywhere is that no error is above the
  local goal (`Settings.Met`). With real numbers these are all the reasons to stop: where none of
  them holds the greatest error is above the threshold, whatever the exponent is.

  The judgement follows a talk (`Talk.judge`), and those of workers that share a mesh amount to
  that of who has it alone. So all workers stop or all refine, by the errors of the whole mesh,
  and whoever holds an element with the greatest error has it among its marks.
-/

import Regrid.Proofs.Exact

namespace Regrid

variable {R W V : Type} {n : Nat} [Arith R]

/-! ## The judgement -/

namespace Update

/-- Reads the marking, and judges by it whether to refine. -/
def judge (site : Site R W) (marker : MarkerId) (s : Settings R) (mesh : MeshId) : Act R W (Marking R × Bool) := do
  let v ← Marking.read site marker
  if ← Act.check (s.stops v) then
    Act.note .criterionMet
    return (v, false)
  if (← Collective.count site mesh v.marks.length).isZero then
    Act.note .nothingMarked
    return (v, false)
  return (v, true)

/-- What an update does when it has judged. -/
def conclude (site : Site R W) (mode : Mode) (limit : Int) (mesh : MeshId) : Marking R × Bool → Act R W Decision
  | (_, false) => return .stop
  | (v, true) => do
    Coarsen.refine site mesh v.marks mode limit
    Act.note (.refined v.marks.length)
    return .proceed (some .refine)

variable {site : Site R W} {marker : MarkerId} {s : Settings R} {mesh : MeshId} {estimator : EstimatorId}
    {probe : Stamped.Probe (Marking R)} {b : Bench R W} {mode : Mode} {limit : Int}

/-- The marking is judged by the settings of the marker that is read, and read once. -/
theorem applyRefine_judged (next : Marking.Next site marker mesh estimator s probe b)
    (same : ∀ v t, Marking.read site marker b = .ok v t → site.version mesh t.world = site.version mesh b.world) :
    applyRefine site marker mode limit mesh b = (judge site marker s mesh >>= conclude site mode limit mesh) b := by
  simp only [applyRefine, judge, bind_assoc]
  cases run : Marking.read site marker b with
  | error f t => rw [bind_of_error run, bind_of_error run]
  | ok v t =>
    have stops := (next.again run (same v t run)).stops
    rw [bind_of_ok run, bind_of_ok run]
    cases judged : (Act.check (s.stops v) : Act R W Bool) t with
    | error f u => rw [bind_of_error (stops.trans judged), bind_of_error judged]
    | ok met u =>
      rw [bind_of_ok (stops.trans judged), bind_of_ok judged]
      cases met with
      | true => rfl
      | false =>
        simp only [Bool.false_eq_true, if_false, bind_assoc]
        refine congrFun (congrArg (_ >>= ·) (funext fun count => ?_)) u
        cases count.isZero <;> rfl

/-- Neither controls nor what was refined change while an update judges. -/
theorem judge_keeps (site : Site R W) (marker : MarkerId) (s : Settings R) (mesh : MeshId) :
    Keeps (Unseen Bench.chosen) (judge site marker s mesh) := by
  have silent := silent_chosen site
  refine (silent.readOf (fun _ _ => rfl) fun _ => chosen_ask _).bind fun v => ?_
  refine (silent.check _).bind fun met => .ite ((silent.note _).bind fun _ => .pure _) ?_
  exact (silent.count _ _).bind fun count => .ite ((silent.note _).bind fun _ => .pure _) (.pure _)

variable {k : ControlId} {last : Decision}

/-- An update of a control that refines judges, concludes from it and remembers what it has decided. -/
theorem update_judged (hk : b.controls[k]? = some ⟨last, .refine marker mode limit⟩)
    (next : Marking.Next site marker mesh estimator s probe b)
    (same : ∀ v t, Marking.read site marker b = .ok v t → site.version mesh t.world = site.version mesh b.world)
    (depth : Nat) :
    update site (depth + 1) k mesh b =
      ((judge site marker s mesh >>= conclude site mode limit mesh) >>= fun d => do
        remember k d
        return d.needsUpdate) b := by
  have applied : apply site (fun m => discard (update site depth m mesh)) k mesh b =
      (judge site marker s mesh >>= conclude site mode limit mesh) b := by
    rw [apply, bind_of_ok (Act.control_apply hk)]
    exact applyRefine_judged next same
  simp only [update, Bind.bind, EStateM.bind, applied]

/-- The decision that follows the judgement. -/
def decision (go : Bool) : Decision := if go then .proceed (some .refine) else .stop

/-- After the judgement the world is as the mesh leaves it that refined the marks, or as it was. -/
def Refined (site : Site R W) (mode : Mode) (limit : Int) (mesh : MeshId) (v : Marking R) (go : Bool)
    (before after : W) : Prop :=
  if go then site.refine mesh v.marks mode limit before = .ok ⟨⟩ after else after = before

omit [Arith R] in
/-- A conclusion is told to no peer. -/
theorem conclude_apply {v : Marking R} {go : Bool} {t : Bench R W}
    (refines : go = true → ∃ w, site.refine mesh v.marks mode limit t.world = .ok ⟨⟩ w) :
    ∃ u, conclude site mode limit mesh (v, go) t = .ok (decision go) u ∧ u.reductions = t.reductions ∧
      u.controls = t.controls ∧ Refined site mode limit mesh v go t.world u.world ∧
      u.refinements = if go then ⟨mesh, v.marks, mode, limit⟩ :: t.refinements else t.refinements := by
  cases go with
  | false => exact ⟨t, rfl, rfl, rfl, rfl, rfl⟩
  | true =>
    obtain ⟨w, hw⟩ := refines rfl
    have refined : Coarsen.refine site mesh v.marks mode limit t =
        .ok ⟨⟩ { t.record (.call mesh (.refine v.marks mode limit)) with world := w } :=
      (bind_of_ok (Act.call_apply _ _)).trans (Act.ask_of_ok hw)
    exact ⟨_, bind_of_ok refined, rfl, rfl, hw, rfl⟩

omit [Arith R] in
theorem remember_apply {t : Bench R W} {c : Control R} (hk : t.controls[k]? = some c) (d : Decision) :
    (do remember k d; return d.needsUpdate : Act R W Bool) t =
      .ok d.needsUpdate (t.setControl k { c with last := d }) := by
  simp only [remember, bind_assoc]
  rw [bind_of_ok (Act.control_apply hk)]
  rfl

/-- The decision of control `k`, and the refinement there was where the judgement was to refine. -/
structure Concluded (site : Site R W) (k : ControlId) (marker : MarkerId) (s : Settings R) (mode : Mode)
    (limit : Int) (mesh : MeshId) (v : Marking R) (go : Bool) (b t : Bench R W) : Prop where
  control : t.controls[k]? = some ⟨decision go, .refine marker mode limit⟩
  world : Refined site mode limit mesh v go (stateAfter (judge site marker s mesh) b).world t.world
  refinements : t.refinements = if go then ⟨mesh, v.marks, mode, limit⟩ :: b.refinements else b.refinements

/-- Of an update its peers hear the judgement only, and what it does is told by that. -/
theorem update_concludes (hk : b.controls[k]? = some ⟨last, .refine marker mode limit⟩)
    (next : Marking.Next site marker mesh estimator s probe b)
    (same : ∀ v t, Marking.read site marker b = .ok v t → site.version mesh t.world = site.version mesh b.world)
    (refines : ∀ v t, judge site marker s mesh b = .ok (v, true) t →
      ∃ w, site.refine mesh v.marks mode limit t.world = .ok ⟨⟩ w) (depth : Nat) :
    (stateAfter (update site (depth + 1) k mesh) b).reductions =
        (stateAfter (judge site marker s mesh) b).reductions ∧
      ∀ v go, outcome (judge site marker s mesh) b = .ok (v, go) →
        ∃ u, update site (depth + 1) k mesh b = .ok go u ∧ Concluded site k marker s mode limit mesh v go b u := by
  have kept := (judge_keeps site marker s mesh).after b
  have run := update_judged hk next same depth
  cases judged : judge site marker s mesh b with
  | error f t =>
    rw [bind_of_error (bind_of_error judged)] at run
    simp only [stateAfter, outcome, run, judged]
    refine ⟨trivial, fun v go h => ?_⟩
    cases h
  | ok r t =>
    obtain ⟨v, go⟩ := r
    simp only [stateAfter, judged] at kept
    obtain ⟨controls, refinements⟩ := Prod.mk.inj kept
    obtain ⟨u, concluded, reductions, hcontrols, world, hrefinements⟩ :=
      conclude_apply (t := t) fun hgo => refines v t (hgo ▸ judged)
    have hu : u.controls[k]? = some ⟨last, .refine marker mode limit⟩ := by rw [hcontrols, controls, hk]
    have needs : (decision go).needsUpdate = go := by cases go <;> rfl
    rw [bind_of_ok ((bind_of_ok judged).trans concluded), remember_apply hu, needs] at run
    simp only [stateAfter, outcome, run, judged]
    refine ⟨reductions, fun v' go' h => ?_⟩
    cases h
    refine ⟨_, rfl, Bench.setControl_get hu, ?_, ?_⟩
    · rw [stateAfter, judged]
      exact world
    · rw [← refinements]
      exact hrefinements

end Update

/-! ## Its talk -/

namespace Talk

/-- What a judgement tells, given what the read tells. -/
def judge (read : Talk R (Marking R)) (s : Settings R) : Talk R (Marking R × Bool) := do
  let v ← read
  if ← check (s.stops v) then return (v, false)
  if (← agree .sum (.int v.marks.length)).isZero then return (v, false)
  return (v, true)

/-- Who is alone goes on if no criterion holds and something is marked. -/
theorem judge_alone {read : Talk R (Marking R)} {s : Settings R} {v : Marking R} {met : Bool}
    (returned : read.alone = .ok v) (stops : s.stops v = .ok met) :
    (judge read s).alone = .ok (v, !met && !v.marks.isEmpty) := by
  rw [judge, alone_bind, returned]
  show (check (s.stops v) >>= fun met => _).alone = _
  rw [alone_bind, check_alone, stops]
  cases met with
  | true => rfl
  | false =>
    have counted : (Number.int (v.marks.length : Int) : Number R).isZero = v.marks.isEmpty := by
      cases v.marks with
      | nil => rfl
      | cons mark marks => simp [Number.isZero]; omega
    show Talk.alone (if (Number.int (v.marks.length : Int) : Number R).isZero = true then _ else _) = _
    rw [counted]
    cases v.marks.isEmpty <;> rfl

end Talk

/-- The mesh has one version as long as it is only read, and it refines when it is told to. -/
structure Complies (site : Site R W) (mesh : MeshId) (mode : Mode) (limit : Int) (here : W → Prop) : Prop where
  version : ∀ w w', here w → here w' → site.version mesh w = site.version mesh w'
  refine : ∀ marks w, here w → ∃ w', site.refine mesh marks mode limit w = .ok ⟨⟩ w'

section

variable {o : Observer R W} {site : Site R W} {marker : MarkerId} {mesh : MeshId} {estimator : EstimatorId}
    {s : Settings R} {b : Bench R W}

theorem follows_kept {v : Marking R} (next : Marking.Next site marker mesh estimator s (.answer v) b)
    (hb : o.here b.world) : o.FollowsAt (Marking.read site marker) (.ends (.ok v)) b := by
  obtain ⟨m, hk, rfl, hs, hp⟩ := next
  exact Observer.Follows.of_run (Marking.read_answer hk hp) (o.nothing rfl) (.ends _) hb

variable (reduces : ∀ op own, o.Follows (Collective.reduce site mesh op own) (.enters op own pure))
include reduces

/-- A read that makes a pass tells what the pass does. -/
theorem follows_read {part : Part R} (supplied : Supplies site mesh estimator part o.here) (valid : part.Valid)
    (next : Marking.Next site marker mesh estimator s .build b) (hb : o.here b.world) :
    o.FollowsAt (Marking.read site marker) (.pass part s) b := by
  obtain ⟨m, hk, rfl, hs, hp⟩ := next
  have run := Marking.read_build hk hs hp
  obtain ⟨log, shown, went, there⟩ := follows_pass reduces supplied valid s b hb
  refine ⟨log, ?_⟩
  unfold stateAfter outcome at *
  cases hpass : Marking.pass site m.mesh estimator s b with
  | error f t =>
    rw [hpass] at shown went there run
    rw [run]
    exact ⟨shown, went, there⟩
  | ok v t =>
    rw [hpass] at shown went there run
    rw [run]
    have kept : (t.passed marker m (site.version m.mesh b.world) v).reductions = t.reductions :=
      (Bench.reductions_record _ _).trans (List.append_nil _)
    refine ⟨?_, went, there⟩
    have all := o.append shown (o.nothing kept)
    rwa [List.append_nil] at all

theorem follows_judge {read : Talk R (Marking R)} (reading : o.FollowsAt (Marking.read site marker) read b) :
    o.FollowsAt (Update.judge site marker s mesh) (.judge read s) b := by
  refine reading.bind fun v t _ there => ?_
  refine (Observer.Follows.check _).bind (fun met => ?_) t there
  cases met with
  | true => exact (Observer.Follows.record rfl).after (.pure _)
  | false =>
    refine (follows_sum reduces _).bind fun count => ?_
    show o.Follows (if count.isZero = true then _ else _) (if count.isZero = true then _ else _)
    split
    · exact (Observer.Follows.record rfl).after (.pure _)
    · exact .pure _

/-- An update tells what its judgement tells, and does what follows from it. -/
theorem follows_update {k : ControlId} {last : Decision} {mode : Mode} {limit : Int} {read : Talk R (Marking R)}
    {probe : Stamped.Probe (Marking R)} (complies : Complies site mesh mode limit o.here)
    (hk : b.controls[k]? = some ⟨last, .refine marker mode limit⟩)
    (next : Marking.Next site marker mesh estimator s probe b) (hb : o.here b.world)
    (reading : o.FollowsAt (Marking.read site marker) read b) (depth : Nat) :
    ∃ log result, o.shows log b (stateAfter (Update.update site (depth + 1) k mesh) b) ∧
      (Talk.judge read s).Went log result ∧
      ∀ v go, result = .ok (v, go) → ∃ u, Update.update site (depth + 1) k mesh b = .ok go u ∧
        Update.Concluded site k marker s mode limit mesh v go b u := by
  obtain ⟨log, shown, went, there⟩ := follows_judge (s := s) reduces reading
  obtain ⟨_, -, -, read_there⟩ := reading
  have same : ∀ v t, Marking.read site marker b = .ok v t →
      site.version mesh t.world = site.version mesh b.world := by
    intro v t run
    simp only [stateAfter, run] at read_there
    exact complies.version t.world b.world read_there hb
  have refines : ∀ v t, Update.judge site marker s mesh b = .ok (v, true) t →
      ∃ w, site.refine mesh v.marks mode limit t.world = .ok ⟨⟩ w := by
    intro v t run
    simp only [stateAfter, run] at there
    exact complies.refine v.marks t.world there
  obtain ⟨reductions, concludes⟩ := Update.update_concludes hk next same refines depth
  have all := o.append shown (o.nothing reductions)
  rw [List.append_nil] at all
  exact ⟨log, _, all, went, concludes⟩

end

/-- The markings that workers judge are those of their parts, and all come to one judgement. -/
theorem Amounts.judge {parts : Fin n → Part R} {whole : Part R} (cut : Cut parts whole)
    {reads : Fin n → Talk R (Marking R)} {read : Talk R (Marking R)}
    (h : Amounts (Cut.Beside parts whole) reads read) (s : Settings R) :
    Amounts (fun vs v => Cut.Beside parts whole (fun i => (vs i).1) v.1 ∧ ∀ i, (vs i).2 = v.2)
      (fun i => Talk.judge (reads i) s) (Talk.judge read s) := by
  unfold Talk.judge
  refine h.bind fun vs v beside => ?_
  have stops (i : Fin n) : s.stops (vs i) = s.stops v := by
    have total : (vs i).totalError = v.totalError := (congrArg Marking.totalError (beside.bare i) :)
    have elements : (vs i).elements = v.elements := (congrArg Marking.elements (beside.bare i) :)
    rw [Settings.stops, Settings.stops, total, elements]
  simp only [stops]
  refine bind_common (.check _) fun met => ?_
  cases met with
  | true => exact .returns ⟨beside, fun _ => rfl⟩
  | false =>
    have counted : Amounts Common (fun i => Talk.agree .sum (.int (vs i).marks.length))
        (Talk.agree .sum (.int v.marks.length) : Talk R (Number R)) := by
      refine agree fun q hq _ => ?_
      rw [hq.sum_int, ← beside.length cut]
      simp
    refine bind_common counted fun count => ?_
    cases hcount : count.isZero with
    | true => exact .returns ⟨beside, fun _ => rfl⟩
    | false => exact .returns ⟨beside, fun _ => rfl⟩

/-! ## The criterion -/

/-- One of the reasons to stop holds for all elements together. -/
def Settings.Met (s : Settings ℝ) (errors : List ℝ) : Prop :=
  Norm.exact errors s.exponent ≤ s.totalGoal ∨ s.maxElements ≤ errors.length ∨ ∀ e ∈ errors, e ≤ s.localGoal

/-- No error of the whole is greater than that of the element, which is one of the part. -/
def Part.Peaks (part whole : Part ℝ) (j : Nat) : Prop :=
  ∃ e, part.errors[j]? = some e ∧ Greatest whole.errors e

namespace Settings.Sound

variable {s : Settings ℝ} {whole : Part ℝ} {v : Marking ℝ} (sound : s.Sound whole v)
include sound

/-- Elements with the greatest error are marked, in whatever part they are. -/
theorem marked {part : Part ℝ} {j : Nat} (above : ∃ e ∈ whole.errors, s.localGoal < e) (h : part.Peaks whole j) :
    ∃ mark ∈ Marking.marksOf (Marking.above part.errors v.threshold) part.flags, mark.index = j := by
  obtain ⟨e₀, he₀, hgoal⟩ := above
  obtain ⟨e, hj, greatest⟩ := h
  have exceeds := sound.greatest e greatest (hgoal.trans_le (greatest.2 e₀ he₀))
  have position : j ∈ Marking.above part.errors v.threshold :=
    Marking.mem_above.mpr ⟨e, hj, Arith.lt_real.mpr exceeds⟩
  have index : (j : Int) ∈ (Marking.marksOf (Marking.above part.errors v.threshold) part.flags).map Mark.index := by
    rw [Marking.marksOf_index]
    exact List.mem_map_of_mem position
  obtain ⟨mark, hmark, hindex⟩ := List.mem_map.mp index
  exact ⟨mark, hmark, hindex⟩

/-- Nothing is marked where no error is above the local goal, and nowhere else. -/
theorem marks_nil : v.marks = [] ↔ ∀ e ∈ whole.errors, e ≤ s.localGoal := by
  constructor
  · intro none e he
    by_contra hgoal
    obtain ⟨top, htop, bound⟩ := whole.errors.toFinset.exists_max_image id ⟨e, List.mem_toFinset.mpr he⟩
    obtain ⟨j, hj⟩ := List.mem_iff_getElem?.mp (List.mem_toFinset.mp htop)
    have peaks : whole.Peaks whole j :=
      ⟨top, hj, List.mem_toFinset.mp htop, fun e' he' => bound e' (List.mem_toFinset.mpr he')⟩
    obtain ⟨mark, hmark, -⟩ := sound.marked ⟨e, he, not_le.mp hgoal⟩ peaks
    rw [← sound.marks, none] at hmark
    cases hmark
  · intro below
    have none : Marking.above whole.errors v.threshold = [] := by
      rw [List.eq_nil_iff_forall_not_mem]
      intro j hj
      obtain ⟨e, he, exceeds⟩ := Marking.mem_above.mp hj
      have inside := below e (List.mem_of_getElem? he)
      exact (inside.trans sound.goal).not_gt (Arith.lt_real.mp exceeds)
    rw [sound.marks, none]
    cases whole.flags <;> rfl

/-- The judgement is to stop where a reason to stop holds, and nowhere else. -/
theorem judged {read : Talk ℝ (Marking ℝ)} (returned : read.alone = .ok v) :
    ∃ go, (Talk.judge read s).alone = .ok (v, go) ∧ (go = false ↔ s.Met whole.errors) := by
  have stops : s.stops v = .ok (decide (Norm.exact whole.errors s.exponent ≤ s.totalGoal) ||
      decide (s.maxElements ≤ whole.errors.length)) := by
    rw [Settings.stops, sound.total, sound.elements]
    rfl
  refine ⟨_, Talk.judge_alone returned stops, ?_⟩
  rw [Settings.Met, ← sound.marks_nil]
  simp only [Bool.and_eq_false_iff, Bool.not_eq_false', Bool.or_eq_true, decide_eq_true_eq, List.isEmpty_iff, or_assoc]

end Settings.Sound

/-! ## All workers stop, or all refine -/

/-- An update stops if a criterion is met, and leaves the world as its judgement did. Otherwise it refines:
    elements with the greatest error are among the marks that it hands to the mesh, which is asked in the world
    that the judgement left, and the world is left as the mesh answers. -/
structure Decides (site : Site ℝ W) (depth : Nat) (k : ControlId) (marker : MarkerId) (s : Settings ℝ) (mode : Mode)
    (limit : Int) (mesh : MeshId) (part whole : Part ℝ) (b : Bench ℝ W) : Prop where
  stops : s.Met whole.errors → ∃ t, Update.update site depth k mesh b = .ok false t ∧
    t.controls[k]? = some ⟨.stop, .refine marker mode limit⟩ ∧ t.refinements = b.refinements ∧
    t.world = (stateAfter (Update.judge site marker s mesh) b).world
  refines : ¬s.Met whole.errors → ∃ marks t, Update.update site depth k mesh b = .ok true t ∧
    t.controls[k]? = some ⟨.proceed (some .refine), .refine marker mode limit⟩ ∧
    t.refinements = ⟨mesh, marks, mode, limit⟩ :: b.refinements ∧
    site.refine mesh marks mode limit (stateAfter (Update.judge site marker s mesh) b).world = .ok ⟨⟩ t.world ∧
    ∀ j, part.Peaks whole j → ∃ mark ∈ marks, mark.index = j

theorem decides_of_judged {site : Site ℝ W} {depth : Nat} {k : ControlId} {marker : MarkerId} {mode : Mode}
    {limit : Int} {mesh : MeshId} {s : Settings ℝ} {part whole : Part ℝ} {v own : Marking ℝ} {go : Bool}
    {b u : Bench ℝ W} (sound : s.Sound whole v) (judged : go = false ↔ s.Met whole.errors)
    (each : own.marks = Marking.marksOf (Marking.above part.errors v.threshold) part.flags)
    (run : Update.update site depth k mesh b = .ok go u)
    (concluded : Update.Concluded site k marker s mode limit mesh own go b u) :
    Decides site depth k marker s mode limit mesh part whole b := by
  obtain ⟨control, world, refinements⟩ := concluded
  constructor
  · intro met
    obtain rfl : go = false := judged.mpr met
    exact ⟨u, run, control, refinements, world⟩
  · intro unmet
    obtain rfl : go = true := Bool.not_eq_false _ ▸ mt judged.mp unmet
    refine ⟨own.marks, u, run, control, refinements, world, fun j peaks => ?_⟩
    have exceeds : ∃ e ∈ whole.errors, s.localGoal < e := by
      by_contra none
      exact unmet (.inr (.inr (by simpa using none)))
    rw [each]
    exact sound.marked exceeds peaks

namespace Shared

variable {shared : Shared n ℝ W V} {s : Settings ℝ} {marker : MarkerId}

/-- All workers make a pass when they read, or all keep the marking of such a pass. -/
def Ready (shared : Shared n ℝ W V) (s : Settings ℝ) (marker : MarkerId) (b : Fin n → Bench ℝ W) : Prop :=
  (∀ i, Marking.Next (shared.site i) marker shared.mesh shared.estimator s .build (b i)) ∨
    ∃ (a : Fin n → Bench ℝ W) (vs : Fin n → Marking ℝ), (∀ i, shared.here i (a i).world) ∧
      (∀ i j, (a i).reductions.length = (a j).reductions.length) ∧
      (Honest fun i =>
        (stateAfter (Marking.pass (shared.site i) shared.mesh shared.estimator s) (a i)).reductions) ∧
      ∀ i, outcome (Marking.pass (shared.site i) shared.mesh shared.estimator s) (a i) = .ok (vs i) ∧
        Marking.Next (shared.site i) marker shared.mesh shared.estimator s (.answer (vs i)) (b i)

/-- Who has the mesh alone makes a pass, or keeps the marking of one. -/
def ReadyAlone (shared : Shared n ℝ W V) (s : Settings ℝ) (marker : MarkerId) (c : Bench ℝ V) : Prop :=
  Marking.Next shared.alone marker shared.mesh shared.estimator s .build c ∨
    ∃ (a : Bench ℝ V) (v : Marking ℝ), shared.there a.world ∧
      outcome (Marking.pass shared.alone shared.mesh shared.estimator s) a = .ok v ∧
      Marking.Next shared.alone marker shared.mesh shared.estimator s (.answer v) c

variable (served : shared.Served) (accepted : s.Accepted) (nonneg : ∀ e ∈ shared.whole.errors, 0 ≤ e)
include served accepted nonneg

/-- What workers read, now or before, are markings of their parts beside a sound one of the whole. -/
theorem ready_reads {b : Fin n → Bench ℝ W} (here : ∀ i, shared.here i (b i).world)
    (ready : shared.Ready s marker b) :
    ∃ v reads read, s.Sound shared.whole v ∧ read.alone = .ok v ∧
      Amounts (Cut.Beside shared.parts shared.whole) reads read ∧
      ∀ i, (∃ probe, Marking.Next (shared.site i) marker shared.mesh shared.estimator s probe (b i)) ∧
        (Observer.notes (shared.here i)).FollowsAt (Marking.read (shared.site i) marker) (reads i) (b i) := by
  obtain ⟨v, alone, sound⟩ := Talk.pass_exact accepted nonneg
  have finite := Arith.finite_real shared.whole.errors
  have valid := served.cut.valid finite
  have reduces (i : Fin n) (op : Reduction) (own : Quantity ℝ) :=
    Observer.Follows.reduce (served.connected i) op own (served.allreduce i op own)
  have beside := Amounts.pass_beside served.cut finite s fun _ _ => Arith.exact_real
  rcases ready with builds | ⟨a, vs, hereBefore, level, honest, kept⟩
  · exact ⟨v, _, _, sound, alone, beside, fun i => ⟨⟨_, builds i⟩,
      follows_read (reduces i) (served.worker i) (valid i) (builds i) (here i)⟩⟩
  · choose log shown went there using fun i =>
      follows_pass (reduces i) (served.worker i) (valid i) s (a i) (hereBefore i)
    have added (i : Fin n) : (stateAfter (Marking.pass (shared.site i) shared.mesh shared.estimator s)
        (a i)).reductions = (a i).reductions ++ log i := shown i
    simp only [added] at honest
    have alike := beside.result went (honest.of_append level)
    rw [alone] at alike
    obtain ⟨us, returned, both⟩ := alike
    obtain rfl : us = vs := funext fun i => Except.ok.inj ((returned i).symm.trans (kept i).1)
    exact ⟨v, fun i => .ends (.ok (us i)), .ends (.ok v), sound, rfl, .returns both,
      fun i => ⟨⟨_, (kept i).2⟩, follows_kept (kept i).2 (here i)⟩⟩

theorem ready_reads_alone {c : Bench ℝ V} (there : shared.there c.world) (ready : shared.ReadyAlone s marker c) :
    ∃ v read, s.Sound shared.whole v ∧ read.alone = .ok v ∧
      (∃ probe, Marking.Next shared.alone marker shared.mesh shared.estimator s probe c) ∧
        (Observer.alone shared.there).FollowsAt (Marking.read shared.alone marker) read c := by
  obtain ⟨v, alone, sound⟩ := Talk.pass_exact accepted nonneg
  have valid := served.cut.valid_whole (Arith.finite_real shared.whole.errors)
  have reduces (op : Reduction) (own : Quantity ℝ) := Observer.Follows.reduce_alone served.unconnected op own
  rcases ready with builds | ⟨a, u, thereBefore, returned, kept⟩
  · exact ⟨v, _, sound, alone, ⟨_, builds⟩, follows_read reduces served.alone valid builds there⟩
  · have talk := Marking.pass_alone served.alone valid served.unconnected thereBefore s
    obtain rfl : u = v := Except.ok.inj (returned.symm.trans (talk.trans alone))
    exact ⟨u, .ends (.ok u), sound, rfl, ⟨_, kept⟩, follows_kept kept there⟩

/-- With real numbers an update stops if the total is within its goal, the mesh has its elements or no
    error is above the local goal. Otherwise it refines, and each element with the greatest error of all is
    among the marks of who holds it. So it is for workers that share the mesh, however it is cut, and for
    who has it alone. -/
theorem stops_when_met {mode : Mode} {limit : Int} {k : ControlId} {b : Fin n → Bench ℝ W} {c : Bench ℝ V}
    (workers : ∀ i, Complies (shared.site i) shared.mesh mode limit (shared.here i))
    (single : Complies shared.alone shared.mesh mode limit shared.there)
    (controls : ∀ i, ∃ last, (b i).controls[k]? = some ⟨last, .refine marker mode limit⟩)
    (control : ∃ last, c.controls[k]? = some ⟨last, .refine marker mode limit⟩)
    (here : ∀ i, shared.here i (b i).world) (there : shared.there c.world)
    (ready : shared.Ready s marker b) (readyAlone : shared.ReadyAlone s marker c) (depth : Nat)
    (level : ∀ i j, (b i).reductions.length = (b j).reductions.length)
    (honest : Honest fun i =>
      (stateAfter (Update.update (shared.site i) (depth + 1) k shared.mesh) (b i)).reductions) :
    (∀ i, Decides (shared.site i) (depth + 1) k marker s mode limit shared.mesh (shared.parts i) shared.whole (b i)) ∧
      Decides shared.alone (depth + 1) k marker s mode limit shared.mesh shared.whole shared.whole c := by
  constructor
  · obtain ⟨v, reads, read, sound, returned, beside, reading⟩ := ready_reads served accepted nonneg here ready
    obtain ⟨go, alone, judged⟩ := sound.judged returned
    choose last hk using controls
    choose probe next using fun i => (reading i).1
    choose log result shown went concludes using fun i => follows_update
      (fun op own => Observer.Follows.reduce (served.connected i) op own (served.allreduce i op own))
      (workers i) (hk i) (next i) (here i) (reading i).2 depth
    have added (i : Fin n) : (stateAfter (Update.update (shared.site i) (depth + 1) k shared.mesh)
        (b i)).reductions = (b i).reductions ++ log i := shown i
    simp only [added] at honest
    have alike := (beside.judge served.cut s).result went (honest.of_append level)
    rw [alone] at alike
    obtain ⟨vs, results, both, same⟩ := alike
    intro i
    have one : vs i = ((vs i).1, go) := Prod.ext rfl (same i)
    obtain ⟨u, run, concluded⟩ := concludes i (vs i).1 go ((results i).trans (congrArg Except.ok one))
    exact decides_of_judged sound judged (both.each i) run concluded
  · obtain ⟨v, read, sound, returned, ⟨probe, next⟩, follows⟩ :=
      ready_reads_alone served accepted nonneg there readyAlone
    obtain ⟨go, alone, judged⟩ := sound.judged returned
    obtain ⟨last, hk⟩ := control
    obtain ⟨log, result, own, went, concludes⟩ := follows_update
      (fun op own => Observer.Follows.reduce_alone served.unconnected op own) single hk next there follows depth
    obtain ⟨u, run, concluded⟩ := concludes v go ((went.eq_alone own).trans alone)
    exact decides_of_judged sound judged sound.marks run concluded

omit served accepted nonneg

/-! ## Three workers, one without elements -/

section

variable {part : Part ℝ} {b : Bench ℝ (List (Quantity ℝ))} {Q : Fault → Bench ℝ (List (Quantity ℝ)) → Prop}

theorem ends_reduce_giving {P : Quantity ℝ → Bench ℝ (List (Quantity ℝ)) → Prop} (mesh : MeshId) (op : Reduction)
    (own q : Quantity ℝ) (qs : List (Quantity ℝ)) (markers : List (Marker ℝ)) (controls : List (Control ℝ))
    (trace : List (Event ℝ)) :
    Ends (Collective.reduce (giving part true) mesh op own) ⟨q :: qs, markers, controls, trace⟩ P Q ↔
      P q ⟨qs, markers, controls, .note (.reduced op own q) :: .call mesh (.reduce op own) :: trace⟩ := Iff.rfl

theorem ends_readFlags_giving {P : Option (List Int) → Bench ℝ (List (Quantity ℝ)) → Prop} (valid : part.Valid)
    (context : String) :
    Ends (Marking.readFlags (giving part true) 0 part.errors.length context) b P Q ↔ P part.flags b := by
  have given : (giving part true).flags 0 = pure part.flags := rfl
  rw [Marking.readFlags, given, ends_bind, Act.ends_ask, ends_pure]
  cases hf : part.flags with
  | none => exact Iff.rfl
  | some fs =>
    simp only [Admission.flagVector_ok context (valid.flags fs hf), ends_bind, Act.ends_check_ok, ends_pure]

end

/-- The sum of magnitudes counts, by half. -/
noncomputable def threeSettings : Settings ℝ := ⟨.finite 1, 0, 1 / 2, 0, 100⟩

noncomputable def realRounds : List (Round 3 ℝ) :=
  [⟨.sum, ![.int 2, .int 0, .int 1], .int 3⟩, ⟨.max, ![.real 3, .real 0, .real 2], .real 3⟩,
    ⟨.sum, ![.real (4 / 3), .real 0, .real (2 / 3)], .real 2⟩, ⟨.sum, ![.int 1, .int 0, .int 1], .int 2⟩,
    ⟨.sum, ![.int 1, .int 0, .int 1], .int 2⟩]

noncomputable def threeMarker : Marker ℝ := Marker.new 0 (.threshold 0 threeSettings)

noncomputable def threeBench (answers : List (Quantity ℝ)) : Bench ℝ (List (Quantity ℝ)) :=
  ⟨answers, [threeMarker], [Control.new (Control.refining 0)], []⟩

theorem three_threshold : threeSettings.threshold (some 6) 3 = .ok 1 := by
  have scaling : threeSettings.scaling 3 = .ok (1 / 3) := by
    have factor := Settings.scaling_finite (s := threeSettings) rfl one_pos 3
    norm_num [Real.rpow_neg_one] at factor ⊢
    exact factor
  have positive : ¬Arith.eq threeSettings.fraction Arith.zero = true := by
    rw [Arith.eq_zero_real]
    norm_num [threeSettings]
  rw [Settings.threshold, if_neg positive, scaling]
  show Except.ok (Arith.max ((6 : ℝ) * (1 / 2) * (1 / 3)) 0) = _
  rw [Arith.max_real]
  norm_num

/-- The first worker's pass, or any other's, with what comes of its reductions. -/
theorem pass_of_three {part : Part ℝ} (valid : part.Valid) {m whole : ℝ} {positions : List Nat}
    (peak : Norm.peak part.errors = m) (sum : Norm.powerSum part.errors 3 1 = whole)
    (above : Marking.above part.errors 1 = positions) (later : List (Quantity ℝ)) :
    Ends (Marking.pass (giving part true) 0 0 threeSettings)
      (threeBench (.int 3 :: .real 3 :: .real 2 :: .int 2 :: later))
      (fun v t => v = ⟨Marking.marksOf positions part.flags, 1, some 6, 3, 2⟩ ∧ t.world = later ∧
        t.reductions = [⟨.sum, .int part.errors.length, .int 3⟩, ⟨.max, .real m, .real 3⟩,
          ⟨.sum, .real whole, .real 2⟩, ⟨.sum, .int (Marking.marksOf positions part.flags).length, .int 2⟩])
      (fun _ _ => False) := by
  have errors := Admission.errorVector_ok Marking.context valid.errors
  have elements : ∀ w, (giving part true).elements 0 w = part.errors.length := fun _ => rfl
  have delivers : (giving part true).errors 0 = pure part.errors := rfl
  have exponent : threeSettings.exponent = .finite 1 := rfl
  have root : Norm.root (3 : ℝ) 1 2 = .ok (some 6) := by
    rw [Norm.root_real one_pos two_pos.le]
    norm_num
  simp [Marking.pass, Marking.askErrors, Norm.total, Norm.commonPeak, Norm.scaled, Collective.sum, Collective.max,
    Collective.count, Act.ends_ask, ends_reduce_giving, ends_readFlags_giving valid, elements, delivers, exponent,
    errors, peak, sum, above, root, three_threshold, threeBench, Bench.record, Quantity.value, Number.toInt,
    Number.toReal, Bench.reductions]
  rfl

theorem stops_of_three {v : Marking ℝ} (total : v.totalError = some 6) (elements : v.elements = 3) :
    threeSettings.stops v = .ok false := by
  have far : ¬Arith.le (6 : ℝ) threeSettings.totalGoal = true := by
    rw [Arith.le_real]
    norm_num [threeSettings]
  rw [Settings.stops, total, elements]
  show Except.ok (Arith.le (6 : ℝ) threeSettings.totalGoal || decide ((100 : Int) ≤ 3)) = _
  rw [Bool.eq_false_iff.mpr far]
  rfl

/-- The reductions of an update over a part, one more than those of the pass. -/
theorem reductions_of_three {part : Part ℝ} (valid : part.Valid) (m whole : ℝ) (positions : List Nat)
    (peak : Norm.peak part.errors = m) (sum : Norm.powerSum part.errors 3 1 = whole)
    (above : Marking.above part.errors 1 = positions) :
    (stateAfter (Update.update (giving part true) 1 0 0) (threeBench (realRounds.map Round.whole))).reductions =
      [⟨.sum, .int part.errors.length, .int 3⟩, ⟨.max, .real m, .real 3⟩, ⟨.sum, .real whole, .real 2⟩,
        ⟨.sum, .int (Marking.marksOf positions part.flags).length, .int 2⟩,
        ⟨.sum, .int (Marking.marksOf positions part.flags).length, .int 2⟩] := by
  have next : Marking.Next (giving part true) 0 0 0 threeSettings .build (threeBench (realRounds.map Round.whole)) :=
    ⟨threeMarker, rfl, rfl, rfl, rfl⟩
  have told := (Update.update_concludes (k := 0) rfl next (fun _ _ _ => rfl) (fun _ _ _ => ⟨_, rfl⟩) 0).1
  rw [told]
  have pass := pass_of_three valid peak sum above [.int 2]
  have judged : Ends (Update.judge (giving part true) 0 threeSettings 0) (threeBench (realRounds.map Round.whole))
      (fun _ t => t.reductions = [⟨.sum, .int part.errors.length, .int 3⟩, ⟨.max, .real m, .real 3⟩,
        ⟨.sum, .real whole, .real 2⟩, ⟨.sum, .int (Marking.marksOf positions part.flags).length, .int 2⟩,
        ⟨.sum, .int (Marking.marksOf positions part.flags).length, .int 2⟩])
      (fun _ _ => False) := by
    rw [Update.judge, ends_bind, Marking.ends_read_build (m := threeMarker) rfl rfl rfl]
    refine pass.mono ?_ fun _ _ h => h
    rintro v ⟨world, markers, controls, trace⟩ ⟨rfl, rfl, reductions⟩
    rw [stops_of_three rfl rfl, ends_bind, Act.ends_check_ok, if_neg Bool.false_ne_true, ends_bind, Collective.count,
      Collective.sum, ends_bind]
    show (⟨.sum, .int (Marking.marksOf positions part.flags).length, .int 2⟩ ::
      trace.filterMap Event.reduced?).reverse = _
    rw [List.reverse_cons]
    exact congrArg (· ++ [_]) reductions
  obtain ⟨_, t, run, reductions⟩ := judged.returns
  simp only [stateAfter, run, reductions]

theorem honest_of_three : Honest fun i => (stateAfter (Update.update ((three (1 : ℝ) 3 2).site i) 1 0 0)
    (threeBench (realRounds.map Round.whole))).reductions := by
  have logs (i : Fin 3) : (stateAfter (Update.update ((three (1 : ℝ) 3 2).site i) 1 0 0)
      (threeBench (realRounds.map Round.whole))).reductions = realRounds.map fun r => ⟨r.op, r.own i, r.whole⟩ := by
    have valid := (three_served (R := ℝ) (x := 1) (y := 3) (z := 2) rfl).cut.valid rfl i
    match i with
    | 0 =>
      exact reductions_of_three valid 3 (4 / 3) [1]
        (by norm_num [three, threeParts, Norm.peak, Arith.peakOf, Arith.abs, Arith.lt, Arith.eq])
        (by norm_num [three, threeParts, Norm.powerSum, Arith.sum, Arith.power, Arith.div, Arith.abs, Arith.add])
        (by norm_num [three, threeParts, Marking.above, List.zipIdx, List.filter, Arith.lt])
    | 1 => exact reductions_of_three valid 0 0 [] rfl rfl rfl
    | 2 =>
      exact reductions_of_three valid 2 (2 / 3) [0]
        (by norm_num [three, threeParts, Norm.peak, Arith.peakOf, Arith.abs, Arith.lt, Arith.eq])
        (by norm_num [three, threeParts, Norm.powerSum, Arith.sum, Arith.power, Arith.div, Arith.abs, Arith.add])
        (by norm_num [three, threeParts, Marking.above, List.zipIdx, List.filter, Arith.lt])
  simp only [logs]
  refine honest_of_rounds ?_
  have added (x y z : ℝ) (h : x + y = z) : Reduction.sum.combine (.real x) (.real y) = .ok (.real z) := h ▸ rfl
  have greater (x y : ℝ) (h : y ≤ x) : Reduction.max.combine (.real x) (.real y) = .ok (.real x) := by
    rw [Reduction.combine_max, Arith.max_real, max_eq_left h]
  simp only [realRounds, List.forall_mem_cons]
  exact ⟨comes_three rfl rfl, comes_three (greater 3 0 (by norm_num)) (greater 3 2 (by norm_num)),
    comes_three (added (4 / 3) 0 (4 / 3) (by norm_num)) (added (4 / 3) (2 / 3) 2 (by norm_num)),
    comes_three rfl rfl, comes_three rfl rfl, List.forall_mem_nil _⟩

/-- Worker 0 has the element with error 3, and refines it. -/
theorem stops_when_met_of_three :
    ∃ marks t,
      Update.update ((three (1 : ℝ) 3 2).site 0) 1 0 0 (threeBench (realRounds.map Round.whole)) = .ok true t ∧
      t.refinements = [⟨0, marks, .conforming, Defaults.limit⟩] ∧ ∃ mark ∈ marks, mark.index = 1 := by
  have complies (part : Part ℝ) (connected : Bool) :
      Complies (giving part connected) 0 .conforming Defaults.limit fun _ => True :=
    ⟨fun _ _ _ _ => rfl, fun _ w _ => ⟨w, rfl⟩⟩
  have accepted : threeSettings.Accepted := by
    refine ⟨fun p hp => ?_, ?_, ?_, ?_, ?_, ?_⟩
    · cases hp
      exact one_pos
    all_goals norm_num [threeSettings]
  have nonneg : ∀ e ∈ (three (1 : ℝ) 3 2).whole.errors, 0 ≤ e := by
    simp [three]
  have builds (part : Part ℝ) (connected : Bool) (answers : List (Quantity ℝ)) :
      Marking.Next (giving part connected) 0 0 0 threeSettings .build (threeBench answers) :=
    ⟨threeMarker, rfl, rfl, rfl, rfl⟩
  have unmet : ¬threeSettings.Met (three (1 : ℝ) 3 2).whole.errors := by
    norm_num [Settings.Met, Norm.exact, three, threeSettings]
  have peaks : ((three (1 : ℝ) 3 2).parts 0).Peaks (three (1 : ℝ) 3 2).whole 1 := by
    refine ⟨3, rfl, ?_⟩
    norm_num [Greatest, three]
  obtain ⟨marks, t, run, -, refinements, -, covers⟩ :=
    ((stops_when_met (three_served rfl) accepted nonneg (fun _ => complies _ true) (complies _ false)
      (fun _ => ⟨_, rfl⟩) ⟨_, rfl⟩ (fun _ => trivial) trivial (.inl fun _ => builds _ true _)
      (.inl (builds _ false [])) 0 (fun _ _ => rfl) honest_of_three).1 0).refines unmet
  exact ⟨marks, t, run, refinements, covers 1 peaks⟩

end Shared

end Regrid
