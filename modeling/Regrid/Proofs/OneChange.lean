/-
  Regrid.Proofs.OneChange — an update reports the one change it makes.

  A tree of controls on a forest alone, with estimators that deliver anything or fail. A
  run begins with fresh controls and consists of updates and resets of the root; any of
  them may fail.

  A control that decides nothing has not touched the forest, so at most one control of an
  update has. A limited control that asks to be applied again leaves a forest that breaks
  its limit, and the next update of the root comes to it before anything else can change
  the forest; so there is something to refine. Hence (`InOrder`, the invariant of runs) an
  update that reports a change has brought the forest one version on, and any other has
  left it as it was, failed ones included.
-/

import Regrid.Proofs.Course
import Regrid.Proofs.Limiting

namespace Regrid

variable {R E : Type}

/-- The controls and the forest. -/
def Bench.ground (b : Bench R (Stand E)) : List (Control R) × Forest × Bool :=
  (b.controls, b.world.forest, b.world.isNonconforming)

namespace OneChange

/-! ## What a control without members does to the forest -/

/-- A change is reported where the forest went on by one version, and none where it is the same. -/
def Truthful (needs : Bool) (b t : Bench R (Stand E)) : Prop :=
  if needs then t.world.forest.version = b.world.forest.version + 1 else t.world.forest = b.world.forest

/-- The controls are the same, and it is told whether the forest is. -/
structure Tells (needs : Bool) (b t : Bench R (Stand E)) : Prop where
  controls : t.controls = b.controls
  isNonconforming : t.world.isNonconforming = b.world.isNonconforming
  forest : Truthful needs b t

theorem tells_same {b t : Bench R (Stand E)} (h : t.ground = b.ground) : Tells false b t := by
  simp only [Bench.ground, Prod.mk.injEq] at h
  exact ⟨h.1, h.2.2, h.2.1⟩

theorem tells_next {b t u : Bench R (Stand E)} (h : t.ground = b.ground) (hc : u.controls = t.controls)
    (hn : u.world.isNonconforming = t.world.isNonconforming)
    (hv : u.world.forest.version = t.world.forest.version + 1) : Tells true b u := by
  simp only [Bench.ground, Prod.mk.injEq] at h
  exact ⟨hc.trans h.1, hn.trans h.2.2, hv.trans (by rw [h.2.1])⟩

theorem Truthful.trans {needs : Bool} {b t u : Bench R (Stand E)} (h : t.world.forest = b.world.forest)
    (h' : Truthful needs t u) : Truthful needs b u := by
  unfold Truthful at h' ⊢
  rwa [h] at h'

theorem Tells.trans_ground {needs : Bool} {b t u : Bench R (Stand E)} (h : Tells needs b t)
    (h' : u.ground = t.ground) :
    Tells needs b u := by
  simp only [Bench.ground, Prod.mk.injEq] at h'
  refine ⟨h'.1.trans h.controls, h'.2.2.trans h.isNonconforming, ?_⟩
  have hforest := h.forest
  unfold Truthful at hforest ⊢
  rw [h'.2.1]
  exact hforest

section

variable {c : Stand.Company R E} {mesh : MeshId} {b : Bench R (Stand E)} {α : Type}

theorem ground_ask (q : Forest → EStateM Fault E α) :
    Keeps (Unseen Bench.ground) (Act.ask (Stand.ask q) : Act R (Stand E) α) := by
  intro b
  rw [Act.ends_ask]
  unfold Ends Stand.ask
  cases q b.world.forest b.world.around with
  | ok a e => rfl
  | error f e => exact Bench.noteFault_of_record (I := fun t => t.ground = b.ground) _ f rfl fun _ => rfl

theorem refine_version (f : Forest) {marks : List Mark} (h : marks ≠ []) :
    (f.refine marks).version = f.version + 1 := by
  cases marks with
  | nil => exact absurd rfl h
  | cons m ms => rfl

variable [Arith R]

theorem blind_ground (c : Stand.Company R E) : Blind (Stand.site c) (Unseen Bench.ground) where
  record _ _ _ := rfl
  setMarker _ _ _ := rfl
  errors _ := ground_ask _
  flags _ := ground_ask _
  allreduce _ _ _ := fun _ => rfl
  marking _ := ground_ask _

/-- A forest alone keeps what it has. -/
theorem ends_count_alone {P : Number R → Bench R (Stand E) → Prop}
    {Q : Fault → Bench R (Stand E) → Prop} (own : Nat) :
    Ends (Collective.count (Stand.site c) mesh own) b P Q ↔ P (.int own) b := Iff.rfl

theorem ends_sum_alone {P : Number R → Bench R (Stand E) → Prop} {Q : Fault → Bench R (Stand E) → Prop}
    (own : Number R) : Ends (Collective.sum (Stand.site c) mesh own) b P Q ↔ P own b := Iff.rfl

theorem ends_max_alone {P : Number R → Bench R (Stand E) → Prop} {Q : Fault → Bench R (Stand E) → Prop}
    (own : Number R) : Ends (Collective.max (Stand.site c) mesh own) b P Q ↔ P own b := Iff.rfl

/-- The forest answers a merge by what it merges. -/
theorem ends_derefine_alone {P : Bool → Bench R (Stand E) → Prop} {Q : Fault → Bench R (Stand E) → Prop}
    {errors : List R} {threshold : R} {limit : Int}
    (h : ∀ changed f, b.world.forest.derefine errors threshold limit = (changed, f) →
      P changed { b with world := { b.world with forest := f } }) :
    Ends (Act.ask ((Stand.site c).derefine mesh errors threshold limit)) b P Q := h _ _ rfl

theorem derefine_version {f g : Forest} {errors : List R} {threshold : R} {limit : Int} {changed : Bool}
    (h : f.derefine errors threshold limit = (changed, g)) :
    if changed then g.version = f.version + 1 else g = f := by
  simp only [Forest.derefine] at h
  split at h <;> cases h <;> rfl

theorem applyRefine_tells (marker : MarkerId) (mode : Mode) (limit : Int) :
    Ends (Update.applyRefine (Stand.site c) marker mode limit mesh) b
      (fun d t => Tells d.needsUpdate b t ∧ d.isAgain = false) (fun _ t => t.ground = b.ground) := by
  have blind := blind_ground c
  simp only [Update.applyRefine, ends_bind]
  refine (blind.read marker b).mono (fun marking t₁ h₁ => ?_) fun _ _ h => h
  refine (blind.stops (blind.read marker) t₁).mono (fun stops t₂ h₂ => ?_) fun _ _ h => h.trans h₁
  have same : t₂.ground = b.ground := h₂.trans h₁
  split
  · exact ⟨tells_same same, rfl⟩
  simp only [ends_bind, ends_count_alone]
  split
  · exact ⟨tells_same same, rfl⟩
  · rename_i hmarks
    have hne : marking.marks ≠ [] := by
      intro h
      simp [h, Number.isZero] at hmarks
    exact ⟨tells_next same rfl rfl (refine_version _ hne), rfl⟩

theorem applyRebalance_tells :
    Ends (Update.applyRebalance (Stand.site c) mesh) b
      (fun d t => Tells d.needsUpdate b t ∧ d.isAgain = false) (fun _ t => t.ground = b.ground) := by
  simp only [Update.applyRebalance, ends_bind, Act.ends_look]
  split
  · exact ⟨tells_same rfl, rfl⟩
  · exact ⟨tells_next (t := b) rfl rfl rfl rfl, rfl⟩

/-- The forest's own answer to a merge is the truth. -/
theorem pass_tells (how : Coarsening R) (label : String) (limit : Int) :
    Ends (Coarsen.pass (Stand.site c) how label mesh limit) b (fun merged t => Tells merged b t)
      (fun _ t => t.ground = b.ground) := by
  have blind := blind_ground c
  simp only [Coarsen.pass, ends_bind, Act.ends_look]
  refine (blind.askErrors how.estimator b).mono (fun delivered t₁ h₁ => ?_) fun _ _ h => h
  refine (blind.check _ t₁).mono (fun errors t₂ h₂ => ?_) fun _ _ h => h.trans h₁
  refine (blind.check _ t₂).mono (fun combined t₃ h₃ => ?_) fun _ _ h => h.trans (h₂.trans h₁)
  have same : t₃.ground = b.ground := h₃.trans (h₂.trans h₁)
  simp only [ends_count_alone]
  split
  · exact tells_same same
  simp only [ends_bind, Act.ends_call]
  refine ends_derefine_alone fun changed f hf => ?_
  have hversion := derefine_version hf
  rw [ends_max_alone]
  cases changed with
  | true => exact tells_next same rfl rfl hversion
  | false =>
    obtain rfl : f = t₃.world.forest := hversion
    exact tells_same same

theorem coarsen_tells (how : Coarsening R) (label : String) :
    Ends (Coarsen.apply (Stand.site c) how label mesh) b
      (fun d t => Tells d.needsUpdate b t ∧ d.isAgain = false) (fun _ t => t.ground = b.ground) := by
  simp only [Coarsen.apply, ends_bind, Act.ends_look]
  split
  · exact ⟨tells_same rfl, rfl⟩
  simp only [ends_bind]
  refine (pass_tells how label how.limit).mono (fun merged t ht => ?_) fun _ _ h => h
  cases merged with
  | true => exact ⟨ht, rfl⟩
  | false => exact ⟨ht, rfl⟩

/-- A forest that breaks a limit names a leaf that does. -/
theorem isBroken_alone (limit : Int) :
    Ends (Coarsen.isBroken (Stand.site c) mesh limit) b
      (fun broken t => t.ground = b.ground ∧
        (broken = true → 0 < limit ∧ t.world.forest.violations limit ≠ []))
      (fun _ _ => False) := by
  simp only [Coarsen.isBroken]
  split
  · exact ⟨rfl, fun h => by cases h⟩
  · rename_i hlimit
    refine ⟨rfl, fun hbroken => ⟨by omega, fun hnone => ?_⟩⟩
    replace hnone : b.world.forest.violations limit = [] := hnone
    rw [hnone] at hbroken
    simp [Quantity.value, Number.isPositive, Number.lt] at hbroken

/-- A limited control tells what became of the forest; where it asks to be applied again, the
    forest breaks the limit; and it only fails before it has begun to restore one. -/
theorem applyLimited_tells (how : Coarsening R) (stage : Stage) (label : String)
    (hstage : stage = .limit → b.world.Breaks how) :
    Ends (Coarsen.applyLimited (Stand.site c) how stage label mesh) b
      (fun r t => Tells r.1.needsUpdate b t ∧ (r.2 = .limit → t.world.Breaks how ∧ r.1.isAgain = true))
      (fun _ t => t.ground = b.ground ∧ stage = .coarsen) := by
  simp only [Coarsen.applyLimited, ends_bind, Act.ends_look]
  split
  · rename_i hmesh
    refine ⟨tells_same rfl, fun hlimit => ?_⟩
    have hbreaks := (hstage hlimit).1
    simp [Stand.site, hbreaks] at hmesh
  rename_i hmesh
  have conforms : b.world.isNonconforming = true := by simpa [Stand.site] using hmesh
  cases stage with
  | coarsen =>
    simp only [ends_bind]
    refine (pass_tells how label 0).mono (fun merged t₁ h₁ => ?_) fun _ _ h => ⟨h, trivial⟩
    cases merged with
    | false => exact ⟨h₁, nofun⟩
    | true =>
      simp only [Bool.not_true, Bool.false_eq_true, if_false, ends_bind]
      refine (isBroken_alone how.limit).mono (fun broken t₂ h₂ => ?_) fun _ _ h => h.elim
      have told : Tells true b t₂ := h₁.trans_ground h₂.1
      cases broken with
      | false => exact ⟨told, nofun⟩
      | true => exact ⟨told, fun _ => ⟨⟨told.isNonconforming.trans conforms, h₂.2 rfl⟩, rfl⟩⟩
  | limit =>
    obtain ⟨-, -, hviolations⟩ := hstage rfl
    simp only [ends_bind, Coarsen.violations, Coarsen.refine, Act.ends_call, Act.ends_note, ends_pure]
    refine (isBroken_alone how.limit).mono (fun broken t h => ?_) fun _ _ h => h.elim
    have hground : t.ground = (b.controls,
        b.world.forest.refine (b.world.forest.violations how.limit), b.world.isNonconforming) := h.1
    simp only [Bench.ground, Prod.mk.injEq] at hground
    have told : Tells true b t :=
      ⟨hground.1, hground.2.2, (congrArg Forest.version hground.2.1).trans (refine_version _ hviolations)⟩
    cases broken with
    | false => exact ⟨told, nofun⟩
    | true => exact ⟨told, fun _ => ⟨⟨told.isNonconforming.trans conforms, h.2 rfl⟩, rfl⟩⟩

end

/-! ## Updates -/

/-- What an update of `k` with decision `d` leaves. -/
structure Did (p : List (Strategy R)) (n : Nat) (k : ControlId) (d : Decision)
    (b t : Bench R (Stand E)) : Prop where
  plan : t.plan = p
  told : Truthful d.needsUpdate b t
  course : OnCourse p n k t
  calm : d.isAgain = false → Calm p k t

/-- What an update of `k` leaves that fails. -/
structure Failed (p : List (Strategy R)) (k : ControlId) (b t : Bench R (Stand E)) : Prop where
  plan : t.plan = p
  forest : t.world.forest = b.world.forest
  calm : Calm p k t

section

variable {p : List (Strategy R)} {n : Nat} {k : ControlId} {last : Decision} {members : List ControlId}

/-- A turn of a rotation whose members keep to the course. Either the course leads to the next
    member, or nothing is about to be restored; after a member that decides nothing it is so. -/
theorem turn_did (tree : Tree p k) {visit : ControlId → Act R (Stand E) Unit}
    (stays : ∀ m, Holds p k m → Stays p (Reaches p m) (visit m))
    (hv : ∀ m, Holds p k m → ∀ b, b.plan = p → OnCourse p n m b →
      Ends (visit m) b (fun _ t => ∃ c, t.controls[m]? = some c ∧ Did p n m c.last b t)
        (fun _ t => Failed p m b t))
    {turns : Nat} (hturns : turns ≤ members.length) {cursor : Int} {b : Bench R (Stand E)} (hb : b.plan = p)
    (hk : b.controls[k]? = some ⟨last, .rotation cursor members⟩) (course : OnCourse p (n + 1) k b)
    (hcalm : turns = 0 → Calm p k b) :
    Ends (Rotation.turn visit k members.length turns) b (fun d t => Did p (n + 1) k d b t)
      (fun _ t => Failed p k b t) := by
  induction turns generalizing cursor b with
  | zero => exact ⟨hb, rfl, course, fun _ => hcalm rfl⟩
  | succ turns ih =>
    obtain ⟨i, hi, hlt⟩ := Rotation.next_position cursor (show 0 < members.length by omega)
    have hm : members[i]? = some members[i] := List.getElem?_eq_getElem hlt
    have held : Holds p k members[i] :=
      ⟨.rotation (-1) members, hb ▸ Bench.plan_getElem? hk, List.getElem_mem hlt⟩
    have hmoved : (b.setControl k ⟨last, .rotation i members⟩).controls[k]? =
        some ⟨last, .rotation i members⟩ :=
      Bench.setControl_get hk
    have hplan : ((b.setControl k ⟨last, .rotation i members⟩).record (.visit k i members[i])).plan = p :=
      Eq.trans (Bench.plan_setControl hk (by rfl)) hb
    obtain ⟨course₁, but₁⟩ :
        OnCourse p n members[i]
          ((b.setControl k ⟨last, .rotation i members⟩).record (.visit k i members[i])) ∧
        CalmBut p k members[i]
          ((b.setControl k ⟨last, .rotation i members⟩).record (.visit k i members[i])) :=
      course.member hb tree hk (by rw [← hi]; exact hm)
    simp only [Rotation.turn, ends_bind, Rotation.ends_moveCursor hk, ← hi, Int.toNat_natCast,
      Act.ends_control_some hmoved, Strategy.members, hm, Act.ends_record]
    refine ((hv _ held _ hplan course₁).and (stays _ held _ hplan)).mono (fun _ t ht => ?_) fun _ t ht => ?_
    · obtain ⟨⟨c, hc, did⟩, touched⟩ := ht
      have but₂ : CalmBut p k members[i] t := but₁.of_touches touched
      have hk₂ : t.controls[k]? = some ⟨last, .rotation i members⟩ :=
        (touched.control k (tree.not_reaches held)).trans hmoved
      rw [Act.ends_control_some hc]
      split
      · rename_i hidle
        have calm : Calm p k t := but₂.calm (did.calm (by rw [hidle]; rfl))
        have same : t.world.forest = b.world.forest := by
          have told := did.told
          rw [hidle] at told
          exact told
        refine (ih (by omega) did.plan hk₂ calm.onCourse fun _ => calm).mono (fun d u hu => ?_)
          fun _ u hu => ?_
        · exact ⟨hu.plan, hu.told.trans same, hu.course, hu.calm⟩
        · exact ⟨hu.plan, hu.forest.trans same, hu.calm⟩
      · simp only [ends_bind, Act.ends_control_some hk₂, Act.ends_note]
        have hk₃ : (t.record (.note (.answered (Rotation.cursorOf (.rotation i members : Strategy R))
            c.strategy.label c.last))).controls[k]? = some ⟨last, .rotation i members⟩ := hk₂
        split
        · rename_i hagain
          simp only [ends_bind, ends_discard, Rotation.ends_moveCursor hk₃, ends_pure]
          refine ⟨Eq.trans (Bench.plan_setControl hk₃ (by rfl)) did.plan, did.told, ?_, fun h => ?_⟩
          · exact OnCourse.back did.course but₂ did.plan tree hk₃ hm
          · rw [hagain] at h
            cases h
        · rename_i hagain
          have calm : Calm p k t := but₂.calm (did.calm (by simpa using hagain))
          exact ⟨did.plan, did.told, calm.onCourse, fun _ => calm⟩
    · obtain ⟨failed, touched⟩ := ht
      exact ⟨failed.plan, failed.forest, (but₁.of_touches touched).calm failed.calm⟩

theorem control_of_plan {b : Bench R (Stand E)} (hb : b.plan = p) {s : Strategy R} (h : p[k]? = some s) :
    ∃ c, b.controls[k]? = some c ∧ c.strategy.restart = s := by
  rw [← hb, Bench.plan, List.getElem?_map, Option.map_eq_some_iff] at h
  exact h

theorem calm_single {b : Bench R (Stand E)} (hb : b.plan = p) {s : Strategy R}
    (hk : b.controls[k]? = some ⟨last, s⟩) (hs : s.members = [])
    (h : ∀ how, s ≠ .coarsenLimited how .limit) :
    Calm p k b := by
  intro j how hj hl
  obtain rfl := reaches_self (hb ▸ Bench.plan_getElem? hk) (by simpa using hs) hj
  rw [Bench.Limiting, Bench.strategies_getElem? hk] at hl
  exact h how (Option.some.inj hl)

/-- A control without members and without a limit to restore does what it tells. -/
theorem did_single {b t : Bench R (Stand E)} (hb : b.plan = p) {s : Strategy R}
    (hk : b.controls[k]? = some ⟨last, s⟩) (hs : s.members = []) (h : ∀ how, s ≠ .coarsenLimited how .limit)
    {d : Decision} (ht : Tells d.needsUpdate b t) : Did p n k d b t := by
  have hplan : t.plan = p := by
    rw [← hb, Bench.plan, ht.controls]
    rfl
  have calm : Calm p k t := calm_single hplan (ht.controls ▸ hk) hs h
  exact ⟨hplan, ht.forest, calm.onCourse, fun _ => calm⟩

theorem failed_single {b t : Bench R (Stand E)} (hb : b.plan = p) {s : Strategy R}
    (hk : b.controls[k]? = some ⟨last, s⟩) (hs : s.members = []) (h : ∀ how, s ≠ .coarsenLimited how .limit)
    (ht : t.ground = b.ground) : Failed p k b t := by
  have told := tells_same ht
  have hplan : t.plan = p := by
    rw [← hb, Bench.plan, told.controls]
    rfl
  exact ⟨hplan, told.forest, calm_single hplan (told.controls ▸ hk) hs h⟩

/-- To remember a decision changes neither the course nor the forest. -/
theorem Did.remember {b t : Bench R (Stand E)} {d : Decision} (h : Did p n k d b t) {c : Control R}
    (hk : t.controls[k]? = some c) : Did p n k d b (t.setControl k { c with last := d }) := by
  have hss : (t.setControl k { c with last := d }).strategies = t.strategies := Bench.strategies_same hk rfl
  refine ⟨Eq.trans (Bench.plan_setControl hk (by rfl)) h.plan, h.told, fun j how hj hl => ?_,
    fun ha j how hj hl => ?_⟩
  · rw [Bench.Limiting, hss] at hl
    rw [hss]
    exact h.course j how hj hl
  · rw [Bench.Limiting, hss] at hl
    exact h.calm ha j how hj hl

variable [Arith R] {c : Stand.Company R E} {mesh : MeshId}

theorem apply_did (tree : Tree p k) {visit : ControlId → Act R (Stand E) Unit}
    (stays : ∀ m, Holds p k m → Stays p (Reaches p m) (visit m))
    (hv : ∀ m, Holds p k m → ∀ b, b.plan = p → OnCourse p n m b →
      Ends (visit m) b (fun _ t => ∃ c, t.controls[m]? = some c ∧ Did p n m c.last b t)
        (fun _ t => Failed p m b t))
    {b : Bench R (Stand E)} (hb : b.plan = p) (course : OnCourse p (n + 1) k b) :
    Ends (Update.apply (Stand.site c) visit k mesh) b (fun d t => Did p (n + 1) k d b t)
      (fun _ t => Failed p k b t) := by
  cases tree with
  | @node _ s hs hown hmembers =>
    obtain ⟨⟨last, strategy⟩, hk, rfl⟩ := control_of_plan hb hs
    simp only [Update.apply, ends_bind, Act.ends_control_some hk]
    cases strategy with
    | refine marker mode limit =>
      refine (applyRefine_tells marker mode limit).mono (fun d t ht => ?_) fun _ t ht => ?_
      · exact did_single hb hk rfl (by simp) ht.1
      · exact failed_single hb hk rfl (by simp) ht
    | coarsen how =>
      refine (coarsen_tells how _).mono (fun d t ht => ?_) fun _ t ht => ?_
      · exact did_single hb hk rfl (by simp) ht.1
      · exact failed_single hb hk rfl (by simp) ht
    | coarsenLimited how stage =>
      have breaks (hlimit : stage = .limit) : b.world.Breaks how := by
        refine (course k how .refl ?_).2
        rw [Bench.Limiting, Bench.strategies_getElem? hk, hlimit]
      simp only [ends_bind]
      refine (applyLimited_tells how stage _ breaks).mono (fun r t ht => ?_) fun _ t ht => ?_
      · obtain ⟨told, hlimiting⟩ := ht
        have hkt : t.controls[k]? = some ⟨last, .coarsenLimited how stage⟩ := told.controls ▸ hk
        have hplan : t.plan = b.plan := by
          rw [Bench.plan, told.controls]
          rfl
        have limiting (j : ControlId) (how' : Coarsening R) (hj : Reaches p k j)
            (hl : (t.setControl k ⟨last, .coarsenLimited how r.2⟩).Limiting j how') :
            j = k ∧ how = how' ∧ r.2 = .limit := by
          obtain rfl := reaches_self hs rfl hj
          rw [Bench.Limiting, Bench.strategies_getElem? (Bench.setControl_get hkt)] at hl
          simpa using hl
        refine ⟨?_, told.forest, fun j how' hj hl => ?_, fun hagain j how' hj hl => ?_⟩
        · exact Eq.trans (Bench.plan_setControl hkt (by rfl)) (hplan.trans hb)
        · obtain ⟨rfl, rfl, hstage⟩ := limiting j how' hj hl
          exact ⟨.here, (hlimiting hstage).1⟩
        · obtain ⟨rfl, rfl, hstage⟩ := limiting j how' hj hl
          rw [(hlimiting hstage).2] at hagain
          cases hagain
      · obtain ⟨same, rfl⟩ := ht
        exact failed_single hb hk rfl (by simp) same
    | rebalance =>
      refine applyRebalance_tells.mono (fun d t ht => ?_) fun _ t ht => ?_
      · exact did_single hb hk rfl (by simp) ht.1
      · exact failed_single hb hk rfl (by simp) ht
    | rotation cursor members =>
      refine turn_did (.node hs hown hmembers) stays hv (Nat.le_refl _) hb hk course fun hnone => ?_
      exact calm_single hb hk (List.length_eq_zero_iff.mp hnone) (by simp)
    | foreign f label => cases hown

/-- An update in a tree on course reports what became of the forest and keeps to the course. -/
theorem update_did (n : Nat) {k : ControlId} (tree : Tree p k) {b : Bench R (Stand E)} (hb : b.plan = p)
    (course : OnCourse p n k b) :
    Ends (Update.update (Stand.site c) n k mesh) b
      (fun needs t => ∃ e, t.controls[k]? = some e ∧ needs = e.last.needsUpdate ∧ Did p n k e.last b t)
      (fun _ t => Failed p k b t) := by
  induction n generalizing k b with
  | zero => exact ⟨hb, rfl, course.calm_zero⟩
  | succ n ih =>
    have stays (m : ControlId) (hm : Holds p k m) :
        Stays p (Reaches p m) (discard (Update.update (Stand.site c) n m mesh)) :=
      (update_stays (closed_reaches p m) n .refl mesh).discard
    have members (m : ControlId) (hm : Holds p k m) (b : Bench R (Stand E)) (hb : b.plan = p)
        (course : OnCourse p n m b) :
        Ends (discard (Update.update (Stand.site c) n m mesh)) b
          (fun _ t => ∃ e, t.controls[m]? = some e ∧ Did p n m e.last b t) (fun _ t => Failed p m b t) := by
      refine ends_discard.mpr
        ((ih (tree.of_holds hm) hb course).mono (fun needs t ht => ?_) fun _ _ ht => ht)
      obtain ⟨e, he, -, did⟩ := ht
      exact ⟨e, he, did⟩
    obtain ⟨s, hs⟩ : ∃ s, p[k]? = some s := by
      cases tree with
      | node hs _ _ => exact ⟨_, hs⟩
    simp only [Update.update, ends_bind]
    refine (apply_did tree stays members hb course).mono (fun d t did => ?_) fun _ _ h => h
    obtain ⟨e, he, -⟩ := control_of_plan did.plan hs
    simp only [Update.remember, ends_bind, Act.ends_control_some he, Act.ends_putControl, ends_pure]
    exact ⟨_, Bench.setControl_get he, rfl, did.remember he⟩

end

/-! ## Resets -/

/-- Nothing comes to be restored that was not, and the way to what still is stays open. -/
structure Eases (b t : Bench R (Stand E)) : Prop where
  plan : t.plan = b.plan
  world : t.world = b.world
  limiting : ∀ j how, t.Limiting j how → b.Limiting j how
  leads : ∀ n k j how, t.Limiting j how → Leads b.strategies n k j → Leads t.strategies n k j

namespace Eases

variable {p : List (Strategy R)} {b t u : Bench R (Stand E)} {k : ControlId}

theorem trans (h : Eases b t) (h' : Eases t u) : Eases b u :=
  ⟨h'.plan.trans h.plan, h'.world.trans h.world, fun j how hl => h.limiting j how (h'.limiting j how hl),
    fun n k j how hl hb => h'.leads n k j how hl (h.leads n k j how (h'.limiting j how hl) hb)⟩

theorem of_strategies (hs : t.strategies = b.strategies) (hw : t.world = b.world) : Eases b t := by
  refine ⟨by rw [Bench.plan_eq, Bench.plan_eq, hs], hw, fun j how hl => ?_, fun n k j how _ hb => ?_⟩
  · rwa [Bench.Limiting, hs] at hl
  · rwa [hs]

theorem refl (b : Bench R (Stand E)) : Eases b b := of_strategies rfl rfl

/-- A control may restart where it is on the way to nothing that is still to be restored. -/
theorem setControl {c d : Control R} (hk : b.controls[k]? = some c)
    (hd : d.strategy.restart = c.strategy.restart) (hn : ∀ how, d.strategy ≠ .coarsenLimited how .limit)
    (off : ∀ j how, k ≠ j → b.Limiting j how → ∀ n, ¬ Leads b.strategies n k j) :
    Eases b (b.setControl k d) := by
  have apart (j : ControlId) (how : Coarsening R) (hl : (b.setControl k d).Limiting j how) :
      k ≠ j ∧ b.Limiting j how := by
    have hne : k ≠ j := by
      rintro rfl
      rw [Bench.Limiting, Bench.strategies_getElem? (Bench.setControl_get hk)] at hl
      exact hn how (Option.some.inj hl)
    refine ⟨hne, ?_⟩
    simpa [Bench.Limiting, Bench.strategies_setControl, hne] using hl
  refine ⟨Bench.plan_setControl hk hd, rfl, fun j how hl => (apart j how hl).2, fun n i j how hl hb => ?_⟩
  rw [Bench.strategies_setControl]
  exact hb.set (off j how (apart j how hl).1 (apart j how hl).2)

theorem calm (h : Eases b t) (hb : Calm p k b) : Calm p k t :=
  fun j how hj hl => hb j how hj (h.limiting j how hl)

theorem onCourse {n : Nat} (h : Eases b t) (hb : OnCourse p n k b) : OnCourse p n k t := by
  intro j how hj hl
  obtain ⟨hleads, hbreaks⟩ := hb j how hj (h.limiting j how hl)
  rw [h.world]
  exact ⟨h.leads n k j how hl hleads, hbreaks⟩

end Eases

section

variable {p : List (Strategy R)}

theorem forM_eases {f : ControlId → Act R (Stand E) PUnit} {members : List ControlId}
    (hf : ∀ m ∈ members, ∀ b, b.plan = p →
      Ends (f m) b (fun _ t => Eases b t ∧ Calm p m t) (fun _ t => Eases b t))
    {b : Bench R (Stand E)} (hb : b.plan = p) :
    Ends (members.forM f) b (fun _ t => Eases b t ∧ ∀ m ∈ members, Calm p m t) (fun _ t => Eases b t) := by
  induction members generalizing b with
  | nil => exact ⟨.refl b, by simp⟩
  | cons m ms ih =>
    show Ends (f m >>= fun _ => ms.forM f) b _ _
    refine ends_bind.mpr ((hf m (by simp) b hb).mono (fun _ t ht => ?_) fun _ _ h => h)
    obtain ⟨eases, calm⟩ := ht
    refine (ih (fun m' hm' => hf m' (by simp [hm'])) (eases.plan.trans hb)).mono (fun _ u hu => ?_)
      fun _ _ h => ?_
    · refine ⟨eases.trans hu.1, fun m' hm' => ?_⟩
      rcases List.mem_cons.mp hm' with rfl | hm'
      · exact hu.1.calm calm
      · exact hu.2 m' hm'
    · exact eases.trans h

theorem restart_ne (s : Strategy R) (how : Coarsening R) : s.restart ≠ .coarsenLimited how .limit := by
  cases s <;> nofun

theorem rotation_of_restart {s : Strategy R} {cursor : Int} {members : List ControlId}
    (h : s.restart = (Strategy.rotation cursor members).restart) : ∃ i, s = .rotation i members := by
  cases s with
  | rotation i ms =>
    obtain rfl : ms = members := by simpa [Strategy.restart] using h
    exact ⟨i, rfl⟩
  | refine _ _ _ | coarsen _ | coarsenLimited _ _ | rebalance | foreign _ _ => cases h

/-- A control without members restarts. -/
theorem restart_eases {b : Bench R (Stand E)} {k : ControlId} {s : Strategy R} (hb : b.plan = p)
    (hk : b.controls[k]? = some ⟨.idle, s⟩) (hs : s.members = []) :
    Eases b (b.setControl k ⟨.idle, s.restart⟩) ∧ Calm p k (b.setControl k ⟨.idle, s.restart⟩) := by
  have hrestart : s.restart.restart = s.restart := Strategy.restart_restart s
  refine ⟨.setControl hk hrestart (restart_ne s) fun j how hne _ n hleads => ?_, ?_⟩
  · cases hleads with
    | here => exact hne rfl
    | next hs' hm _ =>
      rw [Bench.strategies_getElem? hk] at hs'
      cases hs'
      cases hs
      cases hm
  · exact calm_single (Eq.trans (Bench.plan_setControl hk hrestart) hb) (Bench.setControl_get hk)
      (by simpa using hs)
      (restart_ne s)

variable [Arith R] {c : Stand.Company R E}

/-- A reset in a tree restarts what it comes to, and all of it if it returns. -/
theorem reset_eases (depth : Nat) {k : ControlId} (tree : Tree p k) {b : Bench R (Stand E)}
    (hb : b.plan = p) :
    Ends (Update.reset (Stand.site c) depth k) b (fun _ t => Eases b t ∧ Calm p k t)
      (fun _ t => Eases b t) := by
  induction depth generalizing k b with
  | zero => exact .refl b
  | succ depth ih =>
    cases tree with
    | @node _ s hs hown hmembers =>
      obtain ⟨⟨last, strategy⟩, hk, rfl⟩ := control_of_plan hb hs
      have forgotten : Eases b (b.setControl k ⟨.idle, strategy⟩) :=
        .of_strategies (Bench.strategies_same hk rfl) rfl
      have hk₁ : (b.setControl k ⟨.idle, strategy⟩).controls[k]? = some ⟨.idle, strategy⟩ :=
        Bench.setControl_get hk
      have hplan : (b.setControl k ⟨.idle, strategy⟩).plan = p := forgotten.plan.trans hb
      simp only [Update.reset, Update.remember, bind_assoc, ends_bind, Act.ends_control_some hk,
        Act.ends_putControl, Act.ends_control_some hk₁]
      cases strategy with
      | refine _ _ _ | coarsen _ | coarsenLimited _ _ | rebalance =>
        obtain ⟨eases, calm⟩ := restart_eases hplan hk₁ rfl
        exact ⟨forgotten.trans eases, calm⟩
      | rotation cursor members =>
        refine ends_bind.mpr ((forM_eases (fun m hm b hb => ih (hmembers m hm) hb) hplan).mono
          (fun _ t ht => ?_)
          fun _ _ h => forgotten.trans h)
        obtain ⟨eases, calm⟩ := ht
        obtain ⟨⟨last', strategy'⟩, hk₂, hstrategy⟩ := control_of_plan (eases.plan.trans hplan) hs
        obtain ⟨cursor', rfl⟩ := rotation_of_restart hstrategy
        have calm' : Calm p k t := by
          intro j how hj hl
          rcases Relation.ReflTransGen.cases_head hj with rfl | ⟨m, ⟨s, hs', hm⟩, hr⟩
          · exact ne_of_limiting hk₂ hl rfl
          · obtain rfl := Option.some.inj (hs.symm.trans hs')
            exact calm m hm j how hr hl
        simp only [ends_discard, Rotation.ends_moveCursor hk₂]
        have back : Eases t (t.setControl k ⟨last', .rotation (-1) members⟩) :=
          .setControl hk₂ rfl nofun fun j how _ hl n hleads => by
            have hr := hleads.reaches
            rw [← Bench.plan_eq, eases.plan.trans hplan] at hr
            exact calm' j how hr hl
        exact ⟨forgotten.trans (eases.trans back), back.calm calm'⟩
      | foreign f label => cases hown

end

/-! ## Runs -/

/-- A run of updates, at most `depth` levels deep, and resets of the root `k`, from fresh controls on;
    each of them may return or fail. The estimators may change by themselves. -/
inductive Run [Arith R] (c : Stand.Company R E) (k : ControlId) (depth resetDepth : Nat) :
    Bench R (Stand E) → Prop
  | fresh {b} : Tree b.plan k →
      (∀ j, Reaches b.plan k j → ∀ e, b.controls[j]? = some e → e = Control.new e.strategy.restart) →
      Run c k depth resetDepth b
  | update {b} (mesh : MeshId) : Run c k depth resetDepth b →
      Run c k depth resetDepth (stateAfter (Update.update (Stand.site c) depth k mesh) b)
  | reset {b} : Run c k depth resetDepth b →
      Run c k depth resetDepth (stateAfter (Update.reset (Stand.site c) resetDepth k) b)
  | around {b} (e : E) : Run c k depth resetDepth b →
      Run c k depth resetDepth { b with world := { b.world with around := e } }

section

variable {c : Stand.Company R E} {k : ControlId} {depth resetDepth : Nat} {b : Bench R (Stand E)}

/-- The invariant of runs. -/
def InOrder (depth : Nat) (k : ControlId) (b : Bench R (Stand E)) : Prop :=
  Tree b.plan k ∧ OnCourse b.plan depth k b

theorem InOrder.of_plan {p : List (Strategy R)} {t : Bench R (Stand E)} (ht : t.plan = p) (tree : Tree p k)
    (course : OnCourse p depth k t) : InOrder depth k t := by
  subst ht
  exact ⟨tree, course⟩

variable [Arith R]

theorem run_inOrder (h : Run c k depth resetDepth b) : InOrder depth k b := by
  induction h with
  | @fresh b tree hfresh =>
    refine ⟨tree, Calm.onCourse fun j how hj hl => ?_⟩
    simp only [Bench.Limiting, Bench.strategies, List.getElem?_map, Option.map_eq_some_iff] at hl
    obtain ⟨e, he, hs⟩ := hl
    have hnew := hfresh j hj e he
    rw [hnew] at hs
    exact restart_ne _ how hs
  | @update b mesh _ ih =>
    obtain ⟨tree, course⟩ := ih
    refine (ends_stateAfter (I := InOrder depth k)).mp ?_
    refine (update_did depth tree rfl course).mono (fun _ t ht => ?_) fun _ t ht => ?_
    · obtain ⟨e, -, -, did⟩ := ht
      exact .of_plan did.plan tree did.course
    · exact .of_plan ht.plan tree ht.calm.onCourse
  | @reset b _ ih =>
    obtain ⟨tree, course⟩ := ih
    refine (ends_stateAfter (I := InOrder depth k)).mp ?_
    refine (reset_eases resetDepth tree rfl).mono (fun _ t ht => ?_) fun _ t ht => ?_
    · exact .of_plan ht.1.plan tree (ht.1.onCourse course)
    · exact .of_plan ht.plan tree (ht.onCourse course)
  | around e _ ih => exact ih

/-- Along every run an update that reports a change has brought the forest one version on, and one
    that reports none or fails has left it as it was. -/
theorem one_change (h : Run c k depth resetDepth b) (mesh : MeshId) :
    Ends (Update.update (Stand.site c) depth k mesh) b
      (fun needs t => if needs then t.world.forest.version = b.world.forest.version + 1
        else t.world.forest = b.world.forest)
      (fun _ t => t.world.forest = b.world.forest) := by
  obtain ⟨tree, course⟩ := run_inOrder h
  refine (update_did depth tree rfl course).mono (fun needs t ht => ?_) fun _ t ht => ht.forest
  obtain ⟨e, -, rfl, did⟩ := ht
  exact did.told

end

/-- A limited control in a sequence, on two uneven trees. -/
def nested : Bench Float (Stand Unit) :=
  { Limiting.uneven with
    controls := [Control.new (.rotation (-1) [1]), Control.new (.coarsenLimited ⟨0, 1, 1, .sum⟩ .coarsen)] }

theorem nested_tree : Tree nested.plan 0 := by
  refine .node (s := .rotation (-1) [1]) rfl rfl fun m hm => ?_
  obtain rfl : m = 1 := List.mem_singleton.mp hm
  exact .node rfl rfl nofun

theorem nested_fresh (j : ControlId) (e : Control Float) (h : nested.controls[j]? = some e) :
    e = Control.new e.strategy.restart := by
  match j with
  | 0 | 1 =>
    obtain rfl := Option.some.inj h
    rfl
  | j + 2 => cases h

theorem one_change_nested :
    ∃ b, Run Limiting.smallPair 0 2 4 b ∧ b.Limiting 1 ⟨0, 1, 1, .sum⟩ ∧
      ∃ t, Update.update (Stand.site Limiting.smallPair) 2 0 0 b = .ok true t ∧
        t.world.forest.version = b.world.forest.version + 1 := by
  have fresh : Run Limiting.smallPair 0 2 4 nested := .fresh nested_tree fun j _ e h => nested_fresh j e h
  refine ⟨_, fresh.update 0, rfl, _, rfl, ?_⟩
  exact (one_change (fresh.update 0) 0).of_ok rfl

end OneChange

end Regrid
