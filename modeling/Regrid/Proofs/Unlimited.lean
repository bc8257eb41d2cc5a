/-
  Regrid.Proofs.Unlimited — a limited control whose limit is taken away.

  Limit zero is no limit. A control may be set to it at any time, between a merge that
  broke a limit and the update that was asked for then. A run keeps the limit under which
  the control has last asked to be applied again, as long as that request stands.

  Proved for every run, on nonconforming meshes, whatever they answer and refuse:
  (1) A request is only ever made under a limit, and the last decision shows it.
  (2) An update refines nothing where no request stands, whatever the limit is, and without
      a limit it makes none.
  (3) An update that starts without a limit while a request stands refines once: what the
      mesh names as violations of limit zero. It then decides that computations go on.

  So a limit that is taken away while its request stands is not gone: a closed run in which
  elements are refined without a limit is `refined_without_limit`.
-/

import Regrid.Proofs.Limiting
import Regrid.Proofs.Passes

namespace Regrid

variable {R W α : Type}

/-! ## One update -/

namespace Unlimited

open Limiting

/-- The mesh was refined once since `b`, at what it has named as violations of the limit. -/
def Restored (site : Site R W) (mesh : MeshId) (limit : Int) (b : Bench R W) (rs : List Refinement) : Prop :=
  ∃ named w, site.violations mesh limit b.world = .ok named w ∧
    rs = ⟨mesh, named, .nonconforming, 0⟩ :: b.refinements

variable [Arith R] {site : Site R W} {how : Coarsening R} {mesh : MeshId} {b : Bench R W}

/-- Merging refines nothing. -/
theorem coarsen_keeps (label : String) :
    Keeps (Unseen Bench.chosen) (Coarsen.applyLimited site how .coarsen label mesh) := by
  have silent := silent_chosen site
  refine (Silent.look _).bind fun nonconforming => .ite (.pure _) ?_
  refine (silent.coarsenPass (fun _ _ _ => chosen_ask _) how label 0).bind fun merged => .ite (.pure _) ?_
  exact (silent.isBroken (chosen_ask _)).bind fun broken => .ite (.pure _) (.pure _)

omit [Arith R] in
theorem violations_ends (limit : Int) :
    Ends (Coarsen.violations site mesh limit) b
      (fun named t => t.chosen = b.chosen ∧ ∃ w, site.violations mesh limit b.world = .ok named w)
      (fun _ t => t.chosen = b.chosen) := by
  have kept := (silent_chosen site).violationsOf (chosen_ask (site.violations mesh limit)) b
  refine (kept.and (violations_named limit)).mono ?_ ?_
  · intro named t ht
    exact ⟨ht.1, t.world, ht.2.1⟩
  · intro f t ht
    exact ht.1

/-- Without a limit nothing is broken. -/
theorem isBroken_ends (limit : Int) :
    Ends (Coarsen.isBroken site mesh limit) b
      (fun broken t => t.chosen = b.chosen ∧ (limit = 0 → broken = false)) (fun _ t => t.chosen = b.chosen) := by
  have kept := (silent_chosen site).isBroken (chosen_ask (site.violations mesh limit)) b
  refine (kept.and (isBroken_counts limit)).mono ?_ ?_
  · rintro broken t ⟨ht, counts⟩
    refine ⟨ht, fun hlimit => ?_⟩
    rcases counts with ⟨-, hbroken, -⟩ | ⟨hpos, -⟩
    · exact hbroken
    · omega
  · intro f t ht
    exact ht.1

/-- The stage that restores a limit refines once, if it fails then at most once; without a limit it is
    over then. -/
theorem limit_restores (label : String) (hmesh : site.isNonconforming mesh b.world = true) :
    Ends (Coarsen.applyLimited site how .limit label mesh) b
      (fun r t => t.controls = b.controls ∧ Restored site mesh how.limit b t.refinements ∧
        (how.limit = 0 → r = (.proceed (some .derefine), .coarsen)))
      (fun _ t => t.controls = b.controls ∧
        (t.refinements = b.refinements ∨ Restored site mesh how.limit b t.refinements)) := by
  simp only [Coarsen.applyLimited, ends_bind, Act.ends_look, hmesh, Bool.not_true, Bool.false_eq_true, if_false]
  refine (violations_ends how.limit).mono ?_ ?_
  · rintro named t₁ ⟨h₁, w, hw⟩
    obtain ⟨hc₁, hr₁⟩ := Prod.mk.inj h₁
    -- whatever comes after the refinement changes neither the controls nor what was refined
    have restored {t : Bench R W} (h : t.chosen = (t₁.controls, ⟨mesh, named, .nonconforming, 0⟩ :: t₁.refinements)) :
        t.controls = b.controls ∧ Restored site mesh how.limit b t.refinements := by
      obtain ⟨hc, hr⟩ := Prod.mk.inj h
      exact ⟨hc.trans hc₁, named, w, hw, by rw [hr, hr₁]⟩
    refine (refine_ends named .nonconforming 0).mono ?_ ?_
    · intro _ t₂ h₂
      rw [Act.ends_note]
      refine (isBroken_ends how.limit).mono ?_ ?_
      · rintro broken t₃ ⟨h₃, hbroken⟩
        obtain ⟨hc, hr⟩ := restored (h₃.trans h₂)
        by_cases hb : broken = true
        · rw [if_pos hb]
          refine ⟨hc, hr, fun hlimit => ?_⟩
          rw [hbroken hlimit] at hb
          cases hb
        · rw [if_neg hb]
          exact ⟨hc, hr, fun _ => rfl⟩
      · intro f t₃ h₃
        obtain ⟨hc, hr⟩ := restored (h₃.trans h₂)
        exact ⟨hc, .inr hr⟩
    · intro f t₂ h₂
      obtain ⟨hc, hr⟩ := restored h₂
      exact ⟨hc, .inr hr⟩
  · intro f t h
    obtain ⟨hc, hr⟩ := Prod.mk.inj h
    exact ⟨hc, .inl hr⟩

/-- What one stage does with controls and refinements is what an update does. -/
theorem update_ends {k : ControlId} {last : Decision} {stage : Stage} {P : Decision × Stage → List Refinement → Prop}
    {Q : List Refinement → Prop} (hk : b.controls[k]? = some ⟨last, .coarsenLimited how stage⟩)
    (unchanged : Q b.refinements) (depth : Nat)
    (h : ∀ label, Ends (Coarsen.applyLimited site how stage label mesh) b
      (fun r t => t.controls = b.controls ∧ P r t.refinements)
      (fun _ t => t.controls = b.controls ∧ Q t.refinements)) :
    Ends (Update.update site depth k mesh) b
      (fun _ t => ∃ r, t.controls[k]? = some ⟨r.1, .coarsenLimited how r.2⟩ ∧ P r t.refinements)
      (fun _ t => t.controls[k]? = b.controls[k]? ∧ Q t.refinements) := by
  cases depth with
  | zero => exact ⟨rfl, unchanged⟩
  | succ depth =>
    simp only [Update.update, Update.apply, Update.remember, bind_assoc, ends_bind,
      Act.ends_control_some hk, ends_pure]
    refine (h _).mono ?_ ?_
    · rintro r t ⟨hc, hp⟩
      have hkt : t.controls[k]? = some ⟨last, .coarsenLimited how stage⟩ := by rw [hc, hk]
      have hput := Bench.setControl_get (d := ⟨last, .coarsenLimited how r.2⟩) hkt
      rw [Act.ends_putControl, Act.ends_control_some hput]
      exact ⟨r, Bench.setControl_get hput, hp⟩
    · rintro f t ⟨hc, hq⟩
      exact ⟨by rw [hc], hq⟩

/-- An update with no request standing refines nothing, whether it returns or fails. -/
theorem update_merges {k : ControlId} {last : Decision} (hk : b.controls[k]? = some ⟨last, .coarsenLimited how .coarsen⟩)
    (depth : Nat) :
    Ends (Update.update site depth k mesh) b (fun _ t => t.refinements = b.refinements)
      (fun _ t => t.controls[k]? = b.controls[k]? ∧ t.refinements = b.refinements) := by
  have stage (label : String) :
      Ends (Coarsen.applyLimited site how .coarsen label mesh) b
        (fun _ t => t.controls = b.controls ∧ t.refinements = b.refinements)
        (fun _ t => t.controls = b.controls ∧ t.refinements = b.refinements) :=
    (coarsen_keeps label b).mono (fun _ _ h => Prod.mk.inj h) fun _ _ h => Prod.mk.inj h
  refine (update_ends hk (P := fun _ rs => rs = b.refinements) (Q := fun rs => rs = b.refinements) rfl depth
    stage).mono ?_ fun _ _ h => h
  rintro needs t ⟨r, -, h⟩
  exact h

/-- An update that restores the limit refines once, if it fails then at most once. -/
theorem update_restores {k : ControlId} {last : Decision} (hk : b.controls[k]? = some ⟨last, .coarsenLimited how .limit⟩)
    (hmesh : site.isNonconforming mesh b.world = true) (depth : Nat) :
    Ends (Update.update site depth k mesh) b
      (fun _ t => Restored site mesh how.limit b t.refinements ∧
        (how.limit = 0 → t.controls[k]? = some ⟨.proceed (some .derefine), .coarsenLimited how .coarsen⟩))
      (fun _ t => t.controls[k]? = b.controls[k]? ∧
        (t.refinements = b.refinements ∨ Restored site mesh how.limit b t.refinements)) := by
  refine (update_ends hk
    (P := fun r rs => Restored site mesh how.limit b rs ∧
      (how.limit = 0 → r = (.proceed (some .derefine), .coarsen)))
    (Q := fun rs => rs = b.refinements ∨ Restored site mesh how.limit b rs) (.inl rfl) depth
    fun label => limit_restores label hmesh).mono ?_ fun _ _ h => h
  rintro needs t ⟨r, hc, restored, ended⟩
  refine ⟨restored, ?_⟩
  intro hlimit
  rw [hc, ended hlimit]

/-- A failed update leaves the control as it was. -/
theorem update_unchanged {k : ControlId} {last : Decision} {stage : Stage}
    (hk : b.controls[k]? = some ⟨last, .coarsenLimited how stage⟩) (hmesh : site.isNonconforming mesh b.world = true)
    (depth : Nat) :
    Ends (Update.update site depth k mesh) b (fun _ _ => True) (fun _ t => t.controls[k]? = b.controls[k]?) := by
  cases stage with
  | coarsen => exact (update_merges hk depth).mono (fun _ _ _ => trivial) fun _ _ h => h.1
  | limit => exact (update_restores hk hmesh depth).mono (fun _ _ _ => trivial) fun _ _ h => h.1

/-- A limited control asks to be applied again only under a limit. -/
theorem limit_of_again {stage stage' : Stage} {w w' : W} {d : Decision} {cs : List (Call R)}
    (h : Step site how mesh stage w d stage' w' cs) (again : d.isAgain = true) : 0 < how.limit := by
  cases h with
  | broken _ _ limited _ _ | stillBroken _ limited _ _ => exact limited
  | nothing | unchanged _ _ | unlimited _ _ _ | within _ _ _ _ _ | restored _ _ _ _ | relieved _ _ => cases again

end Unlimited

/-! ## Runs -/

/-- The limit that control `k` is set to. -/
def Bench.limitAt (b : Bench R W) (k : ControlId) : Option Int :=
  match b.controls[k]? with
  | some ⟨_, .coarsenLimited how _⟩ => some how.limit
  | _ => none

/-- The last decision of control `k` asks to be applied again. -/
def Bench.asksAgain (b : Bench R W) (k : ControlId) : Bool :=
  match b.controls[k]? with
  | some c => c.last.isAgain
  | none => false

theorem Bench.asksAgain_get {b : Bench R W} {k : ControlId} {c : Control R} (h : b.controls[k]? = some c) :
    b.asksAgain k = c.last.isAgain := by
  simp [asksAgain, h]

namespace Unlimited

open Limiting

/-- A run on the limited control `k` since it was made, with the limit under which it has asked to be
    applied again, as long as that request stands. Settings are changed at any time, and refused or
    not; meanwhile anything may happen that leaves `k` alone. -/
inductive Run (site : Site Float W) (k : ControlId) : Option Int → Bench Float W → Prop
  | made {b : Bench Float W} {estimator} :
      b.controls[k]? = some (Control.new (.coarsenLimited (Coarsening.new estimator) .coarsen)) → Run site k none b
  | update {asked : Option Int} {b t : Bench Float W} {depth mesh needs} : Run site k asked b →
      site.isNonconforming mesh b.world = true → Update.update site depth k mesh b = .ok needs t →
        Run site k (if t.asksAgain k then b.limitAt k else none) t
  | updateFailed {asked : Option Int} {b t : Bench Float W} {depth mesh f} : Run site k asked b →
      site.isNonconforming mesh b.world = true → Update.update site depth k mesh b = .error f t →
        Run site k asked t
  | tune {asked : Option Int} {b : Bench Float W} (s : ControlSetting) : Run site k asked b →
      Run site k asked (stateAfter (Act.changeControl k fun c => c.tune s) b)
  | reset {asked : Option Int} {b t : Bench Float W} {depth} : Run site k asked b →
      Update.reset site depth k b = .ok ⟨⟩ t → Run site k none t
  | meanwhile {asked : Option Int} {b t : Bench Float W} : Run site k asked b →
      t.controls[k]? = b.controls[k]? → Run site k asked t

/-! ## Settings -/

/-- A change of settings that is admitted leaves no negative limit. -/
theorem tune_admits {how how' : Coarsening Float} {s : ControlSetting} (h : how.tune s = .ok how')
    (admitted : 0 ≤ how.limit) : 0 ≤ how'.limit := by
  cases s with
  | mode mode v => cases h
  | limit v =>
    obtain ⟨n, hn, hhow⟩ := ok_of_bind h
    cases hhow
    exact (Admission.integer_ok.mp hn).2
  | threshold v =>
    obtain ⟨n, -, h⟩ := ok_of_bind h
    obtain ⟨x, -, hhow⟩ := ok_of_bind h
    cases hhow
    exact admitted
  | combine v =>
    obtain ⟨c, -, hhow⟩ := ok_of_bind h
    cases hhow
    exact admitted

/-! ## The invariant -/

/-- The invariant of runs: the stage shows whether a request stands, and it was made under a limit. -/
structure Kept (k : ControlId) (asked : Option Int) (last : Decision) (how : Coarsening Float) (stage : Stage)
    (b : Bench Float W) : Prop where
  control : b.controls[k]? = some ⟨last, .coarsenLimited how stage⟩
  admitted : 0 ≤ how.limit
  stands : stage = .limit ↔ last.isAgain = true
  shown : last.isAgain = asked.isSome
  limited : ∀ limit, asked = some limit → 0 < limit

section

variable {site : Site Float W} {k : ControlId} {mesh : MeshId} {asked : Option Int} {last : Decision}
    {how : Coarsening Float} {stage : Stage} {b t : Bench Float W}

/-- A control that has just been made, or reset, has not asked for anything. -/
theorem kept_idle (h : b.controls[k]? = some ⟨.idle, .coarsenLimited how .coarsen⟩) (admitted : 0 ≤ how.limit) :
    Kept k none .idle how .coarsen b :=
  ⟨h, admitted, by simp [Decision.isAgain, Decision.action], rfl, nofun⟩

theorem kept_update (h : Kept k asked last how stage b) (hmesh : site.isNonconforming mesh b.world = true)
    (depth : Nat) :
    Ends (Update.update site depth k mesh) b
      (fun _ t => ∃ d stage', Kept k (if t.asksAgain k then b.limitAt k else none) d how stage' t)
      (fun _ t => Kept k asked last how stage t) := by
  refine ((update_steps h.control hmesh depth).and (update_unchanged h.control hmesh depth)).mono ?_ ?_
  · rintro needs t ⟨⟨d, stage', cs, -, hd, step, -⟩, -⟩
    have hlimit : b.limitAt k = some how.limit := by simp [Bench.limitAt, h.control]
    refine ⟨d, stage', hd, h.admitted, step.again_iff, ?_, ?_⟩
    · rw [Bench.asksAgain_get hd]
      cases d.isAgain <;> simp [hlimit]
    · intro limit hasked
      rw [Bench.asksAgain_get hd] at hasked
      cases hagain : d.isAgain with
      | false => simp [hagain] at hasked
      | true =>
        obtain rfl : how.limit = limit := by simpa [hagain, hlimit] using hasked
        exact limit_of_again step hagain
  · rintro f t ⟨-, hc⟩
    exact ⟨hc.trans h.control, h.admitted, h.stands, h.shown, h.limited⟩

theorem kept_tune (h : Kept k asked last how stage b) (s : ControlSetting) :
    ∃ how', Kept k asked last how' stage (stateAfter (Act.changeControl k fun c => c.tune s) b) := by
  refine Act.changeControl_leaves (I := fun t => ∃ how', Kept k asked last how' stage t) ?_ ?_ ?_
  · intro missing
    exact ⟨how, h⟩
  · intro c f _ _
    have same : (b.noteFault f).controls = b.controls :=
      b.noteFault_of_record (I := fun t => t.controls = b.controls) f rfl fun _ => rfl
    exact ⟨how, by rw [same]; exact h.control, h.admitted, h.stands, h.shown, h.limited⟩
  · intro c c' hc htune
    obtain rfl := Option.some.inj (h.control.symm.trans hc)
    obtain ⟨how', hhow, hc'⟩ := ok_of_bind htune
    cases hc'
    exact ⟨how', Bench.setControl_get hc, tune_admits hhow h.admitted, h.stands, h.shown, h.limited⟩

theorem run_kept (h : Run site k asked b) : ∃ last how stage, Kept k asked last how stage b := by
  induction h with
  | made hb => exact ⟨_, _, _, kept_idle hb (Int.le_refl 0)⟩
  | update _ hmesh hu ih =>
    obtain ⟨last, how, stage, kept⟩ := ih
    obtain ⟨d, stage', kept⟩ := (kept_update kept hmesh _).of_ok hu
    exact ⟨d, how, stage', kept⟩
  | updateFailed _ hmesh hu ih =>
    obtain ⟨last, how, stage, kept⟩ := ih
    exact ⟨last, how, stage, (kept_update kept hmesh _).of_error hu⟩
  | tune s _ ih =>
    obtain ⟨last, how, stage, kept⟩ := ih
    obtain ⟨how', kept⟩ := kept_tune kept s
    exact ⟨last, how', stage, kept⟩
  | reset _ hr ih =>
    obtain ⟨last, how, stage, kept⟩ := ih
    exact ⟨_, _, _, kept_idle ((reset_restarts kept.control _).of_ok hr) kept.admitted⟩
  | meanwhile _ ht ih =>
    obtain ⟨last, how, stage, kept⟩ := ih
    exact ⟨last, how, stage, ht.trans kept.control, kept.admitted, kept.stands, kept.shown, kept.limited⟩

/-- A request is only made under a limit. Where none stands an update refines nothing, and without a
    limit it makes none; where one stands, an update without a limit refines once, as the mesh names
    violations of limit zero, and lets computations go on. -/
theorem refines_on_request (h : Run site k asked b) :
    ∃ last how stage, b.controls[k]? = some ⟨last, .coarsenLimited how stage⟩ ∧ 0 ≤ how.limit ∧
      last.isAgain = asked.isSome ∧ (∀ limit, asked = some limit → 0 < limit) ∧
      ∀ depth mesh, site.isNonconforming mesh b.world = true →
        (asked = none →
          Ends (Update.update site depth k mesh) b
            (fun _ t => t.refinements = b.refinements ∧ (how.limit = 0 → t.asksAgain k = false))
            (fun _ t => t.refinements = b.refinements)) ∧
        (asked.isSome = true → how.limit = 0 →
          Ends (Update.update site depth k mesh) b
            (fun _ t => Restored site mesh 0 b t.refinements ∧
              t.controls[k]? = some ⟨.proceed (some .derefine), .coarsenLimited how .coarsen⟩)
            (fun _ t => t.refinements = b.refinements ∨ Restored site mesh 0 b t.refinements)) := by
  obtain ⟨last, how, stage, kept⟩ := run_kept h
  refine ⟨last, how, stage, kept.control, kept.admitted, kept.shown, kept.limited, ?_⟩
  intro depth mesh hmesh
  constructor
  · intro hnone
    obtain rfl : stage = .coarsen := by
      cases stage with
      | coarsen => rfl
      | limit =>
        have again := kept.stands.mp rfl
        rw [kept.shown, hnone] at again
        cases again
    refine ((update_merges kept.control depth).and (update_steps kept.control hmesh depth)).mono ?_ ?_
    · rintro needs t ⟨refinements, d, stage', cs, -, hd, step, -⟩
      refine ⟨refinements, fun hlimit => ?_⟩
      rw [Bench.asksAgain_get hd]
      cases hagain : d.isAgain with
      | false => rfl
      | true =>
        have limited := limit_of_again step hagain
        omega
    · rintro f t ⟨⟨-, refinements⟩, -⟩
      exact refinements
  · intro hsome hlimit
    obtain rfl : stage = .limit := kept.stands.mpr (kept.shown.trans hsome)
    refine (update_restores kept.control hmesh depth).mono ?_ ?_
    · rintro needs t ⟨restored, ended⟩
      rw [hlimit] at restored
      exact ⟨restored, ended hlimit⟩
    · rintro f t ⟨-, restored⟩
      rw [hlimit] at restored
      exact restored

end

/-! ## A closed run -/

/-- A control that has just been made, beside a forest of five leaves. -/
def fresh : Bench Float (Stand Unit) :=
  { uneven with controls := [Control.new (.coarsenLimited (Coarsening.new 0) .coarsen)] }

/-- The control at the moment when a limit is set. -/
def limited : Bench Float (Stand Unit) := stateAfter (Act.changeControl 0 fun c => c.tune (.limit (.int 1))) fresh

/-- The first two leaves were merged, and the leaf beside them is too fine now. -/
def requested : Bench Float (Stand Unit) := stateAfter (Update.update (Stand.site smallPair) 1 0 0) limited

/-- The limit is taken away before the control is applied again. -/
def relieved : Bench Float (Stand Unit) :=
  stateAfter (Act.changeControl 0 fun c => c.tune (.limit (.int 0))) requested

theorem run_relieved : Run (Stand.site smallPair) 0 (some 1) relieved := by
  have control : fresh.controls[0]? = some (Control.new (.coarsenLimited (Coarsening.new 0) .coarsen)) := rfl
  have made : Run (Stand.site smallPair) 0 none fresh := .made control
  have limits : Run (Stand.site smallPair) 0 none limited := made.tune (.limit (.int 1))
  have merges : Update.update (Stand.site smallPair) 1 0 0 limited = .ok true requested := rfl
  have asks : Run (Stand.site smallPair) 0 (some 1) requested := limits.update rfl merges
  exact asks.tune (.limit (.int 0))

theorem refines_on_request_relieved :
    Run (Stand.site smallPair) 0 (some 1) relieved ∧
      Ends (Update.update (Stand.site smallPair) 1 0 0) relieved
        (fun _ t => Restored (Stand.site smallPair) 0 0 relieved t.refinements)
        (fun _ t => t.refinements = relieved.refinements ∨
          Restored (Stand.site smallPair) 0 0 relieved t.refinements) := by
  obtain ⟨last, how, stage, hc, -, -, -, updates⟩ := refines_on_request run_relieved
  have hlimit : how.limit = 0 := by cases hc; rfl
  exact ⟨run_relieved, ((updates 1 0 rfl).2 rfl hlimit).mono (fun _ _ h => h.1) fun _ _ h => h⟩

/-- The limit is zero, and yet an update refines two leaves, for which it has asked under the limit before. -/
theorem refined_without_limit :
    Run (Stand.site smallPair) 0 (some 1) relieved ∧ relieved.limitAt 0 = some 0 ∧
      (Stand.site smallPair).isNonconforming 0 relieved.world = true ∧ relieved.refinements = [] ∧
      ∃ t, Update.update (Stand.site smallPair) 1 0 0 relieved = .ok true t ∧
        t.refinements.map (fun r => r.marks.map (·.index)) = [[0, 3]] := by
  exact ⟨run_relieved, rfl, rfl, rfl, _, rfl, rfl⟩

end Unlimited

end Regrid
