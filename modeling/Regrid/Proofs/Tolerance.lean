/-
  Regrid.Proofs.Tolerance — settings that tolerate more mark less.

  Two markers with one norm look at the same mesh and the same errors. Then their totals are
  the same, and so is the factor n^(-1/p). The one with the greater local goal and the greater
  fraction has the greater threshold, as far as there is an order: an error above it is above
  the other as well (`Settings.above_of_tolerates`). A global term that is infinite or no number
  has nothing above it, and is not there at all where the fraction is zero; one with an error
  above it is worth something, and then so are total and factor, of which the lesser fraction
  takes less (`Worth.mul_le`).

  The goal for the total and the greatest number of elements do not enter a pass. They only
  decide whether the criterion is met, and whoever raises the one and lowers the other does not
  undo that it is (`Marking.tolerates`).

  Totals and factors are not below zero because powers are not. This is what is asked of the
  machine's power (`Nonnegative`).
-/

import Regrid.Proofs.Intake
import Regrid.Proofs.Marked
import Regrid.Proofs.Monotone

namespace Regrid

variable {W : Type}

namespace Binary64

/-! ## Totals and factors -/

/-- The power of a number not below zero is not below zero, unless a zero is divided by. -/
def Nonnegative (pow : Float → Float → Float) : Prop :=
  ∀ x y, ¬x < 0.0 → (0.0 < x ∨ ¬y < 0.0) → ¬pow x y < 0.0

section

variable {pow : Float → Float → Float} {x y : Float} {p q : ℚ}

theorem unsigned_iff_not_lt : Unsigned x ↔ ¬x < 0.0 := by
  rw [unsigned_iff]
  exact decide_eq_false_iff_not

/-- A power that passes all checks is the power. -/
theorem checkedPower_some {r : Float} (h : checkedPower pow x y = .ok (some r)) : r = power pow x y := by
  unfold checkedPower at h
  split at h
  · cases h
  · split at h
    · cases hr : finitePower pow x.abs y with
      | ok _ =>
        rw [hr] at h
        cases h
      | error _ =>
        rw [hr] at h
        cases h
    · dsimp only [finitePower] at h
      split at h
      · cases h
      · cases h
        rfl

/-- A root that is a real number is a product with such a power, and its exponent is not zero. -/
theorem root_some {m σ e : Float} (hy : Worth y q) (h : @Norm.root Float (arithmetic pow) m y σ = .ok (some e)) :
    q ≠ 0 ∧ e = Arith.mul m (Binary64.power pow σ (Arith.div Arith.one y)) := by
  have hq : q ≠ 0 := by
    rintro rfl
    rw [root_of_zero hy] at h
    cases h
  refine ⟨hq, ?_⟩
  rw [root_eq hy hq] at h
  cases hr : checkedPower pow σ (Arith.div Arith.one y) with
  | error f =>
    rw [hr] at h
    cases h
  | ok r =>
    rw [hr] at h
    cases r with
    | none => cases h
    | some r =>
      cases h
      rw [checkedPower_some hr]

theorem Nonnegative.power (law : Nonnegative pow) (hx : Unsigned x) (h : 0.0 < x ∨ Unsigned y) :
    Unsigned (power pow x y) := by
  unfold Binary64.power
  split
  · exact hx
  · split
    · exact .inr ⟨1, worth_one⟩
    · rw [unsigned_iff_not_lt] at hx ⊢
      exact law x y hx (h.imp_right unsigned_iff_not_lt.mp)

theorem Nonnegative.powerSum (law : Nonnegative pow) {errors : List Float}
    (finite : errors.all Arith.isFinite = true) {m : Float} (hm : Worth m p) (some : p ≠ 0) (hy : Unsigned y) :
    Unsigned (@Norm.powerSum Float (arithmetic pow) errors m y) := by
  obtain ⟨_, -, each, -⟩ := peak_worth finite
  refine Unsigned.sum fun x hx => ?_
  obtain ⟨e, he, rfl⟩ := List.mem_map.mp hx
  obtain ⟨a, ha, -⟩ := each e he
  exact law.power (ha.div hm some).unsigned (.inr hy)

/-- A total is not below zero. -/
theorem Nonnegative.total (law : Nonnegative pow) {errors : List Float} (finite : errors.all Arith.isFinite = true)
    {exponent : Exponent Float} (admitted : ∀ p, exponent = .finite p → ∃ q, Worth p q) {e : Float}
    (h : (@Talk.total Float (arithmetic pow) errors exponent).alone = .ok (some e)) : Unsigned e := by
  obtain ⟨μ, hm, -⟩ := peak_worth finite
  rw [@Talk.total_alone Float (arithmetic pow)] at h
  cases exponent with
  | infinite =>
    cases h
    exact .inr ⟨μ, hm⟩
  | finite y =>
    obtain ⟨q, hy⟩ := admitted y rfl
    have h : (if Arith.eq (Norm.peak errors) Arith.zero = true then .ok (some (Norm.peak errors)) else
      @Norm.root Float (arithmetic pow) (Norm.peak errors) y
        (@Norm.powerSum Float (arithmetic pow) errors (Norm.peak errors) y)) = Except.ok (some e) := h
    by_cases zero : Arith.eq (Norm.peak errors) Arith.zero = true
    · rw [if_pos zero] at h
      cases h
      exact .inr ⟨μ, hm⟩
    · rw [if_neg zero] at h
      have some : μ ≠ 0 := mt (hm.eq_iff worth_zero).mpr zero
      obtain ⟨hq, rfl⟩ := root_some hy h
      have reciprocal : Unsigned (Arith.div Arith.one y) := (worth_one.div hy hq).unsigned
      have whole := law.powerSum finite hm some (.inr ⟨q, hy⟩)
      exact Unsigned.mul (.inr ⟨μ, hm⟩) (law.power whole (.inr reciprocal))

/-- The factor n^(-1/p) is not below zero. -/
theorem Nonnegative.scaling (law : Nonnegative pow) {s : Settings Float} {n : ℤ} {k : Float}
    (h : @Settings.scaling Float (arithmetic pow) s n = .ok k) : Unsigned k := by
  unfold Settings.scaling at h
  cases he : s.exponent with
  | infinite =>
    simp only [he] at h
    cases h
    exact .inr ⟨1, worth_one⟩
  | finite p =>
    simp only [he] at h
    split at h
    · rename_i positive
      obtain ⟨m, rfl⟩ := Int.eq_ofNat_of_zero_le positive.le
      split at h
      · cases h
      obtain ⟨x, hx, h⟩ := ok_of_bind h
      obtain ⟨o, ho, h⟩ := ok_of_bind h
      have ho : checkedPower pow x (Arith.div (Arith.neg Arith.one) p) = .ok o := ho
      cases o with
      | none => cases h
      | some r =>
        cases h
        rw [checkedPower_some ho]
        obtain ⟨q, worth, sides⟩ := worth_ofInt hx
        have least : 1 ≤ q := (sides 1 representable_one).2 (by exact_mod_cast (by omega : 1 ≤ m))
        have above : Arith.lt Arith.zero x = true := (worth_zero.lt_iff worth).mpr (one_pos.trans_le least)
        exact law.power (.inr ⟨q, worth⟩) (.inl (of_decide_eq_true above))
    · cases h
      exact .inr ⟨0, worth_zero⟩

end

/-! ## Maxima -/

section

open Float.Model (UnpackedFloat)

variable {a g e x : Float} {q r : ℚ}

/-- What is above a maximum is above both. -/
theorem lt_of_max (number : g.isNaN = false) (h : Arith.lt (Arith.max a g) e = true) :
    Arith.lt a e = true ∧ Arith.lt g e = true := by
  unfold Arith.max at h
  split at h
  · rename_i less
    obtain ⟨ha, _, before⟩ := lt_iff_place.mp less
    obtain ⟨_, he, above⟩ := lt_iff_place.mp h
    exact ⟨lt_iff_place.mpr ⟨ha, he, before.trans above⟩, h⟩
  · rename_i least
    exact ⟨h, lt_of_not_lt number (Bool.eq_false_iff.mpr least) h⟩

theorem max_lt (left : Arith.lt a e = true) (right : Arith.lt g e = true) : Arith.lt (Arith.max a g) e = true := by
  unfold Arith.max
  split
  · exact right
  · exact left

/-- Nothing is above what is no number, or infinite. -/
theorem Unsigned.worth_of_lt (hx : Unsigned x) (above : Arith.lt x e = true) : ∃ q, Worth x q := by
  refine hx.resolve_left fun unbounded => ?_
  have above : decide (decide (x.toModel.unpack.lt e.toModel.unpack = true) = true) = true := above
  rw [decide_eq_true_eq, decide_eq_true_eq] at above
  generalize x.toModel.unpack = u at unbounded above
  generalize e.toModel.unpack = v at above
  cases unbounded with
  | nan => cases above
  | infinite =>
    cases v with
    | infinity s => cases s <;> cases above
    | notANumber | zero _ | finite _ _ _ _ => cases above

theorem le_iff_place {y : Float} : Arith.le x y = true ↔
    x.isNaN = false ∧ y.isNaN = false ∧ place x.toModel.unpack ≤ place y.toModel.unpack := by
  show decide (decide (x.toModel.unpack.le y.toModel.unpack = true) = true) = true ↔
    x.toModel.unpack.isNaN = false ∧ y.toModel.unpack.isNaN = false ∧ _
  generalize x.toModel.unpack = u
  generalize y.toModel.unpack = v
  have compared : (u.compare v).isSome = true ↔ u.isNaN = false ∧ v.isNaN = false := by
    cases u with
    | notANumber => exact ⟨nofun, fun h => nomatch h.1⟩
    | infinity s | zero s | finite s _ _ _ =>
      cases v with
      | notANumber => exact ⟨nofun, fun h => nomatch h.2⟩
      | infinity s' | zero s' | finite s' _ _ _ => cases s <;> cases s' <;> exact ⟨fun _ => ⟨rfl, rfl⟩, fun _ => rfl⟩
  rw [decide_eq_true_eq, decide_eq_true_eq, UnpackedFloat.le]
  constructor
  · intro h
    obtain ⟨o, ho, le⟩ := (Option.any_eq_true _ _).mp h
    obtain ⟨hu, hv⟩ := compared.mp (Option.isSome_iff_exists.mpr ⟨o, ho⟩)
    refine ⟨hu, hv, not_lt.mp fun after => ?_⟩
    rw [(compare_place hu hv).2.mpr after] at ho
    cases ho
    cases le
  · rintro ⟨hu, hv, before⟩
    obtain ⟨o, ho⟩ := Option.isSome_iff_exists.mp (compared.mpr ⟨hu, hv⟩)
    refine (Option.any_eq_true _ _).mpr ⟨o, ho, Ordering.isLE_iff_ne_gt.mpr fun gt => ?_⟩
    exact before.not_gt ((compare_place hu hv).2.mp (gt ▸ ho))

theorem le_trans {y z : Float} (h : Arith.le x y = true) (h' : Arith.le y z = true) : Arith.le x z = true := by
  obtain ⟨hx, -, before⟩ := le_iff_place.mp h
  obtain ⟨-, hz, after⟩ := le_iff_place.mp h'
  exact le_iff_place.mpr ⟨hx, hz, before.trans after⟩

theorem Worth.lt_of_le (ha : Worth a q) (hg : Worth g r) (le : q ≤ r) (above : Arith.lt g e = true) :
    Arith.lt a e = true :=
  lt_of_not_lt ha.isNaN (Bool.eq_false_iff.mpr (mt (hg.lt_iff ha).mp le.not_gt)) above

end

end Binary64

/-! ## Thresholds -/

open Binary64 (Worth Unsigned Nonnegative)

namespace Settings

/-- With the same norm, the second settings tolerate at least what the first do. -/
structure Tolerates (s s' : Settings Float) : Prop where
  exponent : s'.exponent = s.exponent
  localGoal : Arith.le s.localGoal s'.localGoal = true
  fraction : Arith.le s.fraction s'.fraction = true

variable {pow : Float → Float → Float} {s s' : Settings Float} {n : ℤ} {error : Option Float} {t t' e : Float}

theorem threshold_cases (h : @threshold Float (Binary64.arithmetic pow) s error n = .ok t) :
    Arith.eq s.fraction Arith.zero = true ∧ t = s.localGoal ∨
      ¬Arith.eq s.fraction Arith.zero = true ∧ ∃ total factor, error = some total ∧
        @scaling Float (Binary64.arithmetic pow) s n = .ok factor ∧
        t = Arith.max (Arith.mul (Arith.mul total s.fraction) factor) s.localGoal := by
  unfold threshold at h
  split at h
  · rename_i none
    cases h
    exact .inl ⟨none, rfl⟩
  · rename_i some
    obtain ⟨factor, hfactor, h⟩ := ok_of_bind h
    obtain ⟨total, htotal, h⟩ := ok_of_bind h
    cases error with
    | none => cases htotal
    | some x =>
      cases htotal
      cases h
      exact .inr ⟨some, total, factor, rfl, hfactor, rfl⟩

/-- What is above the threshold of the second is above that of the first. -/
theorem Tolerates.above (h : s.Tolerates s') (law : Nonnegative pow) (admitted : s.Admitted) (admitted' : s'.Admitted)
    (unsigned : ∀ total, error = some total → Unsigned total)
    (ht : @threshold Float (Binary64.arithmetic pow) s error n = .ok t)
    (ht' : @threshold Float (Binary64.arithmetic pow) s' error n = .ok t') (above : Arith.lt t' e = true) :
    Arith.lt t e = true := by
  obtain ⟨g, hg⟩ := admitted.localGoal
  obtain ⟨g', hg'⟩ := admitted'.localGoal
  obtain ⟨f, hf, -⟩ := admitted.fraction
  obtain ⟨f', hf', -⟩ := admitted'.fraction
  have goals : g ≤ g' := (hg.le_iff hg').mp h.localGoal
  have fractions : f ≤ f' := (hf.le_iff hf').mp h.fraction
  have same : @scaling Float (Binary64.arithmetic pow) s' n = @scaling Float (Binary64.arithmetic pow) s n := by
    simp only [scaling, h.exponent]
  rcases threshold_cases ht' with ⟨none', rfl⟩ | ⟨-, total, factor, rfl, hfactor, rfl⟩
  · -- a fraction that is at most zero is zero as well
    have zero : f = 0 := le_antisymm (fractions.trans ((hf'.eq_iff Binary64.worth_zero).mp none').le) hf.nonneg
    rcases threshold_cases ht with ⟨-, rfl⟩ | ⟨some, -⟩
    · exact hg.lt_of_le hg' goals above
    · exact absurd ((hf.eq_iff Binary64.worth_zero).mpr zero) some
  · obtain ⟨term, goal⟩ := Binary64.lt_of_max hg'.isNaN above
    have right : Arith.lt s.localGoal e = true := hg.lt_of_le hg' goals goal
    rcases threshold_cases ht with ⟨-, rfl⟩ | ⟨-, _, _, ⟨⟩, hfactor', rfl⟩
    · exact right
    · obtain rfl := Except.ok.inj ((same.symm.trans hfactor).symm.trans hfactor')
      -- with an error above it the greater term is worth something, and so are its factors
      have shared := Unsigned.mul (unsigned total rfl) (.inr ⟨f', hf'⟩)
      obtain ⟨r', hr'⟩ := (shared.mul (law.scaling hfactor)).worth_of_lt term
      obtain ⟨p', k, hp', hk⟩ := shared.of_mul (law.scaling hfactor) hr'
      obtain ⟨q, _, hq, -⟩ := (unsigned total rfl).of_mul (.inr ⟨f', hf'⟩) hp'
      obtain ⟨p, hp, less⟩ := hq.mul_le hf hq hf' le_rfl fractions hp'
      obtain ⟨r, hr, le⟩ := hp.mul_le hk hp' hk less le_rfl hr'
      exact Binary64.max_lt (hr.lt_of_le hr' le term) right

end Settings

/-! ## Passes of a marker that has the mesh to itself -/

namespace Intake.Serial

variable {R : Type} [Arith R] {site : Site R W} {mesh : MeshId} (serial : Serial site mesh)
include serial

theorem total (errors : List R) (exponent : Exponent R) :
    Norm.total site mesh errors exponent = Act.check (Talk.total errors exponent).alone := by
  rw [Talk.total_alone, Norm.total, Norm.commonPeak, serial.max, pure_bind]
  cases exponent with
  | infinite => rfl
  | finite p =>
    show Norm.scaled site mesh errors (Norm.peak errors) p (Norm.root (Norm.peak errors) p) = _
    unfold Norm.scaled
    by_cases zero : Arith.eq (Norm.peak errors) Arith.zero = true
    · simp only [if_pos zero]
      rfl
    · simp only [if_neg zero, serial.sum, pure_bind]
      rfl

/-- What is left of a pass where there is nobody to agree with. -/
theorem pass (estimator : EstimatorId) (s : Settings R) : Marking.pass site mesh estimator s = (do
    let own ← Act.look (site.elements mesh)
    let delivered ← Marking.askErrors site estimator
    let errors ← Act.check (Admission.errorVector Marking.context (.int own) delivered)
    let error ← Act.check (Talk.total errors s.exponent).alone
    let threshold ← Act.check (s.threshold error own)
    let flags ← Marking.readFlags site estimator own Marking.context
    let marks := Marking.marksOf (Marking.above errors threshold) flags
    if let some error := error then Act.note (.marked marks.length own error threshold)
    return ⟨marks, threshold, error, own, marks.length⟩) := by
  unfold Marking.pass
  simp only [serial.sum, serial.count, serial.total, pure_bind]
  rfl

end Intake.Serial

namespace Marking

open Intake (Serial)

variable {R : Type} [Arith R] {site : Site R W} {mesh : MeshId} {estimator : EstimatorId}

/-- The marking comes of these errors and flags, which were delivered in the world, and of this total. -/
structure Comes (site : Site R W) (mesh : MeshId) (estimator : EstimatorId) (s : Settings R) (w : W)
    (errors : List R) (flags : Option (List Int)) (error : Option R) (v : Marking R) : Prop where
  delivered : ∃ w' w'', site.errors estimator w = .ok errors w' ∧ site.flags estimator w' = .ok flags w''
  finite : errors.all Arith.isFinite = true
  total : (Talk.total errors s.exponent).alone = .ok error
  threshold : s.threshold error (site.elements mesh w) = .ok v.threshold
  marks : v.marks = marksOf (above errors v.threshold) flags
  marked : v.marked = v.marks.length

theorem pass_comes (serial : Serial site mesh) (s : Settings R) (b : Bench R W) :
    Ends (pass site mesh estimator s) b
      (fun v _ => ∃ errors flags error, Comes site mesh estimator s b.world errors flags error v) fun _ _ => True := by
  rw [serial.pass, ends_bind, Act.ends_look, ends_bind, askErrors, ends_bind, Act.ends_record, Act.ends_ask,
    Bench.record_world]
  cases hq : site.errors estimator b.world with
  | error f w =>
    unfold Ends
    rw [hq]
    trivial
  | ok delivered w =>
    rw [ends_of_ok hq, ends_bind]
    refine Act.ends_check_of fun errors herrors => ?_
    obtain ⟨rfl, -, hfinite⟩ := Admission.errorVector_valid herrors
    rw [ends_bind]
    refine Act.ends_check_of fun error htotal => ?_
    rw [ends_bind]
    refine Act.ends_check_of fun threshold hthreshold => ?_
    rw [ends_bind]
    refine (ends_readFlags Observer.blind _ _ _ _ _).mono (fun flags t read => ?_) fun _ _ h => h
    obtain ⟨⟨w', hflags⟩, -⟩ := read
    have comes : Comes site mesh estimator s b.world errors flags error
        ⟨marksOf (above errors threshold) flags, threshold, error, site.elements mesh b.world,
          (marksOf (above errors threshold) flags).length⟩ :=
      ⟨⟨w, w', hq, hflags⟩, hfinite, htotal, hthreshold, rfl, rfl⟩
    cases error with
    | none => exact ⟨_, _, _, comes⟩
    | some x => exact ⟨_, _, _, comes⟩

theorem above_sublist {errors : List R} {t t' : R}
    (h : ∀ e, Arith.lt t' e = true → Arith.lt t e = true) : (above errors t').Sublist (above errors t) :=
  (List.monotone_filter_right _ fun _ => h _).map _

theorem Comes.sublist {s s' : Settings R} {w : W} {errors : List R} {flags : Option (List Int)} {error : Option R}
    {v v' : Marking R} (comes : Comes site mesh estimator s w errors flags error v)
    (comes' : Comes site mesh estimator s' w errors flags error v')
    (above : ∀ e, Arith.lt v'.threshold e = true → Arith.lt v.threshold e = true) :
    v'.marks.Sublist v.marks ∧ v'.marked ≤ v.marked := by
  have sublist : v'.marks.Sublist v.marks := by
    rw [comes.marks, comes'.marks, marksOf_eq, marksOf_eq]
    exact (above_sublist above).map _
  refine ⟨sublist, ?_⟩
  rw [comes.marked, comes'.marked]
  exact_mod_cast sublist.length_le

end Marking

/-! ## What does not enter a pass -/

/-- What comes of the action depends on the world alone. -/
def Worldly {R α : Type} (x : Act R W α) : Prop := Mimics (fun b b' => b.world = b'.world) x x

namespace Worldly

variable {R α β : Type} {x : Act R W α}

theorem bind {y : α → Act R W β} (hx : Worldly x) (hy : ∀ a, Worldly (y a)) : Worldly (x >>= y) :=
  Mimics.bind hx hy

theorem pure (a : α) : Worldly (Pure.pure a : Act R W α) := Mimics.pure a

theorem look (g : W → α) : Worldly (Act.look g : Act R W α) :=
  fun _ _ same => ⟨congrArg (fun w => Except.ok (g w)) same, same⟩

theorem record (e : Event R) : Worldly (Act.record e : Act R W Unit) := fun _ _ same => ⟨rfl, same⟩

theorem check (v : Except Fault α) : Worldly (Act.check v : Act R W α) := by
  cases v with
  | ok a => exact pure a
  | error f =>
    refine fun b b' same => ⟨rfl, ?_⟩
    show (b.noteFault f).world = (b'.noteFault f).world
    rw [b.noteFault_world, b'.noteFault_world, same]

theorem ask (q : EStateM Fault W α) : Worldly (Act.ask q : Act R W α) := by
  intro b b' same
  unfold outcome stateAfter Act.ask
  rw [same]
  cases q b'.world with
  | ok a w => exact ⟨rfl, rfl⟩
  | error f w => exact ⟨rfl, by simp only [Bench.noteFault_world]⟩

end Worldly

theorem Intake.Serial.worldly {R : Type} [Arith R] {site : Site R W} {mesh : MeshId} (serial : Serial site mesh)
    (estimator : EstimatorId) (s : Settings R) : Worldly (Marking.pass site mesh estimator s) := by
  rw [serial.pass]
  refine (Worldly.look _).bind fun own => ((Worldly.record _).bind fun _ => .ask _).bind fun delivered =>
    (Worldly.check _).bind fun errors => (Worldly.check _).bind fun error => (Worldly.check _).bind fun threshold => ?_
  have flags : Worldly (Marking.readFlags site estimator own Marking.context) := by
    refine (Worldly.ask _).bind fun flags => ?_
    cases flags with
    | none => exact .pure _
    | some fs => exact (Worldly.check _).bind fun _ => .pure _
  refine flags.bind fun flags => ?_
  cases error with
  | none => exact .pure _
  | some x => exact (Worldly.record _).bind fun _ => .pure _

/-- The settings are the same but for the goal for the total and the greatest number of elements. -/
structure Settings.Alike {R : Type} (s s' : Settings R) : Prop where
  exponent : s'.exponent = s.exponent
  fraction : s'.fraction = s.fraction
  localGoal : s'.localGoal = s.localGoal

/-- Both fail alike, or yes is answered where yes was. -/
def StaysMet : Except Fault Bool → Except Fault Bool → Prop
  | .ok d, .ok d' => d = true → d' = true
  | .error f, .error f' => f' = f
  | _, _ => False

section

variable {R : Type} [Arith R] {s s' : Settings R} {site : Site R W} {mesh : MeshId} {estimator : EstimatorId}

theorem Settings.Alike.pass (h : s.Alike s') :
    Marking.pass site mesh estimator s' = Marking.pass site mesh estimator s := by
  unfold Marking.pass threshold scaling
  simp only [h.exponent, h.fraction, h.localGoal]

omit [Arith R] in
theorem outcome_check {α β : Type} (x : Act R W α) (g : α → Except Fault β) (b : Bench R W) :
    outcome (x >>= fun a => Act.check (g a)) b = outcome x b >>= g := by
  cases hx : x b with
  | ok a t =>
    simp only [outcome, bind_of_ok hx, hx]
    show _ = g a
    cases g a <;> rfl
  | error f t =>
    simp only [outcome, bind_of_error hx, hx]
    rfl

/-- A marker reads the same with either settings, whether or not it still has its marking. -/
theorem Settings.Alike.read (h : s.Alike s') (serial : Intake.Serial site mesh) {k : MarkerId} {m : Marker R}
    {b : Bench R W} (hk : b.markers[k]? = some m) (hmesh : m.mesh = mesh) (hs : m.source = .threshold estimator s) :
    outcome (Marking.read site k) (b.setMarker k { m with source := .threshold estimator s' }) =
      outcome (Marking.read site k) b := by
  subst hmesh
  have hk' := Bench.setMarker_get (n := { m with source := .threshold estimator s' }) hk
  have label : m.source.label = (Source.threshold (R := R) estimator s').label := by rw [hs]; rfl
  cases hp : m.cache.probe (site.version m.mesh b.world) with
  | answer v => simp only [outcome, Marking.read_answer hk hp, Marking.read_answer hk' hp]
  | refuse =>
    have probed : ({ m with source := Source.threshold estimator s' } : Marker R).cache.probe
        (site.version m.mesh (b.setMarker k { m with source := .threshold estimator s' }).world) = .refuse := hp
    simp only [outcome, Marking.read_apply site hk, Marking.read_apply site hk', hp, probed, label]
    rfl
  | build =>
    have same := (serial.worldly estimator s (b.setMarker k { m with source := .threshold estimator s' }) b rfl).1
    simp only [outcome, Marking.read_build hk hs hp, Marking.read_build hk' rfl hp, h.pass]
    simp only [outcome] at same
    cases hx : Marking.pass site m.mesh estimator s b <;>
      cases hx' : Marking.pass site m.mesh estimator s (b.setMarker k { m with source := .threshold estimator s' }) <;>
      simp only [hx, hx'] at same ⊢ <;> exact same

end

/-- Who has a mesh to itself and tolerates more marks part of the same elements, and no more of them. The goal
    for the total and the greatest number of elements change nothing in a marking, and a criterion that is met
    stays so when the goal is raised and fewer elements are allowed. -/
theorem Marking.tolerates {pow : Float → Float → Float} (law : Nonnegative pow) {s s' : Settings Float}
    (tuned : s.Tuned) (tuned' : s'.Tuned) {site : Site Float W} {mesh : MeshId} (serial : Intake.Serial site mesh)
    (estimator : EstimatorId) (b : Bench Float W) :
    letI := Binary64.arithmetic pow
    (s.Tolerates s' → ∀ v t v' t', Marking.pass site mesh estimator s b = .ok v t →
      Marking.pass site mesh estimator s' b = .ok v' t' → v'.marks.Sublist v.marks ∧ v'.marked ≤ v.marked) ∧
    (s.Alike s' → Marking.pass site mesh estimator s' = Marking.pass site mesh estimator s ∧
      ∀ k m, b.markers[k]? = some m → m.mesh = mesh → m.source = .threshold estimator s →
        outcome (Marking.read site k) (b.setMarker k { m with source := .threshold estimator s' }) =
            outcome (Marking.read site k) b ∧
          (Arith.le s.totalGoal s'.totalGoal = true → s'.maxElements ≤ s.maxElements →
            StaysMet (outcome (Marking.stops site k) b)
              (outcome (Marking.stops site k) (b.setMarker k { m with source := .threshold estimator s' })))) := by
  let := Binary64.arithmetic pow
  constructor
  · intro more v t v' t' run run'
    obtain ⟨errors, flags, error, comes⟩ := (Marking.pass_comes serial s b).of_ok run
    obtain ⟨errors', flags', error', comes'⟩ := (Marking.pass_comes serial s' b).of_ok run'
    obtain ⟨w, w', answered, flagged⟩ := comes.delivered
    obtain ⟨w₁, w₁', answered', flagged'⟩ := comes'.delivered
    obtain ⟨rfl, rfl⟩ := EStateM.Result.ok.inj (answered.symm.trans answered')
    obtain ⟨rfl, -⟩ := EStateM.Result.ok.inj (flagged.symm.trans flagged')
    have total := comes'.total
    rw [more.exponent, comes.total] at total
    obtain rfl := Except.ok.inj total
    have unsigned (e : Float) (he : error = some e) : Unsigned e :=
      law.total comes.finite tuned.admitted.exponent (he ▸ comes.total)
    exact comes.sublist comes' fun e above => more.above law tuned.admitted tuned'.admitted unsigned
      comes.threshold comes'.threshold above
  · intro alike
    refine ⟨alike.pass, fun k m hk hmesh hs => ?_⟩
    have read := alike.read serial hk hmesh hs
    refine ⟨read, fun goal fewer => ?_⟩
    have hk' := Bench.setMarker_get (n := { m with source := .threshold estimator s' }) hk
    have stops : outcome (Marking.stops site k) b = outcome (Marking.read site k) b >>= s.stops := by
      rw [← outcome_check, outcome, Marking.stops_apply hk hs]
      rfl
    have stops' : outcome (Marking.stops site k) (b.setMarker k { m with source := .threshold estimator s' }) =
        outcome (Marking.read site k) b >>= s'.stops := by
      rw [← read, ← outcome_check, outcome, Marking.stops_apply hk' rfl]
      rfl
    rw [stops, stops']
    cases outcome (Marking.read site k) b with
    | error f => rfl
    | ok v =>
      show StaysMet (s.stops v) (s'.stops v)
      unfold Settings.stops
      cases v.totalError with
      | none => rfl
      | some e =>
        intro met
        rcases (Bool.or_eq_true _ _).mp met with within | enough
        · exact (Bool.or_eq_true _ _).mpr (.inl (Binary64.le_trans within goal))
        · exact (Bool.or_eq_true _ _).mpr (.inr (decide_eq_true (fewer.trans (of_decide_eq_true enough))))

/-! ## Four elements -/

namespace Shared

/-- The only power that is neither of one nor with exponent one: a quarter is four to the power of minus one. -/
def quarter (_ _ : Float) : Float := 0.25

theorem quarter_nonnegative : Nonnegative quarter := by
  intro x y _ _
  show ¬(0.25 : Float) < 0.0
  decide +kernel

def strict : Settings Float := { summing with fraction := 0.25 }

/-- Strict settings, but for a greater fraction. -/
def lax : Settings Float := { summing with fraction := 1.0 }

/-- Strict settings, but for a goal that is within reach. -/
def modest : Settings Float := { strict with totalGoal := 8.0 }

theorem strict_tuned : strict.Tuned := .tune (.fraction (.real 0.25)) summing_tuned trivial rfl

theorem lax_tuned : lax.Tuned := .tune (.fraction (.real 1.0)) summing_tuned trivial rfl

theorem modest_tuned : modest.Tuned := .tune (.totalGoal (.real 8.0)) strict_tuned trivial rfl

def four : Site Float (List (Quantity Float)) := giving ⟨[1.0, 2.0, 4.0, 1.0], none⟩ false

def fourth : Bench Float (List (Quantity Float)) := ⟨[], [Marker.new 0 (.threshold 0 strict)], [], []⟩

/-- A pass over the four. -/
def atFour (s : Settings Float) : Except Fault (Marking Float) :=
  letI := Binary64.arithmetic quarter
  outcome (Marking.pass four 0 0 s) fourth

set_option maxRecDepth 20000 in
theorem tolerates_of_four : letI := Binary64.arithmetic quarter
    ∃ v v', atFour strict = .ok v ∧ atFour lax = .ok v' ∧
      v.marks.map Mark.index = [0, 1, 2, 3] ∧ v'.marks.map Mark.index = [2] ∧
      v'.marks.Sublist v.marks ∧ v'.marked ≤ v.marked ∧
      outcome (Marking.stops four 0) fourth = .ok false ∧
      outcome (Marking.stops four 0) (fourth.setMarker 0 (Marker.new 0 (.threshold 0 modest))) = .ok true ∧
      StaysMet (outcome (Marking.stops four 0) fourth)
        (outcome (Marking.stops four 0) (fourth.setMarker 0 (Marker.new 0 (.threshold 0 modest)))) := by
  have all : atFour strict = .ok ⟨[⟨0, .xyz⟩, ⟨1, .xyz⟩, ⟨2, .xyz⟩, ⟨3, .xyz⟩], 0.5, some 8.0, 4, 4⟩ :=
    ok_of_toOption (by decide +kernel)
  have one : atFour lax = .ok ⟨[⟨2, .xyz⟩], 2.0, some 8.0, 4, 1⟩ := ok_of_toOption (by decide +kernel)
  have serial : Intake.Serial four 0 := fun _ => rfl
  obtain ⟨sublist, fewer⟩ := (Marking.tolerates quarter_nonnegative strict_tuned lax_tuned serial 0 fourth).1
    ⟨rfl, by decide +kernel, by decide +kernel⟩ _ _ _ _ (outcome_ok all) (outcome_ok one)
  have yields := ((Marking.tolerates quarter_nonnegative strict_tuned modest_tuned serial 0 fourth).2
    ⟨rfl, rfl, rfl⟩).2 0 _ rfl rfl rfl
  refine ⟨_, _, all, one, rfl, rfl, sublist, fewer, ?_, ?_, yields.2 (by decide +kernel) le_rfl⟩
  · rfl
  · rfl

end Shared

end Regrid
