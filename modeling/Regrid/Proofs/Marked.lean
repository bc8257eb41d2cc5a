/-
  Regrid.Proofs.Marked — what a pass of a threshold marker marks.

  Of any pass that returns, whatever was delivered and whoever shares the mesh:
  (1) The marks are, in order, exactly the elements with an error above the threshold, each
      with the directions of its flag, or all where there are no flags (`Settings.Marks`). There
      is a flag for each element: errors and flags are as many as the mesh has elements.
  (2) An error above the threshold is above the local goal. The threshold is the greater of the
      goal and the global term, and where the term is no number, nothing is above it; a local
      goal that was admitted is a number.
  (3) The number of marked elements is what a sum over the marks of all workers comes to:
      their sum where the communicator is honest, and the own marks where there is none.

  For (3) a pass that returns is read as a talk that took place, on whatever reductions it
  entered. It falls into what is done before flags are asked for and what is done then
  (`Marking.measure`, `Marking.choose`).
-/

import Regrid.Proofs.Sharing
import Regrid.Proofs.Tuned

namespace Regrid

/-! ## The order of binary64 numbers -/

namespace Binary64

open Float.Model (UnpackedFloat)
open Float.Model.UnpackedFloat

/-- Where a number stands among all: the infinities are outermost, zero is in the middle, and the others
    follow each other by exponent and then by mantissa, backwards below zero. -/
def place : UnpackedFloat → ℤ ×ₗ ℤ ×ₗ ℤ
  | .infinity .positive => toLex (2, toLex (0, 0))
  | .infinity .negative => toLex (-2, toLex (0, 0))
  | .finite .positive k t _ => toLex (1, toLex (t, k))
  | .finite .negative k t _ => toLex (-1, toLex (-t, -k))
  | .zero _ | .notANumber => toLex (0, toLex (0, 0))

section

variable {u v : UnpackedFloat} {x y z : Float}

theorem compare_place (hu : u.isNaN = false) (hv : v.isNaN = false) :
    (u.compare v = some .lt ↔ place u < place v) ∧ (u.compare v = some .gt ↔ place v < place u) := by
  have signs : compare Sign.negative Sign.positive = .lt ∧ compare Sign.negative Sign.negative = .eq ∧
      compare Sign.positive Sign.positive = .eq ∧ compare Sign.positive Sign.negative = .gt := by decide
  have less {k k' : ℕ} {t t' : ℤ} : (compare t t').then (compare k k') = .lt ↔ t < t' ∨ t = t' ∧ k < k' := by
    rw [Ordering.then_eq_lt, compare_lt_iff_lt, compare_lt_iff_lt, compare_eq_iff_eq]
  have more {k k' : ℕ} {t t' : ℤ} : (compare t t').then (compare k k') = .gt ↔ t' < t ∨ t = t' ∧ k' < k := by
    rw [Ordering.then_eq_gt, compare_gt_iff_gt, compare_gt_iff_gt, compare_eq_iff_eq]
  cases u with
  | notANumber => cases hu
  | infinity s | zero s | finite s _ _ _ =>
    cases v with
    | notANumber => cases hv
    | infinity s' | zero s' | finite s' _ _ _ =>
      cases s <;> cases s' <;>
        simp [UnpackedFloat.compare, place, Prod.Lex.toLex_lt_toLex, signs, less, more] <;>
        omega

theorem lt_iff_place : Arith.lt x y = true ↔
    x.isNaN = false ∧ y.isNaN = false ∧ place x.toModel.unpack < place y.toModel.unpack := by
  show decide (decide (x.toModel.unpack.lt y.toModel.unpack = true) = true) = true ↔
    x.toModel.unpack.isNaN = false ∧ y.toModel.unpack.isNaN = false ∧ _
  generalize x.toModel.unpack = u
  generalize y.toModel.unpack = v
  simp only [decide_eq_true_eq, UnpackedFloat.lt, beq_iff_eq]
  constructor
  · intro h
    have numbers : u.isNaN = false ∧ v.isNaN = false := by
      cases u <;> cases v <;> first | exact ⟨rfl, rfl⟩ | cases h
    exact ⟨numbers.1, numbers.2, (compare_place numbers.1 numbers.2).1.mp h⟩
  · rintro ⟨hu, hv, h⟩
    exact (compare_place hu hv).1.mpr h

theorem not_lt_of_le (h : Arith.le x y = true) : Arith.lt y x = false := by
  have h : decide (decide (x.toModel.unpack.le y.toModel.unpack = true) = true) = true := h
  by_contra less
  obtain ⟨hy, hx, before⟩ := lt_iff_place.mp (Bool.not_eq_false _ ▸ less)
  simp only [decide_eq_true_eq, UnpackedFloat.le, (compare_place hx hy).2.mpr before] at h
  cases h

/-- What is above a number that is not below another is above the other as well. -/
theorem lt_of_not_lt (hy : y.isNaN = false) (h : Arith.lt x y = false) (above : Arith.lt x z = true) :
    Arith.lt y z = true := by
  obtain ⟨hx, hz, further⟩ := lt_iff_place.mp above
  have before := mt (fun lt => lt_iff_place.mpr ⟨hx, hy, lt⟩) (Bool.eq_false_iff.mp h)
  exact lt_iff_place.mpr ⟨hy, hz, (not_lt.mp before).trans_lt further⟩

end

end Binary64

/-! ## Marks -/

variable {W : Type} {n : Nat}

/-- The directions an element is split in: those of its flag, and all where there are no flags. -/
inductive Directed : Option (List Int) → Nat → Directions → Prop
  | anyway (i : Nat) : Directed none i Directions.xyz
  | flagged {fs : List Int} {i : Nat} {f : Int} : fs[i]? = some f → Directed (some fs) i (Directions.ofInt f)

/-- The marks are the elements with an error above the threshold, and these are above the local goal. -/
structure Settings.Marks (s : Settings Float) (part : Part Float) (v : Marking Float) : Prop where
  increasing : (v.marks.map Mark.index).Pairwise (· < ·)
  exactly : ∀ mark, mark ∈ v.marks ↔ ∃ (i : Nat) (e : Float), part.errors[i]? = some e ∧
    Arith.lt v.threshold e = true ∧ mark.index = i ∧ Directed part.flags i mark.directions
  /-- A flag is there for whoever is marked. -/
  directed : ∀ i < part.errors.length, ∃ d, Directed part.flags i d
  goal : ∀ e ∈ part.errors, Arith.lt v.threshold e = true → Arith.lt s.localGoal e = true
  nothing : (∀ e ∈ part.errors, Arith.le e s.localGoal = true) → v.marks = []

namespace Marking

variable {R : Type}

/-- What a pass knows when it comes to ask for flags. -/
structure Measured (R : Type) where
  own : Int
  errors : List R
  elements : Int
  error : Option R
  threshold : R

variable [Arith R] (site : Site R W) (mesh : MeshId) (estimator : EstimatorId)

/-- What a pass does before it asks for flags. -/
def measure (s : Settings R) : Act R W (Measured R) := do
  let own ← Act.look (site.elements mesh)
  let delivered ← askErrors site estimator
  let errors ← Act.check (Admission.errorVector context (.int own) delivered)
  let elements ← Act.check (← Collective.sum site mesh (.int own)).toInt
  let error ← Norm.total site mesh errors s.exponent
  let threshold ← Act.check (s.threshold error elements)
  return ⟨own, errors, elements, error, threshold⟩

/-- What it does from there on. -/
def choose (m : Measured R) : Act R W (Marking R) := do
  let flags ← readFlags site estimator m.own context
  let marks := marksOf (above m.errors m.threshold) flags
  let marked ← Act.check (← Collective.count site mesh marks.length).toInt
  if let some error := m.error then Act.note (.marked marked m.elements error m.threshold)
  return ⟨marks, m.threshold, m.error, m.elements, marked⟩

theorem pass_eq (s : Settings R) :
    pass site mesh estimator s = measure site mesh estimator s >>= choose site mesh estimator := by
  simp only [pass, measure, bind_assoc, pure_bind]
  rfl

end Marking

/-- What an estimator delivers to a pass, as much as the mesh has elements. For flags it is asked when all else
    is known, in the world as it is then. -/
structure Delivered (site : Site Float W) (mesh : MeshId) (estimator : EstimatorId) (s : Settings Float)
    (b : Bench Float W) (part : Part Float) : Prop where
  elements : site.elements mesh b.world = part.errors.length
  errors : ∃ w, site.errors estimator b.world = .ok part.errors w
  flags : ∃ w, site.flags estimator (stateAfter (Marking.measure site mesh estimator s) b).world = .ok part.flags w
  valid : part.Valid

namespace Settings

variable {s : Settings Float} {part : Part Float} {v : Marking Float}

/-- Above the threshold is above the local goal, whatever the global term is. -/
theorem goal_of_threshold {error : Option Float} {elements : Int} {t e : Float} (goal : s.localGoal.isNaN = false)
    (h : s.threshold error elements = .ok t) (above : Arith.lt t e = true) : Arith.lt s.localGoal e = true := by
  unfold threshold at h
  split at h
  · cases h
    exact above
  · obtain ⟨factor, -, h⟩ := ok_of_bind h
    obtain ⟨whole, -, h⟩ := ok_of_bind h
    cases h
    unfold Arith.max at above
    split at above
    · exact above
    · exact Binary64.lt_of_not_lt goal (Bool.eq_false_iff.mpr ‹_›) above

theorem directed_at (valid : part.Valid) {i : Nat} (hi : i < part.errors.length) {d : Directions} :
    Directed part.flags i d ↔ d = Marking.directionsAt part.flags i := by
  have sized := valid.flags
  cases hf : part.flags with
  | none => exact ⟨fun h => by cases h; rfl, fun h => h ▸ .anyway i⟩
  | some fs =>
    have inside : i < fs.length := by
      have := sized fs hf
      omega
    have there : fs[i]? = some fs[i] := List.getElem?_eq_getElem inside
    constructor
    · rintro ⟨⟩
      rename_i f hflag
      rw [Marking.directionsAt, hflag, Option.getD_some]
    · intro h
      rw [h, Marking.directionsAt, there, Option.getD_some]
      exact .flagged there

theorem marks_of_threshold (goal : s.localGoal.isNaN = false) (valid : part.Valid) {error : Option Float}
    {elements : Int} (threshold : s.threshold error elements = .ok v.threshold)
    (marks : v.marks = Marking.marksOf (Marking.above part.errors v.threshold) part.flags) : s.Marks part v := by
  have exactly (mark : Mark) : mark ∈ v.marks ↔ ∃ (i : Nat) (e : Float), part.errors[i]? = some e ∧
      Arith.lt v.threshold e = true ∧ mark.index = i ∧ Directed part.flags i mark.directions := by
    rw [marks, Marking.marksOf_eq, List.mem_map]
    constructor
    · rintro ⟨i, hi, rfl⟩
      obtain ⟨e, he, above⟩ := Marking.mem_above.mp hi
      exact ⟨i, e, he, above, rfl, (directed_at valid (Marking.above_inside hi)).mpr rfl⟩
    · rintro ⟨i, e, he, above, hindex, directed⟩
      have hi := Marking.mem_above.mpr ⟨e, he, above⟩
      refine ⟨i, hi, ?_⟩
      rw [← hindex, ← (directed_at valid (Marking.above_inside hi)).mp directed]
  have further (e : Float) (_ : e ∈ part.errors) := goal_of_threshold (e := e) goal threshold
  refine ⟨?_, exactly, fun i hi => ⟨_, (directed_at valid hi).mpr rfl⟩, further, fun small => ?_⟩
  · rw [marks]
    exact (Marking.marksOf_wellFormed part.errors v.threshold part.flags).increasing
  · refine List.eq_nil_iff_forall_not_mem.mpr fun mark hmark => ?_
    obtain ⟨i, e, he, above, -⟩ := (exactly mark).mp hmark
    have mem := List.mem_of_getElem? he
    have beyond := further e mem above
    rw [Binary64.not_lt_of_le (small e mem)] at beyond
    cases beyond

end Settings

/-! ## Reductions of a pass -/

namespace Observer

variable {R α β : Type} {o : Observer R W}

/-- The action returns only with reductions that show like this. -/
def Leaves (o : Observer R W) (x : Act R W α) (P : α → List (Reduced R) → Prop) : Prop :=
  ∀ b, Ends x b (fun a t => ∃ log, o.shows log b t ∧ P a log) fun _ _ => True

namespace Leaves

variable {x : Act R W α} {P P' : α → List (Reduced R) → Prop}

theorem mono (h : o.Leaves x P) (hP : ∀ a log, P a log → P' a log) : o.Leaves x P' :=
  fun b => (h b).mono (fun a _ ⟨log, shown, ha⟩ => ⟨log, shown, hP a log ha⟩) fun _ _ h => h

theorem bind {y : α → Act R W β} {Q : β → List (Reduced R) → Prop} (hx : o.Leaves x P)
    (hy : ∀ a log, P a log → o.Leaves (y a) fun c log' => Q c (log ++ log')) : o.Leaves (x >>= y) Q := by
  intro b
  rw [ends_bind]
  refine (hx b).mono (fun a t ⟨log, shown, ha⟩ => ?_) fun _ _ h => h
  refine (hy a log ha t).mono (fun c u ⟨log', shown', hc⟩ => ?_) fun _ _ h => h
  exact ⟨log ++ log', o.append shown shown', hc⟩

theorem ends {b : Bench R W} {Q : α → Bench R W → Prop} (h : o.Leaves x P)
    (hP : ∀ a t log, o.shows log b t → P a log → Q a t) : Ends x b Q fun _ _ => True :=
  (h b).mono (fun a t ⟨log, shown, ha⟩ => hP a t log shown ha) fun _ _ h => h

theorem pure (a : α) : o.Leaves (Pure.pure a) fun c log => c = a ∧ log = [] :=
  fun _ => ⟨[], o.nothing rfl, rfl, rfl⟩

theorem check (v : Except Fault α) : o.Leaves (Act.check v) fun a log => v = .ok a ∧ log = [] :=
  match v with
  | .ok _ => fun _ => ⟨[], o.nothing rfl, rfl, rfl⟩
  | .error _ => fun _ => trivial

theorem record {e : Event R} (h : e.reduced? = none) : o.Leaves (Act.record e) fun _ log => log = [] :=
  fun b => ⟨[], o.nothing (by simp [h]), rfl⟩

theorem ask (q : EStateM Fault W α) : o.Leaves (Act.ask q) fun a log => (∃ w w', q w = .ok a w') ∧ log = [] := by
  intro b
  rw [Act.ends_ask]
  unfold Ends
  cases hq : q b.world with
  | ok a w => exact ⟨[], o.nothing rfl, ⟨_, _, hq⟩, rfl⟩
  | error f w => trivial

end Leaves

/-- A reduction shows as what was put in and what came of it. -/
def Reduces (o : Observer R W) (site : Site R W) (mesh : MeshId) : Prop :=
  ∀ op own, o.Leaves (Collective.reduce site mesh op own) fun q log => log = [⟨op, own, q⟩]

/-- Whoever does not look at reductions. -/
def blind : Observer R W where
  here _ := True
  shows _ _ _ := True
  nothing _ := trivial
  append _ _ := trivial

theorem reduces_blind (site : Site R W) (mesh : MeshId) : blind.Reduces site mesh :=
  fun _ _ _ => ends_true.mono (fun _ _ _ => ⟨_, trivial, rfl⟩) fun _ _ h => h

/-- With a communicator it is noted. -/
theorem reduces_notes {site : Site R W} {mesh : MeshId} (connected : ∀ w, site.isConnected mesh w = true) :
    (notes fun _ => True).Reduces site mesh := by
  intro op own b
  cases hq : site.allreduce mesh op own b.world with
  | ok q w =>
    rw [ends_of_ok (reduce_apply (connected b.world) hq)]
    exact ⟨_, b.reductions_reduced mesh op own q w, rfl⟩
  | error f w =>
    have looked : Act.look (site.isConnected mesh) b = .ok true b := by rw [Act.look_apply, connected]
    rw [Collective.reduce, ends_bind, ends_of_ok looked, if_pos rfl]
    simp only [ends_bind, Act.ends_call, Act.ends_ask, Bench.record_world]
    unfold Ends
    rw [hq]
    trivial

/-- Without one what was put in comes back. -/
theorem reduces_alone {site : Site R W} {mesh : MeshId} (unconnected : ∀ w, site.isConnected mesh w = false) :
    (alone fun _ => True).Reduces site mesh := by
  intro op own b
  have looked : Act.look (site.isConnected mesh) b = .ok false b := by rw [Act.look_apply, unconnected]
  rw [Collective.reduce, ends_bind, ends_of_ok looked]
  exact ⟨_, List.forall_mem_singleton.mpr rfl, rfl⟩

end Observer

section

variable {R : Type} [Arith R] {o : Observer R W} {site : Site R W} {mesh : MeshId}

/-- How often powers are summed once the peak is agreed on. -/
def Norm.sums (exponent : Exponent R) (m : Quantity R) : Nat :=
  match exponent, m.value.toReal with
  | .finite _, .ok x => if Arith.eq x Arith.zero then 0 else 1
  | _, _ => 0

theorem Norm.sums_finite {p x : R} {m : Quantity R} (hm : m.value.toReal = .ok x) :
    sums (.finite p) m = if Arith.eq x Arith.zero then 0 else 1 := by
  simp only [sums, hm]

theorem leaves_sum (reduces : o.Reduces site mesh) (own : Number R) :
    o.Leaves (Collective.sum site mesh own) fun a log => ∃ q, a = q.value ∧ log = [⟨.sum, .number own, q⟩] := by
  refine (reduces .sum _).bind fun q log hlog => (Observer.Leaves.pure q.value).mono fun a log' h => ?_
  exact ⟨q, h.1, by rw [hlog, h.2, List.append_nil]⟩

theorem leaves_max (reduces : o.Reduces site mesh) (own : Number R) :
    o.Leaves (Collective.max site mesh own) fun a log => ∃ q, a = q.value ∧ log = [⟨.max, .number own, q⟩] := by
  refine (reduces .max _).bind fun q log hlog => (Observer.Leaves.pure q.value).mono fun a log' h => ?_
  exact ⟨q, h.1, by rw [hlog, h.2, List.append_nil]⟩

theorem leaves_total (reduces : o.Reduces site mesh) (errors : List R) (exponent : Exponent R) :
    o.Leaves (Norm.total site mesh errors exponent) fun _ log =>
      ∃ m more, log = ⟨.max, .real (Norm.peak errors), m⟩ :: more ∧ more.length = Norm.sums exponent m := by
  have peak : o.Leaves (Norm.commonPeak site mesh errors) fun a log =>
      ∃ m, m.value.toReal = .ok a ∧ log = [⟨.max, .real (Norm.peak errors), m⟩] := by
    refine (leaves_max reduces _).bind fun v log ⟨m, hm, hlog⟩ => (Observer.Leaves.check _).mono fun a log' h => ?_
    exact ⟨m, hm ▸ h.1, by rw [hlog, h.2, List.append_nil]⟩
  refine peak.bind fun a log ⟨m, hm, hlog⟩ => ?_
  subst hlog
  cases exponent with
  | infinite => exact (Observer.Leaves.pure _).mono fun _ log' h => ⟨m, log', rfl, by rw [h.2]; rfl⟩
  | finite p =>
    show o.Leaves (Norm.scaled site mesh errors a p (Norm.root a p)) _
    unfold Norm.scaled
    by_cases hzero : Arith.eq a Arith.zero = true
    · rw [if_pos hzero]
      refine (Observer.Leaves.pure _).mono fun _ log' h => ⟨m, log', rfl, ?_⟩
      rw [h.2, Norm.sums_finite hm, if_pos hzero]
      rfl
    · rw [if_neg hzero]
      refine (leaves_sum reduces _).bind fun whole log₁ ⟨q, _, h₁⟩ => (Observer.Leaves.check _).bind fun _ log₂ h₂ =>
        (Observer.Leaves.check _).mono fun _ log₃ h₃ => ?_
      rw [h₁, h₂.2, h₃.2]
      refine ⟨m, _, rfl, ?_⟩
      rw [Norm.sums_finite hm, if_neg hzero]
      rfl

end

/-! ## Passes -/

namespace Marking

/-- The reductions of a pass that has returned: the elements, the peak, maybe the powers, and the marks. -/
def Reductions (exponent : Exponent Float) (part : Part Float) (v : Marking Float) (log : List (Reduced Float)) :
    Prop :=
  ∃ count m more q, log = ⟨.sum, .int part.errors.length, count⟩ :: ⟨.max, .real (Norm.peak part.errors), m⟩ ::
      (more ++ [⟨.sum, .int v.marks.length, q⟩]) ∧
    more.length = Norm.sums exponent m ∧ q.value.toInt = .ok v.marked

/-- Flags that pass are what was delivered, one for each element. -/
theorem ends_readFlags {R : Type} (o : Observer R W) (site : Site R W) (estimator : EstimatorId) (elements : Int)
    (context : String) (b : Bench R W) :
    Ends (readFlags site estimator elements context) b
      (fun flags t => (∃ w, site.flags estimator b.world = .ok flags w) ∧ ValidFlags elements flags ∧ o.shows [] b t)
      fun _ _ => True := by
  rw [readFlags, ends_bind, Act.ends_ask]
  cases hq : site.flags estimator b.world with
  | error f w =>
    unfold Ends
    rw [hq]
    trivial
  | ok flags w =>
    rw [ends_of_ok hq]
    cases flags with
    | none => exact ⟨⟨w, rfl⟩, nofun, o.nothing rfl⟩
    | some fs =>
      rw [ends_bind]
      refine Act.ends_check_of fun gs passed => ?_
      obtain ⟨_, hsize, same⟩ := ok_of_bind passed
      cases same
      refine ⟨⟨w, rfl⟩, fun gs hgs => ?_, o.nothing rfl⟩
      cases hgs
      exact Admission.checkSize_length hsize

/-- What is known has come of the errors that were delivered in the world, by these reductions. -/
structure Measured.Comes (site : Site Float W) (mesh : MeshId) (estimator : EstimatorId) (s : Settings Float) (w : W)
    (m : Measured Float) (log : List (Reduced Float)) : Prop where
  own : m.own = site.elements mesh w
  errors : ∃ w', site.errors estimator w = .ok m.errors w'
  valid : ValidErrors m.own m.errors
  threshold : s.threshold m.error m.elements = .ok m.threshold
  reductions : ∃ count peak more, log = ⟨.sum, .int m.errors.length, count⟩ ::
    ⟨.max, .real (Norm.peak m.errors), peak⟩ :: more ∧ more.length = Norm.sums s.exponent peak

section

variable {o : Observer Float W} {site : Site Float W} {mesh : MeshId}

variable (reduces : o.Reduces site mesh) (estimator : EstimatorId)
include reduces

theorem ends_measure (s : Settings Float) (b : Bench Float W) :
    Ends (measure site mesh estimator s) b
      (fun m t => ∃ log, o.shows log b t ∧ m.Comes site mesh estimator s b.world log) fun _ _ => True := by
  rw [measure, ends_bind, Act.ends_look, ends_bind, askErrors, ends_bind, Act.ends_record, Act.ends_ask,
    Bench.record_world]
  cases hq : site.errors estimator b.world with
  | error f w =>
    unfold Ends
    rw [hq]
    trivial
  | ok delivered w =>
    rw [ends_of_ok hq, ends_bind]
    refine Act.ends_check_of fun errors herrors => ?_
    obtain ⟨rfl, hlength, hfinite⟩ := Admission.errorVector_valid herrors
    have nothing : o.shows [] b { b.record (.estimate estimator) with world := w } := o.nothing rfl
    refine Observer.Leaves.ends (P := Measured.Comes site mesh estimator s b.world) ?_ fun m t log shown comes =>
      ⟨log, o.append nothing shown, comes⟩
    refine (leaves_sum reduces _).bind fun c log₁ ⟨count, _, h₁⟩ => ?_
    refine (Observer.Leaves.check _).bind fun elements log₂ h₂ => ?_
    refine (leaves_total reduces _ _).bind fun error log₃ ⟨peak, more, h₃, hmore⟩ => ?_
    refine (Observer.Leaves.check _).bind fun threshold log₄ h₄ => (Observer.Leaves.pure _).mono fun m log h => ?_
    obtain ⟨rfl, rfl⟩ := h
    refine ⟨rfl, ⟨w, hq⟩, ⟨hlength, hfinite⟩, h₄.1, count, peak, more, ?_, hmore⟩
    rw [h₁, h₂.2, h₃, h₄.2, List.append_nil, List.append_nil, hlength]
    rfl

theorem ends_choose (m : Measured Float) (b : Bench Float W) :
    Ends (choose site mesh estimator m) b
      (fun v t => ∃ flags q, (∃ w, site.flags estimator b.world = .ok flags w) ∧ ValidFlags m.own flags ∧
        v.threshold = m.threshold ∧ v.marks = marksOf (above m.errors m.threshold) flags ∧
        o.shows [⟨.sum, .int v.marks.length, q⟩] b t ∧ q.value.toInt = .ok v.marked) fun _ _ => True := by
  rw [choose, ends_bind]
  refine (ends_readFlags o site estimator _ _ b).mono (fun flags t ⟨answered, suit, before⟩ => ?_) fun _ _ h => h
  refine Observer.Leaves.ends (o := o) (P := fun v log => ∃ q, v.threshold = m.threshold ∧
    v.marks = marksOf (above m.errors m.threshold) flags ∧ log = [⟨.sum, .int v.marks.length, q⟩] ∧
    q.value.toInt = .ok v.marked) ?_ ?_
  · refine (leaves_sum reduces _).bind fun d log₁ ⟨q, hd, h₁⟩ => ?_
    refine (Observer.Leaves.check _).bind fun marked log₂ h₂ => ?_
    cases m.error with
    | none =>
      refine (Observer.Leaves.pure _).mono fun v log h => ?_
      obtain ⟨rfl, rfl⟩ := h
      exact ⟨q, rfl, rfl, by rw [h₁, h₂.2]; rfl, hd ▸ h₂.1⟩
    | some e =>
      refine (Observer.Leaves.record rfl).bind fun _ log₃ h₃ => (Observer.Leaves.pure _).mono fun v log h => ?_
      obtain ⟨rfl, rfl⟩ := h
      exact ⟨q, rfl, rfl, by rw [h₁, h₂.2, h₃]; rfl, hd ▸ h₂.1⟩
  · rintro v u log shown ⟨q, threshold, marks, hlog, marked⟩
    exact ⟨flags, q, answered, suit, threshold, marks, o.append before (hlog ▸ shown), marked⟩

/-- What a pass does that returns. -/
theorem pass_leaves {s : Settings Float} (goal : s.localGoal.isNaN = false) (b : Bench Float W) :
    Ends (pass site mesh estimator s) b
      (fun v t => ∃ part log, Delivered site mesh estimator s b part ∧ s.Marks part v ∧ o.shows log b t ∧
        Reductions s.exponent part v log) (fun _ _ => True) := by
  rw [pass_eq, ends_bind]
  cases run : measure site mesh estimator s b with
  | error f t => exact (ends_of_error run).mpr trivial
  | ok m t =>
    obtain ⟨log, before, comes⟩ := (ends_measure reduces estimator s b).of_ok run
    obtain ⟨count, peak, more, hlog, hmore⟩ := comes.reductions
    refine (ends_of_ok run).mpr ((ends_choose reduces estimator m t).mono ?_ fun _ _ h => h)
    rintro v u ⟨flags, q, answered, suit, threshold, marks, after, marked⟩
    have valid : Part.Valid ⟨m.errors, flags⟩ := ⟨⟨rfl, comes.valid.2⟩, comes.valid.1 ▸ suit⟩
    have left : stateAfter (measure site mesh estimator s) b = t := by rw [stateAfter, run]
    have delivered : Delivered site mesh estimator s b ⟨m.errors, flags⟩ :=
      ⟨comes.own.symm.trans comes.valid.1.symm, comes.errors, left ▸ answered, valid⟩
    refine ⟨⟨m.errors, flags⟩, _, delivered, ?_, o.append before after, count, peak, more, q, ?_, hmore, marked⟩
    · exact Settings.marks_of_threshold goal valid (threshold ▸ comes.threshold) (threshold ▸ marks)
    · rw [hlog]
      rfl

end

/-- Over an honest communicator all have counted the marks of all. -/
theorem marked_of_honest (exponent : Exponent Float) {parts : Fin n → Part Float} {v : Fin n → Marking Float}
    {logs : Fin n → List (Reduced Float)} (valid : ∀ i, (parts i).Valid)
    (reductions : ∀ i, Reductions exponent (parts i) (v i) (logs i)) (honest : Honest logs) (i : Fin n) :
    (v i).marked = ∑ j, ((v j).marks.length : Int) := by
  choose count m more q hlog hmore hmarked using reductions
  have peaks := honest 1 .max _ m fun j => by rw [hlog j]; rfl
  have each (j : Fin n) := (valid j).errors.2
  -- all have agreed on one peak, so all have reduced powers or none has
  have agreed (j : Fin n) : m j = m i := by
    have inside (k : Fin n) (a : Float) (ha : a ∈ Norm.magnitudes (parts k).errors) :=
      Norm.magnitude_of_mem (each k) ha
    obtain ⟨x, hx, greatest⟩ := (peaks j).max _ inside fun k => Norm.greatest_peak (each k)
    obtain ⟨y, hy, greatest'⟩ := (peaks i).max _ inside fun k => Norm.greatest_peak (each k)
    rw [hx, hy, greatest.unique (fun a ha => ha.elim fun k hk => inside k a hk.2) greatest']
  have marks := honest (more i).length.succ.succ .sum (fun j => .int (v j).marks.length) q fun j => by
    have same : (more j).length = (more i).length := by rw [hmore j, hmore i, agreed j]
    rw [hlog j, List.getElem?_cons_succ, List.getElem?_cons_succ, ← same, List.getElem?_concat_length]
  have total := (marks i).sum_int
  have hi := hmarked i
  rw [total] at hi
  exact (Except.ok.inj hi).symm

/-- Marks are exactly the elements above the threshold, with the directions of their flags, and all of them
    are above the local goal. A marker counts the marks of all workers: its own where there is no
    communicator, and over an honest one what all of them have marked. -/
theorem marks_above_threshold {s : Fin n → Settings Float} (tuned : ∀ i, (s i).Tuned)
    {site : Fin n → Site Float W} {mesh : MeshId} {estimator : EstimatorId} {b t : Fin n → Bench Float W}
    {v : Fin n → Marking Float} (runs : ∀ i, pass (site i) mesh estimator (s i) (b i) = .ok (v i) (t i)) :
    (∀ i, ∃ part, Delivered (site i) mesh estimator (s i) (b i) part ∧ (s i).Marks part (v i)) ∧
    (∀ i, (∀ w, (site i).isConnected mesh w = false) → (v i).marked = (v i).marks.length) ∧
    ((∀ i w, (site i).isConnected mesh w = true) →
      (∀ i, ∃ q, (t i).reductions.getLast? = some ⟨.sum, .int (v i).marks.length, q⟩ ∧
        q.value.toInt = .ok (v i).marked) ∧
      ((∀ i j, (s i).exponent = (s j).exponent) → (∀ i j, (b i).reductions.length = (b j).reductions.length) →
        Honest (fun i => (t i).reductions) → ∀ i, (v i).marked = ∑ j, ((v j).marks.length : Int))) := by
  have goal (i : Fin n) : (s i).localGoal.isNaN = false := by
    obtain ⟨q, worth⟩ := (tuned i).admitted.localGoal
    exact worth.isNaN
  refine ⟨fun i => ?_, fun i unconnected => ?_, fun connected => ?_⟩
  · obtain ⟨part, log, delivered, marks, -⟩ :=
      (pass_leaves (Observer.reduces_blind _ _) estimator (goal i) (b i)).of_ok (runs i)
    exact ⟨part, delivered, marks⟩
  · obtain ⟨part, log, -, -, own, count, m, more, q, rfl, -, hmarked⟩ :=
      (pass_leaves (Observer.reduces_alone unconnected) estimator (goal i) (b i)).of_ok (runs i)
    have last : q = .int (v i).marks.length := own ⟨.sum, .int (v i).marks.length, q⟩ (by simp)
    rw [last] at hmarked
    exact (Except.ok.inj hmarked).symm
  · choose part log delivered _ shown reductions using fun i =>
      (pass_leaves (Observer.reduces_notes (connected i)) estimator (goal i) (b i)).of_ok (runs i)
    have shown (i : Fin n) : (t i).reductions = (b i).reductions ++ log i := shown i
    refine ⟨fun i => ?_, fun same level honest i => ?_⟩
    · obtain ⟨count, m, more, q, hlog, -, hmarked⟩ := reductions i
      refine ⟨q, ?_, hmarked⟩
      rw [shown, hlog, ← List.cons_append, ← List.cons_append, ← List.append_assoc, List.getLast?_concat]
    · simp only [shown] at honest
      refine marked_of_honest (s i).exponent (fun j => (delivered j).valid) (fun j => ?_)
        (honest.of_append level) i
      rw [same i j]
      exact reductions j

end Marking

/-! ## Three workers, one without elements -/

namespace Shared

def markedByThree : Fin 3 → Marking Float
  | 0 => ⟨[⟨1, .y⟩], 0.75, some 1.5, 3, 2⟩
  | 1 => ⟨[], 0.75, some 1.5, 3, 2⟩
  | 2 => ⟨[⟨0, .z⟩], 0.75, some 1.5, 3, 2⟩

set_option maxRecDepth 20000 in
theorem marks_above_threshold_of_three :
    (∀ i, outcome (Marking.pass ((three (0.25 : Float) 1.5 1).site i) 0 0 Settings.default) (start maximumRounds) =
      .ok (markedByThree i)) ∧
    (∃ part, Delivered ((three (0.25 : Float) 1.5 1).site 0) 0 0 Settings.default (start maximumRounds) part ∧
      Settings.default.Marks part (markedByThree 0)) ∧
    ∀ i, (markedByThree i).marked = ∑ j, ((markedByThree j).marks.length : Int) := by
  have outcomes (i : Fin 3) : outcome (Marking.pass ((three (0.25 : Float) 1.5 1).site i) 0 0 Settings.default)
      (start maximumRounds) = .ok (markedByThree i) := by
    match i with
    | 0 | 1 | 2 => rfl
  have honest := three_honest (0.25 : Float) 1.5 1 Settings.default maximumRounds_come fun i => by
    match i with
    | 0 | 1 | 2 => rfl
  obtain ⟨marks, -, shared⟩ := Marking.marks_above_threshold (fun _ => .default) fun i => outcome_ok (outcomes i)
  exact ⟨outcomes, marks 0, (shared fun _ _ => rfl).2 (fun _ _ => rfl) (fun _ _ => rfl) honest⟩

end Shared

end Regrid
