/-
  Regrid.Proofs.Exact — marking with real numbers.

  Where numbers are real and nothing is rounded, a pass comes to what it is meant to:
  (1) The total is the norm (Σ |e|^p)^(1/p) of the errors, or the greatest |e| (`Norm.exact`).
      It is taken of errors that are divided by their peak m, and multiplied by m again; where
      m is zero, or there are no errors, it is zero either way.
  (2) A norm of n errors is at most n^(1/p) · m, so the factor n^(-1/p) brings it down to one
      error (`Settings.scaling_exact`). With a fraction less than one the threshold is below
      the greatest error, unless no error is above the local goal.
  (3) With settings that a marker takes no pass fails.
-/

import Mathlib
import Regrid.Proofs.Sharing

namespace Regrid

/-! ## Real numbers -/

open Classical in
/-- Zero to a negative power is refused, and a fractional power of a negative number is no real number. -/
noncomputable def Exact.power (x y : ℝ) : Except Fault (Option ℝ) :=
  if x = 0 ∧ y < 0 then .error .divisionByZero
  else if x < 0 ∧ ¬∃ n : ℤ, y = n then .ok none
  else .ok (some (x ^ y))

noncomputable instance : Arith ℝ where
  narrow x := x.exact
  zero := 0
  one := 1
  neg x := -x
  abs x := |x|
  add x y := x + y
  mul x y := x * y
  div x y := x / y
  lt x y := decide (x < y)
  le x y := decide (x ≤ y)
  eq x y := decide (x = y)
  isFinite _ := true
  ofInt n := .ok n
  toInt x := .ok (if 0 ≤ x then ⌊x⌋ else ⌈x⌉)
  ltInt x n := decide (x < n)
  gtInt x n := decide (n < x)
  round _ x := x
  power x y := x ^ y
  checkedPower := Exact.power

theorem Arith.exact_real : Exact ℝ := ⟨add_assoc, add_comm, zero_add⟩

instance : Magnitudes ℝ :=
  .of_rank id ⟨0, rfl, abs_zero⟩ (fun _ => decide_eq_true rfl)
    (fun ⟨x, _, hx⟩ => hx ▸ abs_nonneg x) (fun _ _ => rfl) fun _ _ h => h

namespace Arith

@[simp] theorem zero_real : (zero : ℝ) = 0 := rfl

@[simp] theorem lt_real {a b : ℝ} : lt a b = true ↔ a < b := decide_eq_true_iff

@[simp] theorem le_real {a b : ℝ} : le a b = true ↔ a ≤ b := decide_eq_true_iff

@[simp] theorem eq_real {a b : ℝ} : eq a b = true ↔ a = b := decide_eq_true_iff

theorem eq_zero_real {a : ℝ} : eq a zero = true ↔ a = 0 := decide_eq_true_iff

theorem greatest_iff {s : Set ℝ} {m : ℝ} : Greatest s m ↔ IsGreatest s m := by
  constructor
  · intro h
    exact ⟨h.mem, fun x hx => not_lt.mp (of_decide_eq_false (h.bound x hx))⟩
  · intro h
    exact ⟨h.1, fun x hx => decide_eq_false (not_lt.mpr (h.2 hx))⟩

theorem finite_real (errors : List ℝ) : errors.all isFinite = true := by simp [isFinite]

theorem max_real (a b : ℝ) : Arith.max a b = Max.max a b := by
  unfold Arith.max
  by_cases h : a < b
  · rw [if_pos (lt_real.mpr h), max_eq_right h.le]
  · rw [if_neg (mt lt_real.mp h), max_eq_left (not_lt.mp h)]

theorem min_real (a b : ℝ) : Arith.min a b = Min.min a b := by
  unfold Arith.min
  by_cases h : b < a
  · rw [if_pos (lt_real.mpr h), min_eq_right h.le]
  · rw [if_neg (mt lt_real.mp h), min_eq_left (not_lt.mp h)]

theorem sum_real (xs : List ℝ) : Arith.sum xs = xs.sum := List.sum_eq_foldl.symm

/-- Powers of magnitudes are what they are, but for those of zero that are refused. -/
theorem power_real {x y : ℝ} (hx : 0 ≤ x) (h : x = 0 → 0 ≤ y) : checkedPower x y = .ok (some (x ^ y)) := by
  have refused : ¬(x = 0 ∧ y < 0) := fun ⟨hzero, hneg⟩ => (h hzero).not_gt hneg
  have imaginary : ¬(x < 0 ∧ ¬∃ n : ℤ, y = n) := fun ⟨hneg, _⟩ => hx.not_gt hneg
  show Exact.power x y = _
  rw [Exact.power, if_neg refused, if_neg imaginary]

end Arith

/-! ## The norm -/

namespace Norm

/-- The norm as it is written, without scaling. -/
noncomputable def exact (errors : List ℝ) : Exponent ℝ → ℝ
  | .infinite => (errors.map fun e => |e|).foldr max 0
  | .finite p => (errors.map fun e => |e| ^ p).sum ^ (1 / p)

variable {errors : List ℝ} {p m : ℝ}

theorem isGreatest_peak (errors : List ℝ) :
    IsGreatest {a | a = 0 ∨ a ∈ errors.map fun e => |e|} (peak errors) :=
  Arith.greatest_iff.mp (greatest_peak (Arith.finite_real errors))

theorem abs_le_peak {e : ℝ} (h : e ∈ errors) : |e| ≤ peak errors :=
  (isGreatest_peak errors).2 (.inr (List.mem_map_of_mem h))

theorem peak_nonneg (errors : List ℝ) : 0 ≤ peak errors := (isGreatest_peak errors).2 (.inl rfl)

theorem peak_le (hm : 0 ≤ m) (h : ∀ e ∈ errors, |e| ≤ m) : peak errors ≤ m := by
  rcases (isGreatest_peak errors).1 with hzero | hmem
  · exact hzero.trans_le hm
  · obtain ⟨e, he, hpeak⟩ := List.mem_map.mp hmem
    exact hpeak ▸ h e he

theorem peak_exact (errors : List ℝ) : peak errors = exact errors .infinite := by
  refine (isGreatest_peak errors).unique ?_
  show IsGreatest {a | a = 0 ∨ a ∈ errors.map fun e => |e|} ((errors.map fun e => |e|).foldr max 0)
  induction errors.map fun e => |e| with
  | nil =>
    refine ⟨.inl rfl, ?_⟩
    rintro a (rfl | h)
    · exact le_rfl
    · cases h
  | cons x xs ih =>
    obtain ⟨mem, bound⟩ := ih
    rw [List.foldr_cons]
    constructor
    · rcases max_choice x (xs.foldr max 0) with h | h
      · rw [h]
        exact .inr List.mem_cons_self
      · rw [h]
        exact mem.imp_right (List.mem_cons_of_mem x)
    · rintro a (rfl | h)
      · exact le_max_of_le_right (bound (.inl rfl))
      · rcases List.mem_cons.mp h with rfl | h
        · exact le_max_left _ _
        · exact le_max_of_le_right (bound (.inr h))

theorem sum_nonneg {f : ℝ → ℝ} (h : ∀ e, 0 ≤ f e) : 0 ≤ (errors.map f).sum := by
  refine List.sum_nonneg fun x hx => ?_
  obtain ⟨e, -, rfl⟩ := List.mem_map.mp hx
  exact h e

theorem root_real {whole : ℝ} (hp : 0 < p) (hwhole : 0 ≤ whole) :
    root m p whole = .ok (some (m * whole ^ (1 / p))) := by
  have reciprocal : Arith.reciprocal p = .ok (1 / p) := if_neg (mt Arith.eq_zero_real.mp hp.ne')
  rw [root, reciprocal]
  show (Arith.checkedPower whole (1 / p) >>= fun r => pure (r.map (Arith.mul m))) = _
  rw [Arith.power_real hwhole fun _ => by positivity]
  rfl

/-- What is divided by m before the powers are taken is multiplied by m afterwards. -/
theorem scaled_exact (hp : 0 < p) (hm : 0 < m) :
    m * (errors.map fun e => (|e| / m) ^ p).sum ^ (1 / p) = exact errors (.finite p) := by
  have drawn : (errors.map fun e => |e| ^ p).sum = m ^ p * (errors.map fun e => (|e| / m) ^ p).sum := by
    rw [← List.sum_map_mul_left]
    congr 1
    refine List.map_congr_left fun e _ => ?_
    rw [Real.div_rpow (abs_nonneg e) hm.le, mul_div_cancel₀ _ (Real.rpow_pos_of_pos hm p).ne']
  have nonneg : 0 ≤ (errors.map fun e => (|e| / m) ^ p).sum := sum_nonneg fun e => by positivity
  rw [exact, drawn, Real.mul_rpow (by positivity) nonneg, one_div, Real.rpow_rpow_inv hm.le hp.ne']

/-- Where there is nothing to scale by, there is nothing to sum. -/
theorem exact_zero (hp : 0 < p) (h : ∀ e ∈ errors, |e| = 0) : exact errors (.finite p) = 0 := by
  have powers : (errors.map fun e => |e| ^ p).sum = 0 := by
    refine List.sum_eq_zero fun x hx => ?_
    obtain ⟨e, he, rfl⟩ := List.mem_map.mp hx
    rw [h e he, Real.zero_rpow hp.ne']
  rw [exact, powers, Real.zero_rpow (by positivity)]

/-- The norm of n errors is at most n^(1/p) times what bounds each of them. -/
theorem exact_le (hp : 0 < p) (hm : 0 ≤ m) (h : ∀ e ∈ errors, |e| ≤ m) :
    exact errors (.finite p) ≤ (errors.length : ℝ) ^ (1 / p) * m := by
  have powers : (errors.map fun e => |e| ^ p).sum ≤ errors.length * m ^ p := by
    have bound := List.sum_le_card_nsmul (errors.map fun e => |e| ^ p) (m ^ p) fun x hx => by
      obtain ⟨e, he, rfl⟩ := List.mem_map.mp hx
      exact Real.rpow_le_rpow (abs_nonneg e) (h e he) hp.le
    simpa using bound
  calc exact errors (.finite p)
      ≤ (errors.length * m ^ p) ^ (1 / p) :=
        Real.rpow_le_rpow (sum_nonneg fun e => by positivity) powers (by positivity)
    _ = (errors.length : ℝ) ^ (1 / p) * m := by
      rw [Real.mul_rpow (by positivity) (by positivity), one_div, Real.rpow_rpow_inv hm hp.ne']

end Norm

namespace Talk

/-- The norm of all errors, whatever signs they have and however many there are. -/
theorem total_exact (errors : List ℝ) {exponent : Exponent ℝ} (positive : ∀ p, exponent = .finite p → 0 < p) :
    (total errors exponent).alone = .ok (some (Norm.exact errors exponent)) := by
  have peak : (commonPeak errors).alone = .ok (Norm.peak errors) := rfl
  rw [total, alone_bind, peak]
  cases exponent with
  | infinite =>
    rw [← Norm.peak_exact]
    rfl
  | finite p =>
    have hp := positive p rfl
    show (scaled errors (Norm.peak errors) p).alone = _
    by_cases hm : Norm.peak errors = 0
    · have none : ∀ e ∈ errors, |e| = 0 := by
        intro e he
        exact le_antisymm (hm ▸ Norm.abs_le_peak he) (abs_nonneg e)
      rw [scaled, if_pos (Arith.eq_zero_real.mpr hm), Norm.exact_zero hp none, hm]
      rfl
    · have hpos : 0 < Norm.peak errors := lt_of_le_of_ne (Norm.peak_nonneg errors) (Ne.symm hm)
      have sum : Norm.powerSum errors (Norm.peak errors) p = (errors.map fun e => (|e| / Norm.peak errors) ^ p).sum :=
        Arith.sum_real _
      have nonneg : 0 ≤ (errors.map fun e => (|e| / Norm.peak errors) ^ p).sum :=
        Norm.sum_nonneg fun e => by positivity
      have root : Norm.root (Norm.peak errors) p (Norm.powerSum errors (Norm.peak errors) p) =
          .ok (some (Norm.exact errors (.finite p))) := by
        rw [sum, Norm.root_real hp nonneg, Norm.scaled_exact hp hpos]
      rw [scaled, if_neg (mt Arith.eq_zero_real.mp hm)]
      exact root

end Talk

/-! ## The threshold -/

/-- The settings that a marker takes, but for the fraction one. -/
structure Settings.Accepted (s : Settings ℝ) : Prop where
  exponent : ∀ p, s.exponent = .finite p → 0 < p
  totalGoal : 0 ≤ s.totalGoal
  nonneg : 0 ≤ s.fraction
  below : s.fraction < 1
  localGoal : 0 ≤ s.localGoal
  maxElements : 1 ≤ s.maxElements

/-- An error that none exceeds. -/
def Greatest (errors : List ℝ) (e : ℝ) : Prop := e ∈ errors ∧ ∀ e' ∈ errors, e' ≤ e

namespace Settings

variable {s : Settings ℝ} {errors : List ℝ}

/-- Without elements the factor would be zero to a negative power; it is zero. -/
theorem scaling_finite {p : ℝ} (hs : s.exponent = .finite p) (hp : 0 < p) (n : Nat) :
    s.scaling n = .ok (if n = 0 then 0 else (n : ℝ) ^ (-1 / p)) := by
  rw [scaling, hs]
  by_cases hn : n = 0
  · simp [hn]
  · have power : Arith.checkedPower (n : ℝ) (-1 / p) = .ok (some ((n : ℝ) ^ (-1 / p))) :=
      Arith.power_real n.cast_nonneg fun hzero => absurd (Nat.cast_eq_zero.mp hzero) hn
    have positive : (0 : Int) < n := by omega
    simp only [positive, if_true, hn, if_false, mt Arith.eq_zero_real.mp hp.ne']
    show (Arith.checkedPower (((n : ℤ) : ℝ)) (-1 / p) >>= needReal) = _
    rw [Int.cast_natCast, power]
    rfl

/-- The factor brings a norm to the size of one error: no more than what bounds each of them. -/
theorem scaling_exact (accepted : s.Accepted) (errors : List ℝ) :
    ∃ factor, s.scaling errors.length = .ok factor ∧
      ∀ m, 0 ≤ m → (∀ e ∈ errors, |e| ≤ m) → Norm.exact errors s.exponent * factor ≤ m := by
  cases hs : s.exponent with
  | infinite =>
    refine ⟨1, by rw [scaling, hs]; rfl, fun m hm h => ?_⟩
    rw [mul_one, ← Norm.peak_exact]
    exact Norm.peak_le hm h
  | finite p =>
    have hp := accepted.exponent p hs
    refine ⟨_, scaling_finite hs hp errors.length, fun m hm h => ?_⟩
    by_cases hn : errors.length = 0
    · rw [if_pos hn, mul_zero]
      exact hm
    · have positive : (0 : ℝ) < errors.length := Nat.cast_pos.mpr (Nat.pos_of_ne_zero hn)
      rw [if_neg hn]
      calc Norm.exact errors (.finite p) * (errors.length : ℝ) ^ (-1 / p)
          ≤ (errors.length : ℝ) ^ (1 / p) * m * (errors.length : ℝ) ^ (-1 / p) := by
            gcongr
            exact Norm.exact_le hp hm h
        _ = m * ((errors.length : ℝ) ^ (1 / p) * (errors.length : ℝ) ^ (-1 / p)) := by ring
        _ = m := by rw [← Real.rpow_add positive, neg_div, add_neg_cancel, Real.rpow_zero, mul_one]

/-- The threshold is at least the local goal. An error above the goal that none exceeds is above the threshold. -/
theorem threshold_exact (accepted : s.Accepted) (nonneg : ∀ e ∈ errors, 0 ≤ e) :
    ∃ threshold, s.threshold (some (Norm.exact errors s.exponent)) errors.length = .ok threshold ∧
      s.localGoal ≤ threshold ∧ ∀ e, Greatest errors e → s.localGoal < e → threshold < e := by
  unfold threshold
  by_cases hf : s.fraction = 0
  · rw [if_pos (Arith.eq_zero_real.mpr hf)]
    exact ⟨_, rfl, le_rfl, fun e _ h => h⟩
  · rw [if_neg (mt Arith.eq_zero_real.mp hf)]
    obtain ⟨factor, hfactor, bound⟩ := scaling_exact accepted errors
    rw [hfactor]
    refine ⟨_, rfl, ?_, ?_⟩
    · rw [Arith.max_real]
      exact le_max_right _ _
    · rintro e ⟨he, greatest⟩ hgoal
      rw [Arith.max_real]
      have positive : 0 < e := accepted.localGoal.trans_lt hgoal
      have size := bound e positive.le fun e' he' => (abs_of_nonneg (nonneg e' he')).trans_le (greatest e' he')
      refine max_lt ?_ hgoal
      calc Norm.exact errors s.exponent * s.fraction * factor
          = Norm.exact errors s.exponent * factor * s.fraction := by ring
        _ ≤ e * s.fraction := mul_le_mul_of_nonneg_right size accepted.nonneg
        _ < e := mul_lt_of_lt_one_right positive accepted.below

end Settings

/-! ## A pass -/

/-- What the marking of all elements comes to. -/
structure Settings.Sound (s : Settings ℝ) (whole : Part ℝ) (v : Marking ℝ) : Prop where
  total : v.totalError = some (Norm.exact whole.errors s.exponent)
  elements : v.elements = whole.errors.length
  marks : v.marks = Marking.marksOf (Marking.above whole.errors v.threshold) whole.flags
  goal : s.localGoal ≤ v.threshold
  greatest : ∀ e, Greatest whole.errors e → s.localGoal < e → v.threshold < e

/-- With settings that a marker takes no pass fails. -/
theorem Talk.pass_exact {s : Settings ℝ} (accepted : s.Accepted) {whole : Part ℝ}
    (nonneg : ∀ e ∈ whole.errors, 0 ≤ e) : ∃ v, (Talk.pass whole s).alone = .ok v ∧ s.Sound whole v := by
  obtain ⟨threshold, hthreshold, goal, greatest⟩ := Settings.threshold_exact accepted nonneg
  have total := Talk.total_exact whole.errors accepted.exponent
  simp only [pass, alone_bind, agree_alone, check_alone, total]
  simp only [Bind.bind, Except.bind, Number.toInt, hthreshold]
  exact ⟨_, rfl, rfl, rfl, rfl, goal, greatest⟩

end Regrid
