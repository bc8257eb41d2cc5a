/-
  Regrid.Proofs.Range — how far totals and thresholds stay within the range.

  Errors are divided by their peak before powers are taken. So no power is above one, and their
  sum is from one up to the number n of the errors (`powerSum_worth`). Nothing scales what
  follows: the sum is raised to 1/p, and then multiplied by the peak.
  (1) Where n^(1/p) times the peak is within the range (`Fits`), total and threshold are finite.
      From p = 1 on it is enough that n times the peak is (`fits_of_one_le`), and with the
      maximum norm there is no condition.
  (2) Past that a total may be infinite, though all errors and their norm are numbers of the
      format (`sum_past_range`); or the root is refused, which no exponent from one on brings
      about. An exponent that vanished when it was stored has no reciprocal (`Rootless`), and
      the division is refused. A total is never NaN, and never below the peak.

  The machine's power is looked at through what is known of it (`Powers`): a power of finite
  numbers is less than one unit in the last place from that of real numbers, and one with an
  infinite exponent is zero or infinite. Such powers there are (`powers_real`).
-/

import Regrid.Proofs.Sharing
import Regrid.Proofs.Tuned

namespace Regrid

variable {R W : Type}

/-! ## Passes alone -/

namespace Talk

variable [Arith R]

theorem total_alone (errors : List R) (exponent : Exponent R) :
    (total errors exponent).alone = match exponent with
      | .infinite => .ok (some (Norm.peak errors))
      | .finite p =>
        if Arith.eq (Norm.peak errors) Arith.zero then .ok (some (Norm.peak errors))
        else Norm.root (Norm.peak errors) p (Norm.powerSum errors (Norm.peak errors) p) := by
  cases exponent with
  | infinite => rfl
  | finite p =>
    show (scaled errors (Norm.peak errors) p).alone = _
    unfold scaled
    split <;> rfl

section

variable {part : Part R} {s : Settings R}

theorem pass_alone {error : Option R} {t : R} (found : (total part.errors s.exponent).alone = .ok error)
    (threshold : s.threshold error part.errors.length = .ok t) :
    ∃ v, (pass part s).alone = .ok v ∧ v.totalError = error ∧ v.threshold = t := by
  simp only [pass, alone_bind, agree_alone, check_alone, found]
  simp only [Bind.bind, Except.bind, Number.toInt, threshold]
  exact ⟨_, rfl, rfl, rfl⟩

theorem pass_alone_error {f : Fault} (refused : (total part.errors s.exponent).alone = .error f) :
    (pass part s).alone = .error f := by
  simp only [pass, alone_bind, agree_alone, check_alone, refused]
  rfl

theorem pass_alone_refused {error : Option R} {f : Fault} (found : (total part.errors s.exponent).alone = .ok error)
    (refused : s.threshold error part.errors.length = .error f) : (pass part s).alone = .error f := by
  simp only [pass, alone_bind, agree_alone, check_alone, found]
  simp only [Bind.bind, Except.bind, Number.toInt, refused]

end

end Talk

namespace Binary64

open Float.Model (UnpackedFloat Format)
open Float.Model.UnpackedFloat

/-! ## Infinity and negative numbers -/

section

variable {x y : Float} {p q : ℚ}

theorem not_worth_neg (hx : Worth x p) : ¬(Worth (Arith.neg x) q ∧ 0 < q) := by
  rintro ⟨worth, positive⟩
  unfold Worth at hx worth
  rw [unpack_neg] at worth
  generalize x.toModel.unpack = w at hx worth
  cases hx with
  | zero s =>
    cases worth
    exact lt_irrefl _ positive
  | finite hk proper high => cases worth

theorem infinity_unpack : infinity.toModel.unpack = .infinity .positive := rfl

theorem eq_infinity (h : x.toModel.unpack = .infinity .positive) : x = infinity :=
  unpack_injective (h.trans infinity_unpack.symm)

theorem le_infinity (hx : Worth x p) : Arith.le x infinity = true := by
  show decide (decide (x.toModel.unpack.le (.infinity .positive) = true) = true) = true
  unfold Worth at hx
  generalize x.toModel.unpack = w at hx
  cases hx <;> rfl

theorem mul_infinity (hx : Worth x p) (hp : p ≠ 0) : Arith.mul x infinity = infinity := by
  refine eq_infinity ((unpack_mul x infinity).trans ?_)
  rw [infinity_unpack]
  unfold Worth at hx
  generalize x.toModel.unpack = w at hx
  cases hx with
  | zero s => exact absurd rfl hp
  | finite hk proper high => exact unpack_infinity

end

/-! ## Numbers for whatever an operation comes to -/

theorem exists_worth {r : ℚ} (h : Representable r) : ∃ x, Worth x r := by
  obtain ⟨n, e, small, low, high, rfl⟩ := h
  rcases Nat.eq_zero_or_pos n with rfl | hn
  · exact ⟨Arith.zero, by simpa using worth_zero⟩
  · obtain ⟨k, t, proper, nearest, -, holds⟩ := round_nearest (s := .positive) hn e
    obtain ⟨x, kept⟩ : ∃ x : Float, x.toModel.unpack = unpack Format.binary64 (pack Format.binary64
        (UnpackedFloat.round Format.binary64 .positive n e)) := ⟨⟨Float.Model.pack _⟩, rfl⟩
    exact ⟨x, (Rounded.of_nearest kept proper nearest holds).exactly ⟨n, e, small, low, high, rfl⟩⟩

theorem finite_representable : {r | Representable r}.Finite := by
  have pairs := (Set.finite_Iio (2 ^ 53 : ℕ)).prod (Set.finite_Icc (-1074 : ℤ) 971)
  refine (pairs.image fun m => (m.1 : ℚ) * 2 ^ m.2).subset ?_
  rintro r ⟨n, e, small, low, high, rfl⟩
  exact ⟨(n, e), ⟨small, low, high⟩, rfl⟩

theorem exists_rounded {z : ℝ} (hz : 0 ≤ z) : ∃ x, Rounded x z := by
  by_cases past : ∀ v, Representable v → (v : ℝ) < z
  · exact ⟨infinity, .inl ⟨infinity_unpack, past⟩⟩
  · -- the greatest number of the format that is not above
    obtain ⟨r, ⟨hr, below⟩, greatest⟩ :=
      (finite_representable.subset fun r (h : Representable r ∧ (r : ℝ) ≤ z) => h.1).exists_maximal
        ⟨0, representable_zero, by simpa using hz⟩
    obtain ⟨x, worth⟩ := exists_worth hr
    refine ⟨x, .inr ⟨r, worth, fun v hv => ⟨fun le => Rat.cast_le.mp (below.trans le), fun le => ?_⟩⟩⟩
    exact le_of_not_gt fun less => absurd (greatest ⟨hv, le⟩ less.le) (not_le.mpr less)

/-! ## Powers -/

/-- The number is a power of two others: less than one unit in the last place from that of real numbers, and
    zero or infinite with an infinite exponent. -/
structure Power (x y r : Float) : Prop where
  positive {p q : ℚ} : Worth x p → Worth y q → Rounded r ((p : ℝ) ^ (q : ℝ))
  negative {p q : ℚ} : Worth x p → 0 < p → Worth (Arith.neg y) q → 0 < q → Rounded r ((p : ℝ) ^ (-(q : ℝ)))
  infinite {p : ℚ} : Worth x p → 1 < p → y.toModel.unpack = .infinity .positive → r = infinity
  vanishing {p : ℚ} : Worth x p → 1 < p → y.toModel.unpack = .infinity .negative → Worth r 0

/-- What is known of the machine's power, of numbers that are not below zero. -/
def Powers (pow : Float → Float → Float) : Prop := ∀ x y, Power x y (pow x y)

theorem exists_power (x y : Float) : ∃ r, Power x y r := by
  by_cases base : ∃ p, Worth x p
  swap
  · exact ⟨x, ⟨fun hx => absurd ⟨_, hx⟩ base, fun hx => absurd ⟨_, hx⟩ base, fun hx => absurd ⟨_, hx⟩ base,
      fun hx => absurd ⟨_, hx⟩ base⟩⟩
  obtain ⟨p, hp⟩ := base
  have nonneg : (0 : ℝ) ≤ p := by exact_mod_cast hp.nonneg
  by_cases positive : ∃ q, Worth y q
  · obtain ⟨q, hq⟩ := positive
    obtain ⟨r, rounded⟩ := exists_rounded (Real.rpow_nonneg nonneg (q : ℝ))
    refine ⟨r, ⟨fun hx hy => ?_, fun _ _ hy hpos => absurd ⟨hy, hpos⟩ (not_worth_neg hq),
      fun _ _ hy => absurd hq (not_worth_of_infinity hy), fun _ _ hy => absurd hq (not_worth_of_infinity hy)⟩⟩
    rw [hx.unique hp, hy.unique hq]
    exact rounded
  by_cases negative : ∃ q, Worth (Arith.neg y) q
  · obtain ⟨q, hq⟩ := negative
    obtain ⟨r, rounded⟩ := exists_rounded (Real.rpow_nonneg nonneg (-(q : ℝ)))
    have bounded {s : Sign} (hy : y.toModel.unpack = .infinity s) : False := by
      refine not_worth_of_infinity (x := Arith.neg y) (s := -s) ?_ hq
      rw [unpack_neg, hy]
      rfl
    refine ⟨r, ⟨fun _ hy => absurd ⟨_, hy⟩ positive, fun hx _ hy _ => ?_, fun _ _ hy => (bounded hy).elim,
      fun _ _ hy => (bounded hy).elim⟩⟩
    rw [hx.unique hp, hy.unique hq]
    exact rounded
  by_cases infinite : y.toModel.unpack = .infinity .positive
  · refine ⟨infinity, ⟨fun _ hy => absurd ⟨_, hy⟩ positive, fun _ _ hy _ => absurd ⟨_, hy⟩ negative,
      fun _ _ _ => rfl, fun _ _ hy => ?_⟩⟩
    rw [infinite] at hy
    cases hy
  · exact ⟨Arith.zero, ⟨fun _ hy => absurd ⟨_, hy⟩ positive, fun _ _ hy _ => absurd ⟨_, hy⟩ negative,
      fun _ _ hy => absurd hy infinite, fun _ _ _ => worth_zero⟩⟩

/-- The power of real numbers, as a number of the format. -/
noncomputable def realPower (x y : Float) : Float := (exists_power x y).choose

theorem powers_real : Powers realPower := fun x y => (exists_power x y).choose_spec

/-- The number is worth at most this. -/
def UpTo (v : ℚ) (x : Float) : Prop := ∃ r, Worth x r ∧ r ≤ v

/-- An exponent that is not above zero. -/
inductive Sinks (y : Float) : Prop
  | zero : Worth y 0 → Sinks y
  | negative {q : ℚ} : Worth (Arith.neg y) q → 0 < q → Sinks y
  | infinite : y.toModel.unpack = .infinity .negative → Sinks y

section

variable {pow : Float → Float → Float} {x y : Float} {p q r : ℚ}

theorem beq_one (hx : Worth x p) : (x == 1.0) = true ↔ p = 1 := hx.eq_iff worth_one

/-- What equals one is worth something. -/
theorem worth_of_beq (h : (y == 1.0) = true) : Worth y 1 := by
  have equal : y.toModel.unpack.beq (1.0 : Float).toModel.unpack = true := h
  have worth : ∃ q, Worth y q := by
    cases hu : y.toModel.unpack with
    | zero s => exact ⟨0, worth_of_zero hu⟩
    | notANumber =>
      rw [hu] at equal
      cases equal
    | infinity s =>
      rw [hu] at equal
      cases s <;> cases equal
    | finite s k t hk =>
      cases s with
      | positive => exact ⟨_, worth_of_finite hu⟩
      | negative =>
        rw [hu] at equal
        cases equal
  obtain ⟨q, hq⟩ := worth
  rwa [(beq_one hq).mp h] at hq

theorem power_of_one (hx : Worth x 1) (y : Float) : Worth (power pow x y) 1 := by
  unfold power
  split
  · exact hx
  · rw [if_pos ((beq_one hx).mpr rfl)]
    exact worth_one

theorem power_machine (hx : Worth x p) (hp : 1 < p) (hy : ¬Worth y 1) : power pow x y = pow x y := by
  have unit : ¬(x == 1.0) = true := fun h => hp.ne' ((beq_one hx).mp h)
  rw [power, if_neg fun h => hy (worth_of_beq h), if_neg unit]

variable (laws : Powers pow)
include laws

theorem rounded_power (hx : Worth x p) (hy : Worth y q) : Rounded (power pow x y) ((p : ℝ) ^ (q : ℝ)) := by
  unfold power
  by_cases one : (y == 1.0) = true
  · rw [if_pos one, (beq_one hy).mp one, Rat.cast_one, Real.rpow_one]
    exact .of_worth hx
  · rw [if_neg one]
    by_cases unit : (x == 1.0) = true
    · rw [if_pos unit, (beq_one hx).mp unit, Rat.cast_one, Real.one_rpow]
      exact_mod_cast Rounded.of_worth worth_one
    · rw [if_neg unit]
      exact (laws x y).positive hx hy

/-- A number from one on is at most one to such a power. -/
theorem power_sinks (hx : Worth x p) (hp : 1 ≤ p) (hy : Sinks y) : UpTo 1 (power pow x y) := by
  rcases eq_or_lt_of_le hp with rfl | more
  · exact ⟨1, power_of_one hx y, le_rfl⟩
  cases hy with
  | zero hy =>
    refine (rounded_power laws hx hy).le representable_one ?_
    rw [Rat.cast_zero, Real.rpow_zero, Rat.cast_one]
  | negative hy positive =>
    rw [power_machine hx more fun one => not_worth_neg one ⟨hy, positive⟩]
    refine ((laws x y).negative hx (one_pos.trans more) hy positive).le representable_one ?_
    rw [Rat.cast_one]
    exact Real.rpow_le_one_of_one_le_of_nonpos (by exact_mod_cast hp) (by exact_mod_cast neg_nonpos.mpr positive.le)
  | infinite hy =>
    rw [power_machine hx more (not_worth_of_infinity hy)]
    exact ⟨0, (laws x y).vanishing hx more hy, zero_le_one⟩

theorem power_infinite (hx : Worth x p) (hp : 1 < p) (hy : y.toModel.unpack = .infinity .positive) :
    power pow x y = infinity := by
  rw [power_machine hx hp (not_worth_of_infinity hy)]
  exact (laws x y).infinite hx hp hy

end

/-! ## Powers that are refused -/

section

variable {pow : Float → Float → Float} {x y : Float} {p r : ℚ} (hx : Worth x p) (hp : p ≠ 0)
include hx hp

theorem checkedPower_eq : checkedPower pow x y = (finitePower pow x y).map some := by
  have zero : (x == 0.0) = false := Bool.eq_false_iff.mpr (mt (hx.eq_iff worth_zero).mp hp)
  have below : decide (x < 0.0) = false := Bool.eq_false_iff.mpr (mt (hx.lt_iff worth_zero).mp hx.nonneg.not_gt)
  simp only [checkedPower, zero, below, Bool.false_and, Bool.false_eq_true, if_false]

/-- A power that is a number is not refused. -/
theorem checkedPower_of_worth (h : Worth (power pow x y) r) : checkedPower pow x y = .ok (some (power pow x y)) := by
  rw [checkedPower_eq hx hp, finitePower]
  simp only [h.isInf, Bool.false_and, Bool.false_eq_true, if_false]
  rfl

/-- An infinite power is refused if the exponent is finite. -/
theorem checkedPower_of_infinite (h : power pow x y = infinity) :
    checkedPower pow x y = if y.isFinite then .error .powerOverflow else .ok (some infinity) := by
  have isInf : infinity.isInf = true := rfl
  have finite : x.isFinite = true := hx.isFinite
  rw [checkedPower_eq hx hp, finitePower]
  simp only [h, isInf, finite, Bool.true_and]
  cases y.isFinite <;> rfl

end

/-! ## Reciprocals -/

section

variable {p : Float} {q : ℚ} (hp : Worth p q) (hq : q ≠ 0)
include hp hq

theorem reciprocal_rounded : Rounded (Arith.div Arith.one p) (1 / q : ℚ) := worth_one.div hp hq

theorem reciprocal_le_one (one : 1 ≤ q) : UpTo 1 (Arith.div Arith.one p) :=
  (reciprocal_rounded hp hq).le representable_one (by exact_mod_cast (div_le_one (hp.pos hq)).mpr one)

theorem sinks_reciprocal : Sinks (Arith.div (Arith.neg Arith.one) p) := by
  have kept := unpack_div (Arith.neg Arith.one) p
  obtain ⟨k, t, hk, one⟩ : ∃ (k : ℕ) (t : ℤ) (hk : 0 < k),
      (Float.toModel (Arith.neg Arith.one)).unpack = .finite .negative k t hk := ⟨_, _, _, rfl⟩
  rw [one] at kept
  unfold Worth at hp
  generalize p.toModel.unpack = u at kept hp
  cases hp with
  | zero s => exact absurd rfl hq
  | @finite n e hn proper high =>
    obtain ⟨k', t', proper, -, holds⟩ := div_nearest (s := .negative) (t := t) (e := e) hk hn
    have result : UnpackedFloat.div Format.binary64 (.finite .negative k t hk) (.finite .positive n e hn) =
        roundWithAccuracy Format.binary64 .negative (divCore Format.binary64 k t n e).1
          (divCore Format.binary64 k t n e).2.1 (divCore Format.binary64 k t n e).2.2 := rfl
    rw [result] at kept
    generalize roundWithAccuracy Format.binary64 .negative _ _ _ = w at kept holds
    cases holds with
    | zero _ => exact .zero (Worth.of_zero kept)
    | finite hk' =>
      rw [unpack_pack_finite proper hk'] at kept
      split at kept
      · refine .negative (q := k' * 2 ^ t') ?_ (by positivity)
        unfold Worth
        rw [unpack_neg, kept]
        exact .finite hk' proper ‹_›
      · exact .infinite kept

end

/-! ## Sums of powers -/

section

variable {pow : Float → Float → Float} {errors : List Float} {p : Float} {μ q : ℚ}

/-- The peak is worth the greatest of what the magnitudes are worth. -/
theorem peak_worth (finite : errors.all Arith.isFinite = true) : ∃ μ, Worth (Norm.peak errors) μ ∧
    (∀ e ∈ errors, ∃ a, Worth (Arith.abs e) a ∧ a ≤ μ) ∧ (μ ≠ 0 → ∃ e ∈ errors, Worth (Arith.abs e) μ) := by
  have worth {a : Float} (ha : a ∈ Norm.magnitudes errors) : ∃ r, Worth a r :=
    worth_of_absolute (absolute_of_magnitude (Norm.magnitude_of_mem finite ha))
  have greatest := Norm.greatest_peak finite
  obtain ⟨μ, hμ⟩ := worth greatest.mem
  refine ⟨μ, hμ, fun e he => ?_, fun some => ?_⟩
  · have mem : Arith.abs e ∈ Norm.magnitudes errors := .inr (List.mem_map_of_mem he)
    obtain ⟨a, ha⟩ := worth mem
    exact ⟨a, ha, not_lt.mp (mt (hμ.lt_iff ha).mpr (Bool.eq_false_iff.mp (greatest.bound _ mem)))⟩
  · rcases greatest.mem with none | mem
    · rw [none] at hμ
      exact absurd (hμ.unique worth_zero) some
    · obtain ⟨e, he, same⟩ := List.mem_map.mp mem
      exact ⟨e, he, same ▸ hμ⟩

/-- A sum of numbers up to one is at most how many they are, and at least one if one of them is. -/
theorem sum_worth {xs : List Float} {acc : Float} {a : ℚ} {k : ℕ} (hacc : Worth acc a) (bound : a ≤ k)
    (each : ∀ x ∈ xs, UpTo 1 x) (few : k + xs.length < 2 ^ 53) :
    ∃ σ, Worth (xs.foldl Arith.add acc) σ ∧ σ ≤ k + xs.length ∧ ((1 ≤ a ∨ ∃ x ∈ xs, Worth x 1) → 1 ≤ σ) := by
  induction xs generalizing acc a k with
  | nil => exact ⟨a, hacc, by simpa using bound, by simp⟩
  | cons x xs ih =>
    obtain ⟨⟨r, hx, most⟩, rest⟩ := List.forall_mem_cons.mp each
    rw [List.length_cons] at few
    have next : Representable ((k + 1 : ℕ) : ℚ) := representable_nat (by omega)
    have more : a + r ≤ (k + 1 : ℕ) := by
      push_cast
      exact add_le_add bound most
    have sum := hacc.add hx
    obtain ⟨b, hb, upper⟩ := sum.le next (by exact_mod_cast more)
    obtain ⟨σ, hσ, top, least⟩ := ih hb upper rest (by omega)
    refine ⟨σ, hσ, ?_, fun one => least ?_⟩
    · rw [List.length_cons]
      push_cast at top ⊢
      linarith
    · -- what has come to one stays there, since one is a number of the format
      have reached (h : 1 ≤ a + r) : 1 ≤ b := by
        obtain ⟨b', hb', lower, -⟩ := sum.between representable_one next (by exact_mod_cast h) (by exact_mod_cast more)
        rwa [hb'.unique hb] at lower
      rcases one with one | ⟨y, hy, one⟩
      · exact .inl (reached (one.trans (le_add_of_nonneg_right hx.nonneg)))
      · rcases List.mem_cons.mp hy with rfl | hy
        · refine .inl (reached ?_)
          rw [hx.unique one]
          exact le_add_of_nonneg_left hacc.nonneg
        · exact .inr ⟨y, hy, one⟩

/-- Relative to the peak no power is above one, and that of the peak is one. -/
theorem powerSum_worth (laws : Powers pow) (finite : errors.all Arith.isFinite = true)
    (few : errors.length < 2 ^ 53) (hm : Worth (Norm.peak errors) μ) (some : μ ≠ 0) (hp : Worth p q) :
    ∃ σ, Worth (@Norm.powerSum Float (arithmetic pow) errors (Norm.peak errors) p) σ ∧ 1 ≤ σ ∧ σ ≤ errors.length := by
  obtain ⟨μ', hμ, each, attained⟩ := peak_worth finite
  obtain rfl := hμ.unique hm
  have positive := hm.pos some
  have powers (x : Float) (hx : x ∈ errors.map fun e => power pow (Arith.div (Arith.abs e) (Norm.peak errors)) p) :
      UpTo 1 x := by
    obtain ⟨e, he, rfl⟩ := List.mem_map.mp hx
    obtain ⟨a, ha, most⟩ := each e he
    obtain ⟨r, hr, unit⟩ := (ha.div hm some).le representable_one
      (by exact_mod_cast (div_le_one positive).mpr most)
    refine (rounded_power laws hr hp).le representable_one ?_
    rw [Rat.cast_one]
    exact Real.rpow_le_one (by exact_mod_cast hr.nonneg) (by exact_mod_cast unit) (by exact_mod_cast hp.nonneg)
  have one : ∃ x ∈ errors.map fun e => power pow (Arith.div (Arith.abs e) (Norm.peak errors)) p, Worth x 1 := by
    obtain ⟨e, he, top⟩ := attained some
    have quotient := top.div hm some
    rw [div_self some] at quotient
    exact ⟨_, List.mem_map_of_mem he, power_of_one (quotient.exactly representable_one) p⟩
  obtain ⟨σ, hσ, most, least⟩ := sum_worth (k := 0) worth_zero le_rfl powers (by simpa using few)
  exact ⟨σ, hσ, least (.inr one), by simpa using most⟩

end

/-! ## Totals -/

/-- As many units as there are errors, to the power `y` that 1/p is rounded to, and times the peak, are within
    the range. Nothing is asked of the maximum norm, or where all errors are zero. -/
inductive Fits : Exponent Float → List Float → Prop
  | maximum {errors : List Float} : Fits .infinite errors
  | zero {exponent : Exponent Float} {errors : List Float} : Worth (Norm.peak errors) 0 → Fits exponent errors
  | root {p : Float} {errors : List Float} {y μ a v : ℚ} : Worth (Arith.div Arith.one p) y →
      Worth (Norm.peak errors) μ → Representable a → (errors.length : ℝ) ^ (y : ℝ) ≤ a → Representable v → a * μ ≤ v →
      Fits (.finite p) errors

/-- Already the root of so many units is past the range. -/
def Past (p : Float) (n : ℕ) : Prop :=
  ∃ y, Worth (Arith.div Arith.one p) y ∧ ∀ v : ℚ, Representable v → (v : ℝ) < (n : ℝ) ^ (y : ℝ)

/-- What a total can turn out to be. -/
inductive Found (exponent : Exponent Float) (errors : List Float) : Except Fault (Option Float) → Prop
  | number {t : Float} {r μ : ℚ} : Worth t r → Worth (Norm.peak errors) μ → μ ≤ r → Found exponent errors (.ok (some t))
  | infinite : ¬Fits exponent errors → Found exponent errors (.ok (some infinity))
  | refused {p : Float} : ¬Fits exponent errors → exponent = .finite p → Past p errors.length →
      Found exponent errors (.error .powerOverflow)
  | undefined {p : Float} : exponent = .finite p → Worth p 0 → Found exponent errors (.error .divisionByZero)

section

variable {pow : Float → Float → Float} {errors : List Float} {m p σ : Float} {μ q s v : ℚ} {n : ℕ}

/-- With some error that is not zero, what fits is within the range as a root, and times the peak. -/
theorem Fits.bounds (h : Fits (.finite p) errors) (hm : Worth (Norm.peak errors) μ) (some : μ ≠ 0) :
    ∃ y a v : ℚ, Worth (Arith.div Arith.one p) y ∧ Representable a ∧ (errors.length : ℝ) ^ (y : ℝ) ≤ a ∧
      Representable v ∧ a * μ ≤ v := by
  cases h with
  | zero none => exact absurd (hm.unique none) some
  | root hy hm' ha root hv product =>
    rw [hm'.unique hm] at product
    exact ⟨_, _, _, hy, ha, root, hv, product⟩

/-- From the first power on it is enough that as many times the peak as there are errors is within the range. -/
theorem fits_of_one_le (few : errors.length < 2 ^ 53) (hp : Worth p q) (one : 1 ≤ q) (hm : Worth (Norm.peak errors) μ)
    (hv : Representable v) (product : errors.length * μ ≤ v) : Fits (.finite p) errors := by
  obtain ⟨y, hy, unit⟩ := reciprocal_le_one hp (one_pos.trans_le one).ne' one
  rcases Nat.eq_zero_or_pos errors.length with none | some
  · obtain rfl := List.length_eq_zero_iff.mp none
    exact .zero worth_zero
  · refine .root hy hm (representable_nat few) ?_ hv product
    calc (errors.length : ℝ) ^ (y : ℝ) ≤ (errors.length : ℝ) ^ (1 : ℝ) :=
          Real.rpow_le_rpow_of_exponent_le (by exact_mod_cast some) (by exact_mod_cast unit)
      _ = ((errors.length : ℚ) : ℝ) := by simp

theorem Past.lt_one (h : Past p n) (few : n < 2 ^ 53) (hp : Worth p q) : q < 1 := by
  obtain ⟨y, hy, past⟩ := h
  by_contra less
  have one : 1 ≤ q := not_lt.mp less
  obtain ⟨y', hy', unit⟩ := reciprocal_le_one hp (one_pos.trans_le one).ne' one
  rw [hy'.unique hy] at unit
  refine absurd (past (max n 1) ?_) (not_lt.mpr ?_)
  · exact_mod_cast representable_nat (max_lt few (by decide))
  · push_cast
    calc (n : ℝ) ^ (y : ℝ) ≤ max (n : ℝ) 1 ^ (y : ℝ) :=
          Real.rpow_le_rpow (by positivity) (le_max_left _ _) (by exact_mod_cast hy.nonneg)
      _ ≤ max (n : ℝ) 1 ^ (1 : ℝ) :=
          Real.rpow_le_rpow_of_exponent_le (le_max_right _ _) (by exact_mod_cast unit)
      _ = max (n : ℝ) 1 := Real.rpow_one _

theorem root_eq (hp : Worth p q) (hq : q ≠ 0) : @Norm.root Float (arithmetic pow) m p σ =
    (checkedPower pow σ (Arith.div Arith.one p)).map (Option.map (Arith.mul m)) := by
  have some : ¬Arith.eq p Arith.zero = true := mt (hp.eq_iff worth_zero).mp hq
  have reciprocal : @Arith.reciprocal Float (arithmetic pow) p = .ok (Arith.div Arith.one p) := if_neg some
  unfold Norm.root
  rw [reciprocal]
  show Except.bind (checkedPower pow σ (Arith.div Arith.one p)) _ = _
  cases checkedPower pow σ (Arith.div Arith.one p) <;> rfl

/-- Zero has no reciprocal. -/
theorem root_of_zero (hp : Worth p 0) : @Norm.root Float (arithmetic pow) m p σ = .error .divisionByZero := by
  have refused : @Arith.reciprocal Float (arithmetic pow) p = .error .divisionByZero :=
    if_pos ((hp.eq_iff worth_zero).mpr rfl)
  unfold Norm.root
  rw [refused]
  rfl

theorem root_of_worth (hp : Worth p q) (hq : q ≠ 0) (hσ : Worth σ s) (hs : s ≠ 0) {r : ℚ}
    (h : Worth (power pow σ (Arith.div Arith.one p)) r) : @Norm.root Float (arithmetic pow) m p σ =
      .ok (some (Arith.mul m (power pow σ (Arith.div Arith.one p)))) := by
  rw [root_eq hp hq, checkedPower_of_worth hσ hs h]
  rfl

variable (laws : Powers pow)
include laws

/-- The reciprocal of p is infinite if p is small enough, and then the power is one or infinite. Else it is
    told by that of n units, and the total by the product. -/
theorem root_found (hm : Worth (Norm.peak errors) μ) (some : μ ≠ 0) (hp : Worth p q) (hq : q ≠ 0)
    (hσ : Worth σ s) (least : 1 ≤ s) (most : s ≤ errors.length) :
    Found (.finite p) errors (@Norm.root Float (arithmetic pow) (Norm.peak errors) p σ) := by
  have hs : s ≠ 0 := (one_pos.trans_le least).ne'
  rcases reciprocal_rounded hp hq with ⟨infinite, -⟩ | ⟨y, hy, -⟩
  · rcases eq_or_lt_of_le least with rfl | more
    · have one : Worth (power pow σ (Arith.div Arith.one p)) 1 := power_of_one hσ _
      have product := hm.mul one
      rw [mul_one] at product
      rw [root_of_worth hp hq hσ hs one]
      exact .number (product.exactly hm.representable) hm le_rfl
    · have unbounded : (Arith.div Arith.one p : Float).isFinite = false := by
        show (Arith.div Arith.one p : Float).toModel.unpack.isFinite = false
        rw [infinite]
        rfl
      rw [root_eq hp hq, checkedPower_of_infinite hσ hs (power_infinite laws hσ more infinite), unbounded]
      show Found _ _ (.ok (Option.some (Arith.mul (Norm.peak errors) infinity)))
      rw [mul_infinity hm some]
      refine .infinite fun fits => ?_
      obtain ⟨y, -, -, hy, -⟩ := fits.bounds hm some
      exact not_worth_of_infinity infinite hy
  · have grows : (s : ℝ) ^ (y : ℝ) ≤ (errors.length : ℝ) ^ (y : ℝ) :=
      Real.rpow_le_rpow (by exact_mod_cast hσ.nonneg) (by exact_mod_cast most) (by exact_mod_cast hy.nonneg)
    rcases rounded_power laws hσ hy with ⟨infinite, past⟩ | ⟨r, hr, sides⟩
    · have finite : (Arith.div Arith.one p : Float).isFinite = true := hy.isFinite
      rw [root_eq hp hq, checkedPower_of_infinite hσ hs (eq_infinity infinite), finite]
      refine .refused (fun fits => ?_) rfl ⟨y, hy, fun v hv => (past v hv).trans_le grows⟩
      obtain ⟨y', a, -, hy', ha, root, -⟩ := fits.bounds hm some
      rw [hy'.unique hy] at root
      exact absurd (past a ha) (not_lt.mpr (grows.trans root))
    · rw [root_of_worth hp hq hσ hs hr]
      rcases hm.mul hr with ⟨infinite, past⟩ | ⟨t, ht, bounds⟩
      · rw [eq_infinity infinite]
        refine .infinite fun fits => ?_
        obtain ⟨y', a, v, hy', ha, root, hv, product⟩ := fits.bounds hm some
        rw [hy'.unique hy] at root
        have below : r ≤ a := (sides a ha).1 (grows.trans root)
        have inside : μ * r ≤ v := calc
          μ * r ≤ μ * a := mul_le_mul_of_nonneg_left below hm.nonneg
          _ = a * μ := mul_comm μ a
          _ ≤ v := product
        exact absurd (past v hv) (not_lt.mpr (by exact_mod_cast inside))
      · have one : 1 ≤ r := (sides 1 representable_one).2 (by
          rw [Rat.cast_one]
          exact Real.one_le_rpow (by exact_mod_cast least) (by exact_mod_cast hy.nonneg))
        exact .number ht hm ((bounds μ hm.representable).2 (by exact_mod_cast le_mul_of_one_le_right hm.nonneg one))

theorem total_found (finite : errors.all Arith.isFinite = true) (few : errors.length < 2 ^ 53)
    {exponent : Exponent Float} (admitted : ∀ p, exponent = .finite p → ∃ q, Worth p q) :
    Found exponent errors (@Talk.total Float (arithmetic pow) errors exponent).alone := by
  obtain ⟨μ, hm, -⟩ := peak_worth finite
  rw [@Talk.total_alone Float (arithmetic pow)]
  cases exponent with
  | infinite => exact .number hm hm le_rfl
  | finite p =>
    obtain ⟨q, hp⟩ := admitted p rfl
    show Found _ _ (if Arith.eq (Norm.peak errors) Arith.zero = true then .ok (some (Norm.peak errors)) else
      @Norm.root Float (arithmetic pow) (Norm.peak errors) p
        (@Norm.powerSum Float (arithmetic pow) errors (Norm.peak errors) p))
    split
    · exact .number hm hm le_rfl
    · rename_i nonzero
      have some : μ ≠ 0 := mt (hm.eq_iff worth_zero).mpr nonzero
      obtain ⟨σ, hσ, least, most⟩ := powerSum_worth laws finite few hm some hp
      rcases eq_or_ne q 0 with rfl | hq
      · rw [root_of_zero hp]
        exact .undefined rfl hp
      · exact root_found laws hm some hp hq hσ least most

/-! ## Thresholds -/

/-- The exponent is zero, so that it has no reciprocal. -/
def Rootless (exponent : Exponent Float) : Prop := ∃ p, exponent = .finite p ∧ Worth p 0

/-- The factor n^(-1/p) is at most one, if there is any. -/
theorem scaling_found {settings : Settings Float} (admitted : settings.Admitted) (few : n < 2 ^ 53) :
    (∃ x, @Settings.scaling Float (arithmetic pow) settings n = .ok x ∧ UpTo 1 x) ∨
      @Settings.scaling Float (arithmetic pow) settings n = .error .divisionByZero ∧ Rootless settings.exponent := by
  unfold Settings.scaling
  cases he : settings.exponent with
  | infinite => exact .inl ⟨_, rfl, 1, worth_one, le_rfl⟩
  | finite p =>
    obtain ⟨q, hp⟩ := admitted.exponent p he
    rcases Nat.eq_zero_or_pos n with rfl | hn
    · exact .inl ⟨_, rfl, 0, worth_zero, zero_le_one⟩
    have positive : (0 : ℤ) < n := by exact_mod_cast hn
    rcases eq_or_ne q 0 with rfl | hq
    · have zero : Arith.eq p Arith.zero = true := (hp.eq_iff worth_zero).mpr rfl
      exact .inr ⟨(if_pos positive).trans (if_pos zero), p, rfl, hp⟩
    · obtain ⟨x, hx, worth⟩ := worth_ofNat few
      have nonzero : ¬Arith.eq p Arith.zero = true := mt (hp.eq_iff worth_zero).mp hq
      have one : (1 : ℚ) ≤ n := by exact_mod_cast hn
      obtain ⟨r, hr, unit⟩ := power_sinks laws worth one (sinks_reciprocal hp hq)
      have checked := checkedPower_of_worth worth (one_pos.trans_le one).ne' hr
      refine .inl ⟨_, ?_, r, hr, unit⟩
      refine (if_pos positive).trans ((if_neg nonzero).trans ?_)
      show (ofInt n >>= fun x => checkedPower pow x (Arith.div (Arith.neg Arith.one) p) >>= Settings.needReal) = _
      rw [hx]
      show (checkedPower pow x (Arith.div (Arith.neg Arith.one) p) >>= Settings.needReal) = _
      rw [checked]
      rfl

/-- Whatever the total is there is a threshold, and it is finite if the total is. -/
theorem threshold_found {settings : Settings Float} (admitted : settings.Admitted) (few : n < 2 ^ 53) (t : Float) :
    (∃ x, @Settings.threshold Float (arithmetic pow) settings (some t) n = .ok x ∧
      ∀ r, Worth t r → ∃ r', Worth x r') ∨
    @Settings.threshold Float (arithmetic pow) settings (some t) n = .error .divisionByZero ∧
      Rootless settings.exponent := by
  obtain ⟨goal, hgoal⟩ := admitted.localGoal
  unfold Settings.threshold
  by_cases none : Arith.eq settings.fraction Arith.zero = true
  · exact .inl ⟨_, if_pos none, fun _ _ => ⟨goal, hgoal⟩⟩
  rcases scaling_found laws admitted few with ⟨factor, hfactor, g, hg, least⟩ | ⟨refused, rootless⟩
  · obtain ⟨f, hf, unit⟩ := admitted.fraction
    rw [hfactor]
    refine .inl ⟨_, if_neg none, fun r hr => ?_⟩
    have part {x y : Float} {p q : ℚ} (hx : Worth x p) (hy : Worth y q) (h : q ≤ 1) : UpTo p (Arith.mul x y) :=
      (hx.mul hy).le hx.representable (by exact_mod_cast mul_le_of_le_one_right hx.nonneg h)
    obtain ⟨r', hr', -⟩ := part hr hf unit
    obtain ⟨r'', hr'', -⟩ := part hr' hg least
    unfold Arith.max
    split
    · exact ⟨_, hgoal⟩
    · exact ⟨_, hr''⟩
  · rw [refused]
    exact .inr ⟨if_neg none, rootless⟩

end

end Binary64

/-! ## Passes -/

open Binary64 (Worth Fits Past Rootless Powers)

/-- What a pass over these errors comes to, as far as the range goes. -/
structure Settings.Ranges (s : Settings Float) (errors : List Float) (result : Except Fault (Marking Float)) :
    Prop where
  fits : s.Positive → Fits s.exponent errors →
    ∃ v t, result = .ok v ∧ v.totalError = some t ∧ t.isFinite = true ∧ v.threshold.isFinite = true
  returned : ∀ v, result = .ok v → ∃ t, v.totalError = some t ∧ Arith.le (Norm.peak errors) t = true ∧
    (t.isFinite = true ∧ v.threshold.isFinite = true ∨ t = Binary64.infinity)
  failed : ∀ f, result = .error f →
    (f = .powerOverflow ∧ ∃ p q, s.exponent = .finite p ∧ Worth p q ∧ q < 1 ∧ Past p errors.length) ∨
      f = .divisionByZero ∧ Rootless s.exponent

/-- An exponent that is above zero has a reciprocal. -/
theorem Settings.Positive.not_rootless {s : Settings Float} (h : s.Positive) : ¬Rootless s.exponent := by
  rintro ⟨p, hp, zero⟩
  obtain ⟨q, worth, positive⟩ := h p hp
  exact positive.ne' (worth.unique zero)

/-- Without a reciprocal of the exponent a division fails, and nothing else is told of the result. -/
theorem Settings.Ranges.of_rootless {s : Settings Float} {errors : List Float} (h : Rootless s.exponent) :
    s.Ranges errors (.error .divisionByZero) where
  fits positive := absurd h positive.not_rootless
  returned := nofun
  failed _ same := .inr ⟨(Except.error.inj same).symm, h⟩

/-- A pass of a marker that has the mesh to itself, over finite errors: within the range it returns a finite
    total and a finite threshold. It fails only at a root past the range, with an exponent below one, or where
    the exponent that was given has vanished. No total that it returns is below the greatest magnitude, and one
    that is not finite is infinite. -/
theorem Marking.stays_in_range {pow : Float → Float → Float} (laws : Powers pow) {s : Settings Float} (tuned : s.Tuned)
    {site : Site Float W} {mesh : MeshId} {estimator : EstimatorId} {part : Part Float} {here : W → Prop}
    (supplied : Supplies site mesh estimator part here) (valid : part.Valid) (few : part.errors.length < 2 ^ 53)
    (unconnected : ∀ w, here w → site.isConnected mesh w = false) {b : Bench Float W} (there : here b.world) :
    letI := Binary64.arithmetic pow
    s.Ranges part.errors (outcome (Marking.pass site mesh estimator s) b) := by
  have admitted := tuned.admitted
  have found := Binary64.total_found laws valid.errors.2 few admitted.exponent
  have given : @Part.Valid Float (Binary64.arithmetic pow) part :=
    @Part.Valid.mk Float (Binary64.arithmetic pow) part valid.errors valid.flags
  have alone := @Marking.pass_alone Float W (Binary64.arithmetic pow) _ _ _ _ _ _ supplied given unconnected there s
  show s.Ranges part.errors (outcome (@Marking.pass Float W (Binary64.arithmetic pow) site mesh estimator s) b)
  rw [alone]
  generalize htotal : (@Talk.total Float (Binary64.arithmetic pow) part.errors s.exponent).alone = total at found
  cases found with
  | @number t r μ worth hm least =>
    rcases Binary64.threshold_found laws admitted few t with ⟨x, hx, finite⟩ | ⟨hx, rootless⟩
    · obtain ⟨v, returned, total, rfl⟩ := @Talk.pass_alone Float (Binary64.arithmetic pow) _ _ _ _ htotal hx
      obtain ⟨_, hthreshold⟩ := finite r worth
      rw [returned]
      refine ⟨fun _ _ => ⟨v, t, rfl, total, worth.isFinite, hthreshold.isFinite⟩, fun v' h => ?_, nofun⟩
      cases h
      exact ⟨t, total, (hm.le_iff worth).mpr least, .inl ⟨worth.isFinite, hthreshold.isFinite⟩⟩
    · rw [@Talk.pass_alone_refused Float (Binary64.arithmetic pow) _ _ _ _ htotal hx]
      exact .of_rootless rootless
  | infinite past =>
    rcases Binary64.threshold_found laws admitted few Binary64.infinity with ⟨x, hx, -⟩ | ⟨hx, rootless⟩
    · obtain ⟨v, returned, total, rfl⟩ := @Talk.pass_alone Float (Binary64.arithmetic pow) _ _ _ _ htotal hx
      rw [returned]
      refine ⟨fun _ fits => absurd fits past, fun v' h => ?_, nofun⟩
      cases h
      obtain ⟨μ, hm, -⟩ := Binary64.peak_worth valid.errors.2
      exact ⟨_, total, Binary64.le_infinity hm, .inr rfl⟩
    · rw [@Talk.pass_alone_refused Float (Binary64.arithmetic pow) _ _ _ _ htotal hx]
      exact .of_rootless rootless
  | @refused p past hp out =>
    obtain ⟨q, worth⟩ := admitted.exponent p hp
    rw [@Talk.pass_alone_error Float (Binary64.arithmetic pow) _ _ _ htotal]
    refine ⟨fun _ fits => absurd fits past, nofun, fun f h => .inl ?_⟩
    cases h
    exact ⟨rfl, p, q, hp, worth, out.lt_one few worth, out⟩
  | @undefined p hp zero =>
    rw [@Talk.pass_alone_error Float (Binary64.arithmetic pow) _ _ _ htotal]
    exact .of_rootless ⟨p, hp, zero⟩

/-! ## Two elements -/

namespace Shared

def summing : Settings Float := { Settings.default with exponent := .finite 1.0 }

theorem summing_tuned : summing.Tuned := .tune (.exponent (.real 1.0)) .default trivial rfl

theorem summing_positive : summing.Positive := by
  rintro _ ⟨⟩
  exact ⟨1, Binary64.worth_one, one_pos⟩

theorem worth_three : Worth (Norm.peak [1.0, 3.0]) 3 := by
  have worth : Worth (Norm.peak [1.0, 3.0]) (((3 * 2 ^ 51 : ℕ) : ℚ) * 2 ^ (-51 : ℤ)) :=
    @Binary64.worth_of_finite _ _ _ (by decide) rfl
  have value : ((3 * 2 ^ 51 : ℕ) : ℚ) * 2 ^ (-51 : ℤ) = 3 := by norm_num
  rwa [value] at worth

theorem stays_in_range_of_sum : letI := Binary64.arithmetic Binary64.realPower
    ∃ v t, outcome (Marking.pass (giving ⟨[1.0, 3.0], none⟩ false) 0 0 summing) (start []) = .ok v ∧
      v.totalError = some t ∧ t.isFinite = true ∧ v.threshold.isFinite = true := by
  have fits : Fits (.finite 1.0) [1.0, 3.0] :=
    Binary64.fits_of_one_le (by decide) Binary64.worth_one le_rfl worth_three
      (Binary64.representable_nat (show 6 < 2 ^ 53 by decide)) (by norm_num)
  have supplied : Supplies (giving (⟨[1.0, 3.0], none⟩ : Part Float) false) 0 0 ⟨[1.0, 3.0], none⟩ fun _ => True :=
    ⟨fun _ _ => rfl, fun w _ => ⟨w, rfl, trivial⟩, fun w _ => ⟨w, rfl, trivial⟩⟩
  exact (Marking.stays_in_range Binary64.powers_real summing_tuned supplied ⟨⟨rfl, rfl⟩, nofun⟩ (by decide)
    (fun _ _ => rfl) trivial).fits summing_positive fits

/-- Two numbers of the format whose sum is the greatest of all. -/
def extremes : List Float := [Float.ofBits 0x7FEFFFFFFFFFFFFE, Float.ofBits 0x7CA0000000000000]

set_option maxRecDepth 20000 in
/-- Their sum of magnitudes is the greatest number of the format, but relative to the first it is rounded upwards. -/
theorem sum_past_range :
    extremes.all Arith.isFinite = true ∧ Float.add extremes[0] extremes[1] = Float.ofBits 0x7FEFFFFFFFFFFFFF ∧
    Settings.Tuned { summing with fraction := 0.0 } ∧
    outcome (Marking.pass (giving ⟨extremes, none⟩ false) 0 0 { summing with fraction := 0.0 }) (start []) =
      .ok ⟨[⟨0, .xyz⟩, ⟨1, .xyz⟩], 0.0, some Binary64.infinity, 2, 2⟩ ∧
    Binary64.infinity.isFinite = false :=
  ⟨rfl, by decide +kernel, .tune (.fraction (.int 0)) summing_tuned trivial rfl, ok_of_toOption (by decide +kernel), rfl⟩

end Shared

end Regrid
