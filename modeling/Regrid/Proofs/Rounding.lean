/-
  Regrid.Proofs.Rounding — what binary64 numbers are worth, and how results are rounded.

  A finite number that is not below zero is worth a rational (`Worth`), and numbers compare
  as what they are worth. The result of an operation is told by the numbers of the format on
  either side of what the operation comes to (`Rounded`): it is past none of them, and it is
  infinite only past all.

  A mantissa is kept with two residual bits, for the half and for what is less (`Stands`).
  Shifting it keeps what it stands for, and the rounded mantissa is on the same side of each
  whole number (`Stands.rounded`) and of each half (`Stands.rounded_half`). So a result is
  nearest among all numbers of the format, however great their exponents, and even where two
  are as near (`roundWithAccuracy_nearest`), and packing it leaves out no more than those past
  the greatest (`unpack_pack_finite`). Addition, multiplication, division and the conversion of
  whole numbers only differ in what they hand on to be rounded.
-/

import Mathlib
import Regrid.Proofs.Magnitude

namespace Regrid.Binary64

open Float.Model (UnpackedFloat Format totalExponent)
open Float.Model.UnpackedFloat

/-! ## Mantissas -/

/-- A mantissa with its two residual bits stands for so many units. -/
def Stands : ExtendedMantissa → ℚ → Prop
  | ⟨k, false, false⟩, x => x = k
  | ⟨k, false, true⟩, x => k < x ∧ x < k + 1 / 2
  | ⟨k, true, false⟩, x => x = k + 1 / 2
  | ⟨k, true, true⟩, x => k + 1 / 2 < x ∧ x < k + 1

namespace Stands

variable {em : ExtendedMantissa} {x : ℚ}

theorem floor (h : Stands em x) : (em.mantissa : ℚ) ≤ x ∧ x < em.mantissa + 1 := by
  obtain ⟨k, r, s⟩ := em
  cases r <;> cases s <;> simp only [Stands] at h ⊢ <;> constructor <;> linarith

theorem shiftRightOne (h : Stands em x) : Stands em.shiftRightOne (x / 2) := by
  obtain ⟨k, r, s⟩ := em
  have split : (k : ℚ) = 2 * ((k / 2 : ℕ) : ℚ) + ((k % 2 : ℕ) : ℚ) := by exact_mod_cast (Nat.div_add_mod k 2).symm
  rcases Nat.mod_two_eq_zero_or_one k with even | odd
  · rw [even] at split
    cases r <;> cases s <;> simp [Stands, ExtendedMantissa.shiftRightOne, even] at h ⊢ <;>
      first | linarith | (constructor <;> linarith)
  · rw [odd] at split
    cases r <;> cases s <;> simp [Stands, ExtendedMantissa.shiftRightOne, odd] at h ⊢ <;>
      first | linarith | (constructor <;> linarith)

theorem shiftRight (h : Stands em x) (n : ℕ) : Stands (em >>> n) (x / 2 ^ n) := by
  induction n with
  | zero =>
    rw [pow_zero, div_one]
    exact h
  | succ n ih =>
    rw [pow_succ, ← div_div]
    exact ih.shiftRightOne

/-- Rounding goes down below the half, up above it, and on it to the even mantissa. -/
theorem rounded_eq (h : Stands em x) :
    (x < em.mantissa + 1 / 2 ∧ em.roundedMantissa = em.mantissa) ∨
      (x = em.mantissa + 1 / 2 ∧ em.roundedMantissa = em.mantissa + em.mantissa % 2) ∨
      (em.mantissa + 1 / 2 < x ∧ em.roundedMantissa = em.mantissa + 1) := by
  obtain ⟨k, r, s⟩ := em
  cases r <;> cases s
  · have whole : x = k := h
    exact .inl ⟨by linarith, rfl⟩
  · exact .inl ⟨h.2, rfl⟩
  · exact .inr (.inl ⟨h, rfl⟩)
  · exact .inr (.inr ⟨h.1, rfl⟩)

theorem rounded_mem (h : Stands em x) :
    em.roundedMantissa = em.mantissa ∨ em.roundedMantissa = em.mantissa + 1 ∧ (em.mantissa : ℚ) < x := by
  rcases h.rounded_eq with ⟨-, down⟩ | ⟨half, even⟩ | ⟨above, up⟩
  · exact .inl down
  · rcases Nat.mod_two_eq_zero_or_one em.mantissa with none | one
    · exact .inl (by rw [even, none, add_zero])
    · exact .inr ⟨by rw [even, one], by linarith⟩
  · exact .inr ⟨up, by linarith⟩

/-- The rounded mantissa is on the same side of every whole number of units. -/
theorem rounded (h : Stands em x) (n : ℕ) :
    (x ≤ n → em.roundedMantissa ≤ n) ∧ (n ≤ x → n ≤ em.roundedMantissa) := by
  obtain ⟨lower, upper⟩ := h.floor
  have above : (n : ℚ) ≤ x → n ≤ em.mantissa := fun hn => by
    have : (n : ℚ) < (em.mantissa + 1 : ℕ) := by push_cast; linarith
    exact Nat.lt_succ_iff.mp (Nat.cast_lt.mp this)
  rcases h.rounded_mem with same | ⟨next, more⟩
  · rw [same]
    exact ⟨fun hn => Nat.cast_le.mp (lower.trans hn), above⟩
  · rw [next]
    refine ⟨fun hn => Nat.cast_lt.mp (more.trans_le hn), fun hn => (above hn).trans (Nat.le_succ _)⟩

/-- The rounded mantissa is on the same side of every half, and a half itself goes to the even side. -/
theorem rounded_half (h : Stands em x) (n : ℕ) :
    (x < n + 1 / 2 → em.roundedMantissa ≤ n) ∧
      (x = n + 1 / 2 → (n % 2 = 0 → em.roundedMantissa ≤ n) ∧ (n % 2 = 1 → n < em.roundedMantissa)) ∧
      (n + 1 / 2 < x → n < em.roundedMantissa) := by
  obtain ⟨lower, upper⟩ := h.floor
  have least (hx : x ≤ n + 1 / 2) : em.mantissa ≤ n := by
    have : (em.mantissa : ℚ) < (n + 1 : ℕ) := by push_cast; linarith
    exact Nat.lt_succ_iff.mp (Nat.cast_lt.mp this)
  have most (hx : n + 1 / 2 ≤ x) : n ≤ em.mantissa := by
    have : (n : ℚ) < (em.mantissa + 1 : ℕ) := by push_cast; linarith
    exact Nat.lt_succ_iff.mp (Nat.cast_lt.mp this)
  refine ⟨fun hx => ?_, fun hx => ?_, fun hx => ?_⟩
  · have bound := least hx.le
    rcases h.rounded_eq with ⟨-, down⟩ | ⟨half, even⟩ | ⟨above, up⟩
    · omega
    · have : em.mantissa < n := Nat.cast_lt.mp (by linarith : (em.mantissa : ℚ) < n)
      omega
    · have : em.mantissa < n := Nat.cast_lt.mp (by linarith : (em.mantissa : ℚ) < n)
      omega
  · obtain rfl : em.mantissa = n := le_antisymm (least hx.le) (most hx.ge)
    rcases h.rounded_eq with ⟨below, -⟩ | ⟨-, even⟩ | ⟨above, -⟩
    · exact absurd hx below.ne
    · exact ⟨fun none => by omega, fun one => by omega⟩
    · exact absurd hx above.ne'
  · have bound := most hx.le
    rcases h.rounded_eq with ⟨below, down⟩ | ⟨half, even⟩ | ⟨-, up⟩
    · have : n < em.mantissa := Nat.cast_lt.mp (by linarith : (n : ℚ) < em.mantissa)
      omega
    · have : n < em.mantissa := Nat.cast_lt.mp (by linarith : (n : ℚ) < em.mantissa)
      omega
    · omega

end Stands

/-! ## Rounding to the format -/

/-- Powers of two, as exponents count them. -/
theorem two_zpow {e t : ℤ} (h : e ≤ t) : (2 : ℚ) ^ t = 2 ^ (t - e).toNat * 2 ^ e := by
  rw [← zpow_natCast, ← zpow_add₀ two_ne_zero]
  congr 1
  omega

/-- A mantissa and an exponent as the format has them, the exponent maybe past the greatest. -/
structure Proper (k : ℕ) (t : ℤ) : Prop where
  small : k < 2 ^ 53
  low : -1074 ≤ t
  normal : t = -1074 ∨ 2 ^ 52 ≤ k

/-- The number of this sign and magnitude. -/
inductive Holds (s : Sign) (k : ℕ) (t : ℤ) : UnpackedFloat → Prop
  | zero : k = 0 → Holds s k t (.zero s)
  | finite (h : 0 < k) : Holds s k t (.finite s k t h)

/-- The magnitude is on the same side as `x` of every number of the format. -/
def Nearest (x : ℚ) (k : ℕ) (t : ℤ) : Prop :=
  ∀ (n : ℕ) (e : ℤ), n < 2 ^ 53 → -1074 ≤ e →
    (x ≤ n * 2 ^ e → (k : ℚ) * 2 ^ t ≤ n * 2 ^ e) ∧ ((n : ℚ) * 2 ^ e ≤ x → n * 2 ^ e ≤ (k : ℚ) * 2 ^ t)

/-- The magnitude is on the same side as `x` of every half between a number of the format and the next, and
    where `x` is such a half the magnitude is on the side of the even mantissa. -/
def Midway (x r : ℚ) : Prop :=
  ∀ (n : ℕ) (e : ℤ), Proper n e →
    (x < (n + 1 / 2) * 2 ^ e → r ≤ n * 2 ^ e) ∧
      (x = (n + 1 / 2) * 2 ^ e → (n % 2 = 0 → r ≤ n * 2 ^ e) ∧ (n % 2 = 1 → n * 2 ^ e < r)) ∧
      ((n + 1 / 2) * 2 ^ e < x → n * 2 ^ e < r)

/-- Where a number begins and ends, told by the place of its first digit. -/
theorem magnitude_bounds {m : ℕ} {e t : ℤ} {x : ℚ} (lower : (m : ℚ) ≤ x) (upper : x < m + 1)
    (ht : t = Format.binary64.targetExponent (totalExponent m e)) (fits : e ≤ t) :
    x * 2 ^ e < 2 ^ 53 * 2 ^ t ∧ (t = -1074 ∨ 2 ^ 52 * 2 ^ t ≤ x * 2 ^ e) := by
  have target : t = max ((m.log2 + 1 + e) - 53) (-1074) := ht
  have positive : (0 : ℚ) < 2 ^ e := by positivity
  have shifted := two_zpow fits
  have digits : m + 1 ≤ 2 ^ (m.log2 + 1) := Nat.lt_log2_self
  have above : x < 2 ^ (m.log2 + 1) := upper.trans_le (by exact_mod_cast digits)
  constructor
  · -- no more digits than the format has, counted from the exponent it gives
    have enough : m.log2 + 1 ≤ 53 + (t - e).toNat := by omega
    calc x * 2 ^ e < 2 ^ (m.log2 + 1) * 2 ^ e := mul_lt_mul_of_pos_right above positive
      _ ≤ 2 ^ (53 + (t - e).toNat) * 2 ^ e :=
        mul_le_mul_of_nonneg_right (pow_le_pow_right₀ one_le_two enough) positive.le
      _ = 2 ^ 53 * 2 ^ t := by rw [pow_add, shifted, mul_assoc]
  · by_cases hm : m = 0
    · subst hm
      left
      have : Nat.log2 0 = 0 := rfl
      omega
    · rcases eq_or_lt_of_le (show -1074 ≤ t by omega) with low | high
      · exact .inl low.symm
      · right
        have exactly : 52 + (t - e).toNat = m.log2 := by omega
        have first : (2 : ℚ) ^ m.log2 ≤ x := le_trans (by exact_mod_cast Nat.log2_self_le hm) lower
        calc (2 : ℚ) ^ 52 * 2 ^ t = 2 ^ (52 + (t - e).toNat) * 2 ^ e := by rw [pow_add, shifted, mul_assoc]
          _ ≤ x * 2 ^ e := by
            rw [exactly]
            exact mul_le_mul_of_nonneg_right first positive.le

/-- Mantissas of the format with a smaller exponent end below the first digit at this one. -/
theorem below_first {x : ℚ} {e t : ℤ} (fine : e < t) (few : x < 2 ^ 53) : x * 2 ^ e < 2 ^ 52 * 2 ^ t := by
  have finer : (2 : ℚ) ^ e ≤ 2 ^ (t - 1) := zpow_le_zpow_right₀ one_le_two (by omega)
  calc x * 2 ^ e < 2 ^ 53 * 2 ^ e := mul_lt_mul_of_pos_right few (by positivity)
    _ ≤ 2 ^ 53 * 2 ^ (t - 1) := mul_le_mul_of_nonneg_left finer (by positivity)
    _ = 2 ^ 52 * 2 ^ t := by
      rw [zpow_sub_one₀ two_ne_zero]
      ring

/-- Units of 2^t are fine enough for all numbers of the format from there on. -/
theorem nearest_of_units {x : ℚ} {k : ℕ} {t : ℤ} (normal : t = -1074 ∨ 2 ^ 52 * 2 ^ t ≤ x)
    (h : ∀ n : ℕ, (x ≤ n * 2 ^ t → k ≤ n) ∧ ((n : ℚ) * 2 ^ t ≤ x → n ≤ k)) : Nearest x k t := by
  intro n e small low
  have unit : (0 : ℚ) < 2 ^ t := by positivity
  rcases le_or_gt t e with coarse | fine
  · have units : (n : ℚ) * 2 ^ e = ((n * 2 ^ (e - t).toNat : ℕ) : ℚ) * 2 ^ t := by
      rw [two_zpow coarse, Nat.cast_mul, Nat.cast_pow, Nat.cast_ofNat, mul_assoc]
    rw [units]
    exact ⟨fun hx => mul_le_mul_of_nonneg_right (Nat.cast_le.mpr ((h _).1 hx)) unit.le,
      fun hx => mul_le_mul_of_nonneg_right (Nat.cast_le.mpr ((h _).2 hx)) unit.le⟩
  · -- a number with a smaller exponent is below all that have a first digit at this one
    have first : 2 ^ 52 * 2 ^ t ≤ x := normal.resolve_left (by omega)
    have below : (n : ℚ) * 2 ^ e < 2 ^ 52 * 2 ^ t := below_first fine (by exact_mod_cast small)
    have units : 2 ^ 52 ≤ k := (h (2 ^ 52)).2 (by push_cast; exact first)
    refine ⟨fun hx => absurd (first.trans hx) (not_le.mpr below), fun _ => below.le.trans ?_⟩
    exact mul_le_mul_of_nonneg_right (by exact_mod_cast units) unit.le

/-- Halves are settled in units of 2^t where `x` has its first digit there: those of greater exponents lie
    above it, and those of smaller exponents below. -/
theorem midway_of_units {x : ℚ} {k : ℕ} {t : ℤ} (low : -1074 ≤ t) (upper : x < 2 ^ 53 * 2 ^ t)
    (normal : t = -1074 ∨ 2 ^ 52 * 2 ^ t ≤ x) (nearest : Nearest x k t)
    (h : ∀ n : ℕ, (x < (n + 1 / 2) * 2 ^ t → k ≤ n) ∧
      (x = (n + 1 / 2) * 2 ^ t → (n % 2 = 0 → k ≤ n) ∧ (n % 2 = 1 → n < k)) ∧
      ((n + 1 / 2) * 2 ^ t < x → n < k)) : Midway x (k * 2 ^ t) := by
  intro n e proper
  have unit : (0 : ℚ) < 2 ^ t := by positivity
  rcases lt_trichotomy t e with coarse | rfl | fine
  · -- even the least of such numbers is above
    have leading : 2 ^ 52 ≤ n := proper.normal.resolve_left (by omega)
    have below : x < n * 2 ^ e := calc
      x < 2 ^ 53 * 2 ^ t := upper
      _ = 2 ^ 52 * 2 ^ (t + 1) := by
        rw [zpow_add_one₀ two_ne_zero]
        ring
      _ ≤ 2 ^ 52 * 2 ^ e := mul_le_mul_of_nonneg_left (zpow_le_zpow_right₀ one_le_two coarse) (by positivity)
      _ ≤ n * 2 ^ e := mul_le_mul_of_nonneg_right (by exact_mod_cast leading) (by positivity)
    have half : x < (n + 1 / 2) * 2 ^ e :=
      below.trans (mul_lt_mul_of_pos_right (by linarith) (by positivity))
    refine ⟨fun _ => (nearest n e proper.small proper.low).1 below.le, fun hx => absurd hx half.ne, fun hx => ?_⟩
    exact absurd hx half.not_gt
  · obtain ⟨less, half, more⟩ := h n
    refine ⟨fun hx => ?_, fun hx => ⟨fun even => ?_, fun odd => ?_⟩, fun hx => ?_⟩
    · exact mul_le_mul_of_nonneg_right (Nat.cast_le.mpr (less hx)) unit.le
    · exact mul_le_mul_of_nonneg_right (Nat.cast_le.mpr ((half hx).1 even)) unit.le
    · exact mul_lt_mul_of_pos_right (Nat.cast_lt.mpr ((half hx).2 odd)) unit
    · exact mul_lt_mul_of_pos_right (Nat.cast_lt.mpr (more hx)) unit
  · have first : 2 ^ 52 * 2 ^ t ≤ x := normal.resolve_left (by have := proper.low; omega)
    have fewer : (n : ℚ) + 1 ≤ 2 ^ 53 := by exact_mod_cast proper.small
    have half : ((n : ℚ) + 1 / 2) * 2 ^ e < x := (below_first fine (by linarith)).trans_le first
    have past : (n : ℚ) * 2 ^ e < k * 2 ^ t := by
      have leading := (nearest (2 ^ 52) t (by decide) (by have := proper.low; omega)).2 (by exact_mod_cast first)
      exact (below_first fine (by linarith)).trans_le (by exact_mod_cast leading)
    exact ⟨fun hx => absurd hx half.not_gt, fun hx => absurd hx half.ne', fun _ => past⟩

/-- A mantissa that rounding has made one digit too long gives it up. -/
theorem shift_rounded {k : ℕ} {t : ℤ} (small : k ≤ 2 ^ 53) (low : -1074 ≤ t) (normal : t = -1074 ∨ 2 ^ 52 ≤ k) :
    ∃ k' t', Proper k' t' ∧ (k' : ℚ) * 2 ^ t' = k * 2 ^ t ∧
      shiftToTargetExponent Format.binary64 k t .exact = (⟨k', false, false⟩, t') := by
  have target : Format.binary64.targetExponent (totalExponent k t) = max ((k.log2 + 1 + t) - 53) (-1074) := rfl
  rcases Nat.lt_or_eq_of_le small with short | rfl
  · have digits : k.log2 ≤ 52 := by
      rcases Nat.eq_zero_or_pos k with rfl | hk
      · exact Nat.zero_le _
      · exact Nat.lt_succ_iff.mp ((Nat.log2_lt hk.ne').mpr short)
    have none : (Format.binary64.targetExponent (totalExponent k t) - t).toNat = 0 := by omega
    refine ⟨k, t, ⟨short, low, normal⟩, rfl, ?_⟩
    simp only [shiftToTargetExponent, shiftToExponent, none, Nat.cast_zero, add_zero]
    rfl
  · have one : (Format.binary64.targetExponent (totalExponent (2 ^ 53) t) - t).toNat = 1 := by
      have digits : Nat.log2 (2 ^ 53) = 53 := by decide
      omega
    refine ⟨2 ^ 52, t + 1, ⟨by decide, by omega, .inr le_rfl⟩, ?_, ?_⟩
    · rw [zpow_add_one₀ two_ne_zero]
      push_cast
      ring
    · simp only [shiftToTargetExponent, shiftToExponent, one, Nat.cast_one]
      rfl

/-- A result is the nearest number with the format's mantissas, however great its exponent. -/
theorem roundWithAccuracy_nearest {s : Sign} {m : ℕ} {e : ℤ} {a : Accuracy} {x : ℚ}
    (h : Stands (.ofMantissaAndAccuracy m a) x)
    (fits : e ≤ Format.binary64.targetExponent (totalExponent m e)) :
    ∃ k t, Proper k t ∧ Nearest (x * 2 ^ e) k t ∧ Midway (x * 2 ^ e) (k * 2 ^ t) ∧
      Holds s k t (roundWithAccuracy Format.binary64 s m e a) := by
  obtain ⟨t, ht⟩ : ∃ t, t = Format.binary64.targetExponent (totalExponent m e) := ⟨_, rfl⟩
  rw [← ht] at fits
  have floor : (m : ℚ) ≤ x ∧ x < m + 1 := by
    have mantissa : (ExtendedMantissa.ofMantissaAndAccuracy m a).mantissa = m := by
      rcases a with _ | _ | _ | _ <;> rfl
    have bounds := h.floor
    rwa [mantissa] at bounds
  obtain ⟨upper, normal⟩ := magnitude_bounds floor.1 floor.2 ht fits
  have first : shiftToTargetExponent Format.binary64 m e a =
      (ExtendedMantissa.ofMantissaAndAccuracy m a >>> (t - e).toNat, t) := by
    have exponent : e + ((t - e).toNat : ℤ) = t := by omega
    simp only [shiftToTargetExponent, shiftToExponent, ← ht, exponent]
  have shifted := h.shiftRight (t - e).toNat
  generalize ExtendedMantissa.ofMantissaAndAccuracy m a >>> (t - e).toNat = em at first shifted
  have unit : (0 : ℚ) < 2 ^ t := by positivity
  have units : x / 2 ^ (t - e).toNat * 2 ^ t = x * 2 ^ e := by
    rw [two_zpow fits]
    field_simp
  have sides (n : ℕ) : (x * 2 ^ e ≤ n * 2 ^ t → em.roundedMantissa ≤ n) ∧
      ((n : ℚ) * 2 ^ t ≤ x * 2 ^ e → n ≤ em.roundedMantissa) := by
    obtain ⟨below, above⟩ := shifted.rounded n
    rw [← units]
    exact ⟨fun hx => below (le_of_mul_le_mul_right hx unit), fun hx => above (le_of_mul_le_mul_right hx unit)⟩
  have halves (n : ℕ) : (x * 2 ^ e < (n + 1 / 2) * 2 ^ t → em.roundedMantissa ≤ n) ∧
      (x * 2 ^ e = (n + 1 / 2) * 2 ^ t →
        (n % 2 = 0 → em.roundedMantissa ≤ n) ∧ (n % 2 = 1 → n < em.roundedMantissa)) ∧
      ((n + 1 / 2) * 2 ^ t < x * 2 ^ e → n < em.roundedMantissa) := by
    obtain ⟨less, half, more⟩ := shifted.rounded_half n
    rw [← units]
    exact ⟨fun hx => less (lt_of_mul_lt_mul_right hx unit.le), fun hx => half (mul_right_cancel₀ unit.ne' hx),
      fun hx => more (lt_of_mul_lt_mul_right hx unit.le)⟩
  have small : em.roundedMantissa ≤ 2 ^ 53 := (sides (2 ^ 53)).1 (by push_cast; exact upper.le)
  have low : -1074 ≤ t := by
    rw [ht]
    exact le_max_right _ _
  have normal' : t = -1074 ∨ 2 ^ 52 ≤ em.roundedMantissa :=
    normal.imp_right fun first => (sides (2 ^ 52)).2 (by push_cast; exact first)
  obtain ⟨k, t', proper, same, last⟩ := shift_rounded small low normal'
  have nearest := nearest_of_units normal sides
  refine ⟨k, t', proper, fun n e' hn he' => ?_, ?_, ?_⟩
  · rw [same]
    exact nearest n e' hn he'
  · rw [same]
    exact midway_of_units low upper normal nearest halves
  · simp only [roundWithAccuracy, first, last]
    by_cases hk : k = 0
    · rw [dif_pos hk]
      exact .zero hk
    · rw [dif_neg hk]
      exact .finite (Nat.pos_of_ne_zero hk)

/-! ## Numbers that fit -/

theorem finite_congr {s : Sign} {k k' : ℕ} {t t' : ℤ} {hk : 0 < k} {hk' : 0 < k'} (mantissa : k = k')
    (exponent : t = t') : UnpackedFloat.finite s k t hk = .finite s k' t' hk' := by
  subst mantissa exponent
  rfl

section

variable {s : Sign} {k : ℕ} {t : ℤ}

theorem unpack_infinity : unpack Format.binary64 (packedInfinity Format.binary64 s) = .infinity s := by
  simp [unpack, packedInfinity]

/-- The leading digit of a normal number is left out and put back. -/
theorem unpack_normal (normal : 2 ^ 52 ≤ k) (small : k < 2 ^ 53) (low : -1074 ≤ t) (high : t ≤ 971) :
    unpack Format.binary64 (packComponents Format.binary64 s (BitVec.ofNat 11 (t + 1075).toNat) (BitVec.ofNat 52 k)) =
      .finite s k t (Nat.lt_of_lt_of_le (by decide) normal) := by
  have exponent : (BitVec.ofNat 11 (t + 1075).toNat).toNat = (t + 1075).toNat := by
    rw [BitVec.toNat_ofNat, Nat.mod_eq_of_lt (by omega)]
  have inside : BitVec.ofNat 11 (t + 1075).toNat ≠ -1#11 ∧ BitVec.ofNat 11 (t + 1075).toNat ≠ 0#11 := by
    constructor <;> intro h <;> have := congrArg BitVec.toNat h <;> rw [exponent] at this <;> simp at this <;> omega
  have mantissa : (1#1 ++ BitVec.ofNat 52 k).toNat = k := by
    have leading : k / 2 ^ 52 = 1 := Nat.div_eq_of_lt_le (by omega) (by omega)
    have parts := Nat.div_add_mod k (2 ^ 52)
    rw [BitVec.toNat_append, ← Nat.shiftLeft_add_eq_or_of_lt (BitVec.isLt _), BitVec.toNat_ofNat]
    simp only [BitVec.toNat_ofNat, Nat.shiftLeft_eq]
    omega
  unfold unpack
  simp only [unpackMantissa_packComponents, unpackExponent_packComponents, unpackSign_packComponents,
    Sign.ofBitVec_toBitVec, inside.1, inside.2, if_false, exponent]
  refine finite_congr mantissa ?_
  show ((t + 1075).toNat : ℤ) - (1023 + 52) = t
  omega

theorem unpack_subnormal (hk : 0 < k) (small : k < 2 ^ 52) :
    unpack Format.binary64 (packComponents Format.binary64 s 0#11 (BitVec.ofNat 52 k)) = .finite s k (-1074) hk := by
  have mantissa : (BitVec.ofNat 52 k).toNat = k := by rw [BitVec.toNat_ofNat, Nat.mod_eq_of_lt small]
  have nonzero : BitVec.ofNat 52 k ≠ 0#52 := by
    intro h
    have := congrArg BitVec.toNat h
    rw [mantissa] at this
    exact hk.ne' this
  unfold unpack
  simp only [unpackMantissa_packComponents, unpackExponent_packComponents, unpackSign_packComponents,
    Sign.ofBitVec_toBitVec, nonzero, mantissa]
  exact finite_congr rfl rfl

/-- What is kept of a result: past the greatest exponent it is infinite. -/
theorem unpack_pack_finite (proper : Proper k t) (hk : 0 < k) :
    unpack Format.binary64 (pack Format.binary64 (.finite s k t hk)) =
      if t ≤ 971 then .finite s k t hk else .infinity s := by
  have low := proper.low
  have biased : (t + (Format.exponentBias Format.binary64 : ℤ) + (52 : ℕ)).toNat = (t + 1075).toNat := by
    show (t + 1023 + 52).toNat = _
    omega
  unfold pack
  simp only [biased]
  by_cases fits : t ≤ 971
  · rw [if_pos fits, if_neg (show ¬(2 ^ 11 ≤ (t + 1075).toNat + 1) by omega)]
    by_cases normal : 2 ^ 52 ≤ k
    · have digits : k.log2 + 1 = Format.mantissaBits Format.binary64 := by
        show k.log2 + 1 = 53
        have lower := (Nat.le_log2 hk.ne').mpr normal
        have upper := (Nat.log2_lt hk.ne').mpr proper.small
        omega
      rw [if_pos digits]
      exact unpack_normal normal proper.small low fits
    · have digits : ¬k.log2 + 1 = Format.mantissaBits Format.binary64 := by
        show ¬k.log2 + 1 = 53
        have upper := (Nat.log2_lt hk.ne').mpr (not_le.mp normal)
        omega
      obtain rfl : t = -1074 := proper.normal.resolve_right normal
      rw [if_neg digits]
      exact unpack_subnormal hk (not_le.mp normal)
  · rw [if_neg fits, if_pos (show 2 ^ 11 ≤ (t + 1075).toNat + 1 by omega)]
    exact unpack_infinity

/-- Whatever the bits, what they unpack to has a mantissa and an exponent of the format. -/
theorem proper_of_unpack {b : BitVec 64} {hk : 0 < k} (h : unpack Format.binary64 b = .finite s k t hk) :
    Proper k t ∧ t ≤ 971 := by
  have inside : (@unpackExponent Format.binary64 b).toNat < 2 ^ 11 := BitVec.isLt _
  have small : (@unpackMantissa Format.binary64 b).toNat < 2 ^ 52 := BitVec.isLt _
  have bias : (Format.exponentBias Format.binary64 : ℤ) = 1023 := rfl
  unfold unpack at h
  simp only at h
  split at h
  · split at h <;> cases h
  · rename_i notAll
    have below : (@unpackExponent Format.binary64 b).toNat ≠ 2047 := fun all => notAll (BitVec.eq_of_toNat_eq all)
    split at h
    · rename_i zero
      split at h
      · cases h
      · obtain ⟨-, rfl, rfl⟩ := UnpackedFloat.finite.inj h
        have exponent : (@unpackExponent Format.binary64 b).toNat = 0 := congrArg BitVec.toNat zero
        exact ⟨⟨by omega, by omega, .inl (by omega)⟩, by omega⟩
    · rename_i nonzero
      obtain ⟨-, rfl, rfl⟩ := UnpackedFloat.finite.inj h
      have positive : (@unpackExponent Format.binary64 b).toNat ≠ 0 := fun none => nonzero (BitVec.eq_of_toNat_eq none)
      have mantissa : (1#1 ++ @unpackMantissa Format.binary64 b).toNat =
          2 ^ 52 + (@unpackMantissa Format.binary64 b).toNat := by
        rw [BitVec.toNat_append, ← Nat.shiftLeft_add_eq_or_of_lt (BitVec.isLt _)]
        simp only [BitVec.toNat_ofNat, Nat.shiftLeft_eq]
        omega
      exact ⟨⟨by omega, by omega, .inr (by omega)⟩, by omega⟩

end

/-! ## What a number is worth -/

/-- The number is zero or positive, and finite, and this is what it is worth. -/
inductive Counts : UnpackedFloat → ℚ → Prop
  | zero (s : Sign) : Counts (.zero s) 0
  | finite {k : ℕ} {t : ℤ} (h : 0 < k) (proper : Proper k t) (high : t ≤ 971) :
      Counts (.finite .positive k t h) (k * 2 ^ t)

def Worth (x : Float) (q : ℚ) : Prop := Counts x.toModel.unpack q

/-- A number of the format is worth this. -/
def Representable (v : ℚ) : Prop := ∃ (n : ℕ) (e : ℤ), n < 2 ^ 53 ∧ -1074 ≤ e ∧ e ≤ 971 ∧ v = n * 2 ^ e

theorem Counts.nonneg {u : UnpackedFloat} {q : ℚ} (h : Counts u q) : 0 ≤ q := by
  cases h with
  | zero s => exact le_rfl
  | finite h _ _ => positivity

theorem Counts.isFinite {u : UnpackedFloat} {q : ℚ} (h : Counts u q) : u.isFinite = true := by cases h <;> rfl

theorem Counts.representable {u : UnpackedFloat} {q : ℚ} (h : Counts u q) : Representable q := by
  cases h with
  | zero s => exact ⟨0, 0, by decide, by decide, by decide, by simp⟩
  | finite h proper high => exact ⟨_, _, proper.small, proper.low, high, rfl⟩

theorem Counts.unique {u : UnpackedFloat} {p q : ℚ} (h : Counts u p) (h' : Counts u q) : p = q := by
  cases h <;> cases h' <;> rfl

theorem representable_nat {n : ℕ} (small : n < 2 ^ 53) : Representable n := ⟨n, 0, small, by decide, by decide, by simp⟩

theorem representable_zero : Representable 0 := by exact_mod_cast representable_nat (show 0 < 2 ^ 53 by decide)

theorem representable_one : Representable 1 := by exact_mod_cast representable_nat (show 1 < 2 ^ 53 by decide)

/-- Whoever has the smaller exponent is the smaller. -/
theorem lt_of_exponent {k n : ℕ} {t e : ℤ} (proper : Proper k t) (proper' : Proper n e) (h : t < e) :
    (k : ℚ) * 2 ^ t < n * 2 ^ e := by
  have leading : 2 ^ 52 ≤ n := proper'.normal.resolve_left (by have := proper.low; omega)
  calc (k : ℚ) * 2 ^ t < 2 ^ 52 * 2 ^ e := below_first h (by exact_mod_cast proper.small)
    _ ≤ n * 2 ^ e := mul_le_mul_of_nonneg_right (by exact_mod_cast leading) (by positivity)

/-- Numbers compare as what they are worth. -/
theorem Counts.compare {u v : UnpackedFloat} {p q : ℚ} (h : Counts u p) (h' : Counts v q) :
    u.compare v = some (Ord.compare p q) := by
  cases h with
  | zero s =>
    cases h' with
    | zero s' => exact congrArg some (compare_eq_iff_eq.mpr rfl).symm
    | @finite n e hn _ _ =>
      have positive : (0 : ℚ) < n * 2 ^ e := mul_pos (Nat.cast_pos.mpr hn) (zpow_pos two_pos _)
      exact congrArg some (compare_lt_iff_lt.mpr positive).symm
  | @finite k t hk proper _ =>
    cases h' with
    | zero s' =>
      have positive : (0 : ℚ) < k * 2 ^ t := mul_pos (Nat.cast_pos.mpr hk) (zpow_pos two_pos _)
      exact congrArg some (compare_gt_iff_gt.mpr positive).symm
    | @finite n e hn proper' _ =>
      show some ((Ord.compare t e).then (Ord.compare k n)) = _
      congr 1
      rcases lt_trichotomy t e with below | rfl | above
      · rw [compare_lt_iff_lt.mpr below, compare_lt_iff_lt.mpr (lt_of_exponent proper proper' below)]
        rfl
      · have unit : (0 : ℚ) < 2 ^ t := zpow_pos two_pos _
        rw [compare_eq_iff_eq.mpr rfl]
        show Ord.compare k n = _
        rcases lt_trichotomy k n with fewer | rfl | more
        · rw [compare_lt_iff_lt.mpr fewer, compare_lt_iff_lt.mpr (mul_lt_mul_of_pos_right (Nat.cast_lt.mpr fewer) unit)]
        · rw [compare_eq_iff_eq.mpr rfl, compare_eq_iff_eq.mpr rfl]
        · rw [compare_gt_iff_gt.mpr more, compare_gt_iff_gt.mpr (mul_lt_mul_of_pos_right (Nat.cast_lt.mpr more) unit)]
      · rw [compare_gt_iff_gt.mpr above, compare_gt_iff_gt.mpr (lt_of_exponent proper' proper above)]
        rfl

namespace Worth

variable {x y : Float} {p q : ℚ} (hx : Worth x p) (hy : Worth y q)
include hx

theorem isFinite : Arith.isFinite x = true := Counts.isFinite hx

include hy

theorem lt_iff : Arith.lt x y = true ↔ p < q := by
  have compared := hx.compare hy
  show decide (decide (x.toModel.unpack.lt y.toModel.unpack = true) = true) = true ↔ _
  simp only [UnpackedFloat.lt, compared, decide_eq_true_eq]
  rw [beq_iff_eq, Option.some.injEq, compare_lt_iff_lt]

theorem le_iff : Arith.le x y = true ↔ p ≤ q := by
  have compared := hx.compare hy
  show decide (decide (x.toModel.unpack.le y.toModel.unpack = true) = true) = true ↔ _
  simp only [UnpackedFloat.le, compared, decide_eq_true_eq]
  rw [Option.any_some, Ordering.isLE_iff_ne_gt, compare_gt_iff_gt, not_lt]

theorem eq_iff : Arith.eq x y = true ↔ p = q := by
  have compared := hx.compare hy
  show x.toModel.unpack.beq y.toModel.unpack = true ↔ _
  simp only [UnpackedFloat.beq, compared]
  rw [beq_iff_eq, Option.some.injEq, compare_eq_iff_eq]

end Worth

theorem Worth.unique {x : Float} {p q : ℚ} (h : Worth x p) (h' : Worth x q) : p = q := Counts.unique h h'

theorem Worth.pos {x : Float} {q : ℚ} (h : Worth x q) (some : q ≠ 0) : 0 < q := lt_of_le_of_ne h.nonneg some.symm

theorem not_worth_of_infinity {x : Float} {s : Sign} {q : ℚ} (h : x.toModel.unpack = .infinity s) : ¬Worth x q := by
  intro worth
  unfold Worth at worth
  rw [h] at worth
  cases worth

/-! ## Results -/

/-- The number is the result of an operation that comes to `z`: infinite past all numbers of the format,
    and otherwise on the same side as `z` of each of them. -/
def Rounded (x : Float) (z : ℝ) : Prop :=
  (x.toModel.unpack = .infinity .positive ∧ ∀ v, Representable v → (v : ℝ) < z) ∨
    ∃ r, Worth x r ∧ ∀ v, Representable v → (z ≤ v → r ≤ v) ∧ ((v : ℝ) ≤ z → v ≤ r)

namespace Rounded

variable {x : Float} {q u v : ℚ} {z : ℝ}

/-- What is at most a number of the format is rounded to at most that. -/
theorem le (h : Rounded x z) (hv : Representable v) (le : z ≤ v) : ∃ r, Worth x r ∧ r ≤ v := by
  rcases h with ⟨-, past⟩ | ⟨r, worth, sides⟩
  · exact absurd (past v hv) (not_lt.mpr le)
  · exact ⟨r, worth, (sides v hv).1 le⟩

theorem between (h : Rounded x z) (hu : Representable u) (hv : Representable v) (ge : (u : ℝ) ≤ z) (le : z ≤ v) :
    ∃ r, Worth x r ∧ u ≤ r ∧ r ≤ v := by
  rcases h with ⟨-, past⟩ | ⟨r, worth, sides⟩
  · exact absurd (past v hv) (not_lt.mpr le)
  · exact ⟨r, worth, (sides u hu).2 ge, (sides v hv).1 le⟩

theorem exactly (h : Rounded x q) (hq : Representable q) : Worth x q := by
  obtain ⟨r, worth, lower, upper⟩ := h.between hq hq le_rfl le_rfl
  rwa [le_antisymm lower upper]

/-- A number is what it is worth, rounded. -/
theorem of_worth (h : Worth x q) : Rounded x q := .inr ⟨q, h, fun _ _ => ⟨Rat.cast_le.mp, Rat.cast_le.mp⟩⟩

/-- What is kept of the nearest number is the result. -/
theorem of_nearest {u : UnpackedFloat} {k : ℕ} {t : ℤ}
    (kept : x.toModel.unpack = unpack Format.binary64 (pack Format.binary64 u)) (proper : Proper k t)
    (nearest : Nearest q k t) (holds : Holds .positive k t u) : Rounded x q := by
  suffices rational : (x.toModel.unpack = .infinity .positive ∧ ∀ v, Representable v → v < q) ∨
      ∃ r, Worth x r ∧ ∀ v, Representable v → (q ≤ v → r ≤ v) ∧ (v ≤ q → v ≤ r) by
    unfold Rounded
    exact_mod_cast rational
  have sides (v : ℚ) (hv : Representable v) : (q ≤ v → (k : ℚ) * 2 ^ t ≤ v) ∧ (v ≤ q → v ≤ (k : ℚ) * 2 ^ t) := by
    obtain ⟨n, e, small, low, -, rfl⟩ := hv
    exact nearest n e small low
  cases holds with
  | zero hk =>
    refine .inr ⟨0, ?_, fun v hv => ?_⟩
    · unfold Worth
      rw [kept]
      simp only [pack, unpack_packedZero]
      exact .zero _
    · simpa [hk] using sides v hv
  | finite hk =>
    rw [unpack_pack_finite proper hk] at kept
    by_cases high : t ≤ 971
    · rw [if_pos high] at kept
      refine .inr ⟨k * 2 ^ t, ?_, sides⟩
      unfold Worth
      rw [kept]
      exact .finite hk proper high
    · rw [if_neg high] at kept
      refine .inl ⟨kept, fun v hv => ?_⟩
      obtain ⟨n, e, small, low, top, rfl⟩ := hv
      have leading : 2 ^ 52 ≤ k := proper.normal.resolve_left (by omega)
      -- the greatest number of the format is below one with the next exponent
      have past : (n : ℚ) * 2 ^ e < k * 2 ^ t :=
        (below_first (by omega) (by exact_mod_cast small)).trans_le
          (mul_le_mul_of_nonneg_right (by exact_mod_cast leading) (by positivity))
      by_contra hq
      have := (nearest n e small low).1 (not_lt.mp hq)
      exact absurd past (not_lt.mpr this)

end Rounded

/-! ## Operations -/

section

variable {s : Sign} {k n : ℕ} {t e : ℤ}

theorem mul_nearest (hk : 0 < k) (hn : 0 < n) (proper : Proper k t) (proper' : Proper n e) :
    ∃ k' t', Proper k' t' ∧ Nearest ((k * 2 ^ t) * (n * 2 ^ e)) k' t' ∧
      Midway ((k * 2 ^ t) * (n * 2 ^ e)) (k' * 2 ^ t') ∧
      Holds s k' t' (roundWithAccuracy Format.binary64 s (k * n) (t + e) .exact) := by
  have fits : t + e ≤ Format.binary64.targetExponent (totalExponent (k * n) (t + e)) := by
    have target : Format.binary64.targetExponent (totalExponent (k * n) (t + e)) =
        max (((k * n).log2 + 1 + (t + e)) - 53) (-1074) := rfl
    have digits (h : 2 ^ 52 ≤ k * n) : 52 ≤ (k * n).log2 := (Nat.le_log2 (Nat.mul_pos hk hn).ne').mpr h
    rcases proper.normal with low | normal
    · rcases proper'.normal with low' | normal'
      · omega
      · have := digits (normal'.trans (Nat.le_mul_of_pos_left n hk))
        omega
    · have := digits (normal.trans (Nat.le_mul_of_pos_right k hn))
      omega
  obtain ⟨k', t', proper, nearest, midway, holds⟩ := roundWithAccuracy_nearest (s := s) (a := .exact)
    (x := ((k * n : ℕ) : ℚ)) rfl fits
  have product : ((k * n : ℕ) : ℚ) * 2 ^ (t + e) = k * 2 ^ t * (n * 2 ^ e) := by
    rw [zpow_add₀ two_ne_zero]
    push_cast
    ring
  rw [product] at nearest midway
  exact ⟨k', t', proper, nearest, midway, holds⟩

theorem round_nearest (hk : 0 < k) (t : ℤ) : ∃ k' t', Proper k' t' ∧ Nearest (k * 2 ^ t) k' t' ∧
    Midway (k * 2 ^ t) (k' * 2 ^ t') ∧ Holds s k' t' (UnpackedFloat.round Format.binary64 s k t) := by
  obtain ⟨target, htarget⟩ : ∃ target, target = Format.binary64.targetExponent (totalExponent k t) := ⟨_, rfl⟩
  obtain ⟨d, hd⟩ : ∃ d, d = (t - target).toNat := ⟨_, rfl⟩
  have longer : (k <<< d).log2 = k.log2 + d := by
    rw [Nat.log2_eq_iff (by rw [Nat.shiftLeft_eq]; positivity), Nat.shiftLeft_eq]
    constructor
    · rw [pow_add]
      exact Nat.mul_le_mul_right _ (Nat.log2_self_le hk.ne')
    · rw [show k.log2 + d + 1 = k.log2 + 1 + d by omega, pow_add]
      exact Nat.mul_lt_mul_of_pos_right Nat.lt_log2_self (by positivity)
  have place : totalExponent (k <<< d) (t - d) = totalExponent k t := by
    simp only [totalExponent, longer]
    omega
  have fits : t - d ≤ Format.binary64.targetExponent (totalExponent (k <<< d) (t - d)) := by
    rw [place, ← htarget]
    omega
  obtain ⟨k', t', proper, nearest, midway, holds⟩ := roundWithAccuracy_nearest (s := s) (a := .exact)
    (x := ((k <<< d : ℕ) : ℚ)) rfl fits
  have same : ((k <<< d : ℕ) : ℚ) * 2 ^ (t - (d : ℤ)) = k * 2 ^ t := by
    rw [Nat.shiftLeft_eq, zpow_sub₀ two_ne_zero, zpow_natCast]
    push_cast
    field_simp
  rw [same] at nearest midway
  refine ⟨k', t', proper, nearest, midway, ?_⟩
  simp only [UnpackedFloat.round, decreaseExponent, ← htarget, ← hd]
  exact holds

/-- What is left of a division tells where the quotient is among the whole numbers. -/
theorem stands_quotient (k : ℕ) (hn : 0 < n) :
    Stands (.ofMantissaAndAccuracy (k / n) (accuracyOfFraction (k % n) n)) ((k : ℚ) / n) := by
  have positive : (0 : ℚ) < n := Nat.cast_pos.mpr hn
  have parts : (k : ℚ) / n = (k / n : ℕ) + ((k % n : ℕ) : ℚ) / n := by
    have := congrArg (Nat.cast (R := ℚ)) (Nat.div_add_mod k n)
    push_cast at this
    field_simp
    linarith
  have below : ((k % n : ℕ) : ℚ) / n < 1 := by
    rw [div_lt_one positive]
    exact Nat.cast_lt.mpr (Nat.mod_lt k hn)
  rw [parts]
  unfold accuracyOfFraction
  by_cases none : k % n = 0
  · rw [if_pos none, none]
    show _ = _
    simp
  · have some_left : (0 : ℚ) < ((k % n : ℕ) : ℚ) / n := div_pos (Nat.cast_pos.mpr (Nat.pos_of_ne_zero none)) positive
    rw [if_neg none]
    rcases lt_trichotomy (2 * (k % n)) n with less | half | more
    · rw [compare_lt_iff_lt.mpr less]
      refine ⟨by linarith, ?_⟩
      have : ((k % n : ℕ) : ℚ) / n < 1 / 2 := by
        rw [div_lt_div_iff₀ positive two_pos]
        exact_mod_cast (by omega : k % n * 2 < 1 * n)
      linarith
    · rw [compare_eq_iff_eq.mpr half]
      have : ((k % n : ℕ) : ℚ) / n = 1 / 2 := by
        rw [div_eq_div_iff positive.ne' two_ne_zero]
        exact_mod_cast (by omega : k % n * 2 = 1 * n)
      show _ = _
      rw [this]
    · rw [compare_gt_iff_gt.mpr more]
      have : 1 / 2 < ((k % n : ℕ) : ℚ) / n := by
        rw [div_lt_div_iff₀ two_pos positive]
        exact_mod_cast (by omega : 1 * n < k % n * 2)
      exact ⟨by linarith, by linarith⟩

theorem div_nearest (hk : 0 < k) (hn : 0 < n) :
    ∃ k' t', Proper k' t' ∧ Nearest ((k * 2 ^ t) / (n * 2 ^ e)) k' t' ∧
      Holds s k' t' (roundWithAccuracy Format.binary64 s (divCore Format.binary64 k t n e).1
        (divCore Format.binary64 k t n e).2.1 (divCore Format.binary64 k t n e).2.2) := by
  obtain ⟨target, htarget⟩ : ∃ target, target =
      min (t - e) (Format.binary64.targetExponent (totalExponent k t - totalExponent n e)) := ⟨_, rfl⟩
  obtain ⟨d, hd⟩ : ∃ d, d = (t - e - target).toNat := ⟨_, rfl⟩
  have core : divCore Format.binary64 k t n e =
      (k <<< d / n, target, accuracyOfFraction (k <<< d % n) n) := by
    simp only [divCore, ← htarget, ← hd]
  have wanted : Format.binary64.targetExponent (totalExponent k t - totalExponent n e) =
      max ((k.log2 + 1 + t) - (n.log2 + 1 + e) - 53) (-1074) := rfl
  have fits : target ≤ Format.binary64.targetExponent (totalExponent (k <<< d / n) target) := by
    have place : Format.binary64.targetExponent (totalExponent (k <<< d / n) target) =
        max ((((k <<< d / n).log2 : ℕ) + 1 + target) - 53) (-1074) := rfl
    rcases le_or_gt target (-1074) with low | high
    · omega
    · -- the dividend was made so long that the quotient has all the digits of the format
      have long : n.log2 + 53 ≤ k.log2 + d := by omega
      have digits : 2 ^ 52 ≤ k <<< d / n := by
        rw [Nat.le_div_iff_mul_le hn, Nat.shiftLeft_eq]
        calc 2 ^ 52 * n ≤ 2 ^ 52 * 2 ^ (n.log2 + 1) := Nat.mul_le_mul_left _ Nat.lt_log2_self.le
          _ = 2 ^ (n.log2 + 53) := by rw [← pow_add]; congr 1; omega
          _ ≤ 2 ^ (k.log2 + d) := Nat.pow_le_pow_right two_pos long
          _ = 2 ^ k.log2 * 2 ^ d := pow_add _ _ _
          _ ≤ k * 2 ^ d := Nat.mul_le_mul_right _ (Nat.log2_self_le hk.ne')
      have := (Nat.le_log2 (Nat.lt_of_lt_of_le (by positivity) digits).ne').mpr digits
      omega
  rw [core]
  obtain ⟨k', t', proper, nearest, -, holds⟩ := roundWithAccuracy_nearest (s := s) (stands_quotient (k <<< d) hn) fits
  refine ⟨k', t', proper, ?_, holds⟩
  have quotient : ((k <<< d : ℕ) : ℚ) / n * 2 ^ target = k * 2 ^ t / (n * 2 ^ e) := by
    have exponents : (2 : ℚ) ^ d * 2 ^ target = 2 ^ t / 2 ^ e := by
      rw [← zpow_natCast, ← zpow_add₀ two_ne_zero, ← zpow_sub₀ two_ne_zero]
      congr 1
      omega
    calc ((k <<< d : ℕ) : ℚ) / n * 2 ^ target = k / n * (2 ^ d * 2 ^ target) := by
          rw [Nat.shiftLeft_eq]
          push_cast
          ring
      _ = k * 2 ^ t / (n * 2 ^ e) := by rw [exponents, div_mul_div_comm]
  rwa [← quotient]

end

section

variable (x y : Float)

theorem unpack_add : (Arith.add x y).toModel.unpack = unpack Format.binary64 (pack Format.binary64
    (UnpackedFloat.add Format.binary64 x.toModel.unpack y.toModel.unpack)) := rfl

theorem unpack_mul : (Arith.mul x y).toModel.unpack = unpack Format.binary64 (pack Format.binary64
    (UnpackedFloat.mul Format.binary64 x.toModel.unpack y.toModel.unpack)) := rfl

theorem unpack_div : (Arith.div x y).toModel.unpack = unpack Format.binary64 (pack Format.binary64
    (UnpackedFloat.div Format.binary64 x.toModel.unpack y.toModel.unpack)) := rfl

end

namespace Worth

variable {x y : Float} {p q : ℚ}

theorem of_zero {s : Sign} (kept : x.toModel.unpack = unpack Format.binary64 (pack Format.binary64 (.zero s))) :
    Worth x 0 := by
  unfold Worth
  rw [kept]
  simp only [pack, unpack_packedZero]
  exact .zero s

/-- A product is zero, or the nearest number to what the factors come to. -/
theorem mul_cases (hx : Worth x p) (hy : Worth y q) : (p * q = 0 ∧ Worth (Arith.mul x y) 0) ∨
    ∃ k t u, (Arith.mul x y).toModel.unpack = unpack Format.binary64 (pack Format.binary64 u) ∧ Proper k t ∧
      Nearest (p * q) k t ∧ Midway (p * q) (k * 2 ^ t) ∧ Holds .positive k t u := by
  have kept := unpack_mul x y
  unfold Worth at hx hy
  generalize x.toModel.unpack = u at kept hx
  generalize y.toModel.unpack = v at kept hy
  cases hx with
  | zero s =>
    rw [zero_mul]
    cases hy with
    | zero s' => exact .inl ⟨rfl, of_zero kept⟩
    | finite _ _ _ => exact .inl ⟨rfl, of_zero kept⟩
  | finite hk proper _ =>
    cases hy with
    | zero s' =>
      rw [mul_zero]
      exact .inl ⟨rfl, of_zero kept⟩
    | finite hn proper' _ =>
      obtain ⟨k', t', product⟩ := mul_nearest (s := .positive) hk hn proper proper'
      exact .inr ⟨k', t', _, kept, product⟩

theorem mul (hx : Worth x p) (hy : Worth y q) : Rounded (Arith.mul x y) (p * q : ℚ) := by
  rcases hx.mul_cases hy with ⟨none, zero⟩ | ⟨k, t, u, kept, proper, nearest, -, holds⟩
  · rw [none]
    exact .of_worth zero
  · exact .of_nearest kept proper nearest holds

theorem div (hx : Worth x p) (hy : Worth y q) (hq : q ≠ 0) : Rounded (Arith.div x y) (p / q : ℚ) := by
  have kept := unpack_div x y
  unfold Worth at hx hy
  generalize x.toModel.unpack = u at kept hx
  generalize y.toModel.unpack = v at kept hy
  cases hy with
  | zero s' => exact absurd rfl hq
  | finite hn proper' _ =>
    cases hx with
    | zero s =>
      rw [zero_div]
      exact .of_worth (of_zero kept)
    | finite hk proper _ =>
      obtain ⟨k', t', proper, nearest, holds⟩ := div_nearest (s := .positive) hk hn
      exact .of_nearest kept proper nearest holds

/-- Nothing changes when a number is packed again. -/
theorem of_unpack {z : Float}
    (kept : z.toModel.unpack = unpack Format.binary64 (pack Format.binary64 x.toModel.unpack)) : z = x := by
  refine unpack_injective (kept.trans ?_)
  exact congrArg (unpack Format.binary64) (pack_unpack_of_valid x.toModel.valid)

theorem add (hx : Worth x p) (hy : Worth y q) : Rounded (Arith.add x y) (p + q : ℚ) := by
  have kept := unpack_add x y
  have hx' := hx
  have hy' := hy
  unfold Worth at hx' hy'
  generalize hu : x.toModel.unpack = u at kept hx'
  generalize hv : y.toModel.unpack = v at kept hy'
  cases hx' with
  | zero s =>
    rw [zero_add]
    cases hy' with
    | zero s' =>
      have zero : ∃ s'', UnpackedFloat.add Format.binary64 (.zero s) (.zero s') = .zero s'' := by
        cases s <;> cases s' <;> exact ⟨_, rfl⟩
      obtain ⟨s'', hzero⟩ := zero
      rw [hzero] at kept
      exact .of_worth (of_zero kept)
    | finite hn proper high =>
      have same : Arith.add x y = y := of_unpack (by rw [kept, hv]; rfl)
      rw [same]
      exact .of_worth hy
  | @finite k t hk proper high =>
    cases hy' with
    | zero s' =>
      have same : Arith.add x y = x := of_unpack (by rw [kept, hu]; rfl)
      rw [same, add_zero]
      exact .of_worth hx
    | @finite n e hn proper' high' =>
      obtain ⟨least, hleast⟩ : ∃ least, least = min t e := ⟨_, rfl⟩
      obtain ⟨total, htotal⟩ : ∃ total, total = k <<< (t - least).toNat + n <<< (e - least).toNat := ⟨_, rfl⟩
      have positive : 0 < total := by
        rw [htotal, Nat.shiftLeft_eq]
        exact Nat.add_pos_left (Nat.mul_pos hk (Nat.pow_pos two_pos)) _
      have sum : UnpackedFloat.add Format.binary64 (.finite .positive k t hk) (.finite .positive n e hn) =
          UnpackedFloat.round Format.binary64 .positive total least := by
        have whole : Sign.positive.apply (k <<< (t - least).toNat : ℕ) +
            Sign.positive.apply (n <<< (e - least).toNat : ℕ) = (total : ℤ) := by
          rw [htotal]
          exact (Nat.cast_add _ _).symm
        have above : Ord.compare (total : ℤ) 0 = .gt := compare_gt_iff_gt.mpr (by exact_mod_cast positive)
        simp only [UnpackedFloat.add, decreaseExponent, ← hleast, whole, UnpackedFloat.normalize, above,
          Int.toNat_natCast]
      rw [sum] at kept
      obtain ⟨k', t', proper, nearest, -, holds⟩ := round_nearest (s := .positive) positive least
      have value : (total : ℚ) * 2 ^ least = k * 2 ^ t + n * 2 ^ e := by
        rw [two_zpow (show least ≤ t by omega), two_zpow (show least ≤ e by omega), htotal]
        simp only [Nat.shiftLeft_eq]
        push_cast
        ring
      rw [value] at nearest
      exact .of_nearest kept proper nearest holds

end Worth

/-! ## Numbers that are given -/

section

variable {x : Float}

theorem worth_of_zero {s : Sign} (h : x.toModel.unpack = .zero s) : Worth x 0 := by
  unfold Worth
  rw [h]
  exact .zero s

theorem worth_of_finite {k : ℕ} {t : ℤ} {hk : 0 < k} (h : x.toModel.unpack = .finite .positive k t hk) :
    Worth x (k * 2 ^ t) := by
  obtain ⟨proper, high⟩ := proper_of_unpack h
  unfold Worth
  rw [h]
  exact .finite hk proper high

theorem worth_zero : Worth Arith.zero 0 := worth_of_zero (s := .positive) rfl

theorem worth_one : Worth Arith.one 1 := by
  have worth : Worth Arith.one (((2 ^ 52 : ℕ) : ℚ) * 2 ^ (-52 : ℤ)) := @worth_of_finite _ _ _ (by decide) rfl
  have value : ((2 ^ 52 : ℕ) : ℚ) * 2 ^ (-52 : ℤ) = 1 := by norm_num
  rwa [value] at worth

theorem worth_of_absolute (h : Absolute x.toModel.unpack) : ∃ q, Worth x q := by
  obtain ⟨u, hu⟩ : ∃ u, x.toModel.unpack = u := ⟨_, rfl⟩
  rw [hu] at h
  cases h with
  | zero => exact ⟨0, worth_of_zero hu⟩
  | finite k t hk => exact ⟨_, worth_of_finite hu⟩

end

theorem ofScientific_whole {n : ℕ} (hn : 0 < n) : UnpackedFloat.ofScientific Format.binary64 n 0 =
    roundWithAccuracy Format.binary64 .positive (n <<< 53 * 10 ^ (0 : ℤ).toNat) (-((53 : ℕ) : ℤ) + 0) .exact := by
  have upper : ¬(0 : ℤ) > 2 ^ Format.exponentBits Format.binary64 := by simp
  have lower : ¬(0 : ℤ) < -(2 ^ Format.exponentBits Format.binary64 + (n.log2 : ℤ)) := by
    have : (0 : ℤ) ≤ 2 ^ Format.exponentBits Format.binary64 := by positivity
    omega
  rw [UnpackedFloat.ofScientific, dif_neg hn.ne', if_neg upper, if_neg lower, if_pos le_rfl]
  rfl

theorem ofScientific_nearest {n : ℕ} (hn : 0 < n) :
    ∃ k t, Proper k t ∧ Nearest n k t ∧ Midway n (k * 2 ^ t) ∧
      Holds .positive k t (UnpackedFloat.ofScientific Format.binary64 n 0) := by
  have shifted : n <<< 53 * 10 ^ (0 : ℤ).toNat = n * 2 ^ 53 := by
    rw [Int.toNat_zero, pow_zero, mul_one, Nat.shiftLeft_eq]
  have whole := ofScientific_whole hn
  rw [shifted] at whole
  have fits : (-((53 : ℕ) : ℤ) + 0) ≤
      Format.binary64.targetExponent (totalExponent (n * 2 ^ 53) (-((53 : ℕ) : ℤ) + 0)) := by
    have place : Format.binary64.targetExponent (totalExponent (n * 2 ^ 53) (-((53 : ℕ) : ℤ) + 0)) =
        max ((((n * 2 ^ 53).log2 : ℕ) + 1 + (-((53 : ℕ) : ℤ) + 0)) - 53) (-1074) := rfl
    have digits : 53 ≤ (n * 2 ^ 53).log2 := by
      rw [Nat.le_log2 (by omega)]
      omega
    omega
  obtain ⟨k', t', proper, nearest, midway, holds⟩ := roundWithAccuracy_nearest (s := .positive) (a := .exact)
    (x := ((n * 2 ^ 53 : ℕ) : ℚ)) rfl fits
  have value : ((n * 2 ^ 53 : ℕ) : ℚ) * 2 ^ (-((53 : ℕ) : ℤ) + 0) = n := by
    rw [add_zero, zpow_neg, zpow_natCast, Nat.cast_mul, Nat.cast_pow, Nat.cast_ofNat, mul_assoc,
      mul_inv_cancel₀ (by positivity), mul_one]
  rw [value] at nearest midway
  rw [← whole] at holds
  exact ⟨k', t', proper, nearest, midway, holds⟩

/-- Up to 2^53 a whole number is what it is taken for, and past that the nearest number. -/
theorem rounded_ofScientific (n : ℕ) : Rounded (Float.ofScientific n false 0) (n : ℚ) := by
  unfold Float.ofScientific
  by_cases small : n < 2 ^ 53 ∧ 0 ≤ 22
  · -- a whole number with all its digits, times the first power of ten
    have digits : Worth n.toUInt64.toFloat n := by
      have kept : n.toUInt64.toFloat.toModel.unpack = unpack Format.binary64 (pack Format.binary64
          (UnpackedFloat.normalize Format.binary64 (n.toUInt64.toNat : ℤ) 0 .positive)) := rfl
      have same : n.toUInt64.toNat = n := UInt64.toNat_ofNat_of_lt' (small.1.trans (by decide))
      rw [same] at kept
      rcases Nat.eq_zero_or_pos n with rfl | hn
      · exact_mod_cast Worth.of_zero (s := .positive) kept
      · have above : Ord.compare (n : ℤ) 0 = .gt := compare_gt_iff_gt.mpr (by exact_mod_cast hn)
        simp only [UnpackedFloat.normalize, above, Int.toNat_natCast] at kept
        obtain ⟨k', t', proper, nearest, -, holds⟩ := round_nearest (s := .positive) hn 0
        rw [zpow_zero, mul_one] at nearest
        exact (Rounded.of_nearest kept proper nearest holds).exactly (representable_nat small.1)
    rw [dif_pos small]
    have product := digits.mul worth_one
    rw [mul_one] at product
    exact product
  · rw [dif_neg small]
    obtain ⟨k', t', proper, nearest, -, holds⟩ := ofScientific_nearest (show 0 < n by omega)
    exact .of_nearest rfl proper nearest holds

end Regrid.Binary64
