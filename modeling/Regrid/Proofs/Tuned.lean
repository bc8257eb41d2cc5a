/-
  Regrid.Proofs.Tuned — what the settings of a threshold marker can be.

  Settings start from the defaults and change through what a caller hands in (`Tuned`). Each
  value is admitted before it is stored, and converted afterwards; of all settings that come
  about so (`Settings.Admitted`) the fraction is at most one, the goals are finite, and no
  number is below zero. The exponent is infinite or above zero (`Settings.Positive`) where
  nothing was given for it that vanishes when it is converted; a long number can.

  Values are admitted by comparing them with whole numbers, exactly, through mantissa and
  exponent. What a number shows there (`shape_eq`) is what it is worth.
-/

import Regrid.Marker
import Regrid.Proofs.Conversion
import Regrid.Proofs.Outcome

namespace Regrid

namespace Binary64

open Decimal (Shape Binary)
open Float.Model (UnpackedFloat Format)
open Float.Model.UnpackedFloat

/-! ## Numbers taken apart -/

section

variable (x : Float)

theorem exponent_bits : ((x.toBits >>> 52) &&& 0x7FF).toNat =
    (@unpackExponent Format.binary64 x.toBits.toBitVec).toNat := by
  show (x.toBits.toNat >>> 52) &&& (2 ^ 11 - 1) = (x.toBits.toNat >>> 52) % 2 ^ 11
  rw [Nat.and_two_pow_sub_one_eq_mod]

theorem mantissa_bits : (x.toBits &&& 0xFFFFFFFFFFFFF).toNat =
    (@unpackMantissa Format.binary64 x.toBits.toBitVec).toNat := by
  show x.toBits.toNat &&& (2 ^ 52 - 1) = (x.toBits.toNat >>> 0) % 2 ^ 52
  rw [Nat.and_two_pow_sub_one_eq_mod, Nat.shiftRight_zero]

theorem sign_bit : (x.toBits >>> 63 == 1) =
    (Sign.ofBitVec (@unpackSign Format.binary64 x.toBits.toBitVec) == .negative) := by
  have leading : (@unpackSign Format.binary64 x.toBits.toBitVec).toNat = (x.toBits >>> 63).toNat := by
    show (x.toBits.toNat >>> 63) % 2 ^ 1 = x.toBits.toNat >>> 63
    have := x.toBits.toNat_lt
    omega
  have bit := (@unpackSign Format.binary64 x.toBits.toBitVec).isLt
  generalize @unpackSign Format.binary64 x.toBits.toBitVec = s at leading bit
  generalize x.toBits >>> 63 = w at leading
  rcases Nat.eq_zero_or_pos s.toNat with none | some
  · obtain rfl : w = 0 := UInt64.toNat_inj.mp (leading.symm.trans none)
    obtain rfl : s = 0#1 := BitVec.eq_of_toNat_eq none
    rfl
  · have one : s.toNat = 1 := by omega
    obtain rfl : w = 1 := UInt64.toNat_inj.mp (leading.symm.trans one)
    obtain rfl : s = 1#1 := BitVec.eq_of_toNat_eq one
    rfl

/-- What a number shows when it is taken apart. -/
def shape : UnpackedFloat → Shape
  | .notANumber => .nan
  | .infinity s => .infinite (s == .negative)
  | .zero s => .finite (s == .negative) ⟨0, -1074⟩
  | .finite s k t _ => .finite (s == .negative) ⟨k, t⟩

theorem shape_eq : Shape.ofFloat x = shape x.toModel.unpack := by
  have unpacked : x.toModel.unpack = unpack Format.binary64 x.toBits.toBitVec := rfl
  have bits {n : ℕ} (b b' : BitVec n) : (b.toNat == b'.toNat) = decide (b = b') := by
    rw [Bool.eq_iff_iff, beq_iff_eq, decide_eq_true_eq, BitVec.toNat_inj]
  have all : ((@unpackExponent Format.binary64 x.toBits.toBitVec).toNat == 0x7FF) = decide (_ = -1#11) :=
    bits _ (-1#11)
  have first : ((@unpackExponent Format.binary64 x.toBits.toBitVec).toNat == 0) = decide (_ = 0#11) :=
    bits _ 0#11
  have none : ((@unpackMantissa Format.binary64 x.toBits.toBitVec).toNat == 0) = decide (_ = 0#52) :=
    bits _ 0#52
  rw [unpacked, Shape.ofFloat]
  simp only [exponent_bits, mantissa_bits, sign_bit, all, first, none, decide_eq_true_eq]
  unfold unpack
  simp only
  split
  · split <;> rfl
  · split
    · rename_i subnormal
      split
      · rename_i zero
        rw [zero]
        rfl
      · rw [subnormal]
        rfl
    · have leading : (1#1 ++ @unpackMantissa Format.binary64 x.toBits.toBitVec).toNat =
          0x10000000000000 + (@unpackMantissa Format.binary64 x.toBits.toBitVec).toNat := by
        rw [BitVec.toNat_append, ← Nat.shiftLeft_add_eq_or_of_lt (BitVec.isLt _)]
        rfl
      show _ = Shape.finite _ ⟨(1#1 ++ @unpackMantissa Format.binary64 x.toBits.toBitVec).toNat, _⟩
      rw [leading]
      rfl

end

variable {x : Float} {q : ℚ}

/-- A number is worth what it comes to when it is taken apart. -/
theorem Worth.comes (h : Worth x q) : (Shape.ofFloat x).Comes q := by
  rw [shape_eq]
  unfold Worth at h
  generalize x.toModel.unpack = u at h
  cases h with
  | zero s =>
    have none : (⟨0, -1074⟩ : Binary).worth = 0 := Binary.worth_of_zero rfl
    exact none ▸ .finite fun _ => rfl
  | finite hk _ _ => exact .finite nofun

/-- What is neither NaN nor infinite nor below zero is worth something. -/
theorem worth_of_admitted (number : x.isNaN = false) (bounded : x.isInf = false)
    (nonneg : Arith.ltInt x 0 = false) : ∃ q, Worth x q := by
  have number : x.toModel.unpack.isNaN = false := number
  have bounded : x.toModel.unpack.isInf = false := bounded
  have nonneg : (Shape.ofFloat x).lessThanInt 0 = false := nonneg
  obtain ⟨u, hu⟩ : ∃ u, x.toModel.unpack = u := ⟨_, rfl⟩
  rw [shape_eq, hu] at nonneg
  rw [hu] at number bounded
  cases u with
  | notANumber => cases number
  | infinity s => cases bounded
  | zero s => exact ⟨0, worth_of_zero hu⟩
  | finite s k t hk =>
    cases s with
    | negative =>
      obtain ⟨zero⟩ := Shape.comes_of_finite nonneg
      exact absurd (zero rfl) hk.ne'
    | positive => exact ⟨_, worth_of_finite hu⟩

theorem decimal_ofNat (n : ℕ) : Decimal.ofInt n = Float.ofScientific n false 0 := by
  rw [Decimal.ofInt, if_neg (by omega), Int.natAbs_natCast]

/-- A whole number that is converted is the nearest number, within the range. -/
theorem worth_ofInt {n : ℕ} (h : ofInt n = .ok x) :
    ∃ r, Worth x r ∧ ∀ v, Representable v → (n ≤ v → r ≤ v) ∧ (v ≤ n → v ≤ r) := by
  rw [ofInt, decimal_ofNat] at h
  rcases rounded_ofScientific n with ⟨infinite, -⟩ | worth
  · rw [if_pos (isInf_of_unpack infinite)] at h
    cases h
  · by_cases refused : (Float.ofScientific n false 0).isInf = true
    · rw [if_pos refused] at h
      cases h
    · rw [if_neg refused] at h
      cases h
      exact_mod_cast worth

/-- Whole numbers of up to 53 digits are converted as they are. -/
theorem worth_ofNat {n : ℕ} (small : n < 2 ^ 53) : ∃ x, ofInt n = .ok x ∧ Worth x n := by
  have worth := (rounded_ofScientific n).exactly (representable_nat small)
  refine ⟨_, ?_, worth⟩
  rw [ofInt, decimal_ofNat, worth.isInf]
  rfl

end Binary64

/-! ## Settings -/

open Binary64 (Worth leastHalf)

/-- Settings that come about from the defaults by changing one after another to what may be given. -/
inductive Settings.From (given : MarkerSetting → Prop) : Settings Float → Prop
  | default : From given Settings.default
  | tune {s s' : Settings Float} (change : MarkerSetting) :
      From given s → given change → s.tune change = .ok s' → From given s'

/-- Settings that come about from any values at all. -/
def Settings.Tuned : Settings Float → Prop := From fun _ => True

structure Settings.Admitted (s : Settings Float) : Prop where
  exponent : ∀ p, s.exponent = .finite p → ∃ q, Worth p q
  totalGoal : ∃ q, Worth s.totalGoal q
  fraction : ∃ q, Worth s.fraction q ∧ q ≤ 1
  localGoal : ∃ q, Worth s.localGoal q
  maxElements : 1 ≤ s.maxElements

/-- The exponent is infinite or above zero. -/
def Settings.Positive (s : Settings Float) : Prop := ∀ p, s.exponent = .finite p → ∃ q, Worth p q ∧ 0 < q

/-- What is above zero is not below it. -/
theorem Given.ltInt_of_gtInt {g : Given} (h : g.gtInt 0 = true) : g.ltInt 0 = false := by
  match g, h with
  | .number (.int _), above => exact decide_eq_false (of_decide_eq_true above).le.not_gt
  | .number (.real _), above | .long _, above => exact Decimal.Shape.not_lessThanInt_of_greaterThanInt above

/-- A long number above zero that is converted to zero. -/
inductive Given.Vanishes : Given → Prop
  | long {x : Decimal.Shape} {q : ℚ} : x.Comes q → 0 < q → q ≤ leastHalf → Vanishes (.long x)

/-- An exponent that is admitted as positive and stored as zero. -/
inductive MarkerSetting.Vanishes : MarkerSetting → Prop
  | exponent {v : Value} {g : Given} : v.given? = some g → g.Vanishes → Vanishes (.exponent v)

namespace Admission

variable {name : String} {v : Value} {g : Given} {x : Float}

/-- What a number is that was admitted, and what it is converted to. -/
inductive Converts : Given → Float → Prop
  | real {x : Float} : x.isNaN = false → Converts (.number (.real x)) x
  | int {k : ℤ} {x : Float} : Binary64.ofInt k = .ok x → Converts (.number (.int k)) x
  | long {x : Decimal.Shape} : x.toFloat.isNaN = false → Converts (.long x) x.toFloat

theorem numeric_converts (h : numeric name v = .ok g) (hx : g.toReal = .ok x) : v.given? = some g ∧ Converts g x := by
  unfold numeric at h
  cases hv : v.given? with
  | none =>
    rw [hv] at h
    cases h
  | some g' =>
    rw [hv] at h
    have sound (nan : (if g'.isNaN then refuse name .isNaN else .ok g') = .ok g) : g' = g ∧ g'.isNaN = false := by
      by_cases number : g'.isNaN = true
      · rw [if_pos number] at nan
        cases nan
      · rw [if_neg number] at nan
        exact ⟨Except.ok.inj nan, Bool.eq_false_iff.mpr number⟩
    match g', h with
    | .number (.int k), h =>
      cases hk : Binary64.ofInt k with
      | error f =>
        simp only [hk] at h
        cases h
      | ok y =>
        simp only [hk] at h
        cases h
        exact ⟨rfl, .int hx⟩
    | .number (.real y), h =>
      obtain ⟨rfl, number⟩ := sound h
      cases hx
      exact ⟨rfl, .real number⟩
    | .long y, h =>
      obtain ⟨rfl, number⟩ := sound h
      cases hx
      exact ⟨rfl, .long number⟩

/-- What is not below zero, nor infinite, is worth something, on the same side of one and, unless it
    vanishes, of zero. -/
theorem Converts.worth (h : Converts g x) (bounded : g.isInfinite = false) (nonneg : g.ltInt 0 = false) :
    ∃ q, Worth x q ∧ (g.gtInt 1 = false → q ≤ 1) ∧ (g.gtInt 0 = true → ¬g.Vanishes → 0 < q) := by
  cases h with
  | real number =>
    obtain ⟨q, worth⟩ := Binary64.worth_of_admitted number bounded nonneg
    exact ⟨q, worth, fun unit => not_lt.mp (mt worth.comes.gtInt_one.mpr (Bool.eq_false_iff.mp unit)),
      fun positive _ => worth.comes.gtInt_zero.mp positive⟩
  | @int k x converted =>
    have hk : 0 ≤ k := not_lt.mp (of_decide_eq_false nonneg)
    obtain ⟨m, rfl⟩ := Int.eq_ofNat_of_zero_le hk
    obtain ⟨r, worth, sides⟩ := Binary64.worth_ofInt converted
    obtain ⟨below, above⟩ := sides 1 Binary64.representable_one
    refine ⟨r, worth, fun unit => below ?_, fun positive _ => one_pos.trans_le (above ?_)⟩
    · have := of_decide_eq_false unit
      exact_mod_cast (by omega : m ≤ 1)
    · have := of_decide_eq_true positive
      exact_mod_cast (by omega : 1 ≤ m)
  | @long x number =>
    obtain ⟨p, comes⟩ := Decimal.Shape.comes_of_admitted number bounded nonneg
    rcases comes.settled.1 with ⟨infinite, -⟩ | ⟨q, worth, sides⟩
    · exact absurd (Binary64.isInf_of_unpack infinite) (Bool.eq_false_iff.mp bounded)
    refine ⟨q, worth, fun unit => ?_, fun positive stays => ?_⟩
    · have most : p ≤ 1 := not_lt.mp (mt comes.gtInt_one.mpr (Bool.eq_false_iff.mp unit))
      exact (sides 1 Binary64.representable_one).1 (by exact_mod_cast most)
    · refine worth.nonneg.lt_of_ne fun zero => stays (.long comes (comes.gtInt_zero.mp positive) ?_)
      exact comes.vanishes.mp (zero ▸ worth)

/-- An infinity is below zero or above one. -/
theorem Converts.bounded (h : Converts g x) (nonneg : g.ltInt 0 = false) (unit : g.gtInt 1 = false) :
    g.isInfinite = false := by
  cases h with
  | int _ => rfl
  | real number =>
    have nonneg : ((Decimal.Shape.ofFloat x).compareInt 0 == some .lt) = false := nonneg
    have unit : ((Decimal.Shape.ofFloat x).compareInt 1 == some .gt) = false := unit
    show x.toModel.unpack.isInf = false
    rw [Binary64.shape_eq] at nonneg unit
    generalize x.toModel.unpack = u at nonneg unit
    cases u with
    | infinity s =>
      cases s with
      | negative => cases nonneg
      | positive => cases unit
    | notANumber | zero _ | finite _ _ _ _ => rfl
  | @long x number =>
    cases x with
    | nan => cases number
    | infinite negative =>
      cases negative with
      | true => cases nonneg
      | false => cases unit
    | finite negative b =>
      have comes := Decimal.Shape.comes_of_finite nonneg
      have most := not_lt.mp (mt comes.gtInt_one.mpr (Bool.eq_false_iff.mp unit))
      exact Bool.eq_false_iff.mpr fun infinite =>
        ((comes.isInf.mp infinite).trans most).not_gt (Binary64.lt_edge Binary64.worth_one)

theorem nonNegative_worth (h : nonNegative name v = .ok g) (hx : g.toReal = .ok x) : ∃ q, Worth x q := by
  obtain ⟨m, hm, h⟩ := ok_of_bind h
  split at h
  · cases h
  · split at h
    · cases h
    · rename_i bounded nonneg
      cases h
      obtain ⟨-, converts⟩ := numeric_converts hm hx
      obtain ⟨q, worth, -⟩ := converts.worth (Bool.eq_false_iff.mpr bounded) (Bool.eq_false_iff.mpr nonneg)
      exact ⟨q, worth⟩

theorem fraction_worth (h : fraction name v = .ok g) (hx : g.toReal = .ok x) : ∃ q, Worth x q ∧ q ≤ 1 := by
  obtain ⟨m, hm, h⟩ := ok_of_bind h
  split at h
  · cases h
  · rename_i inside
    cases h
    obtain ⟨nonneg, unit⟩ := Bool.or_eq_false_iff.mp (Bool.eq_false_iff.mpr inside)
    obtain ⟨-, converts⟩ := numeric_converts hm hx
    obtain ⟨q, worth, most, -⟩ := converts.worth (converts.bounded nonneg unit) nonneg
    exact ⟨q, worth, most unit⟩

theorem exponent_worth (h : exponent name v = .ok g) (hx : g.toReal = .ok x) (bounded : x.isInf = false) :
    ∃ q, Worth x q ∧ (¬(MarkerSetting.exponent v).Vanishes → 0 < q) := by
  obtain ⟨m, hm, h⟩ := ok_of_bind h
  split at h
  · rename_i positive
    cases h
    obtain ⟨given, converts⟩ := numeric_converts hm hx
    have bounded : g.isInfinite = false := by
      cases converts with
      | int _ => rfl
      | real _ | long _ => exact bounded
    obtain ⟨q, worth, -, above⟩ := converts.worth bounded (Given.ltInt_of_gtInt positive)
    exact ⟨q, worth, fun stays => above positive fun vanishes => stays (.exponent given vanishes)⟩
  · cases h

end Admission

namespace Settings

variable {s s' : Settings Float}

theorem worth_half : Worth 0.5 (1 / 2) := by
  have worth : Worth 0.5 (((2 ^ 52 : ℕ) : ℚ) * 2 ^ (-53 : ℤ)) := @Binary64.worth_of_finite _ _ _ (by decide) rfl
  have value : ((2 ^ 52 : ℕ) : ℚ) * 2 ^ (-53 : ℤ) = 1 / 2 := by norm_num
  rwa [value] at worth

theorem admitted_default : Settings.default.Admitted where
  exponent := nofun
  totalGoal := ⟨0, Binary64.worth_zero⟩
  fraction := ⟨1 / 2, worth_half, by norm_num⟩
  localGoal := ⟨0, Binary64.worth_zero⟩
  maxElements := by decide

/-- What a change does to the exponent, be it the one that is changed or not. -/
theorem tune_exponent {change : MarkerSetting} (changed : s.tune change = .ok s') :
    s'.exponent = s.exponent ∨ ∀ p, s'.exponent = .finite p → ∃ q, Worth p q ∧ (¬change.Vanishes → 0 < q) := by
  cases change with
  | exponent v =>
    obtain ⟨n, hn, changed⟩ := ok_of_bind changed
    obtain ⟨p, hp, changed⟩ := ok_of_bind changed
    cases changed
    refine .inr fun q hq => ?_
    have hq : Binary64.exponent p = .finite q := hq
    unfold Binary64.exponent at hq
    split at hq
    · cases hq
    · rename_i bounded
      cases hq
      exact Admission.exponent_worth hn hp (Bool.eq_false_iff.mpr bounded)
  | totalGoal v | fraction v | localGoal v =>
    obtain ⟨n, -, changed⟩ := ok_of_bind changed
    obtain ⟨x, -, changed⟩ := ok_of_bind changed
    cases changed
    exact .inl rfl
  | maxElements v =>
    obtain ⟨k, -, changed⟩ := ok_of_bind changed
    cases changed
    exact .inl rfl

theorem Admitted.tune {change : MarkerSetting} (h : s.Admitted) (changed : s.tune change = .ok s') : s'.Admitted := by
  have exponent : ∀ p, s'.exponent = .finite p → ∃ q, Worth p q := by
    intro p hp
    rcases tune_exponent changed with same | positive
    · exact h.exponent p (same.symm.trans hp)
    · obtain ⟨q, worth, -⟩ := positive p hp
      exact ⟨q, worth⟩
  cases change with
  | exponent v =>
    obtain ⟨n, -, changed⟩ := ok_of_bind changed
    obtain ⟨p, -, changed⟩ := ok_of_bind changed
    cases changed
    exact { h with exponent }
  | totalGoal v =>
    obtain ⟨n, hn, changed⟩ := ok_of_bind changed
    obtain ⟨x, hx, changed⟩ := ok_of_bind changed
    cases changed
    exact { h with totalGoal := Admission.nonNegative_worth hn hx }
  | fraction v =>
    obtain ⟨n, hn, changed⟩ := ok_of_bind changed
    obtain ⟨x, hx, changed⟩ := ok_of_bind changed
    cases changed
    exact { h with fraction := Admission.fraction_worth hn hx }
  | localGoal v =>
    obtain ⟨n, hn, changed⟩ := ok_of_bind changed
    obtain ⟨x, hx, changed⟩ := ok_of_bind changed
    cases changed
    exact { h with localGoal := Admission.nonNegative_worth hn hx }
  | maxElements v =>
    obtain ⟨k, hk, changed⟩ := ok_of_bind changed
    cases changed
    exact { h with maxElements := (Admission.integer_ok.mp hk).2 }

/-- Only an exponent that vanishes takes an exponent to zero. -/
theorem Positive.tune {change : MarkerSetting} (h : s.Positive) (stays : ¬change.Vanishes)
    (changed : s.tune change = .ok s') : s'.Positive := by
  intro p hp
  rcases tune_exponent changed with same | positive
  · exact h p (same.symm.trans hp)
  · obtain ⟨q, worth, above⟩ := positive p hp
    exact ⟨q, worth, above stays⟩

variable {given : MarkerSetting → Prop}

theorem From.admitted (h : From given s) : s.Admitted := by
  induction h with
  | default => exact admitted_default
  | tune change _ _ changed ih => exact ih.tune changed

theorem From.positive (h : From given s) (stay : ∀ change, given change → ¬change.Vanishes) : s.Positive := by
  induction h with
  | default => exact nofun
  | tune change _ may changed ih => exact ih.tune (stay change may) changed

theorem Tuned.admitted (h : s.Tuned) : s.Admitted := From.admitted h

end Settings

end Regrid
