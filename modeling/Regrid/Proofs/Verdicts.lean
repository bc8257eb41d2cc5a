/-
  Regrid.Proofs.Verdicts — which values a setting takes, and what becomes of the others.

  A check of a real setting first finds out whether it was handed a number that is not NaN
  (`numeric`), and then whether the number is in range. Of all values, those numbers in range
  are admitted, as they are, and all others are refused with a report about the setting, which
  can always be written — with one exception (`Verdict`): a whole number that is too large for
  binary64 is converted in vain, whatever the range, and what is raised is no report. So 2^1024
  is not refused as outside the unit interval, and not admitted as positive
  (`too_large_for_fraction`). A long number is converted without a fault, and counts as
  infinite where binary64 ends.

  The checks of whole numbers convert nothing. They admit whole numbers of any size from the
  least one on, and refuse all else with a report. But the report shows the number: where there
  is a limit to the digits that are written, and it has more, what is raised is no report.
-/

import Regrid.Proofs.Codes
import Regrid.Proofs.Monotone

namespace Regrid.Admission

open Binary64 (Worth TooLarge edge)

/-- The fault carries a report about the configuration. -/
def Configures (f : Fault) : Prop := ∃ r, f.report? = some r ∧ r.rank = .configuration

/-- A number that cannot be converted. -/
def Unconvertible : Given → Prop
  | .number (.int k) => TooLarge k
  | .number (.real _) | .long _ => False

/-- Finite and not below zero; what is finite as a long number may be infinite for binary64. -/
def NonNegative : Given → Prop
  | .number (.int k) => 0 ≤ k
  | .number (.real x) => ∃ q, Worth x q
  | .long x => ∃ q, x.Comes q ∧ q < edge

def InUnit : Given → Prop
  | .number (.int k) => 0 ≤ k ∧ k ≤ 1
  | .number (.real x) => ∃ q, Worth x q ∧ q ≤ 1
  | .long x => ∃ q, x.Comes q ∧ q ≤ 1

def Positive : Given → Prop
  | .number (.int k) => 0 < k
  | .number (.real x) => x = Binary64.infinity ∨ ∃ q, Worth x q ∧ 0 < q
  | .long x => x = .infinite false ∨ ∃ q, x.Comes q ∧ 0 < q

/-- What is answered to a value by a check for numbers in this range. -/
structure Verdict (range : Given → Prop) (v : Value) (answer : Except Fault Given) : Prop where
  admits : ∀ g, answer = .ok g ↔ v.given? = some g ∧ range g ∧ ¬Unconvertible g
  overflows : ∀ f, answer = .error f ∧ ¬Configures f ↔
    f = .tooLarge ∧ ∃ g, v.given? = some g ∧ Unconvertible g
  /-- No number in a report is too long to be written. -/
  written : ∀ f, answer = .error f → f.raised (some Decimal.mostDigits) = f

section

variable {name : String} {why : Refusal} {v : Value} {range : Given → Prop} {x : Float}

theorem configures_setting : Configures (.setting name why) := ⟨_, rfl, rfl⟩

theorem not_configures_tooLarge : ¬Configures .tooLarge := nofun

namespace Verdict

theorem refused (out : ∀ g, v.given? = some g → range g → False)
    (in_time : ∀ g, v.given? = some g → ¬Unconvertible g)
    (shown : ∀ w ∈ why.shown, w.wholes.all (Decimal.isWritten (some Decimal.mostDigits)) = true) :
    Verdict range v (refuse name why) where
  admits g := ⟨nofun, fun ⟨hg, inside, _⟩ => (out g hg inside).elim⟩
  overflows f := by
    refine ⟨fun ⟨h, other⟩ => ?_, fun ⟨_, g, hg, large⟩ => (in_time g hg large).elim⟩
    cases h
    exact absurd configures_setting other
  written f h := by
    cases h
    refine if_pos (List.all_eq_true.mpr fun n hn => ?_)
    obtain ⟨w, hw, hn⟩ := List.mem_flatMap.mp hn
    exact List.all_eq_true.mp (shown w hw) n hn

theorem admitted {g : Given} (hg : v.given? = some g) (inside : range g) (fits : ¬Unconvertible g) :
    Verdict range v (.ok g) where
  admits m := by
    refine ⟨fun h => ?_, fun ⟨hm, _⟩ => ?_⟩
    · cases h
      exact ⟨hg, inside, fits⟩
    · rw [hg] at hm
      cases hm
      rfl
  overflows f := by
    refine ⟨nofun, fun ⟨_, m, hm, large⟩ => ?_⟩
    rw [hg] at hm
    cases hm
    exact absurd large fits
  written := nofun

theorem overflown {k : ℤ} (hk : v.given? = some (.number (.int k))) (large : TooLarge k) :
    Verdict range v (.error .tooLarge) where
  admits g := by
    refine ⟨nofun, fun ⟨hg, _, fits⟩ => ?_⟩
    rw [hk] at hg
    cases hg
    exact absurd large fits
  overflows f := by
    constructor
    · rintro ⟨⟨⟩, _⟩
      exact ⟨rfl, _, hk, large⟩
    · rintro ⟨rfl, _⟩
      exact ⟨rfl, not_configures_tooLarge⟩
  written f h := by
    cases h
    rfl

end Verdict

/-- What the first step finds: no number, NaN, a whole number that is too large, or a number that converts. -/
theorem numeric_cases (name : String) (v : Value) :
    (∃ why, numeric name v = refuse name why ∧ why.shown = [] ∧ ∀ g, v.given? = some g → g.isNaN = true) ∨
      (∃ k, v.given? = some (.number (.int k)) ∧ TooLarge k ∧ numeric name v = .error .tooLarge) ∨
      ∃ g x, v.given? = some g ∧ Converts g x ∧ ¬Unconvertible g ∧ numeric name v = .ok g := by
  unfold numeric
  cases hv : v.given? with
  | none => exact .inl ⟨_, rfl, rfl, nofun⟩
  | some g =>
    have nan (h : g.isNaN = true) : ∀ g', some g = some g' → g'.isNaN = true := by
      rintro _ ⟨⟩
      exact h
    match g, nan with
    | .number (.int k), _ =>
      by_cases large : TooLarge k
      · refine .inr (.inl ⟨k, rfl, large, ?_⟩)
        simp only [Binary64.ofInt_tooLarge large]
        rfl
      · refine .inr (.inr ⟨_, _, rfl, .int (Binary64.ofInt_ok large), large, ?_⟩)
        simp only [Binary64.ofInt_ok large]
        rfl
    | .number (.real x), nan =>
      by_cases h : x.isNaN = true
      · exact .inl ⟨_, if_pos h, rfl, nan h⟩
      · exact .inr (.inr ⟨_, _, rfl, .real (Bool.eq_false_iff.mpr h), id, if_neg h⟩)
    | .long x, nan =>
      by_cases h : x.toFloat.isNaN = true
      · exact .inl ⟨_, if_pos h, rfl, nan h⟩
      · exact .inr (.inr ⟨_, _, rfl, .long (Bool.eq_false_iff.mpr h), id, if_neg h⟩)

theorem wholes_of_integer {k : ℤ} (h : v.integer? = some k) : v.wholes = [k] := by
  rcases Value.integer?_eq_some h with rfl | ⟨w, rfl⟩ <;> rfl

/-- A number has one whole number in its text at most, which it is. -/
theorem given_of_mem_wholes {g : Given} {k : ℤ} (hg : v.given? = some g) (hk : k ∈ v.wholes) :
    g = .number (.int k) := by
  cases v with
  | null | text _ | list _ | record _ => cases hg
  | quantity q =>
    cases q with
    | truth _ => cases hg
    | number n =>
      cases hg
      cases n with
      | int m =>
        rw [List.mem_singleton.mp hk]
        rfl
      | real _ => cases hk
    | sized s =>
      cases s with
      | truth _ => cases hg
      | int w m =>
        cases hg
        rw [List.mem_singleton.mp hk]
        rfl
      | real _ _ | long _ => cases hk

/-- A number that converts is short enough to be written. -/
theorem written_of_given {g : Given} (hg : v.given? = some g) (fits : ¬Unconvertible g) :
    v.wholes.all (Decimal.isWritten (some Decimal.mostDigits)) = true := by
  refine List.all_eq_true.mpr fun k hk => (Decimal.isWritten_iff (by decide) k).mpr ?_
  obtain rfl := given_of_mem_wholes hg hk
  have small : |k| < 2 ^ 1024 - 2 ^ 970 := not_le.mp fits
  have fewer : (2 : ℤ) ^ 1024 - 2 ^ 970 ≤ 10 ^ Decimal.mostDigits :=
    calc (2 : ℤ) ^ 1024 - 2 ^ 970 ≤ 2 ^ 1024 := sub_le_self _ (by positivity)
      _ ≤ 10 ^ 1024 := pow_le_pow_left₀ (by decide) (by decide) 1024
      _ ≤ 10 ^ Decimal.mostDigits := pow_le_pow_right₀ (by decide) (by decide)
  have bound := small.trans_le fewer
  rw [Int.abs_eq_natAbs] at bound
  exact_mod_cast bound

/-- What is left to say once a number has been found. -/
theorem Verdict.of_numeric {test : Given → Except Fault Given}
    (decided : ∀ g x, Converts g x →
      test g = .ok g ∧ range g ∨ (∃ why, why.shown = [v] ∧ test g = refuse name why) ∧ ¬range g)
    (number : ∀ g, range g → g.isNaN = false) : Verdict range v (numeric name v >>= test) := by
  rcases numeric_cases name v with ⟨why, refused, shown, nan⟩ | ⟨k, hk, large, failed⟩ | ⟨g, x, hg, converts, fits, found⟩
  · rw [refused]
    refine .refused (fun g hg inside => ?_) (fun g hg large => ?_) fun w hw => ?_
    · exact Bool.false_ne_true ((number g inside).symm.trans (nan g hg))
    · match g, large with
      | .number (.int k), _ => cases nan _ hg
    · rw [shown] at hw
      cases hw
  · rw [failed]
    exact .overflown hk large
  · rw [found]
    have same {m : Given} (hm : v.given? = some m) : m = g := Option.some.inj (hm.symm.trans hg)
    show Verdict range v (test g)
    rcases decided g x converts with ⟨answer, inside⟩ | ⟨⟨why, shown, answer⟩, outside⟩
    · rw [answer]
      exact .admitted hg inside fits
    · rw [answer]
      refine .refused (fun m hm inside => outside (same hm ▸ inside))
        (fun m hm large => fits (same hm ▸ large)) fun w hw => ?_
      rw [shown] at hw
      obtain rfl := List.mem_singleton.mp hw
      exact written_of_given hg fits

/-! ## The checks -/

/-- Of the infinities only one is above zero. -/
theorem eq_infinity_of_gtInt (infinite : x.isInf = true) (positive : Arith.gtInt x 0 = true) :
    x = Binary64.infinity := by
  have infinite : x.toModel.unpack.isInf = true := infinite
  have positive : (Decimal.Shape.ofFloat x).greaterThanInt 0 = true := positive
  refine Binary64.eq_infinity ?_
  rw [Binary64.shape_eq] at positive
  generalize x.toModel.unpack = u at infinite positive
  cases u with
  | infinity s =>
    cases s with
    | positive => rfl
    | negative => cases positive
  | notANumber | zero _ | finite _ _ _ _ => cases infinite

section

variable {g : Given}

theorem NonNegative.isNaN (h : NonNegative g) : g.isNaN = false := by
  match g, h with
  | .number (.int _), _ => rfl
  | .number (.real _), ⟨_, worth⟩ => exact worth.isNaN
  | .long _, ⟨_, comes, _⟩ => exact comes.isNaN

theorem NonNegative.isInfinite (h : NonNegative g) : g.isInfinite = false := by
  match g, h with
  | .number (.int _), _ => rfl
  | .number (.real _), ⟨_, worth⟩ => exact worth.isInf
  | .long _, ⟨_, comes, inside⟩ => exact Bool.eq_false_iff.mpr (mt comes.isInf.mp inside.not_ge)

theorem NonNegative.not_ltInt (h : NonNegative g) : g.ltInt 0 = false := by
  match g, h with
  | .number (.int _), nonneg => exact decide_eq_false (not_lt.mpr nonneg)
  | .number (.real _), ⟨_, worth⟩ => exact worth.comes.not_ltInt
  | .long _, ⟨_, comes, _⟩ => exact comes.not_ltInt

theorem Converts.nonNegative (h : Converts g x) (bounded : g.isInfinite = false) (nonneg : g.ltInt 0 = false) :
    NonNegative g := by
  cases h with
  | real number => exact Binary64.worth_of_admitted number bounded nonneg
  | int _ => exact not_lt.mp (of_decide_eq_false nonneg)
  | long number =>
    obtain ⟨q, comes⟩ := Decimal.Shape.comes_of_admitted number bounded nonneg
    exact ⟨q, comes, not_le.mp (mt comes.isInf.mpr (Bool.eq_false_iff.mp bounded))⟩

theorem inUnit_iff : InUnit g ↔ NonNegative g ∧ g.gtInt 1 = false := by
  match g with
  | .number (.int k) => exact and_congr_right fun _ => not_lt.symm.trans decide_eq_false_iff_not.symm
  | .number (.real x) =>
    constructor
    · rintro ⟨q, worth, most⟩
      exact ⟨⟨q, worth⟩, Bool.eq_false_iff.mpr (mt worth.comes.gtInt_one.mp most.not_gt)⟩
    · rintro ⟨⟨q, worth⟩, unit⟩
      exact ⟨q, worth, not_lt.mp (mt worth.comes.gtInt_one.mpr (Bool.eq_false_iff.mp unit))⟩
  | .long x =>
    constructor
    · rintro ⟨q, comes, most⟩
      exact ⟨⟨q, comes, most.trans_lt (Binary64.lt_edge Binary64.worth_one)⟩,
        Bool.eq_false_iff.mpr (mt comes.gtInt_one.mp most.not_gt)⟩
    · rintro ⟨⟨q, comes, -⟩, unit⟩
      exact ⟨q, comes, not_lt.mp (mt comes.gtInt_one.mpr (Bool.eq_false_iff.mp unit))⟩

theorem Positive.isNaN (h : Positive g) : g.isNaN = false := by
  match g, h with
  | .number (.int _), _ => rfl
  | .number (.real _), .inl rfl => rfl
  | .number (.real _), .inr ⟨_, worth, _⟩ => exact worth.isNaN
  | .long _, .inl rfl => rfl
  | .long _, .inr ⟨_, comes, _⟩ => exact comes.isNaN

theorem Converts.positive_iff (h : Converts g x) : Positive g ↔ g.gtInt 0 = true := by
  cases h with
  | @int k _ _ =>
    show 0 < k ↔ decide (0 < k) = true
    exact decide_eq_true_iff.symm
  | @real x number =>
    constructor
    · rintro (rfl | ⟨q, worth, above⟩)
      · rfl
      · exact worth.comes.gtInt_zero.mpr above
    · intro positive
      by_cases infinite : x.isInf = true
      · exact .inl (eq_infinity_of_gtInt infinite positive)
      · obtain ⟨q, worth⟩ := Binary64.worth_of_admitted number (Bool.eq_false_iff.mpr infinite)
          (Given.ltInt_of_gtInt positive)
        exact .inr ⟨q, worth, worth.comes.gtInt_zero.mp positive⟩
  | @long x number =>
    constructor
    · rintro (rfl | ⟨q, comes, above⟩)
      · rfl
      · exact comes.gtInt_zero.mpr above
    · intro positive
      have positive : x.greaterThanInt 0 = true := positive
      cases x with
      | nan => cases positive
      | infinite negative =>
        cases negative with
        | true => cases positive
        | false => exact .inl rfl
      | finite negative b =>
        have comes := Decimal.Shape.comes_of_finite (Decimal.Shape.not_lessThanInt_of_greaterThanInt positive)
        exact .inr ⟨_, comes, comes.gtInt_zero.mp positive⟩

end

theorem nonNegative_verdict (name : String) (v : Value) : Verdict NonNegative v (nonNegative name v) := by
  refine .of_numeric (fun g x converts => ?_) fun _ => NonNegative.isNaN
  by_cases infinite : g.isInfinite = true
  · refine .inr ⟨⟨.infinite v, rfl, if_pos infinite⟩, fun inside => ?_⟩
    exact Bool.false_ne_true (inside.isInfinite.symm.trans infinite)
  by_cases below : g.ltInt 0 = true
  · refine .inr ⟨⟨.negative v, rfl, (if_neg infinite).trans (if_pos below)⟩, fun inside => ?_⟩
    exact Bool.false_ne_true (inside.not_ltInt.symm.trans below)
  · exact .inl ⟨(if_neg infinite).trans (if_neg below),
      converts.nonNegative (Bool.eq_false_iff.mpr infinite) (Bool.eq_false_iff.mpr below)⟩

theorem fraction_verdict (name : String) (v : Value) : Verdict InUnit v (fraction name v) := by
  refine .of_numeric (fun g x converts => ?_) fun _ inside => (inUnit_iff.mp inside).1.isNaN
  by_cases outside : (g.ltInt 0 || g.gtInt 1) = true
  · refine .inr ⟨⟨.outsideUnit v, rfl, if_pos outside⟩, fun inside => ?_⟩
    obtain ⟨nonneg, unit⟩ := inUnit_iff.mp inside
    rw [nonneg.not_ltInt, unit] at outside
    cases outside
  · obtain ⟨nonneg, unit⟩ := Bool.or_eq_false_iff.mp (Bool.eq_false_iff.mpr outside)
    exact .inl ⟨if_neg outside, inUnit_iff.mpr ⟨converts.nonNegative (converts.bounded nonneg unit) nonneg, unit⟩⟩

theorem exponent_verdict (name : String) (v : Value) : Verdict Positive v (exponent name v) := by
  refine .of_numeric (fun g x converts => ?_) fun _ => Positive.isNaN
  by_cases positive : g.gtInt 0 = true
  · exact .inl ⟨if_pos positive, converts.positive_iff.mpr positive⟩
  · exact .inr ⟨⟨.notPositive v, rfl, if_neg positive⟩, mt converts.positive_iff.mp positive⟩

/-- A whole number is admitted, or refused with a report, like all else, unless one of the two in the report is
    too long to be written. -/
theorem integer_configures (least : ℤ) :
    (∃ k, integer name (.int least) v = .ok k) ∨ ∃ f, integer name (.int least) v = .error f ∧
      ∀ limit, Configures (f.raised limit) ∨ f.raised limit = .tooLong ∧ ∃ k, v.integer? = some k ∧
        (Decimal.isWritten limit least && Decimal.isWritten limit k) = false := by
  unfold integer
  cases hv : v.integer? with
  | none => exact .inr ⟨_, rfl, fun _ => .inl configures_setting⟩
  | some k =>
    simp only [Value.lt_of_integer hv]
    by_cases below : k < least
    · rw [decide_eq_true below]
      refine .inr ⟨_, rfl, fun limit => ?_⟩
      have shown : (Fault.setting name (.below (.int least) v)).raised limit =
          if Decimal.isWritten limit least && Decimal.isWritten limit k then .setting name (.below (.int least) v)
          else .tooLong := by
        unfold Fault.raised
        congr 1
        simp [Fault.shown, Refusal.shown, wholes_of_integer hv, wholes_of_integer (v := .int least) rfl]
      rw [shown]
      split
      · exact .inl configures_setting
      · rename_i long
        exact .inr ⟨rfl, k, rfl, Bool.eq_false_iff.mpr long⟩
    · rw [decide_eq_false below]
      exact .inl ⟨k, rfl⟩

end

/-- The checks of real settings admit exactly the numbers of their range, and refuse all else with a report
    about the configuration, but for whole numbers too large for binary64. Those of whole numbers admit exactly
    the whole numbers from the least one on, of whatever size, and refuse all else with such a report, but for
    whole numbers that are too long to be written in it, or are below one that is. -/
theorem admits_its_range (name : String) (v : Value) :
    Verdict NonNegative v (nonNegative name v) ∧ Verdict InUnit v (fraction name v) ∧
      Verdict Positive v (exponent name v) ∧
      ∀ least : ℤ, (∀ k, integer name (.int least) v = .ok k ↔ v.integer? = some k ∧ least ≤ k) ∧
        ((∃ k, integer name (.int least) v = .ok k) ∨ ∃ f, integer name (.int least) v = .error f ∧
          ∀ limit, Configures (f.raised limit) ∨ f.raised limit = .tooLong ∧ ∃ k, v.integer? = some k ∧
            (Decimal.isWritten limit least && Decimal.isWritten limit k) = false) := by
  refine ⟨nonNegative_verdict name v, fraction_verdict name v, exponent_verdict name v, fun least => ?_⟩
  exact ⟨fun k => integer_ok, integer_configures least⟩

theorem numeric_of_tooLarge {k : ℤ} (large : TooLarge k) (name : String) :
    numeric name (.int k) = .error .tooLarge := by
  show (Binary64.ofInt k).map _ = _
  rw [Binary64.ofInt_tooLarge large]
  rfl

/-- Past the range of binary64, a whole number outside the unit interval is not refused as a setting; nor is one
    that is finite and not below zero admitted. -/
theorem too_large_for_fraction :
    ¬InUnit (.number (.int (2 ^ 1024))) ∧ fraction "f" (.int (2 ^ 1024)) = .error .tooLarge ∧ ¬Configures .tooLarge ∧
      NonNegative (.number (.int (2 ^ 1024))) ∧ nonNegative "f" (.int (2 ^ 1024)) = .error .tooLarge := by
  have large : TooLarge (2 ^ 1024) := by
    show (2 : ℤ) ^ 1024 - 2 ^ 970 ≤ |2 ^ 1024|
    rw [abs_of_nonneg (by positivity)]
    exact sub_le_self _ (by positivity)
  refine ⟨fun inside => ?_, ?_, not_configures_tooLarge, pow_nonneg (show (0 : ℤ) ≤ 2 by decide) 1024, ?_⟩
  · exact absurd inside.2 (not_le.mpr (one_lt_pow₀ (by decide) (by decide)))
  · rw [fraction, numeric_of_tooLarge large]
    rfl
  · rw [nonNegative, numeric_of_tooLarge large]
    rfl

end Regrid.Admission
