/-
  Regrid.Proofs.Conversion — which binary64 number a whole or a long number becomes.

  A result is on the same side of each half between two numbers of the format as what the
  operation comes to, and on a half it is the even one of the two (`Settled`). The last half,
  2^1024 - 2^970, is exactly where infinity begins (`edge`), and the first one, 2^-1075, is
  where zero ends.

  Whole numbers are too large from the edge on and no earlier (`ofInt_tooLarge`, `ofInt_ok`).
  A long number that is finite and not below zero comes to a rational (`Shape.Comes`), and that
  is how it compares with whole numbers. It is converted to infinity from the edge on
  (`Comes.isInf`), and to zero up to the first half, whatever it comes to (`Comes.vanishes`).
-/

import Regrid.Proofs.Rounding

namespace Regrid

namespace Binary64

open Float.Model (UnpackedFloat Format)
open Float.Model.UnpackedFloat

/-! ## The halves at either end -/

section

variable {q : ℚ} {x : Float}

theorem Worth.isNaN (h : Worth x q) : x.isNaN = false := by
  show x.toModel.unpack.isNaN = false
  unfold Worth at h
  generalize x.toModel.unpack = u at h
  cases h <;> rfl

theorem Worth.isInf (h : Worth x q) : x.isInf = false := by
  show x.toModel.unpack.isInf = false
  unfold Worth at h
  generalize x.toModel.unpack = u at h
  cases h <;> rfl

theorem isInf_of_unpack {s : Sign} (h : x.toModel.unpack = .infinity s) : x.isInf = true := by
  show x.toModel.unpack.isInf = true
  rw [h]
  rfl

theorem unpack_neg (x : Float) : (Arith.neg x).toModel.unpack = x.toModel.unpack.neg := by
  have kept : (Arith.neg x).toModel.unpack = unpack Format.binary64 (pack Format.binary64 x.toModel.unpack.neg) := rfl
  rw [kept]
  cases hx : x.toModel.unpack with
  | notANumber => rfl
  | infinity s => exact unpack_infinity
  | zero s => simp only [UnpackedFloat.neg, pack, unpack_packedZero]
  | finite s k t hk =>
    obtain ⟨proper, high⟩ := proper_of_unpack hx
    simp only [UnpackedFloat.neg]
    rw [unpack_pack_finite proper hk, if_pos high]

theorem Counts.proper {u : UnpackedFloat} (h : Counts u q) :
    ∃ (n : ℕ) (e : ℤ), Proper n e ∧ e ≤ 971 ∧ q = n * 2 ^ e := by
  cases h with
  | zero s => exact ⟨0, -1074, ⟨by decide, le_rfl, .inl rfl⟩, by decide, by simp⟩
  | finite _ proper high => exact ⟨_, _, proper, high, rfl⟩

/-- Half a unit in the last place past the greatest number of the format. -/
def edge : ℚ := 2 ^ 1024 - 2 ^ 970

theorem edge_eq : edge = ((2 ^ 53 - 1 : ℕ) + 1 / 2) * 2 ^ (971 : ℤ) := by
  have last : (2 : ℚ) ^ (971 : ℤ) = 2 * 2 ^ 970 := (zpow_natCast 2 971).trans (pow_succ' 2 970)
  have whole : (2 : ℚ) ^ 1024 = 2 ^ 54 * 2 ^ 970 := pow_add 2 54 970
  have most : ((2 ^ 53 - 1 : ℕ) : ℚ) + 1 / 2 = 2 ^ 53 - 1 / 2 := by norm_num
  rw [edge, last, whole, most]
  generalize (2 : ℚ) ^ 970 = unit
  ring

/-- Past the format there are only numbers past the edge. -/
theorem lt_edge (h : Worth x q) : q < edge := by
  obtain ⟨n, e, proper, high, rfl⟩ := Counts.proper h
  have few : (n : ℚ) ≤ (2 ^ 53 - 1 : ℕ) := by exact_mod_cast Nat.le_pred_of_lt proper.small
  rw [edge_eq]
  calc (n : ℚ) * 2 ^ e ≤ (2 ^ 53 - 1 : ℕ) * 2 ^ (971 : ℤ) :=
        mul_le_mul few (zpow_le_zpow_right₀ one_le_two high) (by positivity) (by positivity)
    _ < ((2 ^ 53 - 1 : ℕ) + 1 / 2) * 2 ^ (971 : ℤ) := mul_lt_mul_of_pos_right (by linarith) (by positivity)

/-- Half of the least number above zero. -/
def leastHalf : ℚ := 2 ^ (-1075 : ℤ)

theorem leastHalf_eq : leastHalf = ((0 : ℕ) + 1 / 2) * 2 ^ (-1074 : ℤ) := by
  have half : (2 : ℚ) ^ (-1075 : ℤ) = 2 ^ (-1 : ℤ) * 2 ^ (-1074 : ℤ) := zpow_add₀ two_ne_zero (-1) (-1074)
  rw [leastHalf, half, zpow_neg_one, Nat.cast_zero, zero_add, one_div]

theorem leastHalf_lt_edge : leastHalf < edge := by
  have least : leastHalf < 1 := zpow_lt_one_of_neg₀ one_lt_two (by decide)
  exact least.trans (lt_edge worth_one)

/-- The number is `q`, rounded: infinite from the edge on, and otherwise on the same side of every half. -/
def Settled (x : Float) (q : ℚ) : Prop :=
  (x.toModel.unpack = .infinity .positive ∧ edge ≤ q) ∨ ∃ r, Worth x r ∧ q < edge ∧ Midway q r

namespace Settled

theorem of_midway {u : UnpackedFloat} {k : ℕ} {t : ℤ}
    (kept : x.toModel.unpack = unpack Format.binary64 (pack Format.binary64 u)) (proper : Proper k t)
    (midway : Midway q (k * 2 ^ t)) (holds : Holds .positive k t u) : Settled x q := by
  have greatest : Proper (2 ^ 53 - 1) 971 := ⟨by decide, by decide, .inr (by decide)⟩
  obtain ⟨less, half, more⟩ := midway _ _ greatest
  rw [← edge_eq] at less half more
  have past (h : edge ≤ q) : ((2 ^ 53 - 1 : ℕ) : ℚ) * 2 ^ (971 : ℤ) < k * 2 ^ t :=
    h.lt_or_eq.elim more fun same => (half same.symm).2 (by decide)
  have inside (high : t ≤ 971) : q < edge := not_le.mp fun h => (past h).not_ge
    (mul_le_mul (by exact_mod_cast Nat.le_pred_of_lt proper.small) (zpow_le_zpow_right₀ one_le_two high)
      (by positivity) (by positivity))
  cases holds with
  | zero hk =>
    refine .inr ⟨0, ?_, not_le.mp fun h => (past h).not_ge ?_, by simpa [hk] using midway⟩
    · unfold Worth
      rw [kept]
      simp only [pack, unpack_packedZero]
      exact .zero _
    · rw [hk, Nat.cast_zero, zero_mul]
      positivity
  | finite hk =>
    rw [unpack_pack_finite proper hk] at kept
    by_cases high : t ≤ 971
    · rw [if_pos high] at kept
      refine .inr ⟨_, ?_, inside high, midway⟩
      unfold Worth
      rw [kept]
      exact .finite hk proper high
    · rw [if_neg high] at kept
      refine .inl ⟨kept, not_lt.mp fun h => ?_⟩
      exact (lt_of_exponent greatest proper (not_le.mp high)).not_ge (less h)

theorem zero (h : Worth x 0) : Settled x 0 := by
  refine .inr ⟨0, h, lt_edge worth_zero, fun n e _ => ?_⟩
  have half : (0 : ℚ) < (n + 1 / 2) * 2 ^ e := by positivity
  exact ⟨fun _ => by positivity, fun h => absurd h half.ne, fun h => absurd h half.not_gt⟩

theorem isInf (h : Settled x q) : x.isInf = true ↔ edge ≤ q := by
  rcases h with ⟨infinite, past⟩ | ⟨r, worth, inside, -⟩
  · exact ⟨fun _ => past, fun _ => isInf_of_unpack infinite⟩
  · rw [worth.isInf]
    exact ⟨nofun, fun h => absurd inside h.not_gt⟩

/-- Zero ends at half of the least number above it, which itself goes to zero. -/
theorem vanishes (h : Settled x q) : Worth x 0 ↔ q ≤ leastHalf := by
  rcases h with ⟨infinite, past⟩ | ⟨r, worth, -, midway⟩
  · exact ⟨fun worth => absurd worth (not_worth_of_infinity infinite),
      fun small => absurd (past.trans small) leastHalf_lt_edge.not_ge⟩
  obtain ⟨less, half, more⟩ := midway 0 (-1074) ⟨by decide, le_rfl, .inl rfl⟩
  rw [← leastHalf_eq] at less half more
  rw [Nat.cast_zero, zero_mul] at less half more
  have none (small : r ≤ 0) : Worth x 0 := le_antisymm small worth.nonneg ▸ worth
  constructor
  · intro zero
    obtain rfl := worth.unique zero
    exact not_lt.mp fun above => (more above).false
  · intro small
    rcases small.lt_or_eq with below | same
    · exact none (less below)
    · exact none ((half same).1 rfl)

end Settled

end

/-! ## Whole numbers past the range -/

theorem isInf_ofScientific (n : ℕ) : (Float.ofScientific n false 0).isInf = true ↔ edge ≤ n := by
  by_cases small : n < 2 ^ 53
  · have worth := (rounded_ofScientific n).exactly (representable_nat small)
    rw [worth.isInf]
    exact ⟨nofun, fun h => absurd (lt_edge worth) h.not_gt⟩
  · obtain ⟨k, t, proper, -, midway, holds⟩ := ofScientific_nearest (show 0 < n by omega)
    have kept : (Float.ofScientific n false 0).toModel.unpack =
        unpack Format.binary64 (pack Format.binary64 (UnpackedFloat.ofScientific Format.binary64 n 0)) := by
      rw [Float.ofScientific, dif_neg fun h => small h.1]
      rfl
    exact (Settled.of_midway kept proper midway holds).isInf

/-- A whole number is too large for the format from the edge on. -/
def TooLarge (n : ℤ) : Prop := 2 ^ 1024 - 2 ^ 970 ≤ |n|

theorem tooLarge_iff (n : ℤ) : TooLarge n ↔ edge ≤ n.natAbs := by
  have same : ((2 ^ 1024 - 2 ^ 970 : ℤ) : ℚ) = edge := by
    rw [edge, Int.cast_sub, Int.cast_pow, Int.cast_pow, Int.cast_ofNat]
  rw [TooLarge, Int.abs_eq_natAbs, ← same, ← Int.cast_le (R := ℚ), Int.cast_natCast]

theorem isInf_ofInt (n : ℤ) : (Decimal.ofInt n).isInf = true ↔ TooLarge n := by
  rw [tooLarge_iff, ← isInf_ofScientific, Decimal.ofInt]
  split
  · show (Arith.neg (Float.ofScientific n.natAbs false 0)).toModel.unpack.isInf = true ↔ _
    rw [unpack_neg]
    show _ ↔ (Float.ofScientific n.natAbs false 0).toModel.unpack.isInf = true
    cases (Float.ofScientific n.natAbs false 0).toModel.unpack <;> rfl
  · rfl

theorem ofInt_ok {n : ℤ} (h : ¬TooLarge n) : ofInt n = .ok (Decimal.ofInt n) := if_neg (mt (isInf_ofInt n).mp h)

theorem ofInt_tooLarge {n : ℤ} (h : TooLarge n) : ofInt n = .error .tooLarge := if_pos ((isInf_ofInt n).mpr h)

end Binary64

/-! ## Long numbers -/

namespace Decimal

open Binary64 (Worth Rounded Settled edge leastHalf)
open Float.Model (UnpackedFloat)

/-- Mantissa and exponent compare with a whole number as what they are worth. -/
theorem Binary.compareNat_eq (b : Binary) (n : ℕ) : b.compareNat n = compare b.worth n := by
  have same {a b : ℕ} {x y : ℚ} {c : ℚ} (hc : 0 < c) (hx : (a : ℚ) = x * c) (hy : (b : ℚ) = y * c) :
      compare a b = compare x y := by
    rcases lt_trichotomy a b with less | rfl | more
    · have : x < y := lt_of_mul_lt_mul_right (hx ▸ hy ▸ Nat.cast_lt.mpr less) hc.le
      rw [compare_lt_iff_lt.mpr less, compare_lt_iff_lt.mpr this]
    · have : x = y := mul_right_cancel₀ hc.ne' (hx.symm.trans hy)
      rw [compare_eq_iff_eq.mpr rfl, compare_eq_iff_eq.mpr this]
    · have : y < x := lt_of_mul_lt_mul_right (hx ▸ hy ▸ Nat.cast_lt.mpr more) hc.le
      rw [compare_gt_iff_gt.mpr more, compare_gt_iff_gt.mpr this]
  obtain ⟨k, t⟩ := b
  unfold Binary.compareNat Binary.worth
  by_cases ht : 0 ≤ t
  · obtain ⟨d, rfl⟩ := Int.eq_ofNat_of_zero_le ht
    rw [if_pos ht]
    refine same one_pos ?_ ?_ <;> simp
  · obtain ⟨d, hd⟩ := Int.eq_ofNat_of_zero_le (show 0 ≤ -t by omega)
    obtain rfl : t = -(d : ℤ) := by omega
    rw [if_neg ht]
    refine same (c := 2 ^ d) (by positivity) ?_ ?_ <;> simp

theorem Binary.worth_of_zero {b : Binary} (h : b.m = 0) : b.worth = 0 := by
  rw [Binary.worth, h, Nat.cast_zero, zero_mul]

/-- A magnitude is converted to the nearest number, and on a half to the even one. -/
theorem Binary.settled (b : Binary) : Rounded b.nearest b.worth ∧ Settled b.nearest b.worth := by
  unfold Binary.nearest
  by_cases none : b.m = 0
  · rw [if_pos none, b.worth_of_zero none]
    exact ⟨by exact_mod_cast Rounded.of_worth Binary64.worth_zero, .zero Binary64.worth_zero⟩
  · rw [if_neg none]
    obtain ⟨k, t, proper, nearest, midway, holds⟩ :=
      Binary64.round_nearest (s := .positive) (Nat.pos_of_ne_zero none) b.q
    generalize hu : UnpackedFloat.round .binary64 .positive b.m b.q = u at holds ⊢
    have kept : (Float.ofBits (.ofBitVec (UnpackedFloat.pack .binary64 u))).toModel.unpack =
        UnpackedFloat.unpack .binary64 (UnpackedFloat.pack .binary64 u) :=
      congrArg (UnpackedFloat.unpack .binary64)
        (UnpackedFloat.pack_unpack_of_valid (Float.Model.pack u).valid)
    exact ⟨.of_nearest kept proper nearest holds, .of_midway kept proper midway holds⟩

/-- The number is finite and not below zero, and this is what it comes to. -/
inductive Shape.Comes : Shape → ℚ → Prop
  | finite {negative : Bool} {b : Binary} : (negative = true → b.m = 0) → Comes (.finite negative b) b.worth

namespace Shape.Comes

variable {x : Shape} {q : ℚ}

theorem compareInt (h : x.Comes q) (n : ℕ) : x.compareInt n = some (compare q n) := by
  obtain ⟨zero⟩ := h
  rename_i negative b
  have whole : ¬(n : ℤ) < 0 := by omega
  have above : ¬(negative = true ∧ b.m ≠ 0) := fun ⟨below, nonzero⟩ => nonzero (zero below)
  rw [Shape.compareInt, if_neg whole, if_neg above, Int.natAbs_natCast, b.compareNat_eq]

theorem gtInt (h : x.Comes q) (n : ℕ) : x.greaterThanInt n = true ↔ n < q := by
  rw [Shape.greaterThanInt, h.compareInt, beq_iff_eq, Option.some.injEq, compare_gt_iff_gt]

theorem gtInt_one (h : x.Comes q) : x.greaterThanInt 1 = true ↔ 1 < q := by
  have := h.gtInt 1
  rwa [Nat.cast_one] at this

theorem gtInt_zero (h : x.Comes q) : x.greaterThanInt 0 = true ↔ 0 < q := by
  have := h.gtInt 0
  rwa [Nat.cast_zero] at this

theorem nonneg (h : x.Comes q) : 0 ≤ q := by
  obtain ⟨-⟩ := h
  unfold Binary.worth
  positivity

theorem not_ltInt (h : x.Comes q) : x.lessThanInt 0 = false := by
  show (x.compareInt (0 : ℕ) == some .lt) = false
  rw [h.compareInt, Nat.cast_zero, beq_eq_false_iff_ne, ne_eq, Option.some.injEq, compare_lt_iff_lt]
  exact h.nonneg.not_gt

/-- A long number is converted to the nearest number, and on a half to the even one. -/
theorem settled (h : x.Comes q) : Rounded x.toFloat q ∧ Settled x.toFloat q := by
  obtain ⟨zero⟩ := h
  rename_i negative b
  unfold Shape.toFloat
  cases negative with
  | false => exact b.settled
  | true =>
    have none := zero rfl
    have worth : Worth (-b.nearest) 0 := by
      rw [Binary.nearest, if_pos none]
      exact Binary64.worth_of_zero (s := .negative) rfl
    rw [b.worth_of_zero none]
    exact ⟨by exact_mod_cast Rounded.of_worth worth, .zero worth⟩

theorem isNaN (h : x.Comes q) : x.toFloat.isNaN = false := by
  rcases h.settled.1 with ⟨infinite, -⟩ | ⟨r, worth, -⟩
  · show x.toFloat.toModel.unpack.isNaN = false
    rw [infinite]
    rfl
  · exact worth.isNaN

/-- It becomes infinite from the edge on. -/
theorem isInf (h : x.Comes q) : x.toFloat.isInf = true ↔ edge ≤ q := h.settled.2.isInf

/-- Above zero it still becomes zero, up to half of the least number. -/
theorem vanishes (h : x.Comes q) : Worth x.toFloat 0 ↔ q ≤ leastHalf := h.settled.2.vanishes

end Shape.Comes

theorem Shape.not_lessThanInt_of_greaterThanInt {x : Shape} (h : x.greaterThanInt 0 = true) :
    x.lessThanInt 0 = false := by
  unfold Shape.greaterThanInt at h
  unfold Shape.lessThanInt
  rw [beq_iff_eq] at h
  rw [h]
  rfl

theorem Shape.comes_of_finite {negative : Bool} {b : Binary} (nonneg : (finite negative b).lessThanInt 0 = false) :
    (finite negative b).Comes b.worth := by
  refine .finite fun below => ?_
  by_contra nonzero
  have order : (finite negative b).compareInt 0 = some .lt := by simp [compareInt, below, nonzero]
  rw [lessThanInt, order] at nonneg
  cases nonneg

/-- What is neither NaN nor infinite nor below zero comes to something. -/
theorem Shape.comes_of_admitted {x : Shape} (number : x.toFloat.isNaN = false) (bounded : x.toFloat.isInf = false)
    (nonneg : x.lessThanInt 0 = false) : ∃ q, x.Comes q := by
  cases x with
  | nan => cases number
  | infinite negative => cases negative <;> cases bounded
  | finite negative b => exact ⟨_, comes_of_finite nonneg⟩

end Decimal

end Regrid
