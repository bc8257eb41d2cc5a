/-
  Regrid.Proofs.Monotone — rounding keeps the order.

  A result is on the same side of each half between two numbers of the format as what the
  operation comes to, and on a half it is the even one of the two (`Settled`). So of two
  results the one that comes to less is not the greater one (`Settled.le`).

  Numbers that are not below zero may be no number, infinite, or worth something (`Unsigned`).
  They stay so when they are added and multiplied, and a product is only worth something if
  both factors are (`Unsigned.of_mul`).
-/

import Regrid.Proofs.Range

namespace Regrid.Binary64

open Float.Model (UnpackedFloat Format)
open Float.Model.UnpackedFloat

/-! ## The order of what is rounded -/

section

variable {p q r s : ℚ} {x y : Float} {n : ℕ} {e : ℤ}

theorem Midway.mono (hp : Midway p r) (hq : Midway q (n * 2 ^ e)) (proper : Proper n e) (h : p ≤ q) :
    r ≤ n * 2 ^ e := by
  obtain ⟨less, half, -⟩ := hp n e proper
  obtain ⟨-, half', more⟩ := hq n e proper
  have within : q ≤ (n + 1 / 2) * 2 ^ e := not_lt.mp fun above => (more above).false
  rcases (h.trans within).lt_or_eq with below | same
  · exact less below
  · -- both are the half, which went to the even side
    have same' : q = (n + 1 / 2) * 2 ^ e := le_antisymm within (same ▸ h)
    rcases Nat.mod_two_eq_zero_or_one n with even | odd
    · exact (half same).1 even
    · exact ((half' same').2 odd).false.elim

namespace Settled

/-- What comes to less is not rounded to more. -/
theorem le (hx : Settled x p) (hy : Settled y q) (worth : Worth y s) (h : p ≤ q) : ∃ r, Worth x r ∧ r ≤ s := by
  rcases hy with ⟨infinite, -⟩ | ⟨s', worth', inside, midway'⟩
  · exact absurd worth (not_worth_of_infinity infinite)
  obtain rfl := worth'.unique worth
  rcases hx with ⟨-, past⟩ | ⟨r, hr, -, midway⟩
  · exact absurd (past.trans h) inside.not_ge
  · obtain ⟨n, e, proper, -, rfl⟩ := Counts.proper worth
    exact ⟨r, hr, midway.mono midway' proper h⟩

end Settled

theorem Worth.mul_settled (hx : Worth x p) (hy : Worth y q) : Settled (Arith.mul x y) (p * q) := by
  rcases hx.mul_cases hy with ⟨none, zero⟩ | ⟨k, t, u, kept, proper, -, midway, holds⟩
  · rw [none]
    exact .zero zero
  · exact .of_midway kept proper midway holds

/-- Products of smaller factors are not greater. -/
theorem Worth.mul_le {x' y' : Float} {p' q' : ℚ} (hx : Worth x p) (hy : Worth y q) (hx' : Worth x' p')
    (hy' : Worth y' q') (left : p ≤ p') (right : q ≤ q') (product : Worth (Arith.mul x' y') s) :
    ∃ r, Worth (Arith.mul x y) r ∧ r ≤ s :=
  (hx.mul_settled hy).le (hx'.mul_settled hy') product (mul_le_mul left right hy.nonneg hx'.nonneg)

end

/-! ## Numbers not below zero -/

/-- No number, or infinite. -/
inductive Unbounded : UnpackedFloat → Prop
  | nan : Unbounded .notANumber
  | infinite : Unbounded (.infinity .positive)

/-- The number is not below zero. -/
def Unsigned (x : Float) : Prop := Unbounded x.toModel.unpack ∨ ∃ q, Worth x q

section

variable {u v : UnpackedFloat} {x y : Float} {p q r : ℚ}

theorem Unbounded.not_worth (h : Unbounded x.toModel.unpack) : ¬Worth x q := by
  intro worth
  unfold Worth at worth
  generalize x.toModel.unpack = u at h worth
  cases h <;> cases worth

theorem Unbounded.packed (h : Unbounded u) : Unbounded (unpack Format.binary64 (pack Format.binary64 u)) := by
  cases h with
  | nan => exact .nan
  | infinite =>
    rw [pack, unpack_infinity]
    exact .infinite

/-- With such a factor a product is no number, or infinite. -/
theorem Unbounded.mul (hu : Unbounded u) (hv : Unbounded v ∨ ∃ q, Counts v q) :
    Unbounded (UnpackedFloat.mul Format.binary64 u v) ∧ Unbounded (UnpackedFloat.mul Format.binary64 v u) := by
  rcases hv with hv | ⟨q, hv⟩ <;> cases hu <;> cases hv <;>
    first | exact ⟨.nan, .nan⟩ | exact ⟨.infinite, .infinite⟩

theorem Unbounded.add (hu : Unbounded u) (hv : Unbounded v ∨ ∃ q, Counts v q) :
    Unbounded (UnpackedFloat.add Format.binary64 u v) ∧ Unbounded (UnpackedFloat.add Format.binary64 v u) := by
  rcases hv with hv | ⟨q, hv⟩ <;> cases hu <;> cases hv <;>
    first | exact ⟨.nan, .nan⟩ | exact ⟨.infinite, .infinite⟩

theorem Counts.not_below (h : Counts u q) : u.lt (.zero .positive) = false := by cases h <;> rfl

theorem unsigned_iff : Unsigned x ↔ Arith.lt x Arith.zero = false := by
  have zero : (Arith.zero : Float).toModel.unpack = .zero .positive := rfl
  have below : Arith.lt x Arith.zero = x.toModel.unpack.lt (.zero .positive) := by
    show decide (decide (x.toModel.unpack.lt (Arith.zero : Float).toModel.unpack = true) = true) = _
    rw [zero]
    simp
  rw [below]
  constructor
  · rintro (unbounded | ⟨q, worth⟩)
    · generalize x.toModel.unpack = u at unbounded
      cases unbounded <;> rfl
    · exact Counts.not_below worth
  · intro h
    obtain ⟨u, hu⟩ : ∃ u, x.toModel.unpack = u := ⟨_, rfl⟩
    rw [hu] at h
    cases u with
    | notANumber => exact .inl (hu.symm ▸ .nan)
    | infinity s =>
      cases s with
      | positive => exact .inl (hu.symm ▸ .infinite)
      | negative => cases h
    | zero s => exact .inr ⟨0, worth_of_zero hu⟩
    | finite s k t hk =>
      cases s with
      | positive => exact .inr ⟨_, worth_of_finite hu⟩
      | negative => cases h

theorem Rounded.unsigned {z : ℝ} (h : Rounded x z) : Unsigned x := by
  rcases h with ⟨infinite, -⟩ | ⟨r, worth, -⟩
  · refine .inl ?_
    rw [infinite]
    exact .infinite
  · exact .inr ⟨r, worth⟩

namespace Unsigned

theorem add (hx : Unsigned x) (hy : Unsigned y) : Unsigned (Arith.add x y) := by
  have kept := unpack_add x y
  rcases hx with unbounded | ⟨p, hp⟩
  · refine .inl ?_
    rw [kept]
    exact (unbounded.add hy).1.packed
  · rcases hy with unbounded | ⟨q, hq⟩
    · refine .inl ?_
      rw [kept]
      exact (unbounded.add (.inr ⟨p, hp⟩)).2.packed
    · exact (hp.add hq).unsigned

/-- A product is worth something only where both factors are. -/
theorem mul_cases (hx : Unsigned x) (hy : Unsigned y) :
    Unbounded (Arith.mul x y).toModel.unpack ∨ ∃ p q, Worth x p ∧ Worth y q := by
  have kept := unpack_mul x y
  rcases hx with unbounded | ⟨p, hp⟩
  · refine .inl ?_
    rw [kept]
    exact (unbounded.mul hy).1.packed
  · rcases hy with unbounded | ⟨q, hq⟩
    · refine .inl ?_
      rw [kept]
      exact (unbounded.mul (.inr ⟨p, hp⟩)).2.packed
    · exact .inr ⟨p, q, hp, hq⟩

theorem mul (hx : Unsigned x) (hy : Unsigned y) : Unsigned (Arith.mul x y) := by
  rcases hx.mul_cases hy with unbounded | ⟨p, q, hp, hq⟩
  · exact .inl unbounded
  · exact (hp.mul hq).unsigned

theorem of_mul (hx : Unsigned x) (hy : Unsigned y) (worth : Worth (Arith.mul x y) r) :
    ∃ p q, Worth x p ∧ Worth y q :=
  (hx.mul_cases hy).resolve_left fun unbounded => unbounded.not_worth worth

theorem sum {xs : List Float} (each : ∀ x ∈ xs, Unsigned x) : Unsigned (Arith.sum xs) := by
  suffices all : ∀ (xs : List Float) (acc : Float), Unsigned acc → (∀ x ∈ xs, Unsigned x) →
      Unsigned (xs.foldl Arith.add acc) from all xs _ (.inr ⟨0, worth_zero⟩) each
  intro xs
  induction xs with
  | nil => exact fun _ hacc _ => hacc
  | cons x xs ih =>
    intro acc hacc each
    obtain ⟨hx, rest⟩ := List.forall_mem_cons.mp each
    exact ih _ (hacc.add hx) rest

end Unsigned

end

end Regrid.Binary64
