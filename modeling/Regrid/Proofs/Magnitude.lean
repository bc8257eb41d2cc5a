/-
  Regrid.Proofs.Magnitude — magnitudes in order, and the greatest of them.

  A magnitude is the absolute value of a finite number. Where magnitudes are in order
  (`Magnitudes`) some of them have one greatest at most, whatever way it is searched in. The
  peak of an error vector is the greatest of its magnitudes and zero.

  The magnitudes among binary64 numbers are in order: zero comes first, the others are
  ranked by exponent and then by mantissa. There are two zeros, and what is no number is
  less than nothing, but taking the absolute value of a finite number leaves neither a
  second zero nor anything that is no number.
-/

import Mathlib
import Regrid.Norm

namespace Regrid

/-- What mantissa and exponent come to. -/
def Decimal.Binary.worth (b : Binary) : ℚ := b.m * 2 ^ b.q

namespace Arith

variable {R : Type} [Arith R]

/-- The absolute value of a finite number. -/
def Magnitude (a : R) : Prop := ∃ x : R, isFinite x = true ∧ abs x = a

/-- An element that is less than none. -/
structure Greatest (s : Set R) (m : R) : Prop where
  mem : m ∈ s
  bound : ∀ x ∈ s, lt m x = false

end Arith

open Arith (Magnitude Greatest)

/-- Magnitudes equal themselves, of two different ones one is less, and zero is the least. -/
class Magnitudes (R : Type) [Arith R] : Prop where
  zero : Magnitude (Arith.zero : R)
  eq_self : ∀ {a : R}, Magnitude a → Arith.eq a a = true
  least : ∀ {a : R}, Magnitude a → Arith.lt a Arith.zero = false
  asymm : ∀ {a b : R}, Magnitude a → Magnitude b → Arith.lt a b = true → Arith.lt b a = false
  chain : ∀ {a b c : R}, Magnitude a → Magnitude b → Magnitude c →
    Arith.lt a b = false → Arith.lt b c = false → Arith.lt a c = false
  connected : ∀ {a b : R}, Magnitude a → Magnitude b →
    Arith.lt a b = false → Arith.lt b a = false → a = b

/-- Magnitudes that are ranked in a linear order are in order. -/
theorem Magnitudes.of_rank {R L : Type} [Arith R] [LinearOrder L] (rank : R → L)
    (zero : Magnitude (Arith.zero : R)) (eq_self : ∀ {a : R}, Magnitude a → Arith.eq a a = true)
    (least : ∀ {a : R}, Magnitude a → rank Arith.zero ≤ rank a)
    (lt : ∀ {a b : R}, Magnitude a → Magnitude b → Arith.lt a b = decide (rank a < rank b))
    (injective : ∀ {a b : R}, Magnitude a → Magnitude b → rank a = rank b → a = b) : Magnitudes R where
  zero := zero
  eq_self := eq_self
  least ha := by
    rw [lt ha zero, decide_eq_false_iff_not, not_lt]
    exact least ha
  asymm ha hb h := by
    rw [lt ha hb, decide_eq_true_eq] at h
    rw [lt hb ha, decide_eq_false_iff_not, not_lt]
    exact h.le
  chain ha hb hc hab hbc := by
    rw [lt ha hb, decide_eq_false_iff_not, not_lt] at hab
    rw [lt hb hc, decide_eq_false_iff_not, not_lt] at hbc
    rw [lt ha hc, decide_eq_false_iff_not, not_lt]
    exact hbc.trans hab
  connected ha hb hab hba := by
    rw [lt ha hb, decide_eq_false_iff_not, not_lt] at hab
    rw [lt hb ha, decide_eq_false_iff_not, not_lt] at hba
    exact injective ha hb (le_antisymm hba hab)

/-! ## The greatest magnitude -/

section

variable {R : Type} [Arith R] [Magnitudes R] {s t : Set R} {m m' : R}

theorem Magnitudes.irrefl {a : R} (ha : Magnitude a) : Arith.lt a a = false := by
  cases h : Arith.lt a a with
  | false => rfl
  | true => exact h.symm.trans (asymm ha ha h)

theorem Arith.Greatest.unique (hs : ∀ x ∈ s, Magnitude x) (h : Greatest s m) (h' : Greatest s m') : m = m' :=
  Magnitudes.connected (hs m h.mem) (hs m' h'.mem) (h.bound m' h'.mem) (h'.bound m h.mem)

/-- Of the greatest of two collections, the one that is not less is the greatest of both. -/
theorem Arith.Greatest.union (hs : ∀ x ∈ s, Magnitude x) (ht : ∀ x ∈ t, Magnitude x) (h : Greatest s m)
    (h' : Greatest t m') : Greatest (s ∪ t) (Arith.max m m') := by
  have hm := hs m h.mem
  have hm' := ht m' h'.mem
  unfold Arith.max
  by_cases hlt : Arith.lt m m' = true
  · rw [if_pos hlt]
    refine ⟨.inr h'.mem, fun x hx => ?_⟩
    rcases hx with hx | hx
    · exact Magnitudes.chain hm' hm (hs x hx) (Magnitudes.asymm hm hm' hlt) (h.bound x hx)
    · exact h'.bound x hx
  · rw [if_neg hlt]
    refine ⟨.inl h.mem, fun x hx => ?_⟩
    rcases hx with hx | hx
    · exact h.bound x hx
    · exact Magnitudes.chain hm hm' (ht x hx) (Bool.eq_false_iff.mpr hlt) (h'.bound x hx)

/-- The search goes on with the greatest so far. -/
theorem Arith.Greatest.peakOf {xs : List R} (hs : ∀ x ∈ s, Magnitude x) (hxs : ∀ x ∈ xs, Magnitude x)
    (h : Greatest s m) : Greatest (s ∪ {x | x ∈ xs}) (Arith.peakOf m xs) := by
  induction xs generalizing s m with
  | nil => simpa [Arith.peakOf] using h
  | cons x xs ih =>
    have hx : Magnitude x := hxs x (by simp)
    have single : Greatest {x} x := by
      refine ⟨rfl, fun y hy => ?_⟩
      obtain rfl : y = x := hy
      exact Magnitudes.irrefl hx
    have step : Arith.peakOf m (x :: xs) = Arith.peakOf (Arith.max m x) xs := by
      simp only [Arith.peakOf, List.foldl_cons, Magnitudes.eq_self hx, Bool.not_true, Bool.or_false, Arith.max]
    have both : ∀ y ∈ s ∪ {x}, Magnitude y := fun y hy => hy.elim (hs y) fun hy => hy ▸ hx
    have more := ih both (fun y hy => hxs y (by simp [hy]))
      (h.union hs (fun y hy => hy ▸ hx) single)
    have same : s ∪ {x} ∪ {y | y ∈ xs} = s ∪ {y | y ∈ x :: xs} := by
      ext y
      simp only [Set.mem_union, Set.mem_singleton_iff, Set.mem_ofPred_eq, List.mem_cons, or_assoc]
    rw [step, ← same]
    exact more

/-- Zero, and the magnitudes of the errors. -/
def Norm.magnitudes (errors : List R) : Set R := {a | a = Arith.zero ∨ a ∈ errors.map Arith.abs}

theorem Norm.magnitude_of_mem {errors : List R} (finite : errors.all Arith.isFinite = true) {a : R}
    (h : a ∈ magnitudes errors) : Magnitude a := by
  rcases h with rfl | h
  · exact Magnitudes.zero
  · obtain ⟨e, he, rfl⟩ := List.mem_map.mp h
    exact ⟨e, List.all_eq_true.mp finite e he, rfl⟩

theorem Norm.greatest_peak {errors : List R} (finite : errors.all Arith.isFinite = true) :
    Greatest (magnitudes errors) (peak errors) := by
  have inside {a : R} := magnitude_of_mem finite (a := a)
  unfold peak magnitudes at *
  cases hmap : errors.map Arith.abs with
  | nil =>
    refine ⟨.inl rfl, fun x hx => ?_⟩
    obtain rfl : x = Arith.zero := by simpa using hx
    exact Magnitudes.irrefl Magnitudes.zero
  | cons x xs =>
    rw [hmap] at inside
    have hx : Magnitude x := inside (.inr (by simp))
    have first : Greatest {Arith.zero, x} x := by
      refine ⟨.inr rfl, fun y hy => ?_⟩
      rcases hy with rfl | rfl
      · exact Magnitudes.least hx
      · exact Magnitudes.irrefl hx
    have two : ∀ y ∈ ({Arith.zero, x} : Set R), Magnitude y := by
      rintro y (rfl | rfl)
      · exact Magnitudes.zero
      · exact hx
    have all := first.peakOf two fun y (hy : y ∈ xs) => inside (.inr (by simp [hy]))
    have same : ({Arith.zero, x} ∪ {y | y ∈ xs} : Set R) = {a | a = Arith.zero ∨ a ∈ x :: xs} := by
      ext y
      simp [or_assoc]
    rwa [same] at all

end

/-! ## Binary64 numbers -/

namespace Binary64

open Float.Model (UnpackedFloat Format)
open Float.Model.UnpackedFloat

/-- Without its sign a number unpacks to what it unpacks to, without the sign. -/
theorem unpack_positive {spec : Format} (b : BitVec spec.numBits) :
    unpack spec (packComponents spec .positive (unpackExponent b) (unpackMantissa b)) =
      (unpack spec b).abs := by
  unfold unpack
  simp only [unpackExponent_packComponents, unpackMantissa_packComponents, unpackSign_packComponents,
    Sign.ofBitVec_toBitVec]
  split
  · split <;> rfl
  · split
    · split <;> rfl
    · rfl

theorem valid_positive {spec : Format} {b : BitVec spec.numBits} (h : spec.Valid b) :
    spec.Valid (packComponents spec .positive (unpackExponent b) (unpackMantissa b)) := by
  refine ⟨fun hexponent hmantissa => ?_⟩
  rw [unpackExponent_packComponents] at hexponent
  rw [unpackMantissa_packComponents] at hmantissa
  rw [h.eq_packedNaN hexponent hmantissa, packedNaN, unpackExponent_packComponents,
    unpackMantissa_packComponents]

theorem unpack_abs (x : Float) : x.abs.toModel.unpack = x.toModel.unpack.abs := by
  have bits : pack Format.binary64 x.toModel.unpack.abs = packComponents Format.binary64 .positive
      (unpackExponent x.toModel.toBits.toBitVec) (unpackMantissa x.toModel.toBits.toBitVec) := by
    rw [Float.Model.unpack, ← unpack_positive]
    exact pack_unpack_of_valid (valid_positive x.toModel.valid)
  show unpack Format.binary64 (pack Format.binary64 x.toModel.unpack.abs) = _
  rw [bits, unpack_positive]
  rfl

theorem unpack_injective {x y : Float} (h : x.toModel.unpack = y.toModel.unpack) : x = y := by
  have bits := (unpack_inj_of_valid x.toModel.valid y.toModel.valid).mp h
  exact Float.toBits_inj.mp (UInt64.toBitVec_inj.mp bits)

/-- Zero, or a finite number above it. -/
inductive Absolute : UnpackedFloat → Prop where
  | zero : Absolute (.zero .positive)
  | finite (mantissa : Nat) (exponent : Int) (h : 0 < mantissa) :
      Absolute (.finite .positive mantissa exponent h)

/-- Zero comes first, the others by exponent and then by mantissa. -/
def rank : UnpackedFloat → WithBot (ℤ ×ₗ ℕ)
  | .finite _ mantissa exponent _ => ↑(toLex (exponent, mantissa))
  | _ => ⊥

theorem absolute_of_magnitude {a : Float} (h : Magnitude a) : Absolute a.toModel.unpack := by
  obtain ⟨x, finite, rfl⟩ := h
  have abs : (Arith.abs x).toModel.unpack = x.toModel.unpack.abs := unpack_abs x
  have finite : x.toModel.unpack.isFinite = true := finite
  rw [abs]
  cases hx : x.toModel.unpack with
  | infinity s => rw [hx] at finite; cases finite
  | notANumber => rw [hx] at finite; cases finite
  | zero s => exact .zero
  | finite s m e hm => exact .finite m e hm

variable {u v : UnpackedFloat}

theorem Absolute.beq_self (hu : Absolute u) : u.beq u = true := by
  cases hu with
  | zero => rfl
  | finite m e h =>
    show (some ((compare e e).then (compare m m)) == some Ordering.eq) = true
    simp only [Std.ReflCmp.compare_self, Ordering.then, beq_self_eq_true]

theorem Absolute.lt_iff (hu : Absolute u) (hv : Absolute v) : u.lt v = decide (rank u < rank v) := by
  cases hu with
  | zero =>
    cases hv with
    | zero => rfl
    | finite n f hn => exact (decide_eq_true (WithBot.bot_lt_coe _)).symm
  | finite m e hm =>
    cases hv with
    | zero => exact (decide_eq_false not_lt_bot).symm
    | finite n f hn =>
      rw [Bool.eq_iff_iff, decide_eq_true_eq]
      show (some ((compare e f).then (compare m n)) == some Ordering.lt) = true ↔ _
      simp only [beq_iff_eq, Option.some.injEq, Ordering.then_eq_lt, compare_lt_iff_lt, compare_eq_iff_eq]
      simp only [rank, WithBot.coe_lt_coe, Prod.Lex.toLex_lt_toLex]

theorem Absolute.eq_of_rank (hu : Absolute u) (hv : Absolute v) (h : rank u = rank v) : u = v := by
  cases hu with
  | zero =>
    cases hv with
    | zero => rfl
    | finite n f hn => cases h
  | finite m e hm =>
    cases hv with
    | zero => cases h
    | finite n f hn =>
      simp only [rank, WithBot.coe_inj, toLex_inj, Prod.mk.injEq] at h
      simp only [h.1, h.2]

instance : Magnitudes Float :=
  .of_rank (fun x => rank x.toModel.unpack) ⟨0.0, rfl, rfl⟩
    (fun ha => (absolute_of_magnitude ha).beq_self) (fun _ => bot_le)
    (fun {a b} ha hb => by
      rw [← (absolute_of_magnitude ha).lt_iff (absolute_of_magnitude hb)]
      show decide (decide (a.toModel.unpack.lt b.toModel.unpack = true) = true) = _
      rw [Bool.decide_eq_true, Bool.decide_eq_true])
    (fun ha hb h => unpack_injective ((absolute_of_magnitude ha).eq_of_rank (absolute_of_magnitude hb) h))

end Binary64

end Regrid
