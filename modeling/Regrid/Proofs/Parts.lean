/-
  Regrid.Proofs.Parts — elements in parts, one part after another.

  A mesh is cut into consecutive parts, some of them maybe empty. What a pass needs of all
  elements together it can put together from the parts:
  (1) the marks of the parts, each index moved behind the parts before, are the marks of
      the whole with the same directions;
  (2) the counts of the parts add up to the count of the whole, and where addition is exact
      so do their sums of powers, in whatever order they are reduced;
  (3) a greatest peak of the parts is the peak of the whole, if magnitudes are in order. A
      part without elements has the peak zero, which is no more than any other.
-/

import Regrid.Proofs.Magnitude
import Regrid.Proofs.Talk

namespace Regrid

variable {R α β : Type} {n : Nat}

/-! ## Lists one after another -/

section

variable {lists : Fin n → List α}

def joined (lists : Fin n → List α) : List α := (List.ofFn lists).flatten

/-- How many entries come before those of one list. -/
def offset (lists : Fin n → List α) (i : Fin n) : Nat := ((List.ofFn fun j => (lists j).length).take i).sum

theorem joined_succ (lists : Fin (n + 1) → List α) :
    joined lists = lists 0 ++ joined fun i => lists i.succ := by
  rw [joined, List.ofFn_succ, List.flatten_cons, joined]

theorem map_joined (f : α → β) (lists : Fin n → List α) :
    (joined lists).map f = joined fun i => (lists i).map f := by
  rw [joined, List.map_flatten, List.map_ofFn]
  rfl

theorem length_joined (lists : Fin n → List α) : (joined lists).length = ∑ i, (lists i).length := by
  rw [joined, List.length_flatten, List.map_ofFn, List.sum_ofFn]
  rfl

theorem mem_joined {a : α} : a ∈ joined lists ↔ ∃ i, a ∈ lists i := by
  simp only [joined, List.mem_flatten, List.mem_ofFn]
  constructor
  · rintro ⟨_, ⟨i, rfl⟩, ha⟩
    exact ⟨i, ha⟩
  · rintro ⟨i, ha⟩
    exact ⟨_, ⟨i, rfl⟩, ha⟩

theorem offset_zero (lists : Fin (n + 1) → List α) : offset lists 0 = 0 := rfl

theorem offset_succ (lists : Fin (n + 1) → List α) (i : Fin n) :
    offset lists i.succ = (lists 0).length + offset (fun j => lists j.succ) i := by
  rw [offset, List.ofFn_succ, Fin.val_succ, List.take_succ_cons, List.sum_cons, offset]

theorem joined_getElem? (lists : Fin n → List α) {i : Fin n} {j : Nat} (h : j < (lists i).length) :
    (joined lists)[offset lists i + j]? = (lists i)[j]? := by
  induction n with
  | zero => exact i.elim0
  | succ n ih =>
    rw [joined_succ]
    cases i using Fin.cases with
    | zero => rw [offset_zero, Nat.zero_add, List.getElem?_append_left h]
    | succ i =>
      rw [offset_succ, Nat.add_assoc, List.getElem?_append_right (by omega), Nat.add_sub_cancel_left, ih _ h]

end

/-! ## Parts -/

/-- What a marker is told of the elements of its mesh: an error for each, and a flag for each or none. -/
structure Part (R : Type) where
  errors : List R
  flags : Option (List Int)

/-- The parts are the whole, one after another; where the whole has flags a part without elements may do
    without. -/
structure Cut (parts : Fin n → Part R) (whole : Part R) : Prop where
  errors : joined (fun i => (parts i).errors) = whole.errors
  undirected : whole.flags = none → ∀ i, (parts i).flags = none
  directed : ∀ fs, whole.flags = some fs → joined (fun i => (parts i).flags.getD []) = fs ∧
    ∀ i, ((parts i).flags.getD []).length = (parts i).errors.length

/-- Finite errors, and flags for all or none. -/
structure Part.Valid [Arith R] (part : Part R) : Prop where
  errors : ValidErrors part.errors.length part.errors
  flags : ValidFlags part.errors.length part.flags

namespace Cut

variable {parts : Fin n → Part R} {whole : Part R} (cut : Cut parts whole)
include cut

theorem elements : ∑ i, (parts i).errors.length = whole.errors.length := by
  rw [← cut.errors, length_joined]

theorem valid [Arith R] (finite : whole.errors.all Arith.isFinite = true) (i : Fin n) : (parts i).Valid := by
  refine ⟨⟨rfl, List.all_eq_true.mpr fun e he => ?_⟩, fun fs hfs => ?_⟩
  · exact List.all_eq_true.mp finite e (cut.errors ▸ mem_joined.mpr ⟨i, he⟩)
  · cases hw : whole.flags with
    | none => rw [cut.undirected hw i] at hfs; cases hfs
    | some ws =>
      have sized := (cut.directed ws hw).2 i
      rw [hfs, Option.getD_some] at sized
      rw [sized]

theorem valid_whole [Arith R] (finite : whole.errors.all Arith.isFinite = true) : whole.Valid := by
  refine ⟨⟨rfl, finite⟩, fun fs hfs => ?_⟩
  obtain ⟨rfl, sized⟩ := cut.directed fs hfs
  rw [length_joined, Finset.sum_congr rfl fun i _ => sized i, cut.elements]

end Cut

/-! ## (1) Marks -/

def Mark.shift (k : Nat) (m : Mark) : Mark := { m with index := m.index + k }

namespace Marking

/-- The directions in which the element at a position is split. -/
def directionsAt (flags : Option (List Int)) (i : Nat) : Directions :=
  match flags with
  | none => Directions.xyz
  | some fs => Directions.ofInt (fs[i]?.getD 0)

theorem marksOf_eq (positions : List Nat) (flags : Option (List Int)) :
    marksOf positions flags = positions.map fun (i : Nat) => ⟨i, directionsAt flags i⟩ := by
  cases flags <;> rfl

variable [Arith R] {parts : Fin n → Part R} {whole : Part R}

theorem above_append (xs ys : List R) (threshold : R) :
    above (xs ++ ys) threshold = above xs threshold ++ (above ys threshold).map (xs.length + ·) := by
  have later : ys.zipIdx xs.length = ys.zipIdx.map fun x => (x.1, xs.length + x.2) := List.zipIdx_eq_map_add
  simp only [above, List.zipIdx_append, Nat.zero_add, List.filter_append, List.map_append, later,
    List.filter_map, List.map_map]
  rfl

theorem above_joined (errors : Fin n → List R) (threshold : R) :
    above (joined errors) threshold =
      joined fun i => (above (errors i) threshold).map (offset errors i + ·) := by
  induction n with
  | zero => rfl
  | succ n ih =>
    rw [joined_succ, above_append, ih, joined_succ, map_joined]
    congr 1
    · simp only [offset_zero, Nat.zero_add, List.map_id']
    · congr 1
      funext i
      rw [List.map_map]
      refine List.map_congr_left fun j _ => ?_
      rw [Function.comp_apply, offset_succ, Nat.add_assoc]

omit [Arith R] in
theorem directionsAt_joined (cut : Cut parts whole) {i : Fin n} {j : Nat} (h : j < (parts i).errors.length) :
    directionsAt whole.flags (offset (fun i => (parts i).errors) i + j) = directionsAt (parts i).flags j := by
  cases hw : whole.flags with
  | none => rw [cut.undirected hw i]; rfl
  | some fs =>
    obtain ⟨rfl, sized⟩ := cut.directed fs hw
    have same : offset (fun i => (parts i).errors) i = offset (fun i => (parts i).flags.getD []) i := by
      simp only [offset, sized]
    have inside : j < ((parts i).flags.getD []).length := by
      rw [sized]
      exact h
    have entry := joined_getElem? (fun i => (parts i).flags.getD []) inside
    rw [same, directionsAt, entry]
    cases hp : (parts i).flags with
    | none =>
      have none_left := sized i
      rw [hp] at none_left
      simp at none_left
      omega
    | some gs => rfl

/-- The marks of the parts, moved to where the parts begin, are the marks of the whole. -/
theorem marks_joined (cut : Cut parts whole) (threshold : R) :
    joined (fun i => (marksOf (above (parts i).errors threshold) (parts i).flags).map
      (Mark.shift (offset (fun i => (parts i).errors) i))) =
      marksOf (above whole.errors threshold) whole.flags := by
  rw [marksOf_eq, ← cut.errors, above_joined, map_joined]
  congr 1
  funext i
  rw [marksOf_eq, List.map_map, List.map_map]
  refine List.map_congr_left fun j hj => ?_
  have here := directionsAt_joined cut (above_inside hj)
  simp only [Function.comp, Mark.shift, here]
  congr 1
  omega

end Marking

/-! ## (2) Sums -/

/-- Addition in any order gives the same, and zero adds nothing. -/
structure Arith.Exact (R : Type) [Arith R] : Prop where
  assoc : ∀ x y z : R, add (add x y) z = add x (add y z)
  comm : ∀ x y : R, add x y = add y x
  zero_add : ∀ x : R, add zero x = x

abbrev Arith.Exact.monoid [Arith R] (exact : Arith.Exact R) : AddCommMonoid R :=
  letI : Add R := ⟨add⟩
  letI : Zero R := ⟨zero⟩
  { add_assoc := exact.assoc
    add_comm := exact.comm
    zero_add := exact.zero_add
    add_zero := fun x => (exact.comm x zero).trans (exact.zero_add x)
    nsmul := nsmulRec }

/-- The exact number; NaN and the infinities are none and count as zero. -/
def Decimal.Shape.exact : Shape → ℚ
  | .finite negative b => if negative then -b.worth else b.worth
  | .nan | .infinite _ => 0

/-- Rational numbers, with the powers that are rational. -/
instance : Arith ℚ where
  narrow := Decimal.Shape.exact
  zero := 0
  one := 1
  neg x := -x
  abs x := |x|
  add x y := x + y
  mul x y := x * y
  div x y := x / y
  lt x y := decide (x < y)
  le x y := decide (x ≤ y)
  eq x y := decide (x = y)
  isFinite _ := true
  ofInt n := .ok n
  toInt x := .ok (x.num.tdiv x.den)
  ltInt x n := decide (x < n)
  gtInt x n := decide (n < x)
  round _ x := x
  power x y := x ^ y.num
  checkedPower x y := .ok (if y.den = 1 then some (x ^ y.num) else none)

theorem Arith.exact_rational : Exact ℚ := ⟨add_assoc, add_comm, zero_add⟩

instance : Magnitudes ℚ :=
  .of_rank id ⟨0, rfl, abs_zero⟩ (fun _ => decide_eq_true rfl)
    (fun ⟨x, _, hx⟩ => hx ▸ abs_nonneg x) (fun _ _ => rfl) fun _ _ h => h

variable [Arith R]

theorem Arith.Exact.sum_joined (exact : Arith.Exact R) (lists : Fin n → List R) :
    letI := exact.monoid
    sum (joined lists) = ∑ i, sum (lists i) := by
  let := exact.monoid
  have list (xs : List R) : sum xs = xs.sum := List.sum_eq_foldl.symm
  simp only [list, joined, List.sum_flatten, List.map_ofFn, List.sum_ofFn]
  rfl

namespace Reduction.Comes

variable {ι : Type} [DecidableEq ι] {s : Finset ι} {whole : Quantity R}

/-- What adds up two at a time adds up in any order. -/
theorem sum {M : Type} [AddCommMonoid M] {quantity : M → Quantity R}
    (adds : ∀ x y, (quantity x).add (quantity y) = .ok (quantity (x + y))) {f : ι → M}
    (h : Comes .sum (fun i => quantity (f i)) s whole) : whole = quantity (∑ i ∈ s, f i) := by
  induction h with
  | one i => rw [Finset.sum_singleton]
  | @join s t a b whole _ _ disjoint combined iha ihb =>
    subst iha ihb
    rw [Finset.sum_union disjoint]
    exact (Except.ok.inj ((adds _ _).symm.trans combined)).symm

theorem sum_int {f : ι → Int} (h : Comes .sum (fun i => .int (f i)) s whole) :
    whole = .int (∑ i ∈ s, f i) := h.sum fun _ _ => rfl

theorem sum_real (exact : Arith.Exact R) {f : ι → R} (h : Comes .sum (fun i => .real (f i)) s whole) :
    letI := exact.monoid
    whole = .real (∑ i ∈ s, f i) :=
  letI := exact.monoid
  h.sum fun _ _ => rfl

end Reduction.Comes

/-! ## (3) Peaks -/

theorem Reduction.combine_max (a b : R) :
    Reduction.max.combine (.real a) (.real b) = .ok (.real (Arith.max a b)) := by
  show Except.ok (if Arith.lt a b then _ else _) = _
  unfold Arith.max
  split <;> rfl

/-- The greatest of greatest elements is the greatest of all. -/
theorem Reduction.Comes.max [Magnitudes R] {ι : Type} [DecidableEq ι] {s : Finset ι} {whole : Quantity R}
    {f : ι → R} (sets : ι → Set R) (inside : ∀ i, ∀ a ∈ sets i, Arith.Magnitude a)
    (each : ∀ i, Arith.Greatest (sets i) (f i)) (h : Comes .max (fun i => .real (f i)) s whole) :
    ∃ m, whole = .real m ∧ Arith.Greatest {a | ∃ i ∈ s, a ∈ sets i} m := by
  induction h with
  | one i => exact ⟨f i, rfl, by simpa using each i⟩
  | @join s t a b whole _ _ _ combined iha ihb =>
    obtain ⟨m, rfl, hm⟩ := iha
    obtain ⟨m', rfl, hm'⟩ := ihb
    have covered (u : Finset ι) (a : R) (ha : a ∈ {a | ∃ i ∈ u, a ∈ sets i}) : Arith.Magnitude a := by
      obtain ⟨i, -, hi⟩ := ha
      exact inside i a hi
    have both := hm.union (covered s) (covered t) hm'
    have same : {a | ∃ i ∈ s, a ∈ sets i} ∪ {a | ∃ i ∈ t, a ∈ sets i} = {a | ∃ i ∈ s ∪ t, a ∈ sets i} := by
      ext a
      simp only [Set.mem_union, Set.mem_ofPred_eq, Finset.mem_union, or_and_right, exists_or]
    rw [same] at both
    exact ⟨_, (Except.ok.inj ((Reduction.combine_max m m').symm.trans combined)).symm, both⟩

/-- Whatever order the peaks of the parts are reduced in, the peak of the whole comes of it. -/
theorem Cut.peak [Magnitudes R] {parts : Fin n → Part R} {whole : Part R} (cut : Cut parts whole)
    (finite : whole.errors.all Arith.isFinite = true) {q : Quantity R}
    (h : Reduction.max.Comes (fun i => .real (Norm.peak (parts i).errors)) Finset.univ q) (i : Fin n) :
    q = .real (Norm.peak whole.errors) := by
  have each (j : Fin n) := (cut.valid finite j).errors.2
  obtain ⟨m, rfl, hm⟩ := h.max (fun j => Norm.magnitudes (parts j).errors)
    (fun j a ha => Norm.magnitude_of_mem (each j) ha) fun j => Norm.greatest_peak (each j)
  have same : {a | ∃ j ∈ Finset.univ, a ∈ Norm.magnitudes (parts j).errors} =
      Norm.magnitudes whole.errors := by
    ext a
    simp only [Norm.magnitudes, ← cut.errors, map_joined, Set.mem_ofPred_eq, mem_joined]
    constructor
    · rintro ⟨j, -, ha | ha⟩
      · exact .inl ha
      · exact .inr ⟨j, ha⟩
    · rintro (ha | ⟨j, ha⟩)
      · exact ⟨i, Finset.mem_univ i, .inl ha⟩
      · exact ⟨j, Finset.mem_univ j, .inr ha⟩
  rw [same] at hm
  rw [Arith.Greatest.unique (fun a ha => Norm.magnitude_of_mem finite ha) hm (Norm.greatest_peak finite)]

end Regrid
