/-
  Regrid.Proofs.Levels — how far a forest can be refined below a given level.

  A leaf at depth d under a level `top` can be split 2^d - 1 times, its descendants
  included, before all that comes of it lies at `top`. The sum over all leaves is the
  room of a forest. Splitting a leaf that lies above `top` takes one off the room and
  goes no deeper than `top`.

  A leaf that violates a limit has a neighbour that lies deeper, so it lies above the
  deepest level of the forest. Hence refining the violations of a limit keeps to the
  levels that are there already, and leaves less room for the next time (`refine_room`).
-/

import Mathlib
import Regrid.Forest

namespace Regrid.Forest

/-- No leaf lies below `top`. -/
def Within (top : Int) (leaves : List Leaf) : Prop := ∀ l ∈ leaves, l.level ≤ top

/-- How often a leaf can be split, and what comes of it, before all of it lies at `top`. -/
def splits (top : Int) (l : Leaf) : Nat := Nat.pow 2 (top - l.level).toNat - 1

def roomOf (top : Int) (leaves : List Leaf) : Nat := (leaves.map (splits top)).sum

/-- The deepest level, and zero where there are no leaves. -/
def top (f : Forest) : Int := f.levels.max?.getD 0

/-- How many leaves can be split, one after the other, with none below the deepest level. -/
def room (f : Forest) : Nat := roomOf f.top f.leaves

theorem within_top (f : Forest) : Within f.top f.leaves := by
  intro l hl
  have hlevel : l.level ∈ f.levels := List.mem_map.mpr ⟨l, hl, rfl⟩
  unfold top
  cases hmax : f.levels.max? with
  | none => rw [List.max?_eq_none_iff.mp hmax] at hlevel; cases hlevel
  | some m => exact (List.max?_eq_some_iff.mp hmax).2 _ hlevel

/-! ## One split -/

theorem splits_children {top : Int} {l : Leaf} (h : l.level < top) :
    splits top l.left + splits top l.right + 1 = splits top l := by
  obtain ⟨d, hd⟩ : ∃ d : Nat, (top - l.level).toNat = d + 1 := ⟨(top - l.level).toNat - 1, by omega⟩
  have hleft : (top - l.left.level).toNat = d := by simp only [Leaf.left]; omega
  have hright : (top - l.right.level).toNat = d := by simp only [Leaf.right]; omega
  have hpos : 0 < Nat.pow 2 d := Nat.pow_pos (by omega)
  have hdouble : Nat.pow 2 (d + 1) = 2 * Nat.pow 2 d := Nat.pow_succ'
  simp only [splits, hleft, hright, hd, hdouble]
  omega

/-- What becomes of a leaf and its position when the marked positions are split. -/
def pieces (marked : List Int) (x : Leaf × Nat) : List Leaf :=
  if marked.contains (x.2 : Int) then [x.1.left, x.1.right] else [x.1]

theorem split_eq (marked : List Int) (leaves : List Leaf) :
    split marked leaves = (leaves.zipIdx.map (pieces marked)).flatten := rfl

/-- Every leaf at a marked position lies above `top`. -/
def Above (top : Int) (marked : List Int) (placed : List (Leaf × Nat)) : Prop :=
  ∀ x ∈ placed, marked.contains (x.2 : Int) = true → x.1.level < top

theorem pieces_within {top : Int} {marked : List Int} {x : Leaf × Nat} (hx : x.1.level ≤ top)
    (h : marked.contains (x.2 : Int) = true → x.1.level < top) : Within top (pieces marked x) := by
  intro l hl
  unfold pieces at hl
  split at hl
  · rename_i hmarked
    have hlt := h hmarked
    simp only [List.mem_cons, List.not_mem_nil, or_false] at hl
    rcases hl with rfl | rfl
    · simp only [Leaf.left]; omega
    · simp only [Leaf.right]; omega
  · rw [List.mem_singleton.mp hl]
    exact hx

theorem pieces_room {top : Int} {marked : List Int} {x : Leaf × Nat}
    (h : marked.contains (x.2 : Int) = true → x.1.level < top) :
    roomOf top (pieces marked x) + (if marked.contains (x.2 : Int) then 1 else 0) = splits top x.1 := by
  unfold pieces
  by_cases hmarked : marked.contains (x.2 : Int) = true
  · rw [if_pos hmarked, if_pos hmarked]
    have hchildren := splits_children (h hmarked)
    simp only [roomOf, List.map_cons, List.map_nil, List.sum_cons, List.sum_nil]
    omega
  · rw [if_neg hmarked, if_neg hmarked]
    simp [roomOf]

/-! ## All splits of a refinement -/

theorem split_within {top : Int} {marked : List Int} {leaves : List Leaf} (hw : Within top leaves)
    (h : Above top marked leaves.zipIdx) : Within top (split marked leaves) := by
  intro l hl
  rw [split_eq, List.mem_flatten] at hl
  obtain ⟨ls, hls, hl⟩ := hl
  obtain ⟨x, hx, rfl⟩ := List.mem_map.mp hls
  have hleaf : x.1 ∈ leaves := (List.mem_zipIdx' hx).2 ▸ List.getElem_mem _
  exact pieces_within (hw _ hleaf) (h x hx) l hl

/-- Each split takes one off the room. -/
theorem split_room {top : Int} {marked : List Int} {placed : List (Leaf × Nat)}
    (h : Above top marked placed) :
    roomOf top (placed.map (pieces marked)).flatten + placed.countP (fun x => marked.contains (x.2 : Int)) =
      roomOf top (placed.map (·.1)) := by
  induction placed with
  | nil => rfl
  | cons x placed ih =>
    have hhead := pieces_room (h x (by simp))
    have htail := ih fun y hy => h y (by simp [hy])
    simp only [List.map_cons, List.flatten_cons, List.countP_cons]
    simp only [roomOf, List.map_append, List.sum_append, List.map_cons, List.sum_cons] at *
    omega

/-! ## Violations of a limit -/

theorem violatorsFrom_deeper {limit : Int} {i p : Nat} {leaves : List Leaf}
    (h : p ∈ violatorsFrom limit i leaves) :
    ∃ a b, i ≤ p ∧ leaves[p - i]? = some a ∧ b ∈ leaves ∧ limit < b.level - a.level := by
  induction i, leaves using violatorsFrom.induct with
  | case1 i a b rest ih =>
    simp only [violatorsFrom, List.mem_append, Option.mem_toList] at h
    rcases h with h | h
    · unfold coarser at h
      split at h
      · obtain rfl : i = p := by simpa using h
        exact ⟨a, b, by omega, by simp, by simp, by assumption⟩
      · split at h
        · obtain rfl : i + 1 = p := by simpa using h
          exact ⟨b, a, by omega, by simp, by simp, by assumption⟩
        · cases h
    · obtain ⟨a', b', hle, ha, hb, hdeep⟩ := ih h
      refine ⟨a', b', by omega, ?_, List.mem_cons_of_mem _ hb, hdeep⟩
      obtain ⟨q, rfl⟩ : ∃ q, p = i + 1 + q := ⟨p - (i + 1), by omega⟩
      rw [show i + 1 + q - i = q + 1 by omega, List.getElem?_cons_succ]
      rwa [show i + 1 + q - (i + 1) = q by omega] at ha
  | case2 i leaves hshort =>
    unfold violatorsFrom at h
    split at h
    · exact absurd rfl (hshort _ _ _)
    · cases h

theorem violation_deeper {f : Forest} {limit : Int} {m : Mark} (h : m ∈ f.violations limit) :
    ∃ (p : Nat) (a b : Leaf), m.index = p ∧ f.leaves[p]? = some a ∧ b ∈ f.leaves ∧
      limit < b.level - a.level := by
  simp only [violations, violators, List.mem_map, List.mem_eraseDups] at h
  obtain ⟨p, hp, rfl⟩ := h
  obtain ⟨a, b, -, ha, hb, hdeep⟩ := violatorsFrom_deeper hp
  exact ⟨p, a, b, rfl, ha, hb, hdeep⟩

theorem violations_above {f : Forest} {limit top : Int} (hlimit : 0 < limit) (hw : Within top f.leaves) :
    Above top ((f.violations limit).map (·.index)) f.leaves.zipIdx := by
  intro x hx hmarked
  obtain ⟨m, hm, hindex⟩ := List.mem_map.mp (List.contains_iff_mem.mp hmarked)
  obtain ⟨p, a, b, hp, ha, hb, hdeep⟩ := violation_deeper hm
  have hplace : f.leaves[x.2]? = some x.1 := List.mem_zipIdx_iff_getElem?.mp hx
  obtain rfl : x.2 = p := by omega
  obtain rfl : a = x.1 := Option.some.inj (ha.symm.trans hplace)
  have := hw b hb
  omega

/-- Refining what breaks a limit goes no deeper than the forest does, and takes room. -/
theorem refine_room {f : Forest} {limit top : Int} (hlimit : 0 < limit) (hw : Within top f.leaves)
    (hne : f.violations limit ≠ []) :
    Within top (f.refine (f.violations limit)).leaves ∧
      roomOf top (f.refine (f.violations limit)).leaves < roomOf top f.leaves := by
  have habove := violations_above hlimit hw
  have hleaves : (f.refine (f.violations limit)).leaves =
      split ((f.violations limit).map (·.index)) f.leaves := by
    unfold refine
    rw [if_neg (by simpa using hne)]
  rw [hleaves]
  refine ⟨split_within hw habove, ?_⟩
  have hroom := split_room habove
  rw [List.zipIdx_map_fst, ← split_eq] at hroom
  -- some leaf is named, so some position is marked
  obtain ⟨m, hm⟩ := List.exists_mem_of_ne_nil _ hne
  obtain ⟨p, a, -, hp, ha, -, -⟩ := violation_deeper hm
  have hmarked : 0 < f.leaves.zipIdx.countP
      fun x => ((f.violations limit).map (·.index)).contains (x.2 : Int) := by
    refine List.countP_pos_iff.mpr ⟨(a, p), List.mem_zipIdx_iff_getElem?.mpr ha, ?_⟩
    exact List.contains_iff_mem.mpr (List.mem_map.mpr ⟨m, hm, hp⟩)
  omega

/-! ## Merging -/

theorem derefine_same {R : Type} [Arith R] {f : Forest} {errors : List R} {threshold : R} {limit : Int}
    (h : (f.derefine errors threshold limit).1 = false) : (f.derefine errors threshold limit).2 = f := by
  simp only [derefine] at h ⊢
  by_cases hstarts : (f.merged errors threshold limit).isEmpty = true
  · rw [if_pos hstarts]
  · rw [if_neg hstarts] at h
    cases h

theorem pairsFrom_inside {i j : Nat} {leaves : List Leaf} (h : j ∈ pairsFrom i leaves) :
    i ≤ j ∧ j + 1 < i + leaves.length := by
  induction i, leaves using pairsFrom.induct with
  | case1 i a b rest hsiblings ih =>
    rw [pairsFrom, if_pos hsiblings, List.mem_cons] at h
    rcases h with rfl | h
    · simp only [List.length_cons]; omega
    · have := ih h
      simp only [List.length_cons] at *
      omega
  | case2 i a b rest hsiblings ih =>
    rw [pairsFrom, if_neg hsiblings] at h
    have := ih h
    simp only [List.length_cons] at *
    omega
  | case3 i leaves hshort =>
    unfold pairsFrom at h
    split at h
    · exact absurd rfl (hshort _ _ _)
    · cases h

end Regrid.Forest
