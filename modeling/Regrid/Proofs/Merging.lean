/-
  Regrid.Proofs.Merging — the ways to combine errors, from the one that merges least.

  Errors that are not negative, in exact arithmetic. Of the members of a group the sum is
  at least the greatest error, and that at least the least error. So what is under a
  threshold by sum is under it by the greatest, and by the least then, and nothing leaves
  when the threshold is raised (`Ordered`, `Coarsen.groups_ordered`).

  A control on a nonconforming forest without a communicator, and without a limit. It
  counts the groups under its threshold and hands their errors to the forest only if there
  are any; the forest looks at the table and the threshold again, by itself. Both come to
  the same groups, and the forest has one leaf less for each (`Joins`, `Came`). So
  of three controls that differ in how they combine, the one that sums leaves the most
  leaves and the one that takes the least error leaves the fewest (`merges_in_order`).
-/

import Regrid.Proofs.Exact
import Regrid.Proofs.OneChange
import Regrid.Proofs.Restoring

namespace Regrid

/-! ## Groups under a threshold -/

namespace Coarsen

variable {R : Type} [Arith R] {es es' : List R} {t t' : R}

/-- The groups, by their places in the table, whose error is at most the threshold. -/
def under (threshold : R) (errors : List R) : List Nat :=
  (errors.zipIdx.filter fun x => Arith.le x.1 threshold).map (·.2)

theorem countUnder_eq (t : R) (es : List R) : countUnder t es = (under t es).length := by
  rw [under, List.length_map, ← List.countP_eq_length_filter, countUnder]
  conv_lhs => rw [← List.zipIdx_map_fst 0 es, List.countP_map]
  rfl

theorem under_cons (t e : R) (es : List R) :
    under t (e :: es) = (if Arith.le e t then [0] else []) ++ (under t es).map (· + 1) := by
  have later : (es.zipIdx 1).filter (fun x => Arith.le x.1 t) =
      (es.zipIdx.filter fun x => Arith.le x.1 t).map fun x => (x.1, x.2 + 1) := by
    rw [List.zipIdx_succ, List.filter_map]
    rfl
  rw [under, List.zipIdx_cons, List.filter_cons, later, under]
  by_cases he : Arith.le e t = true
  · simp [he]
  · simp [he]

/-- Where all that is under the one threshold has its like under the other, the first has no more places. -/
theorem under_sublist (h : List.Forall₂ (fun e e' => Arith.le e t = true → Arith.le e' t' = true) es es') :
    (under t es).Sublist (under t' es') := by
  induction h with
  | nil => exact List.Sublist.slnil
  | @cons e e' es es' hle _ ih =>
    rw [under_cons, under_cons]
    refine List.Sublist.append ?_ (ih.map _)
    by_cases he : Arith.le e t = true
    · rw [if_pos he, if_pos (hle he)]
    · rw [if_neg he]
      exact List.nil_sublist _

end Coarsen

/-! ## Errors of a group -/

/-- What the errors of the members come to. -/
def Combine.Joint : Combine → List ℝ → ℝ → Prop
  | .least, es, e => IsLeast {x | x ∈ es} e
  | .sum, es, e => e = es.sum
  | .greatest, es, e => IsGreatest {x | x ∈ es} e

/-- The error of a group is that of its members. -/
def Combine.Of (c : Combine) (errors : List ℝ) (g : Group) (e : ℝ) : Prop :=
  ∃ es, g.select errors = .ok es ∧ c.Joint es e

/-- Each way to combine gives one error for each group, in order. What is under a threshold by sum is under
    it by the greatest, and so by the least; what is under a threshold is under each that is higher. -/
structure Ordered (errors : List ℝ) (groups : List Group) (combined : Combine → List ℝ) : Prop where
  delivered : ∀ c, Coarsen.groupErrors c errors groups = .ok (combined c)
  each : ∀ c, List.Forall₂ (Combine.Of c errors) groups (combined c)
  counted : ∀ c t, Coarsen.countUnder t (combined c) = (Coarsen.under t (combined c)).length
  greatest : ∀ t, (Coarsen.under t (combined .sum)).Sublist (Coarsen.under t (combined .greatest))
  least : ∀ t, (Coarsen.under t (combined .greatest)).Sublist (Coarsen.under t (combined .least))
  raised : ∀ c t t', t ≤ t' → (Coarsen.under t (combined c)).Sublist (Coarsen.under t' (combined c))

namespace Coarsen

variable {errors : List ℝ} {groups : List Group}

theorem combined_joint (c : Combine) {es : List ℝ} (h : es ≠ []) : ∃ e, combined c es = .ok e ∧ c.Joint es e := by
  cases es with
  | nil => exact absurd rfl h
  | cons e es =>
    cases c with
    | sum => exact ⟨_, rfl, Arith.sum_real _⟩
    | least =>
      have folded : (e :: es).min? = some (es.foldl Arith.min e) := by
        rw [funext₂ Arith.min_real]
        rfl
      exact ⟨_, rfl, List.min?_eq_some_iff.mp folded⟩
    | greatest =>
      have folded : (e :: es).max? = some (es.foldl Arith.max e) := by
        rw [funext₂ Arith.max_real]
        rfl
      exact ⟨_, rfl, List.max?_eq_some_iff.mp folded⟩

theorem groupErrors_of (c : Combine) (names : ∀ g ∈ groups, g.Names errors.length) :
    ∃ combined, groupErrors c errors groups = .ok combined ∧ List.Forall₂ (Combine.Of c errors) groups combined := by
  refine mapM_ok fun g hg => ?_
  obtain ⟨es, hes, hne, -⟩ := (names g hg).select_ok
  obtain ⟨e, he, joint⟩ := combined_joint c hne
  exact ⟨e, by simp only [groupError, hes]; exact he, es, hes, joint⟩

/-- Entry by entry, one way to combine gives no more than another where it does so of all errors. -/
theorem under_of_joint {c c' : Combine} {es es' : List ℝ} (nonneg : ∀ e ∈ errors, 0 ≤ e)
    (h : List.Forall₂ (Combine.Of c errors) groups es) (h' : List.Forall₂ (Combine.Of c' errors) groups es')
    (names : ∀ g ∈ groups, g.Names errors.length)
    (le : ∀ members : List ℝ, (∀ e ∈ members, 0 ≤ e) → ∀ e e', c.Joint members e → c'.Joint members e' → e' ≤ e)
    (t : ℝ) : (under t es).Sublist (under t es') := by
  refine under_sublist ?_
  induction h generalizing es' with
  | nil =>
    cases h'
    exact .nil
  | @cons g e groups es hof _ ih =>
    cases h' with
    | @cons _ e' _ es' hof' h' =>
      obtain ⟨members, hmembers, joint⟩ := hof
      obtain ⟨members', hmembers', joint'⟩ := hof'
      cases hmembers.symm.trans hmembers'
      obtain ⟨ms, hms, -, inside⟩ := (names g (by simp)).select_ok
      cases hmembers.symm.trans hms
      have hle := le members (fun x hx => nonneg x (inside x hx)) e e' joint joint'
      refine .cons (fun hunder => ?_) (ih h' fun g' hg' => names g' (by simp [hg']))
      rw [Arith.le_real] at hunder ⊢
      exact hle.trans hunder

theorem groups_ordered (nonneg : ∀ e ∈ errors, 0 ≤ e) (names : ∀ g ∈ groups, g.Names errors.length) :
    ∃ combined, Ordered errors groups combined := by
  choose combined delivered each using fun c => groupErrors_of c names
  refine ⟨combined, delivered, each, fun c t => countUnder_eq t _, ?_, ?_, ?_⟩
  · intro t
    refine under_of_joint nonneg (each .sum) (each .greatest) names (fun members hpos s g hs hg => ?_) t
    exact hs ▸ List.single_le_sum hpos g hg.1
  · intro t
    refine under_of_joint nonneg (each .greatest) (each .least) names (fun members _ g l hg hl => ?_) t
    exact hl.2 hg.1
  · intro c t t' hle
    refine under_sublist (List.forall₂_same.mpr fun e _ hunder => ?_)
    rw [Arith.le_real] at hunder ⊢
    exact hunder.trans hle

end Coarsen

/-! ## What a forest merges -/

namespace Coarsen

/-- What stands at the places of a table is what its entries under the threshold stand for. -/
theorem under_getElem? {R α : Type} [Arith R] {t : R} {xs : List α} {es : List R} (h : es.length = xs.length) :
    (under t es).map (xs[·]?) = ((xs.zip es).filter fun x => Arith.le x.2 t).map fun x => some x.1 := by
  induction xs generalizing es with
  | nil =>
    rw [List.eq_nil_of_length_eq_zero h]
    rfl
  | cons x xs ih =>
    cases es with
    | nil => cases h
    | cons e es =>
      have rest := ih (Nat.succ.inj h)
      rw [under_cons, List.map_append, List.map_map, List.zip_cons_cons, List.filter_cons]
      by_cases he : Arith.le e t = true
      · simpa [he, Function.comp_def] using rest
      · simpa [he, Function.comp_def] using rest

end Coarsen

namespace Forest

/-- From a place on, the pairs that start at the listed places have given way to their parents, and the other
    leaves stand as they did. -/
inductive Joins : List Nat → Nat → List Leaf → List Leaf → Prop
  | done (i : Nat) : Joins [] i [] []
  | kept {starts : List Nat} {i : Nat} {before after : List Leaf} (l : Leaf) :
      Joins starts (i + 1) before after → Joins starts i (l :: before) (l :: after)
  | merged {starts : List Nat} {i : Nat} {before after : List Leaf} (p : Leaf) :
      Joins starts (i + 2) before after → Joins (i :: starts) i (p.left :: p.right :: before) (p :: after)

variable {starts : List Nat} {i : Nat} {before after : List Leaf}

theorem joins_self (i : Nat) (leaves : List Leaf) : Joins [] i leaves leaves := by
  induction leaves generalizing i with
  | nil => exact .done i
  | cons l leaves ih => exact .kept l (ih (i + 1))

/-- One leaf is gone for each pair. -/
theorem Joins.length (h : Joins starts i before after) : after.length + starts.length = before.length := by
  induction h with
  | done => rfl
  | kept l _ ih => simp only [List.length_cons]; omega
  | merged p _ ih => simp only [List.length_cons]; omega

theorem siblings_eq {a b : Leaf} (h : a.areSiblings b = true) : a = a.parent.left ∧ b = a.parent.right := by
  simp only [Leaf.areSiblings, Bool.and_eq_true, decide_eq_true_eq, beq_iff_eq] at h
  obtain ⟨⟨-, even⟩, rfl⟩ := h
  obtain ⟨root, level, pos⟩ := a
  simp only [Leaf.parent, Leaf.left, Leaf.right, Leaf.mk.injEq, true_and]
  simp only at even
  omega

theorem join_skip {a : Leaf} {rest : List Leaf} (h : i ∉ starts) :
    join starts i (a :: rest) = a :: join starts (i + 1) rest := by
  cases rest with
  | nil => rfl
  | cons b rest => rw [join, if_neg (by simpa using h)]

/-- What starts before the place is joined already. -/
theorem join_past {s : Nat} {leaves : List Leaf} (h : s < i) : join (s :: starts) i leaves = join starts i leaves := by
  induction i, leaves using join.induct (s :: starts) with
  | case1 i a b rest listed ih =>
    have listed' : starts.contains i = true := by
      simp only [List.contains_cons, Bool.or_eq_true, beq_iff_eq] at listed
      exact listed.resolve_left (by omega)
    rw [join, join, if_pos listed, if_pos listed', ih (by omega)]
  | case2 i a b rest unlisted ih =>
    have unlisted' : ¬ starts.contains i = true := fun listed => unlisted (by simp_all)
    rw [join, join, if_neg unlisted, if_neg unlisted', ih (by omega)]
  | case3 i leaves short =>
    unfold join
    split
    · exact absurd rfl (short _ _ _)
    · rfl

/-- Pairs that are joined are replaced by their parents, one after the other. -/
theorem joins_of_pairs {leaves : List Leaf} (h : starts.Sublist (pairsFrom i leaves)) :
    Joins starts i leaves (join starts i leaves) := by
  induction i, leaves using pairsFrom.induct generalizing starts with
  | case1 i a b rest siblings ih =>
    rw [pairsFrom, if_pos siblings] at h
    rcases List.sublist_cons_iff.mp h with later | ⟨starts, rfl, later⟩
    · -- the pair is not listed, and neither is the place of its second leaf
      have outside (j : Nat) (hj : j < i + 2) : j ∉ starts := fun hmem => by
        have := pairsFrom_inside (later.subset hmem)
        omega
      rw [join_skip (outside i (by omega)), join_skip (outside (i + 1) (by omega))]
      exact .kept a (.kept b (ih later))
    · obtain ⟨left, right⟩ := siblings_eq siblings
      have joined : join (i :: starts) i (a :: b :: rest) = a.parent :: join starts (i + 2) rest := by
        rw [join, if_pos (by simp), join_past (by omega)]
      have merged := Joins.merged a.parent (ih later)
      rwa [← left, ← right, ← joined] at merged
  | case2 i a b rest apart ih =>
    rw [pairsFrom, if_neg apart] at h
    have outside : i ∉ starts := fun hi => by
      have := pairsFrom_inside (h.subset hi)
      omega
    rw [join_skip outside]
    exact .kept a (ih h)
  | case3 leaves i short =>
    have nothing : pairsFrom i leaves = [] := by
      unfold pairsFrom
      split
      · exact absurd rfl (short _ _ _)
      · rfl
    rw [nothing, List.sublist_nil] at h
    subst h
    have same : join [] i leaves = leaves := by
      unfold join
      split
      · exact absurd rfl (short _ _ _)
      · rfl
    rw [same]
    exact joins_self i leaves

/-- Without a limit, what is merged is what is under the threshold. -/
theorem merged_eq (f : Forest) (errors : List ℝ) (t : ℝ) :
    f.merged errors t 0 = ((f.pairs.zip errors).filter fun x => Arith.le x.2 t).map (·.1) := by
  have free (i : Nat) : isBlocked f.leaves 0 i = false := by
    unfold isBlocked
    split <;> rfl
  have same (e : ℝ) : (!Arith.lt t e) = Arith.le e t := by
    rw [Bool.eq_iff_iff, Bool.not_eq_true', ← Bool.not_eq_true, Arith.lt_real, Arith.le_real, not_lt]
  simp only [merged, free, Bool.not_false, Bool.and_true, same]

/-- Of the groups that the forest `f` names, those at these places of the table are merged in `g`, and no others. -/
def MergedAt (f : Forest) (places : List Nat) (g : Forest) : Prop :=
  ∃ starts : List Nat,
    places.map (f.groups[·]?) = starts.map (fun s => some (.positions [(s : Int), (s : Int) + 1])) ∧
      Joins starts 0 f.leaves g.leaves

theorem MergedAt.length {f g : Forest} {places : List Nat} (h : f.MergedAt places g) :
    g.leaves.length + places.length = f.leaves.length := by
  obtain ⟨starts, named, joins⟩ := h
  have count : places.length = starts.length := by simpa using congrArg List.length named
  rw [count]
  exact joins.length

/-- The forest merges the groups under the threshold, and tells whether there were any. -/
theorem derefine_merges {f : Forest} {errors : List ℝ} (t : ℝ) (h : errors.length = f.groups.length) :
    f.MergedAt (Coarsen.under t errors) (f.derefine errors t 0).2 ∧
      (f.derefine errors t 0).1 = !(Coarsen.under t errors).isEmpty := by
  have hpairs : errors.length = f.pairs.length := by rw [h, groups, List.length_map]
  have named : (Coarsen.under t errors).map (f.groups[·]?) =
      (f.merged errors t 0).map fun s => some (.positions [(s : Int), (s : Int) + 1]) := by
    have found := congrArg (List.map (Option.map fun i : Nat => Group.positions [(i : Int), (i : Int) + 1]))
      (Coarsen.under_getElem? (t := t) hpairs)
    rw [merged_eq, List.map_map]
    simpa [groups, Function.comp_def] using found
  have inside : (f.merged errors t 0).Sublist f.pairs := by
    rw [merged_eq]
    refine (List.filter_sublist.map _).trans ?_
    rw [List.map_fst_zip (by omega)]
  have joins := joins_of_pairs inside
  have count : (Coarsen.under t errors).length = (f.merged errors t 0).length := by
    simpa using congrArg List.length named
  have same : (Coarsen.under t errors).isEmpty = (f.merged errors t 0).isEmpty := by
    rw [Bool.eq_iff_iff, List.isEmpty_iff, List.isEmpty_iff, ← List.length_eq_zero_iff, count, List.length_eq_zero_iff]
  rw [same, derefine]
  by_cases nothing : (f.merged errors t 0).isEmpty = true
  · rw [if_pos nothing, nothing]
    rw [List.isEmpty_iff.mp nothing] at named
    exact ⟨⟨[], named, joins_self 0 f.leaves⟩, rfl⟩
  · rw [if_neg nothing, Bool.eq_false_iff.mpr nothing]
    exact ⟨⟨_, named, joins⟩, rfl⟩

end Forest

/-! ## Three controls that differ in how they combine -/

namespace Merging

variable {E : Type}

/-- A control, in one setting for each way to combine and otherwise alike, and a forest. -/
structure Trial (E : Type) where
  company : Stand.Company ℝ E
  forest : Forest
  mesh : MeshId
  control : ControlId
  how : Coarsening ℝ
  depth : Nat
  bench : Combine → Bench ℝ (Stand E)

namespace Trial

noncomputable def update (u : Trial E) : Act ℝ (Stand E) Bool :=
  Update.update (Stand.site u.company) (u.depth + 1) u.control u.mesh

/-- What an update of the control that combines in one way leaves. -/
noncomputable def after (u : Trial E) (c : Combine) : Bench ℝ (Stand E) := stateAfter u.update (u.bench c)

/-- Every control has no limit and stands before the same forest, which is nonconforming, and is delivered these
    errors, one for each leaf. -/
structure Ready (u : Trial E) (errors : List ℝ) : Prop where
  unlimited : u.how.limit = 0
  control : ∀ c, ∃ last, (u.bench c).controls[u.control]? = some ⟨last, .coarsen { u.how with combine := c }⟩
  forest : ∀ c, (u.bench c).world.forest = u.forest
  nonconforming : ∀ c, (u.bench c).world.isNonconforming = true
  delivers : ∀ c, outcome ((Stand.site u.company).errors u.how.estimator) (u.bench c).world = .ok errors
  length : errors.length = u.forest.leaves.length

end Trial

/-- What an update comes to. It calls the forest just if some group is under the threshold, and tells so; these
    groups are merged and no others. -/
structure Came (b : Bench ℝ (Stand E)) (mesh : MeshId) (t : ℝ) (combined : List ℝ) (changed : Bool)
    (b' : Bench ℝ (Stand E)) : Prop where
  tells : changed = !(Coarsen.under t combined).isEmpty
  called : b'.calls mesh =
    (if (Coarsen.under t combined).isEmpty then [] else [.derefine combined t 0]) ++ b.calls mesh
  merged : b.world.forest.MergedAt (Coarsen.under t combined) b'.world.forest

theorem isZero_length {α : Type} (xs : List α) : (Number.int (xs.length : Int) : Number ℝ).isZero = xs.isEmpty := by
  cases xs with
  | nil => rfl
  | cons x xs => rfl

section

variable {company : Stand.Company ℝ E} {b : Bench ℝ (Stand E)} {mesh : MeshId} {errors combined : List ℝ}
  {how : Coarsening ℝ}

/-- The estimator is asked; nothing else happens. -/
theorem askErrors_delivers {estimator : EstimatorId}
    (h : outcome ((Stand.site company).errors estimator) b.world = .ok errors) (mesh : MeshId) :
    Ends (Marking.askErrors (Stand.site company) estimator) b
      (fun es t => es = errors ∧ t.ground = b.ground ∧ t.asked mesh = b.asked mesh) (fun _ _ => False) := by
  have ground := (OneChange.blind_ground company).errors estimator (b.record (.estimate estimator))
  rw [Act.ends_ask, Bench.record_world, ends_of_ok (outcome_ok h)] at ground
  simp only [Marking.askErrors, ends_bind, Act.ends_record, Act.ends_ask]
  exact (ends_of_ok (outcome_ok h)).mpr ⟨rfl, ground, rfl⟩

variable {k : ControlId} {last : Decision} (hk : b.controls[k]? = some ⟨last, .coarsen how⟩)
  (delivers : outcome ((Stand.site company).errors how.estimator) b.world = .ok errors)
  (length : errors.length = b.world.forest.leaves.length)
  (combines : Coarsen.groupErrors how.combine errors b.world.forest.groups = .ok combined)
  (count : combined.length = b.world.forest.groups.length)

include delivers length combines count

/-- The groups that are counted are the groups that the forest merges, though it finds them by itself. -/
theorem pass_comes (label : String) :
    Ends (Coarsen.pass (Stand.site company) how label mesh 0) b
      (fun changed t => Came b mesh how.threshold combined changed t ∧ t.controls = b.controls)
      (fun _ _ => False) := by
  have valid : ValidErrors b.world.forest.leaves.length errors := ⟨by rw [length], Arith.finite_real errors⟩
  obtain ⟨merges, tells⟩ := Forest.derefine_merges how.threshold count
  unfold Coarsen.pass
  simp only [ends_bind, Act.ends_look]
  refine (askErrors_delivers delivers mesh).mono (fun es t₁ h₁ => ?_) fun _ _ h => h
  obtain ⟨rfl, ground, asked⟩ := h₁
  have controls : t₁.controls = b.controls := congrArg (·.1) ground
  have forest : t₁.world.forest = b.world.forest := congrArg (·.2.1) ground
  have calls : t₁.calls mesh = b.calls mesh := congrArg (·.2) asked
  have elements : (Stand.site company).elements mesh t₁.world = b.world.forest.leaves.length := by
    rw [← forest]
    rfl
  have groups : (Stand.site company).groups mesh t₁.world = b.world.forest.groups := by
    rw [← forest]
    rfl
  rw [elements, Admission.errorVector_ok _ valid, Act.ends_check_ok, groups, combines, Act.ends_check_ok,
    OneChange.ends_count_alone, Coarsen.countUnder_eq, isZero_length]
  by_cases nothing : (Coarsen.under how.threshold combined).isEmpty = true
  · rw [if_pos nothing]
    rw [nothing] at tells
    rw [Forest.derefine_same tells] at merges
    refine ⟨⟨by rw [nothing]; rfl, ?_, forest.symm ▸ merges⟩, controls⟩
    rw [if_pos nothing]
    exact calls
  · rw [if_neg nothing]
    simp only [ends_bind, Act.ends_call]
    refine OneChange.ends_derefine_alone fun changed f hf => ?_
    have known : b.world.forest.derefine combined how.threshold 0 = (changed, f) := forest ▸ hf
    rw [known] at merges tells
    rw [Bool.eq_false_iff.mpr nothing] at tells
    obtain rfl : changed = true := tells
    rw [OneChange.ends_max_alone]
    refine ⟨⟨by rw [Bool.eq_false_iff.mpr nothing]; rfl, ?_, merges⟩, controls⟩
    rw [if_neg nothing, ← calls]
    exact Bench.calls_record rfl

include hk

theorem update_comes (unlimited : how.limit = 0) (nonconforming : b.world.isNonconforming = true) (depth : Nat) :
    Ends (Update.update (Stand.site company) (depth + 1) k mesh) b (Came b mesh how.threshold combined)
      (fun _ _ => False) := by
  have live : (Stand.site company).isNonconforming mesh b.world = true := nonconforming
  simp only [Update.update, Update.apply, Coarsen.apply, ends_bind, Act.ends_control_some hk, Act.ends_look, live,
    unlimited, Bool.not_true, Bool.false_eq_true, if_false]
  refine (pass_comes delivers length combines count _).mono (fun changed t ht => ?_) fun _ _ h => h
  obtain ⟨came, controls⟩ := ht
  have hk' : t.controls[k]? = some ⟨last, .coarsen how⟩ := controls ▸ hk
  -- remembering the decision is neither a call nor a change of the forest
  cases changed with
  | false =>
    simp only [Bool.false_eq_true, if_false, ends_pure, Update.remember, ends_bind, Act.ends_control_some hk',
      Act.ends_putControl]
    exact ⟨came.tells, came.called, came.merged⟩
  | true =>
    simp only [if_true, ends_pure, Update.remember, ends_bind, Act.ends_control_some hk', Act.ends_putControl]
    exact ⟨came.tells, came.called, came.merged⟩

end

/-- Errors that are not negative, in exact arithmetic: of the groups of any table, what is under a threshold is
    ordered by the way to combine and by the threshold. A control without a limit on a nonconforming forest asks
    for a merge just if some group is under its threshold, and these are the groups that are merged. The forest
    is left with the fewest leaves by the least error of each group, and with the most by the sum. -/
theorem merges_in_order {errors : List ℝ} (nonneg : ∀ e ∈ errors, 0 ≤ e) :
    (∀ groups, (∀ g ∈ groups, g.Names errors.length) → ∃ combined, Ordered errors groups combined) ∧
      ∀ {E : Type} (u : Trial E), u.Ready errors →
        ∃ combined, Ordered errors u.forest.groups combined ∧
          (∀ c, ∃ changed, u.update (u.bench c) = .ok changed (u.after c) ∧
            Came (u.bench c) u.mesh u.how.threshold (combined c) changed (u.after c)) ∧
          (u.after .least).world.forest.leaves.length ≤ (u.after .greatest).world.forest.leaves.length ∧
          (u.after .greatest).world.forest.leaves.length ≤ (u.after .sum).world.forest.leaves.length ∧
          (u.after .sum).world.forest.leaves.length ≤ u.forest.leaves.length := by
  refine ⟨fun groups names => Coarsen.groups_ordered nonneg names, fun u ready => ?_⟩
  have names : ∀ g ∈ u.forest.groups, g.Names errors.length := by
    rw [ready.length]
    exact Restoring.groups_name u.forest
  obtain ⟨combined, ordered⟩ := Coarsen.groups_ordered nonneg names
  have came (c : Combine) : ∃ changed, u.update (u.bench c) = .ok changed (u.after c) ∧
      Came (u.bench c) u.mesh u.how.threshold (combined c) changed (u.after c) := by
    obtain ⟨last, hk⟩ := ready.control c
    have forest := ready.forest c
    have ends : Ends u.update (u.bench c) (Came (u.bench c) u.mesh u.how.threshold (combined c)) _ :=
      update_comes hk (ready.delivers c) (by rw [forest, ready.length]) (by rw [forest]; exact ordered.delivered c)
        (by rw [forest]; exact (ordered.each c).length_eq.symm) ready.unlimited (ready.nonconforming c) u.depth
    obtain ⟨changed, t, run, came⟩ := ends.returns
    have after : u.after c = t := by rw [Trial.after, stateAfter, run]
    rw [after]
    exact ⟨changed, run, came⟩
  refine ⟨combined, ordered, came, ?_⟩
  have fewer (c : Combine) : (u.after c).world.forest.leaves.length +
      (Coarsen.under u.how.threshold (combined c)).length = u.forest.leaves.length := by
    obtain ⟨changed, -, came⟩ := came c
    rw [came.merged.length, ready.forest c]
  have least := fewer .least
  have greatest := fewer .greatest
  have sum := fewer .sum
  have more := (ordered.least u.how.threshold).length_le
  have most := (ordered.greatest u.how.threshold).length_le
  omega

/-- A forest on its own, with an estimator that delivers these errors whenever it is asked. -/
noncomputable def given (f : Forest) (errors : List ℝ) (threshold : ℝ) : Trial Unit where
  company := ⟨fun _ _ => pure errors, fun _ _ => pure none, fun _ _ => throw .missing, fun _ _ => pure .idle,
    fun _ _ => pure ⟨⟩⟩
  forest := f
  mesh := 0
  control := 0
  how := ⟨0, threshold, 0, .sum⟩
  depth := 0
  bench c := ⟨⟨f, true, false, ⟨⟩⟩, [], [⟨.idle, .coarsen ⟨0, threshold, 0, c⟩⟩], []⟩

theorem ready_given {f : Forest} {errors : List ℝ} (threshold : ℝ) (h : errors.length = f.leaves.length) :
    (given f errors threshold).Ready errors where
  unlimited := rfl
  control _ := ⟨.idle, rfl⟩
  forest _ := rfl
  nonconforming _ := rfl
  delivers _ := rfl
  length := h

/-- Two pairs of siblings. -/
def twoPairs : Forest := ⟨[⟨0, 1, 0⟩, ⟨0, 1, 1⟩, ⟨1, 1, 0⟩, ⟨1, 1, 1⟩], 0⟩

/-- Under 1 are both pairs by the least error, the first by the greatest, and none by the sum. -/
theorem merges_in_order_twoPairs :
    ((given twoPairs [1, 1, 1, 2] 1).after .least).world.forest.leaves.length = 2 ∧
      ((given twoPairs [1, 1, 1, 2] 1).after .greatest).world.forest.leaves.length = 3 ∧
      ((given twoPairs [1, 1, 1, 2] 1).after .sum).world.forest.leaves.length = 4 := by
  have nonneg : ∀ e ∈ ([1, 1, 1, 2] : List ℝ), 0 ≤ e := by norm_num
  obtain ⟨combined, ordered, came, -⟩ := (merges_in_order nonneg).2 (given twoPairs _ 1) (ready_given 1 rfl)
  have left (c : Combine) : ((given twoPairs [1, 1, 1, 2] 1).after c).world.forest.leaves.length +
      Coarsen.countUnder 1 (combined c) = 4 := by
    obtain ⟨changed, -, came⟩ := came c
    rw [ordered.counted]
    exact came.merged.length
  have least : combined .least = [Arith.min 1 1, Arith.min 1 2] := (Except.ok.inj (ordered.delivered .least)).symm
  have greatest : combined .greatest = [Arith.max 1 1, Arith.max 1 2] :=
    (Except.ok.inj (ordered.delivered .greatest)).symm
  have sum : combined .sum = [Arith.sum [1, 1], Arith.sum [1, 2]] := (Except.ok.inj (ordered.delivered .sum)).symm
  have both : Coarsen.countUnder 1 (combined .least) = 2 := by
    rw [least, Arith.min_real, Arith.min_real]
    simp [Coarsen.countUnder]
  have first : Coarsen.countUnder 1 (combined .greatest) = 1 := by
    rw [greatest, Arith.max_real, Arith.max_real]
    simp [Coarsen.countUnder]
  have neither : Coarsen.countUnder 1 (combined .sum) = 0 := by
    rw [sum, Arith.sum_real, Arith.sum_real]
    norm_num [Coarsen.countUnder, List.countP_cons]
  have := left .least
  have := left .greatest
  have := left .sum
  omega

end Merging

end Regrid
