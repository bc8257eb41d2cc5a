/-
  Regrid.Proofs.Budget — a run that refines keeps to the number of elements it is allowed.

  A forest alone, a threshold marker with a greatest number of elements, and a control that
  refines what it marks. The estimator delivers anything or fails, and may deliver something
  else every time; callbacks may do what they like, except to the forest and to the settings
  of the control and the marker.

  A marking that is kept for the live forest counts its leaves, and marks some of them at
  most once (`Counts`). So an update either decides to stop, with the forest as it was, or
  the leaves were fewer than allowed, and it has split some of them (`update_grows`): there
  are more of them then, but at most twice as many.

  The records of a run tell a chain of such updates (`Grows`). Since the leaves are more
  with each and fewer than allowed before, the chain is no longer than what was missing, and
  a run with one more iteration comes to the decision to stop (`keeps_to_budget`). A run that
  fails does so as a pass of the marker or a callback fails, and within the same bounds.
-/

import Regrid.Proofs.Levels
import Regrid.Proofs.OneChange
import Regrid.Proofs.Parts
import Regrid.Proofs.Passes
import Regrid.Proofs.Rounds

namespace Regrid

/-! ## How many leaves a split makes -/

namespace Forest

theorem length_pieces (marked : List Int) (x : Leaf × Nat) :
    (pieces marked x).length = 1 + if marked.contains (x.2 : Int) then 1 else 0 := by
  unfold pieces
  split <;> rfl

theorem length_flatten_pieces (marked : List Int) (placed : List (Leaf × Nat)) :
    (placed.map (pieces marked)).flatten.length =
      placed.length + placed.countP fun x => marked.contains (x.2 : Int) := by
  induction placed with
  | nil => rfl
  | cons x xs ih =>
    rw [List.map_cons, List.flatten_cons, List.length_append, ih, length_pieces, List.countP_cons,
      List.length_cons]
    split <;> omega

/-- Splitting makes more leaves, but not more than twice as many. -/
theorem length_refine {f : Forest} {marks : List Mark} (hne : marks ≠ [])
    (marked : Marking.WellFormed f.leaves.length marks) :
    f.leaves.length < (f.refine marks).leaves.length ∧
      (f.refine marks).leaves.length ≤ 2 * f.leaves.length := by
  have count : (f.refine marks).leaves.length = f.leaves.length +
      f.leaves.zipIdx.countP fun x => (marks.map (·.index)).contains (x.2 : Int) := by
    rw [refine, if_neg (by simpa using hne), split_eq, length_flatten_pieces, List.length_zipIdx]
  have most : (f.leaves.zipIdx.countP fun x => (marks.map (·.index)).contains (x.2 : Int)) ≤ f.leaves.length := by
    simpa using List.countP_le_length (l := f.leaves.zipIdx)
  -- the first mark names a leaf, which is there to be split
  obtain ⟨mark, rest, rfl⟩ := List.exists_cons_of_ne_nil hne
  obtain ⟨hnonneg, hlt⟩ := marked.inside mark (by simp)
  have some : 0 < f.leaves.zipIdx.countP fun x => ((mark :: rest).map (·.index)).contains (x.2 : Int) := by
    rw [List.countP_pos_iff]
    have hplace : mark.index.toNat < f.leaves.length := by omega
    refine ⟨(f.leaves[mark.index.toNat], mark.index.toNat), ?_, ?_⟩
    · simp [List.mem_zipIdx_iff_getElem?, hplace]
    · simp [Int.toNat_of_nonneg hnonneg]
  omega

end Forest

namespace Budget

variable {R E : Type}

/-- A control that refines, its marker and what the marker is told. -/
structure Setup (R : Type) where
  control : ControlId
  marker : MarkerId
  mode : Mode
  limit : Int
  estimator : EstimatorId
  settings : Settings R

/-- The marking counts the leaves of the forest and marks some of them; its total is a number. -/
structure Counts (f : Forest) (v : Marking R) : Prop where
  elements : v.elements = f.leaves.length
  marks : Marking.WellFormed f.leaves.length v.marks
  total : v.totalError ≠ none

/-- What is kept for the live forest counts it. -/
def Current (f : Forest) (c : Stamped (Marking R)) : Prop :=
  c.stamp ≤ f.version ∧ ∀ v, c.value = some v → c.stamp = f.version → Counts f v

/-- The control, the marker and the forest are in place, whatever was decided and marked before. -/
structure InPlace (u : Setup R) (f : Forest) (b : Bench R (Stand E)) : Prop where
  control : ∃ last, b.controls[u.control]? = some ⟨last, .refine u.marker u.mode u.limit⟩
  marker : ∃ m, b.markers[u.marker]? = some m ∧ m.source = .threshold u.estimator u.settings ∧ Current f m.cache
  forest : b.world.forest = f

/-- The total of finite errors is a real number where a root is taken: magnitudes over the greatest of
    them are not negative, nor are their powers, so there is nothing that has no real root. -/
def Rooted [Arith R] (s : Settings R) : Prop :=
  ∀ p, s.exponent = .finite p → ∀ errors : List R, errors.all Arith.isFinite = true →
    Norm.root (Norm.peak errors) p (Norm.powerSum errors (Norm.peak errors) p) ≠ .ok none

section

variable {u : Setup R} {f : Forest} {b : Bench R (Stand E)} {c : Stand.Company R E} {mesh : MeshId}

theorem InPlace.record (h : InPlace u f b) (e : Event R) : InPlace u f (b.record e) :=
  ⟨h.control, h.marker, h.forest⟩

/-- A marking for an earlier forest is none for one of a later version. -/
theorem Current.later {g : Forest} {c : Stamped (Marking R)} (h : Current f c) (hlt : f.version < g.version) :
    Current g c := by
  obtain ⟨hstamp, -⟩ := h
  exact ⟨by omega, fun _ _ _ => by omega⟩

variable [Arith R]

/-! ## Passes and reads -/

theorem total_real {errors : List R} {s : Settings R} (rooted : Rooted s)
    (finite : errors.all Arith.isFinite = true) :
    Ends (Norm.total (Stand.site c) mesh errors s.exponent) b (fun total _ => total ≠ none)
      (fun _ _ => True) := by
  simp only [Norm.total, Norm.commonPeak, ends_bind, OneChange.ends_max_alone]
  refine Act.ends_check_of fun m hm => ?_
  obtain rfl : Norm.peak errors = m := Except.ok.inj hm
  cases hp : s.exponent with
  | infinite => exact Option.some_ne_none (Norm.peak errors)
  | finite p =>
    show Ends (Norm.scaled (Stand.site c) mesh errors (Norm.peak errors) p (Norm.root (Norm.peak errors) p))
      b _ _
    unfold Norm.scaled
    by_cases hzero : Arith.eq (Norm.peak errors) Arith.zero = true
    · rw [if_pos hzero]
      exact Option.some_ne_none (Norm.peak errors)
    · rw [if_neg hzero]
      simp only [ends_bind, OneChange.ends_sum_alone]
      refine Act.ends_check_of fun whole hwhole => Act.ends_check_of fun total htotal => ?_
      obtain rfl : Norm.powerSum errors (Norm.peak errors) p = whole := Except.ok.inj hwhole
      rintro rfl
      exact rooted p hp errors finite htotal

/-- A pass of the forest counts its leaves, and its total is a number. -/
theorem pass_totals (rooted : Rooted u.settings) :
    Ends (Marking.pass (Stand.site c) mesh u.estimator u.settings) b
      (fun v _ => v.elements = b.world.forest.leaves.length ∧ v.totalError ≠ none) (fun _ _ => True) := by
  unfold Marking.pass
  simp only [ends_bind, Act.ends_look]
  refine ends_true.mono (fun delivered t₁ _ => ?_) fun _ _ h => h
  refine Act.ends_check_of fun errors herrors => ?_
  obtain ⟨rfl, -, finite⟩ := Admission.errorVector_valid herrors
  rw [OneChange.ends_sum_alone]
  refine Act.ends_check_of fun elements helements => ?_
  obtain rfl : (b.world.forest.leaves.length : Int) = elements := Except.ok.inj helements
  refine (total_real rooted finite).mono (fun error t₂ herror => ?_) fun _ _ h => h
  refine Act.ends_check_of fun threshold _ => ?_
  refine ends_true.mono (fun flags t₃ _ => ?_) fun _ _ h => h
  refine ends_true.mono (fun count t₄ _ => ?_) fun _ _ h => h
  refine Act.ends_check_of fun marked _ => ?_
  cases error with
  | none => exact absurd rfl herror
  | some x => exact ⟨rfl, Option.some_ne_none x⟩

/-- What a pass returns counts the forest. -/
theorem pass_counts (rooted : Rooted u.settings) :
    Ends (Marking.pass (Stand.site c) mesh u.estimator u.settings) b
      (fun v _ => Counts b.world.forest v) (fun _ _ => True) := by
  refine ((pass_totals rooted).and (Marking.pass_wellFormed mesh u.estimator u.settings)).mono ?_
    fun _ _ _ => trivial
  rintro v _ ⟨⟨elements, total⟩, marks⟩
  exact ⟨elements, marks, total⟩

/-- A pass leaves everything in place. -/
theorem pass_inPlace (h : InPlace u f b) :
    Ends (Marking.pass (Stand.site c) mesh u.estimator u.settings) b (fun _ t => InPlace u f t)
      (fun _ t => InPlace u f t) := by
  have objects := (silent_objects (Stand.site c)).pass mesh u.estimator u.settings b
  have ground := (OneChange.blind_ground c).toSilent.pass mesh u.estimator u.settings b
  have same (t : Bench R (Stand E)) (ho : Unseen Bench.objects b t) (hg : Unseen Bench.ground b t) :
      InPlace u f t := by
    simp only [Unseen, Bench.objects, Bench.ground, Prod.mk.injEq] at ho hg
    refine ⟨?_, ?_, hg.2.1.trans h.forest⟩
    · rw [ho.2]
      exact h.control
    · rw [ho.1]
      exact h.marker
  exact (objects.and ground).mono (fun _ t ht => same t ht.1 ht.2) fun _ t ht => same t ht.1 ht.2

/-- A pass fails from a bench that is in place. -/
def PassFails (u : Setup R) (c : Stand.Company R E) (f : Forest) (e : Fault) (t : Bench R (Stand E)) : Prop :=
  ∃ b mesh, InPlace u f b ∧ Marking.pass (Stand.site c) mesh u.estimator u.settings b = .error e t ∧
    t.world.forest = f

/-- A read answers with a marking that counts the forest, unless a pass fails. -/
theorem read_counts (rooted : Rooted u.settings) (h : InPlace u f b) :
    Ends (Marking.read (Stand.site c) u.marker) b (fun v t => Counts f v ∧ InPlace u f t)
      (PassFails u c f) := by
  obtain ⟨m, hk, hs, hstamp, hkept⟩ := h.marker
  have live : (Stand.site c).version m.mesh b.world = f.version := congrArg Forest.version h.forest
  cases hp : m.cache.probe ((Stand.site c).version m.mesh b.world) with
  | refuse =>
    -- the stamp is no later than the live version
    unfold Stamped.probe at hp
    rw [if_neg (by omega)] at hp
    cases hv : m.cache.value with
    | none => simp [hv] at hp
    | some v =>
      simp only [hv] at hp
      split at hp <;> cases hp
  | answer v =>
    obtain ⟨hv, hlive⟩ := Stamped.probe_answer.mp hp
    exact (ends_of_ok (Marking.read_answer hk hp)).mpr ⟨hkept v hv (hlive.trans live), h⟩
  | build =>
    have pass : Ends (Marking.pass (Stand.site c) m.mesh u.estimator u.settings) b _ _ :=
      (pass_counts rooted).and (pass_inPlace h)
    unfold Ends
    rw [Marking.read_build hk hs hp]
    cases hpass : Marking.pass (Stand.site c) m.mesh u.estimator u.settings b with
    | error e t => exact ⟨b, m.mesh, h, hpass, (pass.of_error hpass).2.forest⟩
    | ok v t =>
      obtain ⟨counts, placed⟩ := pass.of_ok hpass
      rw [h.forest] at counts
      refine ⟨counts, placed.control, ?_, placed.forest⟩
      obtain ⟨m', hm', -⟩ := placed.marker
      refine ⟨m.passed ((Stand.site c).version m.mesh b.world) v, Bench.setMarker_get hm', hs, Int.le_of_eq live, ?_⟩
      intro v' hv' _
      obtain rfl : v = v' := Option.some.inj hv'
      exact counts

/-- The stopping test is made on a marking that counts the forest. -/
theorem stops_counts (rooted : Rooted u.settings) (h : InPlace u f b) :
    Ends (Marking.stops (Stand.site c) u.marker) b
      (fun stops t => InPlace u f t ∧ (stops = false → (f.leaves.length : Int) < u.settings.maxElements))
      (PassFails u c f) := by
  obtain ⟨m, hk, hs, -⟩ := h.marker
  unfold Ends
  rw [Marking.stops_apply hk hs]
  refine ends_bind.mpr ((read_counts rooted h).mono ?_ fun _ _ h => h)
  rintro v t ⟨counts, placed⟩
  cases htotal : v.totalError with
  | none => exact absurd htotal counts.total
  | some total =>
    simp only [Settings.stops, htotal, Settings.needReal, counts.elements]
    refine ⟨placed, fun hstops => ?_⟩
    simp only [Bool.or_eq_false_iff, decide_eq_false_iff_not] at hstops
    omega

/-! ## One update -/

/-- Some leaves are split, where there were fewer than allowed. -/
structure Splits (M : Int) (f g : Forest) : Prop where
  room : (f.leaves.length : Int) < M
  more : f.leaves.length < g.leaves.length
  most : g.leaves.length ≤ 2 * f.leaves.length
  version : g.version = f.version + 1

/-- What an update decides, and the forest that it leaves in place. -/
inductive Chose (u : Setup R) (f : Forest) : Decision → Bench R (Stand E) → Prop where
  | stop {t} : InPlace u f t → Chose u f .stop t
  | split {g t} : Splits u.settings.maxElements f g → InPlace u g t → Chose u f (.proceed (some .refine)) t

theorem applyRefine_chooses (rooted : Rooted u.settings) (h : InPlace u f b) :
    Ends (Update.applyRefine (Stand.site c) u.marker u.mode u.limit mesh) b (Chose u f) (PassFails u c f) := by
  simp only [Update.applyRefine, ends_bind]
  refine (read_counts rooted h).mono ?_ fun _ _ h => h
  rintro marking t₁ ⟨counts, h₁⟩
  refine (stops_counts rooted h₁).mono ?_ fun _ _ h => h
  rintro stops t₂ ⟨h₂, room⟩
  by_cases hstops : stops = true
  · rw [if_pos hstops]
    exact .stop (h₂.record _)
  rw [if_neg hstops]
  simp only [ends_bind, OneChange.ends_count_alone]
  by_cases hmarks : marking.marks = []
  · rw [hmarks]
    exact .stop (h₂.record _)
  rw [if_neg (by simpa [Number.isZero] using hmarks)]
  -- the forest splits what the marking names
  obtain ⟨more, most⟩ := Forest.length_refine hmarks counts.marks
  obtain ⟨m, hm, hs, current⟩ := h₂.marker
  have version : (f.refine marking.marks).version = f.version + 1 := OneChange.refine_version f hmarks
  refine .split ⟨room (by simpa using hstops), more, most, version⟩ ⟨h₂.control, ⟨m, hm, hs, ?_⟩, ?_⟩
  · exact current.later (by omega)
  · exact congrArg (Forest.refine · marking.marks) h₂.forest

omit [Arith R] in
/-- What is remembered is the decision, and everything stays in place. -/
theorem InPlace.remember (h : InPlace u f b) (d : Decision) {Q : Fault → Bench R (Stand E) → Prop} :
    Ends (Update.remember u.control d) b (fun _ t => t.lastOf u.control = d ∧ InPlace u f t) Q := by
  obtain ⟨last, hc⟩ := h.control
  simp only [Update.remember, ends_bind, Act.ends_control_some hc, Act.ends_putControl]
  have hput := Bench.setControl_get (d := ⟨d, .refine u.marker u.mode u.limit⟩) hc
  exact ⟨Bench.lastOf_some hput, ⟨⟨d, hput⟩, h.marker, h.forest⟩⟩

/-- An update stops and leaves the forest alone, or it splits leaves of it. -/
theorem update_grows (rooted : Rooted u.settings) (h : InPlace u f b) (depth : Nat) :
    Ends (Update.update (Stand.site c) (depth + 1) u.control mesh) b
      (fun _ t => Chose u f (t.lastOf u.control) t) (PassFails u c f) := by
  obtain ⟨last, hc⟩ := h.control
  simp only [Update.update, Update.apply, bind_assoc, ends_bind, Act.ends_control_some hc]
  refine (applyRefine_chooses rooted h).mono (fun d t chose => ?_) fun _ _ h => h
  cases chose with
  | stop placed =>
    refine (placed.remember .stop).mono ?_ fun _ _ h => h
    rintro _ t' ⟨hlast, placed'⟩
    rw [ends_pure, hlast]
    exact .stop placed'
  | split splits placed =>
    refine (placed.remember (.proceed (some .refine))).mono ?_ fun _ _ h => h
    rintro _ t' ⟨hlast, placed'⟩
    rw [ends_pure, hlast]
    exact .split splits placed'

end

/-! ## The records of a run -/

/-- The records of updates one after another, the forest before them, whether the last is a decision to
    stop, and the forest after them. -/
inductive Grows (M : Int) : Forest → List Record → Bool → Forest → Prop where
  | nil (f : Forest) : Grows M f [] false f
  | split {f g h : Forest} {r : Record} {rs : List Record} {stopped : Bool} : Splits M f g → r.version = g.version → r.elements = g.leaves.length →
      r.decision = .proceed (some .refine) → Grows M g rs stopped h → Grows M f (r :: rs) stopped h
  | stop {f : Forest} {r : Record} : r.version = f.version → r.elements = f.leaves.length → r.decision = .stop →
      Grows M f [r] true f

/-- The records of the outer iterations from number `k` on, if `left` of them are left. Each but the last
    makes more leaves; one that stops has made more before, or it leaves the forest as it was. -/
inductive Iterations (M : Int) : Nat → Int → Forest → List Record → Bool → Forest → Prop where
  | exhausted (k : Int) (f : Forest) : Iterations M 0 k f [] false f
  | stopped {left : Nat} {k : Int} {f g : Forest} {rs : List Record} : Grows M f rs true g → (∀ r ∈ rs, r.iteration = k) →
      (g = f ∨ f.leaves.length < g.leaves.length) → Iterations M (left + 1) k f rs true g
  | grown {left : Nat} {k : Int} {f g h : Forest} {rs rest : List Record} {stopped : Bool} :
      Grows M f rs false g → (∀ r ∈ rs, r.iteration = k) → f.leaves.length < g.leaves.length →
      Iterations M left (k + 1) g rest stopped h → Iterations M (left + 1) k f (rs ++ rest) stopped h

section

variable {M : Int} {f g h : Forest} {rs rest : List Record} {stopped : Bool} {left : Nat} {k : Int}

/-- The record of an update that has left the bench like this. -/
def recordOf {R E : Type} (k : Int) (d : Decision) (b : Bench R (Stand E)) : Record :=
  ⟨k, b.world.forest.version, b.world.forest.leaves.length, d⟩

theorem Grows.of_stop {R E : Type} {b : Bench R (Stand E)} (hb : b.world.forest = f) :
    Grows M f [recordOf k .stop b] true f :=
  .stop (by rw [← hb]; rfl) (by rw [← hb]; rfl) rfl

theorem Grows.of_split {R E : Type} {b : Bench R (Stand E)} (splits : Splits M f g) (hb : b.world.forest = g)
    (then_ : Grows M g rs stopped h) : Grows M f (recordOf k (.proceed (some .refine)) b :: rs) stopped h :=
  .split splits (by rw [← hb]; rfl) (by rw [← hb]; rfl) rfl then_

theorem Grows.append (first : Grows M f rs false g) (then_ : Grows M g rest stopped h) :
    Grows M f (rs ++ rest) stopped h := by
  generalize hgoes : false = goes at first
  induction first with
  | nil f => exact then_
  | split splits hv he hd _ ih => exact .split splits hv he hd (ih then_ hgoes)
  | stop => cases hgoes

/-- No forest on the way has more leaves than at first, or than a forest with room can be split to. -/
theorem Grows.bounded (grows : Grows M f rs stopped g) :
    (∀ r ∈ rs, r.elements ≤ max (f.leaves.length : Int) (2 * (M - 1))) ∧
      (g.leaves.length : Int) ≤ max (f.leaves.length : Int) (2 * (M - 1)) := by
  induction grows with
  | nil f => exact ⟨by simp, by omega⟩
  | @split f g h r rs stopped splits hv he hd _ ih =>
    obtain ⟨records, final⟩ := ih
    obtain ⟨room, more, most, -⟩ := splits
    refine ⟨?_, by omega⟩
    intro r' hr'
    rcases List.mem_cons.mp hr' with rfl | hr'
    · omega
    · have := records r' hr'
      omega
  | @stop f r hv he hd =>
    refine ⟨?_, by omega⟩
    intro r' hr'
    obtain rfl := List.mem_singleton.mp hr'
    omega

/-- Updates that make no forest of more leaves stop at once. -/
theorem Grows.advances (grows : Grows M f rs stopped g) (hne : rs ≠ []) :
    (stopped = true ∧ g = f) ∨ f.leaves.length < g.leaves.length ∧ (f.leaves.length : Int) < M := by
  have noFewer : ∀ {f rs stopped g}, Grows M f rs stopped g → f.leaves.length ≤ g.leaves.length := by
    intro f rs stopped g grows
    induction grows with
    | nil => exact Nat.le_refl _
    | split splits _ _ _ _ ih => exact Nat.le_trans (Nat.le_of_lt splits.more) ih
    | stop => exact Nat.le_refl _
  cases grows with
  | nil => exact absurd rfl hne
  | split splits _ _ _ rest => exact .inr ⟨Nat.lt_of_lt_of_le splits.more (noFewer rest), splits.room⟩
  | stop => exact .inl ⟨rfl, rfl⟩

/-- The chain is told by its last record. -/
theorem Grows.isStopped (grows : Grows M f rs stopped g) (k : Int) :
    History.isStopped ⟨rs, k⟩ = stopped := by
  induction grows with
  | nil => rfl
  | @split f g h r rs stopped _ _ _ hd _ ih =>
    cases rs with
    | nil =>
      rw [← ih]
      simp [History.isStopped, hd, Decision.isStop, Decision.action]
    | cons r' rs =>
      rw [← ih]
      simp only [History.isStopped, List.getLast?_cons_cons]
  | stop _ _ hd => simp [History.isStopped, hd, Decision.isStop, Decision.action]

theorem Iterations.grows (iterations : Iterations M left k f rs stopped g) : Grows M f rs stopped g := by
  induction iterations with
  | exhausted k f => exact .nil f
  | stopped grows _ _ => exact grows
  | grown grows _ _ _ ih => exact grows.append ih

/-- There is room for one leaf at least in each iteration that does not stop. -/
theorem Iterations.stops (iterations : Iterations M left k f rs stopped g)
    (enough : max 0 (M - f.leaves.length) + 1 ≤ (left : Int)) : stopped = true := by
  induction iterations with
  | exhausted => omega
  | stopped => rfl
  | @grown left k f g h rs rest stopped grows _ more _ ih =>
    have some : rs ≠ [] := by
      rintro rfl
      cases grows
      omega
    rcases grows.advances some with ⟨hstop, -⟩ | ⟨-, room⟩
    · cases hstop
    · push_cast at enough
      exact ih (by omega)

end

/-! ## Runs -/

/-- Callbacks that change neither the forest nor the settings, whether they return or fail. -/
structure Harmless (u : Setup R) (compute : Act R (Stand E) Unit)
    (onUpdate : Decision → Act R (Stand E) Unit) : Prop where
  compute : ∀ f b, InPlace u f b → Ends compute b (fun _ t => InPlace u f t) fun _ t => t.world.forest = f
  onUpdate : ∀ d f b, InPlace u f b →
    Ends (onUpdate d) b (fun _ t => InPlace u f t) fun _ t => t.world.forest = f

/-- A pass fails, or a callback does, from a bench with everything in place. -/
inductive Fails [Arith R] (u : Setup R) (c : Stand.Company R E) (compute : Act R (Stand E) Unit)
    (onUpdate : Decision → Act R (Stand E) Unit) (f : Forest) (e : Fault) (t : Bench R (Stand E)) : Prop where
  | pass : PassFails u c f e t → Fails u c compute onUpdate f e t
  | compute {b} : InPlace u f b → compute b = .error e t → t.world.forest = f →
      Fails u c compute onUpdate f e t
  | onUpdate {b d} : InPlace u f b → onUpdate d b = .error e t → t.world.forest = f →
      Fails u c compute onUpdate f e t

section

open Regrid.Cycle

variable [Arith R] {u : Setup R} {c : Stand.Company R E} {mesh : MeshId} {depth : Nat} {f : Forest}
    {b : Bench R (Stand E)} {compute : Act R (Stand E) Unit} {onUpdate : Decision → Act R (Stand E) Unit}

theorem Fails.forest {e : Fault} {t : Bench R (Stand E)} (h : Fails u c compute onUpdate f e t) :
    t.world.forest = f := by
  cases h with
  | pass h =>
    obtain ⟨_, _, _, _, hforest⟩ := h
    exact hforest
  | compute _ _ hforest => exact hforest
  | onUpdate _ _ hforest => exact hforest

theorem Harmless.ends_compute (h : Harmless u compute onUpdate) (placed : InPlace u f b) :
    Ends compute b (fun _ t => InPlace u f t) (fun e t => Fails u c compute onUpdate f e t) :=
  (h.compute f b placed).failing.mono (fun _ _ h => h) fun _ _ h => .compute placed h.1 h.2

theorem Harmless.ends_onUpdate (h : Harmless u compute onUpdate) (d : Decision) (placed : InPlace u f b) :
    Ends (onUpdate d) b (fun _ t => InPlace u f t) (fun e t => Fails u c compute onUpdate f e t) :=
  (h.onUpdate d f b placed).failing.mono (fun _ _ h => h) fun _ _ h => .onUpdate placed h.1 h.2

/-- A cycle needs no more patience than there are leaves missing. -/
theorem cycle_grows (rooted : Rooted u.settings) (harmless : Harmless u compute onUpdate) (patience : Nat)
    {past : History} (placed : InPlace u f b)
    (enough : max 0 (u.settings.maxElements - f.leaves.length) + 1 ≤ (patience : Int)) :
    Ends (apply (Logged.handle (Bench.handle (Stand.site c) (depth + 1) u.control mesh))
        (Logged.keep (Bench.handle (Stand.site c) (depth + 1) u.control mesh))
        (fun d => Logged.lift (onUpdate d)) patience) ⟨b, past⟩
      (fun d l => ∃ rs g, l.history = { past with records := past.records ++ rs } ∧ rs ≠ [] ∧
        (∀ r ∈ rs, r.iteration = past.iteration) ∧ Grows u.settings.maxElements f rs d.isStop g ∧
        InPlace u g l.state)
      (fun e l => ∃ rs g, Grows u.settings.maxElements f rs false g ∧
        Fails u c compute onUpdate g e l.state) := by
  induction patience generalizing f b past with
  | zero => omega
  | succ patience ih =>
    rw [ends_round]
    have updated : Ends (Update.update (Stand.site c) (depth + 1) u.control mesh) b _ _ :=
      (Update.ends_needsUpdate (Stand.site c) (depth + 1) u.control mesh b).and (update_grows rooted placed depth)
    refine updated.mono ?_ fun e t h => ⟨[], f, .nil f, .pass h.2⟩
    rintro needs t ⟨rfl, chose⟩
    have decided : (Bench.handle (Stand.site c) (depth + 1) u.control mesh).decision t = t.lastOf u.control :=
      rfl
    rw [decided]
    generalize t.lastOf u.control = d at chose
    cases chose with
    | stop placed' => exact ⟨_, f, rfl, by simp, by simp, .of_stop placed'.forest, placed'⟩
    | @split g _ splits placed' =>
      have told : Ends (onUpdate (.proceed (some .refine))) t (fun _ t => InPlace u g t)
          (fun e t => Fails u c compute onUpdate g e t) := harmless.ends_onUpdate _ placed'
      refine Ends.mono told ?_ ?_
      · intro _ v placed''
        show if (v.lastOf u.control).isProceed = true then _ else _
        by_cases hproceed : (v.lastOf u.control).isProceed = true
        · rw [if_pos hproceed]
          exact ⟨_, g, rfl, by simp, by simp, .of_split splits placed'.forest (.nil g), placed''⟩
        · -- the callback has reset the control, so it is applied once more
          rw [if_neg hproceed]
          have fewer := splits.more
          have room := splits.room
          refine (ih placed'' (by push_cast at enough; omega)).mono ?_ ?_
          · rintro d l ⟨rs, k, hrecords, -, numbered, grows, placed⟩
            refine ⟨recordOf past.iteration (.proceed (some .refine)) t :: rs, k, ?_, by simp, ?_,
              .of_split splits placed'.forest grows, placed⟩
            · rw [hrecords]
              simp [History.record, recordOf, Bench.handle, Stand.site]
            · intro r hr
              rcases List.mem_cons.mp hr with rfl | hr
              · rfl
              · exact numbered r hr
          · rintro e l ⟨rs, k, grows, fails⟩
            exact ⟨recordOf past.iteration (.proceed (some .refine)) t :: rs, k,
              .of_split splits placed'.forest grows, fails⟩
      · intro e v fails
        exact ⟨[recordOf past.iteration (.proceed (some .refine)) t], g,
          .of_split splits placed'.forest (.nil g), fails⟩

theorem iterate_grows (rooted : Rooted u.settings) (harmless : Harmless u compute onUpdate) (patience left : Nat)
    (k : Int) {past : History} (placed : InPlace u f b)
    (enough : max 0 (u.settings.maxElements - f.leaves.length) + 1 ≤ (patience : Int)) :
    Ends (iterate (Bench.handle (Stand.site c) (depth + 1) u.control mesh) compute onUpdate patience left k)
      ⟨b, past⟩
      (fun _ l => ∃ rs stopped g, l.history.records = past.records ++ rs ∧
        Iterations u.settings.maxElements left k f rs stopped g ∧ InPlace u g l.state)
      (fun e l => ∃ rs g, Grows u.settings.maxElements f rs false g ∧
        Fails u c compute onUpdate g e l.state) := by
  induction left generalizing f b past k with
  | zero => exact ⟨[], false, f, (List.append_nil _).symm, .exhausted k f, placed.record _⟩
  | succ left ih =>
    rw [ends_iteration]
    refine (harmless.ends_compute placed).mono ?_ fun _ _ fails => ⟨[], f, .nil f, fails⟩
    intro _ t placed
    refine (cycle_grows rooted harmless patience placed enough).mono ?_ fun _ _ h => h
    rintro d l ⟨rs, g, hrecords, some, numbered, grows, placed'⟩
    have advances := grows.advances some
    by_cases hstop : d.isStop = true
    · simp only [if_pos hstop]
      rw [hstop] at grows advances
      refine ⟨rs, true, g, ?_, .stopped grows numbered ?_, (placed'.record _).record _⟩
      · rw [hrecords]
      · exact advances.imp And.right And.left
    · simp only [if_neg hstop]
      rw [Bool.not_eq_true] at hstop
      rw [hstop] at grows advances
      rcases advances with ⟨hfalse, -⟩ | ⟨more, room⟩
      · cases hfalse
      refine (ih (k + 1) (placed'.record _) (by omega)).mono ?_ ?_
      · rintro _ l' ⟨rest, stopped, h, hrest, iterations, placed''⟩
        refine ⟨rs ++ rest, stopped, h, ?_, .grown grows numbered more iterations, placed''⟩
        rw [hrest, hrecords, List.append_assoc]
      · rintro e l' ⟨rest, h, grows', fails⟩
        exact ⟨rs ++ rest, h, grows.append grows', fails⟩

/-- The leaves of the forest are never more than at first, or than a forest with fewer leaves than
    allowed can be split to; each iteration makes more of them, or stops the run and leaves the forest
    as it is; and with as many iterations as leaves are missing, and one, the run is stopped. It returns
    unless a pass or a callback fails. -/
theorem keeps_to_budget (rooted : Rooted u.settings) (harmless : Harmless u compute onUpdate)
    (placed : InPlace u f b) {patience : Nat} (iterations : Nat)
    (enough : max 0 (u.settings.maxElements - f.leaves.length) + 1 ≤ (patience : Int)) :
    Ends (run (Bench.handle (Stand.site c) (depth + 1) u.control mesh) compute onUpdate patience iterations) b
      (fun history t =>
        Iterations u.settings.maxElements iterations 0 f history.records history.isStopped t.world.forest ∧
        (∀ r ∈ history.records, r.elements ≤ max (f.leaves.length : Int) (2 * (u.settings.maxElements - 1))) ∧
        (t.world.forest.leaves.length : Int) ≤ max (f.leaves.length : Int) (2 * (u.settings.maxElements - 1)) ∧
        (max 0 (u.settings.maxElements - f.leaves.length) + 1 ≤ (iterations : Int) → history.isStopped = true))
      (fun e t => Fails u c compute onUpdate t.world.forest e t ∧
        (t.world.forest.leaves.length : Int) ≤ max (f.leaves.length : Int) (2 * (u.settings.maxElements - 1))) := by
  have iterated : Ends (iterate (Bench.handle (Stand.site c) (depth + 1) u.control mesh) compute onUpdate patience
      iterations 0) ⟨b, History.empty⟩ _ _ := iterate_grows rooted harmless patience iterations 0 placed enough
  unfold Ends run
  cases hrun : iterate (Bench.handle (Stand.site c) (depth + 1) u.control mesh) compute onUpdate patience
      iterations 0 ⟨b, History.empty⟩ with
  | ok _ l =>
    obtain ⟨rs, stopped, g, hrecords, told, placed'⟩ := iterated.of_ok hrun
    obtain rfl : l.history.records = rs := by simpa [History.empty] using hrecords
    obtain rfl : l.state.world.forest = g := placed'.forest
    obtain rfl : l.history.isStopped = stopped := told.grows.isStopped l.history.iteration
    obtain ⟨records, final⟩ := told.grows.bounded
    exact ⟨told, records, final, told.stops⟩
  | error e l =>
    obtain ⟨rs, g, grows, fails⟩ := iterated.of_error hrun
    obtain rfl := fails.forest
    exact ⟨fails, grows.bounded.2⟩

end

/-! ## Five elements -/

/-- Every leaf has the error one. -/
def evenly : Stand.Company ℚ Unit where
  errors _ f := pure (f.leaves.map fun _ => 1)
  flags _ _ := pure none
  marking _ _ := throw .missing
  decide _ _ := pure .idle
  reset _ _ := pure ⟨⟩

def five : Setup ℚ where
  control := 0
  marker := 0
  mode := .conforming
  limit := 1
  estimator := 0
  settings := { exponent := .finite 1, totalGoal := 0, fraction := 0, localGoal := 0, maxElements := 5 }

def fresh : Bench ℚ (Stand Unit) where
  world := ⟨.ofRoots 2 0, true, false, ⟨⟩⟩
  markers := [.new 0 (.threshold five.estimator five.settings)]
  controls := [.new (.refine five.marker five.mode five.limit)]
  trace := []

/-- The first root of a sum is the sum. -/
theorem rooted_five : Rooted five.settings := by
  intro p hp errors _
  obtain rfl : (1 : ℚ) = p := Exponent.finite.inj hp
  have inverse : Arith.reciprocal (1 : ℚ) = .ok 1 := by
    simp [Arith.reciprocal, Arith.eq, Arith.zero, Arith.div, Arith.one]
  simp only [Norm.root, inverse]
  exact fun h => nomatch h

theorem fresh_inPlace : InPlace five (.ofRoots 2 0) fresh :=
  ⟨⟨.idle, rfl⟩, ⟨_, rfl, rfl, by decide, nofun⟩, rfl⟩

theorem harmless_pure : Harmless five (pure ⟨⟩ : Act ℚ (Stand Unit) Unit) (fun _ => pure ⟨⟩) :=
  ⟨fun _ _ h => h, fun _ _ _ h => h⟩

/-- Two leaves become eight at most, and four iterations are enough. -/
theorem keeps_to_budget_of_five :
    Ends (Cycle.run (Bench.handle (Stand.site evenly) 1 five.control 0) (pure ⟨⟩) (fun _ => pure ⟨⟩) 4 4) fresh
      (fun history t => history.isStopped = true ∧ t.world.forest.leaves.length ≤ 8)
      (fun e t => Fails five evenly (pure ⟨⟩) (fun _ => pure ⟨⟩) t.world.forest e t) := by
  have enough : max 0 (five.settings.maxElements - (Forest.ofRoots 2 0).leaves.length) + 1 ≤ ((4 : Nat) : Int) := by
    decide
  refine (keeps_to_budget rooted_five harmless_pure fresh_inPlace 4 enough).mono ?_ fun _ _ h => h.1
  rintro history t ⟨-, -, final, stopped⟩
  refine ⟨stopped enough, ?_⟩
  have bound : max ((Forest.ofRoots 2 0).leaves.length : Int) (2 * (five.settings.maxElements - 1)) = 8 := by decide
  omega

end Budget

end Regrid
