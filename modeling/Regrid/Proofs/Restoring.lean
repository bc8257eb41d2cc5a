/-
  Regrid.Proofs.Restoring — a cycle that restores the limit on levels comes to an end.

  A limited control on a nonconforming forest without a communicator, applied by a cycle
  that updates it again for as long as it asks for that. The first update merges. Each
  later one refines what breaks the limit, which may break it elsewhere: the forest grows,
  and nothing in the control says when that stops.

  It stops because a violation lies above the deepest level there is. The refinements
  never go below the deepest level that the merge has left, and each takes some of the
  room above that level (`Regrid.Proofs.Levels`). So the room that the merge has left
  bounds the updates that follow it (`restoring_ends`, by induction on the patience of
  the caller), and the cycle ends, idle or with the limit restored, unless the caller's
  patience is no more than the room (`ends_within_room`).
-/

import Regrid.Proofs.Crew
import Regrid.Proofs.Levels
import Regrid.Proofs.Rounds

namespace Regrid

/-! ## A forest in a rig -/

namespace Rig

/-- Mesh `m` is the forest `f`, nonconforming and without a communicator. -/
def Lies (m : MeshId) (f : Forest) (r : Rig) : Prop :=
  ∃ distributed, r.meshes[m]? = some ⟨.forest f, true, distributed, none⟩

theorem mesh_apply {m : MeshId} {r : Rig} {x : RigMesh} (h : r.meshes[m]? = some x) :
    Rig.mesh m r = .ok x r := by
  rw [Rig.mesh, bind_of_ok (get_apply r), h]
  rfl

namespace Lies

variable {m : MeshId} {f : Forest} {r : Rig}

theorem elements (h : Lies m f r) : Rig.site.elements m r = f.leaves.length := by
  obtain ⟨_, h⟩ := h
  simp only [Rig.site, ofMesh, h, RigMesh.elements]

theorem isNonconforming (h : Lies m f r) : Rig.site.isNonconforming m r = true := by
  obtain ⟨_, h⟩ := h
  simp only [Rig.site, ofMesh, h]

theorem isConnected (h : Lies m f r) : Rig.site.isConnected m r = false := by
  obtain ⟨_, h⟩ := h
  simp only [Rig.site, ofMesh, h, Option.isSome_none]

theorem groups (h : Lies m f r) : Rig.site.groups m r = f.groups := by
  obtain ⟨_, h⟩ := h
  simp only [Rig.site, ofMesh, h, RigMesh.groups]

theorem put {distributed : Bool} (h : Lies m f r) (g : Forest) :
    Lies m g { r with meshes := r.meshes.set m ⟨.forest g, true, distributed, none⟩ } := by
  obtain ⟨_, h⟩ := h
  obtain ⟨hlt, -⟩ := List.getElem?_eq_some_iff.mp h
  exact ⟨distributed, by simp [hlt]⟩

theorem refine (h : Lies m f r) (marks : List Mark) :
    Ends (Rig.refine m marks) r (fun _ t => Lies m (f.refine marks) t) (fun _ _ => False) := by
  obtain ⟨distributed, hm⟩ := id h
  simp only [Rig.refine, ends_bind, ends_of_ok (mesh_apply hm), putMesh, ends_modify]
  exact h.put _

theorem derefine (h : Lies m f r) (errors : List Float) (threshold : Float) (limit : Int) :
    Ends (Rig.derefine m errors threshold limit) r
      (fun changed t => changed = (f.derefine errors threshold limit).1 ∧
        Lies m (f.derefine errors threshold limit).2 t) (fun _ _ => False) := by
  obtain ⟨distributed, hm⟩ := id h
  simp only [Rig.derefine, ends_bind, ends_of_ok (mesh_apply hm), putMesh, ends_modify, ends_pure]
  exact ⟨trivial, h.put _⟩

theorem violations (h : Lies m f r) (limit : Int) :
    Ends (Rig.violations m limit) r (fun found t => found = f.violations limit ∧ Lies m f t)
      (fun _ _ => False) := by
  obtain ⟨distributed, hm⟩ := id h
  simp only [Rig.violations, ends_bind, ends_of_ok (mesh_apply hm), ends_pure]
  exact ⟨trivial, h⟩

end Lies

/-- An estimator that is asked leaves the meshes alone. -/
theorem errors_meshes (e : EstimatorId) : Keeps (Unseen Rig.meshes) (Rig.errors e) := by
  have orFail {α : Type} (v : Except Fault α) : Keeps (Unseen Rig.meshes) (Rig.orFail v) := by
    cases v with
    | ok a => exact Keeps.pure a
    | error f => exact Keeps.throw f
  have estimator : Keeps (Unseen Rig.meshes) (Rig.estimator e) := by
    intro r
    simp only [Rig.estimator, ends_bind, ends_get]
    split <;> rfl
  refine estimator.bind fun x => Keeps.bind (fun r => rfl) fun _ => ?_
  cases x.estimate with
  | vector v => exact orFail _
  | directed v _ => exact orFail _
  | leaves m rule a b =>
    refine Keeps.bind (fun r => ?_) fun _ => orFail _
    simp only [Rig.mesh, ends_bind, ends_get]
    split <;> rfl

end Rig

namespace Restoring

/-- Control `k` is `c`, and mesh `m` is the forest `f` alone. -/
structure Stands (k : ControlId) (c : Control Float) (m : MeshId) (f : Forest) (b : Bench Float Rig) :
    Prop where
  control : b.controls[k]? = some c
  lies : Rig.Lies m f b.world

section

variable {k : ControlId} {c : Control Float} {m : MeshId} {f : Forest} {b : Bench Float Rig}

theorem Stands.record (h : Stands k c m f b) (e : Event Float) : Stands k c m f (b.record e) :=
  ⟨h.control, h.lies⟩

theorem Stands.put (h : Stands k c m f b) (c' : Control Float) : Stands k c' m f (b.setControl k c') :=
  ⟨Bench.setControl_get h.control, h.lies⟩

/-- What the rig answers a bench. -/
theorem Stands.ask {α : Type} {g : Forest} {q : Rig.Answer α} {A : α → Prop} (h : Stands k c m f b)
    (hq : Ends q b.world (fun a t => A a ∧ Rig.Lies m g t) (fun _ _ => False)) :
    Ends (Act.ask q) b (fun a t => A a ∧ Stands k c m g t) (fun _ _ => False) := by
  rw [Act.ends_ask]
  exact hq.mono (fun a t ha => ⟨ha.1, h.control, ha.2⟩) fun _ _ h => h

/-! ## Steps of an update -/

/-- Without a communicator a count is a worker's own. -/
theorem ends_count {P : Number Float → Bench Float Rig → Prop} {Q : Fault → Bench Float Rig → Prop}
    (h : Stands k c m f b) (own : Nat) :
    Ends (Collective.count Rig.site m own) b P Q ↔ P (.int own) b := by
  simp only [Collective.count, Collective.sum, Collective.reduce, ends_bind, Act.ends_look,
    h.lies.isConnected, Bool.false_eq_true, if_false, ends_pure]
  rfl

theorem ends_max {P : Number Float → Bench Float Rig → Prop} {Q : Fault → Bench Float Rig → Prop}
    (h : Stands k c m f b) (own : Number Float) :
    Ends (Collective.max Rig.site m own) b P Q ↔ P own b := by
  simp only [Collective.max, Collective.reduce, ends_bind, Act.ends_look, h.lies.isConnected,
    Bool.false_eq_true, if_false, ends_pure]
  rfl

theorem groups_name (f : Forest) : ∀ g ∈ f.groups, g.Names f.leaves.length := by
  intro g hg
  obtain ⟨i, hi, rfl⟩ := List.mem_map.mp hg
  obtain ⟨-, hlt⟩ := Forest.pairsFrom_inside hi
  refine ⟨by simp, fun j hj => ?_⟩
  simp only [List.mem_cons, List.not_mem_nil, or_false] at hj
  omega

theorem violations_stands (h : Stands k c m f b) (limit : Int) :
    Ends (Coarsen.violations Rig.site m limit) b
      (fun found t => found = f.violations limit ∧ Stands k c m f t) (fun _ _ => False) := by
  simp only [Coarsen.violations, ends_bind, Act.ends_call, ends_pure]
  exact (h.ask (h.lies.violations limit)).mono (fun _ t ht => ⟨ht.1, ht.2.record _⟩) fun _ _ h => h

theorem isBroken_stands (h : Stands k c m f b) (limit : Int) :
    Ends (Coarsen.isBroken Rig.site m limit) b
      (fun broken t => (broken = true ↔ 0 < limit ∧ f.violations limit ≠ []) ∧ Stands k c m f t)
      (fun _ _ => False) := by
  unfold Coarsen.isBroken
  by_cases hlimit : limit ≤ 0
  · rw [if_pos hlimit]
    refine ⟨⟨nofun, fun hbroken => ?_⟩, h⟩
    omega
  · rw [if_neg hlimit]
    simp only [ends_bind]
    refine (violations_stands h limit).mono (fun found t ht => ?_) fun _ _ h => h
    obtain ⟨rfl, ht⟩ := ht
    rw [ends_count ht]
    refine ⟨?_, ht⟩
    cases f.violations limit with
    | nil => simp [Number.isPositive, Number.lt]
    | cons x xs =>
      simp only [Number.isPositive, Number.lt, List.length_cons, decide_eq_true_eq, ne_eq, reduceCtorEq,
        not_false_eq_true, and_true]
      omega

/-- What a merge leaves of the forest. -/
def Merged (how : Coarsening Float) (errors : List Float) (f g : Forest) : Prop :=
  g = f ∨ ∃ combined, Coarsen.groupErrors how.combine errors f.groups = .ok combined ∧
    g = (f.derefine combined how.threshold 0).2

theorem pass_stands {how : Coarsening Float} {errors : List Float} (h : Stands k c m f b)
    (herrors : outcome (Rig.errors how.estimator) b.world = .ok errors)
    (hvalid : ValidErrors f.leaves.length errors) (label : String) :
    Ends (Coarsen.pass Rig.site how label m 0) b
      (fun merged t => ∃ g, Stands k c m g t ∧ Merged how errors f g ∧ (merged = false → g = f))
      (fun _ _ => False) := by
  obtain ⟨combined, hcombined⟩ :
      ∃ combined, Coarsen.groupErrors how.combine errors f.groups = .ok combined := by
    refine Coarsen.groupErrors_ok how.combine fun g hg => ?_
    rw [hvalid.1]
    exact groups_name f g hg
  have delivered : Ends (Marking.askErrors Rig.site how.estimator) b
      (fun es t => es = errors ∧ Stands k c m f t) (fun _ _ => False) := by
    simp only [Marking.askErrors, ends_bind, Act.ends_record]
    refine (h.record _).ask (A := (· = errors)) ?_
    have meshes := (Rig.errors_meshes how.estimator).after b.world
    obtain ⟨distributed, hm⟩ := h.lies
    exact (ends_of_ok (outcome_ok herrors)).mpr ⟨rfl, distributed, (congrArg (·[m]?) meshes).trans hm⟩
  unfold Coarsen.pass
  simp only [ends_bind, Act.ends_look]
  refine delivered.mono (fun es t₁ h₁ => ?_) fun _ _ h => h
  obtain ⟨rfl, h₁⟩ := h₁
  rw [h₁.lies.elements, Admission.errorVector_ok _ hvalid, Act.ends_check_ok, h₁.lies.groups, hcombined,
    Act.ends_check_ok, ends_count h₁]
  split
  · exact ⟨f, h₁.record _, .inl rfl, fun _ => rfl⟩
  · simp only [ends_bind, Act.ends_call]
    refine ((h₁.record _).ask ((h₁.record _).lies.derefine combined how.threshold 0)).mono
      (fun changed t₂ h₂ => ?_) fun _ _ h => h
    obtain ⟨hchanged, h₂⟩ := h₂
    rw [ends_max h₂]
    cases changed with
    | false =>
      exact ⟨_, h₂, .inr ⟨combined, hcombined, rfl⟩, fun _ => Forest.derefine_same hchanged.symm⟩
    | true => exact ⟨_, h₂.record _, .inr ⟨combined, hcombined, rfl⟩, fun hmerged => by cases hmerged⟩

/-- What an update decides once the forest is as it leaves it. -/
inductive Next (how : Coarsening Float) (g : Forest) : Decision → Stage → Prop
  | broken (change : Option Change) : 0 < how.limit → g.violations how.limit ≠ [] →
      Next how g (.again change) .limit
  | kept : (0 < how.limit → g.violations how.limit = []) → Next how g (.proceed (some .derefine)) .coarsen

theorem coarsens {how : Coarsening Float} {errors : List Float} (h : Stands k c m f b)
    (herrors : outcome (Rig.errors how.estimator) b.world = .ok errors)
    (hvalid : ValidErrors f.leaves.length errors) (label : String) :
    Ends (Coarsen.applyLimited Rig.site how .coarsen label m) b
      (fun r t => ∃ g, Stands k c m g t ∧ Merged how errors f g ∧
        (r.1 = .idle ∧ r.2 = .coarsen ∧ g = f ∨ Next how g r.1 r.2))
      (fun _ _ => False) := by
  unfold Coarsen.applyLimited
  simp only [ends_bind, Act.ends_look, h.lies.isNonconforming, Bool.not_true, Bool.false_eq_true, if_false]
  refine (pass_stands h herrors hvalid label).mono (fun merged t₁ h₁ => ?_) fun _ _ h => h
  obtain ⟨g, h₁, hmerged, hsame⟩ := h₁
  cases merged with
  | false => exact ⟨g, h₁, hmerged, .inl ⟨rfl, rfl, hsame rfl⟩⟩
  | true =>
    simp only [Bool.not_true, Bool.false_eq_true, if_false, ends_bind]
    refine (isBroken_stands h₁ how.limit).mono (fun broken t₂ h₂ => ?_) fun _ _ h => h
    obtain ⟨hbroken, h₂⟩ := h₂
    cases broken with
    | false =>
      refine ⟨g, h₂, hmerged, .inr (.kept fun hlimit => ?_)⟩
      by_contra hne
      exact Bool.false_ne_true (hbroken.mpr ⟨hlimit, hne⟩)
    | true =>
      obtain ⟨hlimit, hne⟩ := hbroken.mp rfl
      exact ⟨g, h₂, hmerged, .inr (.broken _ hlimit hne)⟩

theorem refines {how : Coarsening Float} (h : Stands k c m f b) (label : String) :
    Ends (Coarsen.applyLimited Rig.site how .limit label m) b
      (fun r t => ∃ g, Stands k c m g t ∧ g = f.refine (f.violations how.limit) ∧ Next how g r.1 r.2)
      (fun _ _ => False) := by
  unfold Coarsen.applyLimited
  simp only [ends_bind, Act.ends_look, h.lies.isNonconforming, Bool.not_true, Bool.false_eq_true, if_false]
  refine (violations_stands h how.limit).mono (fun found t₁ h₁ => ?_) fun _ _ h => h
  obtain ⟨rfl, h₁⟩ := h₁
  simp only [Coarsen.refine, ends_bind, Act.ends_call, Act.ends_note]
  have refined := (h₁.record (.call m (.refine (f.violations how.limit) .nonconforming 0))).ask
    (A := fun _ => True) ((h₁.lies.refine (f.violations how.limit)).mono (fun _ _ h => ⟨trivial, h⟩)
      fun _ _ h => h)
  refine refined.mono (fun _ t₂ h₂ => ?_) fun _ _ h => h
  refine (isBroken_stands (h₂.2.record _) how.limit).mono (fun broken t₃ h₃ => ?_) fun _ _ h => h
  obtain ⟨hbroken, h₃⟩ := h₃
  cases broken with
  | false =>
    refine ⟨_, h₃, rfl, .kept fun hlimit => ?_⟩
    by_contra hne
    exact Bool.false_ne_true (hbroken.mpr ⟨hlimit, hne⟩)
  | true =>
    obtain ⟨hlimit, hne⟩ := hbroken.mp rfl
    exact ⟨_, h₃, rfl, .broken _ hlimit hne⟩

/-- An update remembers what the strategy decides, and the stage it leaves. -/
theorem update_stands {how : Coarsening Float} {last : Decision} {stage : Stage}
    {P : Forest → Decision → Stage → Prop} (h : Stands k ⟨last, .coarsenLimited how stage⟩ m f b)
    (ha : ∀ label, Ends (Coarsen.applyLimited Rig.site how stage label m) b
      (fun r t => ∃ g, Stands k ⟨last, .coarsenLimited how stage⟩ m g t ∧ P g r.1 r.2) (fun _ _ => False))
    (depth : Nat) :
    Ends (Update.update Rig.site (depth + 1) k m) b
      (fun needs t => ∃ g d stage', needs = d.needsUpdate ∧
        Stands k ⟨d, .coarsenLimited how stage'⟩ m g t ∧ P g d stage')
      (fun _ _ => False) := by
  simp only [Update.update, Update.apply, Update.remember, bind_assoc, ends_bind,
    Act.ends_control_some h.control]
  refine (ha _).mono (fun r t ht => ?_) fun _ _ h => h
  obtain ⟨g, ht, hP⟩ := ht
  have hput := ht.put ⟨last, .coarsenLimited how r.2⟩
  simp only [Act.ends_putControl, ends_pure, Act.ends_control_some hput.control]
  exact ⟨g, r.1, r.2, rfl, hput.put _, hP⟩

end

/-! ## Rounds on a desk -/

section

variable {k : ControlId} {c : Control Float} {m : MeshId} {f : Forest} {d : Desk}

theorem ends_act {α : Type} {x : Act Float Rig α} {P : α → Desk → Prop} {Q : Fault → Desk → Prop} :
    Ends (Session.act x) d P Q ↔
      Ends x d.bench (fun a b => P a { d with bench := b }) (fun f b => Q f { d with bench := b }) := by
  simp only [Ends, Session.act]
  cases x d.bench <;> rfl

/-- The operation does not fail, and touches neither control `k` nor mesh `m`. -/
def Aside (k : ControlId) (m : MeshId) (x : Session Unit) : Prop :=
  ∀ d, Ends x d (fun _ t => t.bench.controls[k]? = d.bench.controls[k]? ∧
    t.bench.world.meshes[m]? = d.bench.world.meshes[m]?) (fun _ _ => False)

theorem Stands.aside {x : Session Unit} (h : Stands k c m f d.bench) (hx : Aside k m x) :
    Ends x d (fun _ t => Stands k c m f t.bench) (fun _ _ => False) := by
  obtain ⟨distributed, hm⟩ := h.lies
  exact (hx d).mono (fun _ _ ht => ⟨ht.1.trans h.control, distributed, ht.2.trans hm⟩) fun _ _ h => h

/-- Recording a decision in a history, if there is one, changes nothing else. -/
theorem keeping_aside (history : Option Nat) (mesh : MeshId) (x : Decision) :
    Aside k m (Session.keeping history mesh x) := by
  intro d
  cases history with
  | none => exact ⟨rfl, rfl⟩
  | some i => exact ⟨rfl, rfl⟩

theorem decision_stands (h : Stands k c m f d.bench) :
    (Session.handle k m).decision d = c.last := by
  simp only [Session.handle, Session.lastOf, h.control]

variable {how : Coarsening Float} {history : Option Nat} {onUpdate : Decision → Session Unit}

/-- After an update that leaves the control as `Next` says, a cycle ends or goes on. -/
theorem round_stands (aside : ∀ x, Aside k m (onUpdate x)) {last : Decision} {stage : Stage} {patience : Nat}
    {P : Decision → Desk → Prop} {Q : Fault → Desk → Prop}
    (h : Stands k ⟨last, .coarsenLimited how stage⟩ m f d.bench) (next : Next how f last stage)
    (done : ∀ t : Desk, stage = .coarsen → Stands k ⟨last, .coarsenLimited how stage⟩ m f t.bench →
      (0 < how.limit → f.violations how.limit = []) → P (.proceed (some .derefine)) t)
    (again : ∀ t : Desk, stage = .limit → Stands k ⟨last, .coarsenLimited how stage⟩ m f t.bench →
      0 < how.limit → f.violations how.limit ≠ [] →
      Ends (Cycle.apply (Session.handle k m) (Session.keeping history m) onUpdate patience) t P Q) :
    Ends (Session.keeping history m last) d (fun _ u =>
      if last.needsUpdate then
        Ends (onUpdate last) u (fun _ v =>
          if ((Session.handle k m).decision v).isProceed then P last v
          else Ends (Cycle.apply (Session.handle k m) (Session.keeping history m) onUpdate patience) v P Q) Q
      else P last u) Q := by
  refine (h.aside (keeping_aside history m last)).mono (fun _ u hu => ?_) fun _ _ h => h.elim
  cases next with
  | kept hkept =>
    refine Ends.mono (hu.aside (aside _)) (fun _ v hv => ?_) fun _ _ h => h.elim
    rw [decision_stands hv]
    exact done v rfl hv hkept
  | broken change hlimit hne =>
    refine Ends.mono (hu.aside (aside _)) (fun _ v hv => ?_) fun _ _ h => h.elim
    rw [decision_stands hv]
    exact again v rfl hv hlimit hne

theorem ends_update {stage : Stage} {last : Decision} {P : Forest → Decision → Stage → Prop}
    (h : Stands k ⟨last, .coarsenLimited how stage⟩ m f d.bench)
    (ha : ∀ label, Ends (Coarsen.applyLimited Rig.site how stage label m) d.bench
      (fun r t => ∃ g, Stands k ⟨last, .coarsenLimited how stage⟩ m g t ∧ P g r.1 r.2) (fun _ _ => False)) :
    Ends (Session.handle k m).update d
      (fun needs t => ∃ g stage', needs = ((Session.handle k m).decision t).needsUpdate ∧
        Stands k ⟨(Session.handle k m).decision t, .coarsenLimited how stage'⟩ m g t.bench ∧
        P g ((Session.handle k m).decision t) stage')
      (fun _ _ => False) := by
  refine ends_act.mpr ((update_stands h ha (Update.maxDepth - 1)).mono (fun needs t ht => ?_) fun _ _ h => h)
  obtain ⟨g, x, stage', hneeds, ht, hP⟩ := ht
  have hx : (Session.handle k m).decision { d with bench := t } = x :=
    decision_stands (d := { d with bench := t }) ht
  rw [hx]
  exact ⟨g, stage', hneeds, ht, hP⟩

/-- While the limit is being restored, the room bounds the updates that are left, and no leaf
    comes to lie below `top`. -/
theorem restoring_ends (aside : ∀ x, Aside k m (onUpdate x)) {top : Int} {last : Decision}
    (h : Stands k ⟨last, .coarsenLimited how .limit⟩ m f d.bench) (hlimit : 0 < how.limit)
    (hw : Forest.Within top f.leaves) (hne : f.violations how.limit ≠ []) (patience : Nat) :
    Ends (Cycle.apply (Session.handle k m) (Session.keeping history m) onUpdate patience) d
      (fun x t => x = .proceed (some .derefine) ∧ ∃ g, Rig.Lies m g t.bench.world ∧
        Forest.Within top g.leaves ∧ g.violations how.limit = [])
      (fun _ t => patience < Forest.roomOf top f.leaves ∧ ∃ g, Rig.Lies m g t.bench.world ∧
        Forest.Within top g.leaves) := by
  -- the room of the forest is the measure: a round that goes on has taken some of it
  induction patience generalizing d f last with
  | zero =>
    obtain ⟨-, hroom⟩ := Forest.refine_room hlimit hw hne
    exact ⟨by omega, f, h.lies, hw⟩
  | succ patience ih =>
    obtain ⟨hwithin, hroom⟩ := Forest.refine_room hlimit hw hne
    rw [Cycle.ends_apply]
    refine (ends_update (P := fun g x stage => g = f.refine (f.violations how.limit) ∧ Next how g x stage) h
      fun label => refines h label).mono (fun needs t ht => ?_) fun _ _ h => h.elim
    obtain ⟨g, stage, rfl, ht, rfl, next⟩ := ht
    refine round_stands aside ht next (fun u _ hu hkept => ?_) (fun u hstage hu _ hne' => ?_)
    · exact ⟨rfl, _, hu.lies, hwithin, hkept hlimit⟩
    · subst hstage
      refine (ih hu hwithin hne').mono (fun _ _ h => h) fun _ v hv => ⟨?_, hv.2⟩
      have := hv.1
      omega

/-- What an update from the first stage leaves, and where the control goes from there. -/
theorem merging_update {errors : List Float} {last : Decision}
    (h : Stands k ⟨last, .coarsenLimited how .coarsen⟩ m f d.bench)
    (herrors : outcome (Rig.errors how.estimator) d.bench.world = .ok errors)
    (hvalid : ValidErrors f.leaves.length errors) :
    ∃ t g stage, (Session.handle k m).update d = .ok ((Session.handle k m).decision t).needsUpdate t ∧
      Stands k ⟨(Session.handle k m).decision t, .coarsenLimited how stage⟩ m g t.bench ∧
      Merged how errors f g ∧
      ((Session.handle k m).decision t = .idle ∧ stage = .coarsen ∧ g = f ∨
        Next how g ((Session.handle k m).decision t) stage) := by
  have updated := ends_update (P := fun g x stage => Merged how errors f g ∧
    (x = .idle ∧ stage = .coarsen ∧ g = f ∨ Next how g x stage)) h
      fun label => coarsens h herrors hvalid label
  unfold Ends at updated
  split at updated
  · rename_i needs t hu
    obtain ⟨g, stage, rfl, ht, hmerged, hnext⟩ := updated
    exact ⟨t, g, stage, hu, ht, hmerged, hnext⟩
  · exact updated.elim

/-- After that update a cycle ends, or restores the limit within the room that is left. -/
theorem merging_ends (history : Option Nat) (aside : ∀ x, Aside k m (onUpdate x)) {t : Desk} {g : Forest}
    {stage : Stage}
    (hu : (Session.handle k m).update d = .ok ((Session.handle k m).decision t).needsUpdate t)
    (ht : Stands k ⟨(Session.handle k m).decision t, .coarsenLimited how stage⟩ m g t.bench)
    (hnext : (Session.handle k m).decision t = .idle ∧ stage = .coarsen ∧ g = f ∨
      Next how g ((Session.handle k m).decision t) stage) (patience : Nat) :
    Ends (Cycle.apply (Session.handle k m) (Session.keeping history m) onUpdate (patience + 1)) d
      (fun x u => ∃ f', Rig.Lies m f' u.bench.world ∧ Forest.Within g.top f'.leaves ∧
        (x = .idle ∧ f' = f ∨
          x = .proceed (some .derefine) ∧ (1 ≤ how.limit → f'.violations how.limit = [])))
      (fun _ u => patience < g.room ∧ ∃ f', Rig.Lies m f' u.bench.world ∧
        Forest.Within g.top f'.leaves) := by
  have within := g.within_top
  rw [Cycle.ends_apply, ends_of_ok hu]
  rcases hnext with ⟨hidle, -, rfl⟩ | next
  · rw [hidle] at ht ⊢
    refine (ht.aside (keeping_aside history m _)).mono (fun _ u hu => ?_) fun _ _ h => h.elim
    exact ⟨g, hu.lies, within, .inl ⟨rfl, rfl⟩⟩
  · refine round_stands aside ht next (fun u _ hu hkept => ?_) (fun u hstage hu hlimit hne => ?_)
    · exact ⟨g, hu.lies, within, .inr ⟨rfl, fun hlimit => hkept (by omega)⟩⟩
    · subst hstage
      refine (restoring_ends aside hu hlimit within hne patience).mono (fun x t ht => ?_) fun _ _ h => h
      obtain ⟨rfl, f', hlies, hwithin, hnone⟩ := ht
      exact ⟨f', hlies, hwithin, .inr ⟨rfl, fun _ => hnone⟩⟩

/-- A cycle with a limited control ends, idle or with the limit restored, after no more updates
    than one for the merge and one for each split that the merge leaves room for. Whenever the
    cycle is cut short, no leaf lies below the deepest one that the merge has left. -/
theorem ends_within_room (history : Option Nat) {errors : List Float} {last : Decision}
    (h : Stands k ⟨last, .coarsenLimited how .coarsen⟩ m f d.bench)
    (herrors : outcome (Rig.errors how.estimator) d.bench.world = .ok errors)
    (hvalid : ValidErrors f.leaves.length errors) (aside : ∀ x, Aside k m (onUpdate x)) :
    ∃ g, Merged how errors f g ∧
      Rig.Lies m g (stateAfter (Session.handle k m).update d).bench.world ∧
      (∃ x t f', Rig.Lies m f' t.bench.world ∧
        (x = .idle ∧ f' = f ∨
          x = .proceed (some .derefine) ∧ (1 ≤ how.limit → f'.violations how.limit = [])) ∧
        ∀ patience, g.room < patience →
          Cycle.apply (Session.handle k m) (Session.keeping history m) onUpdate patience d = .ok x t) ∧
      ∀ patience, ∃ f', Rig.Lies m f' (stateAfter
          (Cycle.apply (Session.handle k m) (Session.keeping history m) onUpdate (patience + 1)) d).bench.world ∧
        ∀ l ∈ f'.leaves, l.level ≤ g.top := by
  obtain ⟨t₁, g, stage, hu, ht₁, hmerged, hnext⟩ := merging_update h herrors hvalid
  have cycle := merging_ends history aside hu ht₁ hnext
  refine ⟨g, hmerged, ?_, ?_, fun patience => ?_⟩
  · unfold stateAfter
    rw [hu]
    exact ht₁.lies
  · have ended := cycle g.room
    unfold Ends at ended
    split at ended
    · rename_i x t hx
      obtain ⟨f', hlies, -, hdecided⟩ := ended
      refine ⟨x, t, f', hlies, hdecided, fun patience hpatience => ?_⟩
      obtain ⟨more, rfl⟩ : ∃ more, patience = g.room + 1 + more := ⟨patience - (g.room + 1), by omega⟩
      exact Cycle.apply_more hx more
    · omega
  · refine ends_stateAfter.mp ((cycle patience).mono (fun x t ht => ?_) fun _ t ht => ht.2)
    obtain ⟨f', hlies, hwithin, -⟩ := ht
    exact ⟨f', hlies, hwithin⟩

end

/-- A desk with a forest of two trees, an estimator that finds errors everywhere but in the first
    two elements, and a limited control. -/
def uneven : Desk where
  bench :=
    { world :=
        { meshes := [⟨.forest ⟨[⟨0, 1, 0⟩, ⟨0, 1, 1⟩, ⟨1, 2, 0⟩, ⟨1, 2, 1⟩, ⟨1, 1, 1⟩], 0⟩, true, false, none⟩]
          estimators := [⟨.vector (.list [.real 0, .real 0, .real 5, .real 5, .real 5]), 0⟩]
          controls := []
          markers := [] }
      markers := []
      controls := [Control.new (.coarsenLimited ⟨0, 1, 1, .sum⟩ .coarsen)]
      trace := [] }
  histories := []
  names := []
  callbacks := []

set_option maxRecDepth 20000 in
theorem ends_within_room_uneven :
    ∃ t f, Rig.Lies 0 f t.bench.world ∧ f.violations 1 = [] ∧
      ∀ patience, 4 < patience → Cycle.apply (Session.handle 0 0) (Session.keeping none 0)
        (Session.informing 0 none) patience uneven = .ok (.proceed (some .derefine)) t := by
  have stands : Stands 0 ⟨.idle, .coarsenLimited ⟨0, 1, 1, .sum⟩ .coarsen⟩ 0
      ⟨[⟨0, 1, 0⟩, ⟨0, 1, 1⟩, ⟨1, 2, 0⟩, ⟨1, 2, 1⟩, ⟨1, 1, 1⟩], 0⟩ uneven.bench := ⟨rfl, false, rfl⟩
  have merged : (stateAfter (Session.handle 0 0).update uneven).bench.world.meshes[0]? =
      some ⟨.forest ⟨[⟨0, 0, 0⟩, ⟨1, 2, 0⟩, ⟨1, 2, 1⟩, ⟨1, 1, 1⟩], 1⟩, true, false, none⟩ := rfl
  have errors : outcome (Rig.errors 0) uneven.bench.world = .ok [0, 0, 5, 5, 5] := rfl
  have aside (x : Decision) : Aside 0 0 (Session.informing 0 none x) := fun _ => ⟨rfl, rfl⟩
  obtain ⟨g, -, ⟨_, hg⟩, ⟨x, t, f, hf, hx, hall⟩, -⟩ :=
    ends_within_room none stands errors ⟨rfl, rfl⟩ aside
  have hroom : g.room = 4 := by
    rw [merged] at hg
    injection hg with hg
    injection hg with hg
    injection hg with hg
    rw [← hg]
    rfl
  have proceeds : outcome (Cycle.apply (Session.handle 0 0) (Session.keeping none 0)
      (Session.informing 0 none) 5) uneven = .ok (.proceed (some .derefine)) := rfl
  obtain rfl : x = .proceed (some .derefine) := by
    unfold outcome at proceeds
    rw [hall 5 (by omega)] at proceeds
    exact Except.ok.inj proceeds
  rcases hx with ⟨hidle, -⟩ | ⟨-, hkept⟩
  · cases hidle
  · exact ⟨t, f, hf, hkept (by decide), fun patience hp => hall patience (by omega)⟩

end Restoring

end Regrid
