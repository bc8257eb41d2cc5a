/-
  Regrid.Proofs.Plan — what an update or a reset of a control can touch.

  The plan of a bench is its controls with their progress undone: settings and members,
  but no decision, stage or cursor. Updates and resets keep the plan; nothing but a caller
  changes it.

  A set of controls is closed in a plan when the members of its rotations are in it. An
  update or a reset of a control in a closed set leaves every control outside the set as
  it was, and no rotation outside pays a visit (`update_stays`, `reset_stays`). The least
  closed set with a control is what can be reached from it.
-/

import Mathlib.Logic.Relation
import Regrid.Proofs.Reads

namespace Regrid

variable {R W α β : Type}

@[simp] theorem Strategy.members_restart (s : Strategy R) :
    s.restart.members = s.members := by cases s <;> rfl

@[simp] theorem Strategy.restart_restart (s : Strategy R) :
    s.restart.restart = s.restart := by cases s <;> rfl

/-! ## Plans -/

/-- The settings and members of all controls. -/
def Bench.plan (b : Bench R W) : List (Strategy R) := b.controls.map (·.strategy.restart)

theorem Bench.plan_getElem? {b : Bench R W} {k : ControlId} {c : Control R} (h : b.controls[k]? = some c) :
    b.plan[k]? = some c.strategy.restart := by simp [Bench.plan, h]

theorem Bench.plan_setControl {b : Bench R W} {k : ControlId} {c c' : Control R}
    (h : b.controls[k]? = some c)
    (hc : c'.strategy.restart = c.strategy.restart) : (b.setControl k c').plan = b.plan := by
  apply List.ext_getElem?
  intro j
  simp only [Bench.plan, Bench.setControl_controls, List.getElem?_map, List.getElem?_set]
  split
  · rename_i e
    subst e
    obtain ⟨hlt, rfl⟩ := List.getElem?_eq_some_iff.mp h
    simp [hlt, hc]
  · rfl

/-- The control `m` is a member of the rotation `k`. -/
def Holds (plan : List (Strategy R)) (k m : ControlId) : Prop := ∃ s, plan[k]? = some s ∧ m ∈ s.members

/-- From the control `k` members lead to `j`; a control leads to itself. -/
abbrev Reaches (plan : List (Strategy R)) : ControlId → ControlId → Prop :=
  Relation.ReflTransGen (Holds plan)

/-- Members of rotations in the set are in the set. -/
def Closed (plan : List (Strategy R)) (S : ControlId → Prop) : Prop := ∀ k m, S k → Holds plan k m → S m

theorem closed_reaches (plan : List (Strategy R)) (k : ControlId) : Closed plan (Reaches plan k) :=
  fun _ _ hj hm => hj.tail hm

theorem Closed.of_reaches {plan : List (Strategy R)} {S : ControlId → Prop} (hS : Closed plan S)
    {k j : ControlId} (hk : S k) (h : Reaches plan k j) : S j := by
  induction h with
  | refl => exact hk
  | tail _ hj ih => exact hS _ _ ih hj

/-- A control that its members do not lead to is not a member of itself. -/
theorem alone_of_closed {plan : List (Strategy R)} {S : ControlId → Prop} {k : ControlId}
    (hS : Closed plan S)
    (hmembers : ∀ m, Holds plan k m → S m) (hk : ¬ S k) : ¬ Relation.TransGen (Holds plan) k k := by
  intro h
  obtain ⟨m, hm, hr⟩ := Relation.TransGen.head'_iff.mp h
  exact hk (hS.of_reaches (hmembers m hm) hr)

/-! ## What is touched -/

/-- The visits that rotation `k` paid, the latest first. -/
def Bench.visits (b : Bench R W) (k : ControlId) : List (Nat × ControlId) :=
  b.trace.filterMap fun e => match e with
    | .visit r i m => if r = k then some (i, m) else none
    | _ => none

/-- The controls, and the visits that were paid. -/
def Bench.rounds (b : Bench R W) : List (Control R) × (ControlId → List (Nat × ControlId)) :=
  (b.controls, b.visits)

theorem Bench.visits_record {b : Bench R W} {e : Event R} (h : e.isVisit = false) :
    (b.record e).visits = b.visits := by
  funext k
  cases e <;> first | rfl | cases h

theorem Bench.rounds_noteFault (b : Bench R W) (f : Fault) : (b.noteFault f).rounds = b.rounds :=
  b.noteFault_of_record (I := fun t => t.rounds = b.rounds) f rfl fun _ => rfl

/-- From `b` to `t` the plan is kept, and only what is in the set is touched. -/
structure Touches (S : ControlId → Prop) (b t : Bench R W) : Prop where
  plan : t.plan = b.plan
  control : ∀ j, ¬ S j → t.controls[j]? = b.controls[j]?
  visits : ∀ j, ¬ S j → t.visits j = b.visits j

namespace Touches

variable {S : ControlId → Prop} {b t u : Bench R W}

theorem trans (h : Touches S b t) (h' : Touches S t u) : Touches S b u :=
  ⟨h'.plan.trans h.plan, fun j hj => (h'.control j hj).trans (h.control j hj),
    fun j hj => (h'.visits j hj).trans (h.visits j hj)⟩

theorem of_rounds (h : t.rounds = b.rounds) : Touches S b t := by
  simp only [Bench.rounds, Prod.mk.injEq] at h
  exact ⟨by simp [Bench.plan, h.1], fun _ _ => by rw [h.1], fun _ _ => by rw [h.2]⟩

theorem refl (b : Bench R W) : Touches S b b := of_rounds rfl

theorem setControl {k : ControlId} {c c' : Control R} (hk : S k) (h : b.controls[k]? = some c)
    (hc : c'.strategy.restart = c.strategy.restart) : Touches S b (b.setControl k c') := by
  refine ⟨Bench.plan_setControl h hc, fun j hj => ?_, fun _ _ => rfl⟩
  have hne : k ≠ j := fun e => hj (e ▸ hk)
  simp [hne]

theorem record_visit {k : ControlId} (hk : S k) (i : Nat) (m : ControlId) :
    Touches S b (b.record (.visit k i m)) := by
  refine ⟨rfl, fun _ _ => rfl, fun j hj => ?_⟩
  have hne : k ≠ j := fun e => hj (e ▸ hk)
  simp [Bench.visits, hne]

end Touches

/-- On a bench with plan `p` the action touches nothing outside the set. -/
def Stays (p : List (Strategy R)) (S : ControlId → Prop) (x : Act R W α) : Prop :=
  ∀ b, b.plan = p → Ends x b (fun _ t => Touches S b t) (fun _ t => Touches S b t)

namespace Stays

variable {p : List (Strategy R)} {S : ControlId → Prop} {x : Act R W α}

theorem of_keeps (h : Keeps (Unseen Bench.rounds) x) : Stays p S x :=
  fun b _ => (h b).mono (fun _ _ => .of_rounds) fun _ _ => .of_rounds

theorem pure (a : α) : Stays p S (Pure.pure a : Act R W α) := of_keeps (.pure a)

theorem throw (f : Fault) : Stays p S (MonadExcept.throw f : Act R W α) := of_keeps (.throw f)

theorem bind {y : α → Act R W β} (hx : Stays p S x) (hy : ∀ a, Stays p S (y a)) : Stays p S (x >>= y) := by
  intro b hb
  refine ends_bind.mpr ((hx b hb).mono (fun a t ht => ?_) fun _ _ ht => ht)
  exact (hy a t (ht.plan.trans hb)).mono (fun _ _ => ht.trans) fun _ _ => ht.trans

theorem discard (hx : Stays p S x) : Stays p S (discard x) := fun b hb => ends_discard.mpr (hx b hb)

/-- What follows a look at a control may rely on what the plan says of it. -/
theorem control {k : ControlId} {y : Control R → Act R W β}
    (h : ∀ c, p[k]? = some c.strategy.restart → Stays p S (y c)) : Stays p S (Act.control k >>= y) := by
  intro b hb
  rw [ends_bind]
  cases hk : b.controls[k]? with
  | none => exact (Act.ends_control_none hk).mpr (.refl b)
  | some c => exact (Act.ends_control_some hk).mpr (h c (hb ▸ Bench.plan_getElem? hk) b hb)

/-- A control of the set is changed in what the plan leaves open. -/
theorem changeControl {k : ControlId} (hk : S k) {f : Control R → Control R}
    (hf : ∀ c, (f c).strategy.restart = c.strategy.restart) :
    Stays (W := W) p S (do Act.putControl k (f (← Act.control k))) := by
  intro b _
  rw [ends_bind]
  cases hc : b.controls[k]? with
  | none => exact (Act.ends_control_none hc).mpr (.refl b)
  | some c => exact (Act.ends_control_some hc).mpr (.setControl hk hc (hf c))

end Stays

theorem Stays.plan_after {x : Act R W α} {S : ControlId → Prop} (h : ∀ p, Stays p S x) (b : Bench R W) :
    (stateAfter x b).plan = b.plan := by
  have touched := h b.plan b rfl
  have after : Touches S b (stateAfter x b) := ends_stateAfter.mp touched
  exact after.plan

theorem plan_of_rounds {x : Act R W α} (h : Keeps (Unseen Bench.rounds) x) (b : Bench R W) :
    (stateAfter x b).plan = b.plan :=
  Stays.plan_after (S := fun _ => True) (fun _ => .of_keeps h) b

theorem plan_noteFault (b : Bench R W) (f : Fault) : (b.noteFault f).plan = b.plan :=
  (Touches.of_rounds (S := fun _ => True) (b.rounds_noteFault f)).plan

/-! ## Strategies without members -/

/-- A view of the bench on which neither the world nor markers are seen, and of what is recorded
    visits only. -/
structure Overlooks {γ : Type} (f : Bench R W → γ) : Prop where
  world : ∀ (b : Bench R W) w, f { b with world := w } = f b
  setMarker : ∀ b k m, f (b.setMarker k m) = f b
  record : ∀ b e, e.isVisit = false → f (b.record e) = f b

namespace Overlooks

variable {γ : Type} {f : Bench R W → γ} (h : Overlooks f)
include h

theorem ask (q : EStateM Fault W α) : Keeps (Unseen f) (Act.ask q : Act R W α) := by
  intro b
  rw [Act.ends_ask]
  unfold Ends
  cases q b.world with
  | ok a w => exact h.world b w
  | error e w =>
    exact Bench.noteFault_of_record (I := fun t => f t = f b) { b with world := w } e (h.world b w)
      fun _ => (h.record _ _ rfl).trans (h.world b w)

theorem blind (site : Site R W) : Blind site (Unseen f) where
  record b _ he := h.record b _ (Event.isVisit_of_isPlain he)
  setMarker b k m := h.setMarker b k m
  errors _ := h.ask _
  flags _ := h.ask _
  allreduce _ _ _ := h.ask _
  marking _ := h.ask _

theorem mild [Arith R] (site : Site R W) : Mild site (Unseen f) where
  toSilent := (h.blind site).toSilent
  read := (h.blind site).read
  violations _ _ := h.ask _
  refineMesh mesh marks mode limit :=
    have called : Keeps (Unseen f) (Act.call mesh (.refine marks mode limit) : Act R W Unit) :=
      fun b => h.record b _ rfl
    called.bind fun _ => h.ask _
  derefine _ _ _ _ := h.ask _
  rebalance _ := h.ask _

end Overlooks

theorem overlooks_rounds : Overlooks (Bench.rounds : Bench R W → _) where
  world _ _ := rfl
  setMarker _ _ _ := rfl
  record _ _ h := Prod.ext rfl (Bench.visits_record h)

theorem mild_rounds [Arith R] (site : Site R W) : Mild site (Unseen Bench.rounds) := overlooks_rounds.mild site

/-! ## Rotations -/

section

variable {p : List (Strategy R)} {S : ControlId → Prop} {k : ControlId}

/-- The position after the cursor is that of a member, if there is any. -/
theorem Rotation.next_position (cursor : Int) {size : Nat} (h : 0 < size) :
    ∃ i : Nat, (i : Int) = (cursor + 1) % size ∧ i < size := by
  have lower := Int.emod_nonneg (cursor + 1) (b := size) (by omega)
  have upper := Int.emod_lt_of_pos (cursor + 1) (b := size) (by omega)
  exact ⟨((cursor + 1) % size).toNat, by omega, by omega⟩

theorem Rotation.ends_moveCursor {b : Bench R W} {last : Decision} {cursor : Int} {members : List ControlId}
    {P : Int → Bench R W → Prop} {Q : Fault → Bench R W → Prop}
    (h : b.controls[k]? = some ⟨last, .rotation cursor members⟩) (f : Int → Int) :
    Ends (moveCursor k f : Act R W Int) b P Q ↔
      P (f cursor) (b.setControl k ⟨last, .rotation (f cursor) members⟩) := by
  simp only [moveCursor, ends_bind]
  exact Act.ends_control_some h

/-- What appending does: a rotation takes any control but itself. -/
theorem Rotation.append_ends {b : Bench R W} (k m : ControlId) :
    Ends (append k m : Act R W Nat) b
      (fun n t => k ≠ m ∧ ∃ last cursor members, b.controls[k]? = some ⟨last, .rotation cursor members⟩ ∧
        n = members.length + 1 ∧ t = b.setControl k ⟨last, .rotation cursor (members ++ [m])⟩)
      (fun _ t => t = b) := by
  simp only [append, membersOf, bind_assoc, ends_bind]
  cases hc : b.controls[k]? with
  | none => exact (Act.ends_control_none hc).mpr rfl
  | some c =>
    rw [Act.ends_control_some hc]
    obtain ⟨last, strategy⟩ := c
    cases strategy with
    | rotation cursor members =>
      rw [ends_pure]
      by_cases hkm : k = m
      · rw [if_pos hkm]
        rfl
      · rw [if_neg hkm]
        simp only [ends_bind, Act.ends_control_some hc, Act.ends_putControl, ends_pure]
        exact ⟨hkm, last, cursor, members, rfl, rfl, rfl⟩
    | refine _ _ _ | coarsen _ | coarsenLimited _ _ | rebalance | foreign _ _ => rfl

theorem Rotation.clear_ends {b : Bench R W} (k : ControlId) :
    Ends (clear k : Act R W Unit) b
      (fun _ t => ∃ last cursor members, b.controls[k]? = some ⟨last, .rotation cursor members⟩ ∧
        t = b.setControl k ⟨last, .rotation (-1) []⟩)
      (fun _ t => t = b) := by
  simp only [clear, membersOf, ends_discard, ends_bind]
  cases hc : b.controls[k]? with
  | none => exact (Act.ends_control_none hc).mpr rfl
  | some c =>
    rw [Act.ends_control_some hc]
    obtain ⟨last, strategy⟩ := c
    cases strategy with
    | rotation cursor members =>
      simp only [ends_pure, Act.ends_control_some hc, Act.ends_putControl]
      exact ⟨last, cursor, members, rfl, rfl⟩
    | refine _ _ _ | coarsen _ | coarsenLimited _ _ | rebalance | foreign _ _ => rfl

theorem remember_stays (hk : S k) (d : Decision) : Stays (W := W) p S (Update.remember k d) :=
  .changeControl (f := fun c => { c with last := d }) hk fun _ => rfl

theorem withCursor_restart (cursor : Int) (s : Strategy R) :
    (Rotation.withCursor cursor s).restart = s.restart := by
  cases s <;> rfl

theorem moveCursor_stays (hk : S k) (f : Int → Int) : Stays (W := W) p S (Rotation.moveCursor k f) := by
  intro b _
  simp only [Rotation.moveCursor, ends_bind]
  cases hc : b.controls[k]? with
  | none => exact (Act.ends_control_none hc).mpr (.refl b)
  | some c => exact (Act.ends_control_some hc).mpr (.setControl hk hc (withCursor_restart _ _))

/-- Members that stay within a closed set keep their rotation within it. -/
theorem turn_stays (hS : Closed p S) (hk : S k) {visit : ControlId → Act R W Unit}
    (hv : ∀ m, S m → Stays p S (visit m)) (size turns : Nat) :
    Stays p S (Rotation.turn visit k size turns) := by
  induction turns with
  | zero => exact .pure _
  | succ turns ih =>
    refine (moveCursor_stays hk _).bind fun cursor => .control fun c hc => ?_
    split
    · exact .throw _
    · rename_i member hm
      have hmem : member ∈ c.strategy.restart.members := by simpa using List.mem_of_getElem? hm
      have visited : Stays (W := W) p S (Act.record (.visit k cursor.toNat member)) :=
        fun _ _ => .record_visit hk _ _
      refine visited.bind fun _ => (hv member (hS k member hk ⟨_, hc, hmem⟩)).bind fun _ =>
        .control fun c _ => ?_
      split
      · exact ih
      · refine .control fun _ _ => .bind (.of_keeps fun _ => rfl) fun _ => ?_
        split
        · exact (moveCursor_stays hk _).discard.bind fun _ => .pure _
        · exact .pure _

/-! ## Updates and resets -/

variable {site : Site R W} [Arith R]

theorem apply_stays (hS : Closed p S) (hk : S k) {visit : ControlId → Act R W Unit}
    (hv : ∀ m, S m → Stays p S (visit m)) (mesh : MeshId) : Stays p S (Update.apply site visit k mesh) := by
  intro b hb
  simp only [Update.apply, ends_bind]
  cases hc : b.controls[k]? with
  | none => exact (Act.ends_control_none hc).mpr (.refl b)
  | some c =>
    refine (Act.ends_control_some hc).mpr ?_
    obtain ⟨last, s⟩ := c
    have mild := mild_rounds site
    cases s with
    | refine marker mode limit => exact Stays.of_keeps (mild.applyRefine _ _ _ _) b hb
    | coarsen how => exact Stays.of_keeps (mild.coarsen _ _ _) b hb
    | coarsenLimited how stage =>
      -- the control is written back as it was read, so nobody may have changed it meanwhile
      refine ends_bind.mpr ((mild.coarsenLimited how stage _ mesh b).mono (fun r t ht => ?_)
        fun _ _ => .of_rounds)
      have hct : t.controls[k]? = some ⟨last, .coarsenLimited how stage⟩ := by
        rw [show t.controls = b.controls from congrArg Prod.fst ht]; exact hc
      exact (Touches.of_rounds ht).trans (.setControl hk hct rfl)
    | rebalance => exact Stays.of_keeps (mild.applyRebalance _) b hb
    | rotation cursor members => exact turn_stays hS hk hv _ _ b hb
    | foreign f label => exact Stays.of_keeps (overlooks_rounds.ask _) b hb

/-- An update touches only what its control can reach. -/
theorem update_stays (hS : Closed p S) (depth : Nat) {k : ControlId} (hk : S k) (mesh : MeshId) :
    Stays p S (Update.update site depth k mesh) := by
  induction depth generalizing k with
  | zero => exact .throw _
  | succ depth ih =>
    exact (apply_stays hS hk (fun m hm => (ih hm).discard) mesh).bind fun d =>
      (remember_stays hk d).bind fun _ => .pure _

omit [Arith R] in
theorem forM_stays {f : ControlId → Act R W PUnit} {members : List ControlId}
    (hf : ∀ m ∈ members, Stays p S (f m)) :
    Stays p S (members.forM f) := by
  induction members with
  | nil => exact .pure _
  | cons m ms ih =>
    show Stays p S (f m >>= fun _ => ms.forM f)
    exact (hf m (by simp)).bind fun _ => ih fun m' hm' => hf m' (by simp [hm'])

omit [Arith R] in
/-- A reset touches only what its control can reach. -/
theorem reset_stays (hS : Closed p S) (depth : Nat) {k : ControlId} (hk : S k) :
    Stays p S (Update.reset site depth k) := by
  induction depth generalizing k with
  | zero => exact .throw _
  | succ depth ih =>
    refine (remember_stays hk _).bind fun _ b hb => ?_
    rw [ends_bind]
    cases hc : b.controls[k]? with
    | none => exact (Act.ends_control_none hc).mpr (.refl b)
    | some c =>
      refine (Act.ends_control_some hc).mpr ?_
      have restarted : Touches S b (b.setControl k ⟨.idle, c.strategy.restart⟩) :=
        .setControl hk hc (Strategy.restart_restart _)
      obtain ⟨last, s⟩ := c
      cases s with
      | rotation cursor members =>
        have reached : ∀ m ∈ members, S m := fun m hm =>
          hS k m hk ⟨.rotation (-1) members, hb ▸ Bench.plan_getElem? hc, hm⟩
        exact (forM_stays fun m hm => ih (reached m hm)).bind
          (fun _ => (moveCursor_stays hk _).discard) b hb
      | foreign f label => exact Stays.of_keeps (overlooks_rounds.ask _) b hb
      | refine _ _ _ | coarsen _ | coarsenLimited _ _ | rebalance => exact restarted

/-- An update keeps the plan, whatever comes of it. -/
theorem plan_update (depth : Nat) (k : ControlId) (mesh : MeshId) (b : Bench R W) :
    (stateAfter (Update.update site depth k mesh) b).plan = b.plan :=
  Stays.plan_after (S := fun _ => True) (fun _ => update_stays (fun _ _ _ _ => trivial) depth trivial mesh) b

omit [Arith R] in
theorem plan_reset (depth : Nat) (k : ControlId) (b : Bench R W) :
    (stateAfter (Update.reset site depth k) b).plan = b.plan :=
  Stays.plan_after (S := fun _ => True) (fun _ => reset_stays (fun _ _ _ _ => trivial) depth trivial) b

end

end Regrid
