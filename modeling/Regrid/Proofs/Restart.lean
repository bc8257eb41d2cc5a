/-
  Regrid.Proofs.Restart — a reset erases history.

  Take a tree of controls, any run of updates of its root, and the bench it leaves: cursors
  anywhere, limited controls in the middle of restoring a limit, decisions that ask to be
  applied again, updates that failed half-way. A reset of the root

  (1) makes every control of the tree what it was when it was made, members that several
      rotations share among them, and touches nothing else (`Renews`). It fails only where
      members are nested deeper than it goes;
  (2) leaves a tree that goes on as a new one would (`AsNew`). Build the tree once more, on any
      bench with the same markers and surroundings, under any numbers, beside whatever other
      controls there are (`Rebuilt`): each later update of the two roots decides the same or
      fails in the same way, and asks the same of estimators, markers and meshes in the same
      order. What is recorded differs in the numbers of controls only, and so do the controls
      that are left (`Copied`).
-/

import Regrid.Proofs.Containment
import Regrid.Proofs.Course
import Regrid.Proofs.Intake
import Regrid.Proofs.Queries

namespace Regrid

variable {R W α : Type}

theorem Tree.of_reaches {p : List (Strategy R)} {k j : ControlId} (h : Tree p k) (hj : Reaches p k j) : Tree p j := by
  induction hj with
  | refl => exact h
  | tail _ held ih => exact ih.of_holds held

/-- A control of a tree is on the bench, and none of a caller's own. -/
theorem Tree.control {b : Bench R W} {k : ControlId} (h : Tree b.plan k) :
    ∃ c, b.controls[k]? = some c ∧ c.strategy.isForeign = false := by
  cases h with
  | @node _ s hs own _ =>
    simp only [Bench.plan, List.getElem?_map, Option.map_eq_some_iff] at hs
    obtain ⟨c, hc, rfl⟩ := hs
    refine ⟨c, hc, ?_⟩
    cases hstrategy : c.strategy <;> rw [hstrategy] at own <;> first | rfl | cases own

namespace Restart

/-! ## Resets -/

/-- From `b` to `t` the controls of the set have become as they are made, and nothing else has changed. -/
structure Renews (p : List (Strategy R)) (S : ControlId → Prop) (b t : Bench R W) : Prop where
  world : t.world = b.world
  markers : t.markers = b.markers
  trace : t.trace = b.trace
  plan : t.plan = p
  inside : ∀ j, S j → t.controls[j]? = p[j]?.map Control.new
  outside : ∀ j, ¬S j → t.controls[j]? = b.controls[j]?

section

variable {p : List (Strategy R)} {S S' : ControlId → Prop} {b t u : Bench R W} {k : ControlId} {c : Control R}

theorem Renews.nothing (hb : b.plan = p) : Renews p (fun _ => False) b b :=
  ⟨rfl, rfl, rfl, hb, nofun, fun _ _ => rfl⟩

theorem Renews.trans (h : Renews p S b t) (h' : Renews p S' t u) : Renews p (fun j => S j ∨ S' j) b u where
  world := h'.world.trans h.world
  markers := h'.markers.trans h.markers
  trace := h'.trace.trans h.trace
  plan := h'.plan
  inside j hj := by
    by_cases again : S' j
    · exact h'.inside j again
    · exact (h'.outside j again).trans (h.inside j (hj.resolve_right again))
  outside j hj := (h'.outside j fun h' => hj (.inr h')).trans (h.outside j fun h => hj (.inl h))

theorem Renews.of_iff (h : Renews p S b t) (same : ∀ j, S' j ↔ S j) : Renews p S' b t :=
  ⟨h.world, h.markers, h.trace, h.plan, fun j hj => h.inside j ((same j).mp hj),
    fun j hj => h.outside j fun hs => hj ((same j).mpr hs)⟩

/-- The control itself is made as it was. -/
theorem Renews.own (hb : b.plan = p) (hc : b.controls[k]? = some c) :
    Renews p (· = k) b (b.setControl k (Control.new c.strategy.restart)) where
  world := rfl
  markers := rfl
  trace := rfl
  plan := (Bench.plan_setControl hc (Strategy.restart_restart _)).trans hb
  inside := by
    rintro _ rfl
    rw [Bench.setControl_get hc, ← hb, Bench.plan_getElem? hc, Option.map_some]
  outside j hj := List.getElem?_set_ne (Ne.symm hj)

/-- A decision that is forgotten beforehand makes no difference. -/
theorem Renews.after_remember (h : Renews p S (b.setControl k c) t) (hk : S k) : Renews p S b t where
  world := h.world
  markers := h.markers
  trace := h.trace
  plan := h.plan
  inside := h.inside
  outside j hj := by
    have apart : k ≠ j := fun same => hj (same ▸ hk)
    rw [h.outside j hj, Bench.setControl_controls, List.getElem?_set_ne apart]

/-- Members that are renewed one after another are all renewed, shared ones more than once. -/
theorem forM_renews {Q : ControlId → Prop} {f : ControlId → Act R W PUnit} {members : List ControlId}
    (each : ∀ m ∈ members, ∀ b : Bench R W, b.plan = p →
      Ends (f m) b (fun _ t => Q m ∧ Renews p (Reaches p m) b t) (fun e _ => e = .tooDeep ∧ ¬Q m))
    (hb : b.plan = p) :
    Ends (members.forM f) b
      (fun _ t => (∀ m ∈ members, Q m) ∧ Renews p (fun j => ∃ m ∈ members, Reaches p m j) b t)
      (fun e _ => e = .tooDeep ∧ ∃ m ∈ members, ¬Q m) := by
  induction members generalizing b with
  | nil =>
    refine ⟨nofun, (Renews.nothing hb).of_iff fun j => ?_⟩
    simp
  | cons m ms ih =>
    obtain ⟨first, rest⟩ := List.forall_mem_cons.mp each
    show Ends (f m >>= fun _ => ms.forM f) b _ _
    rw [ends_bind]
    refine (first b hb).mono ?_ ?_
    · rintro _ t ⟨hm, renewed⟩
      refine (ih rest renewed.plan).mono ?_ ?_
      · rintro _ u ⟨others, renewed'⟩
        refine ⟨List.forall_mem_cons.mpr ⟨hm, others⟩, (renewed.trans renewed').of_iff fun j => ?_⟩
        simp only [List.mem_cons, exists_eq_or_imp]
      · rintro e _ ⟨he, m', hm', deep⟩
        exact ⟨he, m', .tail _ hm', deep⟩
    · rintro e _ ⟨he, deep⟩
      exact ⟨he, m, .head _, deep⟩

/-- A reset of a tree goes through, as far as it goes down, and makes all its controls as they were made. -/
theorem reset_renews (site : Site R W) (tree : Tree p k) (hb : b.plan = p) (depth : Nat) :
    Ends (Update.reset site depth k) b (fun _ t => Shallow p depth k ∧ Renews p (Reaches p k) b t)
      (fun f _ => f = .tooDeep ∧ ¬Shallow p depth k) := by
  induction depth generalizing k b with
  | zero => exact ⟨rfl, id⟩
  | succ depth ih =>
    obtain ⟨c, hc, own⟩ := (hb ▸ tree).control
    have hp : p[k]? = some c.strategy.restart := hb ▸ Bench.plan_getElem? hc
    obtain ⟨last, s⟩ := c
    have hc' : (b.setControl k ⟨.idle, s⟩).controls[k]? = some ⟨.idle, s⟩ := Bench.setControl_get hc
    have kept : (b.setControl k ⟨.idle, s⟩).plan = b.plan := Bench.plan_setControl hc rfl
    have hb' := kept.trans hb
    simp only [Update.reset, Update.remember, ends_bind, Act.ends_control_some hc, Act.ends_putControl,
      Act.ends_control_some hc']
    have alone (none : s.members = []) : Shallow p (depth + 1) k ∧
        Renews p (Reaches p k) b ((b.setControl k ⟨.idle, s⟩).setControl k (Control.new s.restart)) := by
      have itself (j : ControlId) : Reaches p k j ↔ j = k :=
        ⟨reaches_self hp (by simpa using none), fun same => same ▸ .refl⟩
      refine ⟨fun m held => ?_, ((Renews.own hb' hc').of_iff itself).after_remember .refl⟩
      obtain ⟨s', hs', hm⟩ := held
      obtain rfl := Option.some.inj (hp.symm.trans hs')
      rw [Strategy.members_restart, none] at hm
      cases hm
    cases s with
    | rotation cursor members =>
      have held {m : ControlId} : Holds p k m ↔ m ∈ members := by
        simp [Holds, hp, Strategy.restart, Strategy.members]
      rw [ends_bind]
      refine (forM_renews (fun m hm b hb => ih (tree.of_holds (held.mpr hm)) hb) hb').mono ?_ ?_
      · rintro _ t ⟨shallow, renewed⟩
        have above : ¬∃ m ∈ members, Reaches p m k := by
          rintro ⟨m, hm, back⟩
          exact tree.not_reaches (held.mpr hm) back
        have ht : t.controls[k]? = some ⟨.idle, .rotation cursor members⟩ := (renewed.outside k above).trans hc'
        rw [ends_discard, Rotation.ends_moveCursor ht]
        refine ⟨fun m hm => shallow m (held.mp hm), ?_⟩
        have whole := renewed.trans (Renews.own renewed.plan ht)
        refine (whole.of_iff fun j => ?_).after_remember .refl
        refine Relation.ReflTransGen.cases_head_iff.trans ?_
        simp only [held, or_comm, eq_comm]
      · rintro f _ ⟨hf, m, hm, deep⟩
        exact ⟨hf, fun shallow => deep (shallow m (held.mpr hm))⟩
    | foreign f label => cases own
    | refine _ _ _ | coarsen _ | coarsenLimited _ _ | rebalance => exact alone rfl

end

/-! ## Runs -/

/-- An update of the root of a tree, or a change of the surroundings. -/
inductive Turn (W : Type) where
  | update (depth : Nat) (mesh : MeshId)
  | meanwhile (change : W → W)

section

variable [Arith R] (site : Site R W)

/-- One update: whether it asks to rebuild spaces, and what was decided. -/
def decided (depth : Nat) (k : ControlId) (mesh : MeshId) : Act R W (Bool × Decision) := do
  let needed ← Update.update site depth k mesh
  return (needed, (← Act.control k).last)

/-- What the updates of control `k` come to, one after another; whoever updates goes on after a failure. -/
def run (k : ControlId) : List (Turn W) → Act R W (List (Except Fault (Bool × Decision)))
  | [] => return []
  | .update depth mesh :: later => do
    let answer ← Intake.attempt (decided site depth k mesh)
    return answer :: (← run k later)
  | .meanwhile change :: later => do
    modify fun b => { b with world := change b.world }
    run k later

variable {site}

theorem run_plan (k : ControlId) (turns : List (Turn W)) : Keeps (Unseen Bench.plan) (run site k turns) := by
  induction turns with
  | nil => exact .pure _
  | cons turn later ih =>
    cases turn with
    | update depth mesh =>
      have updated : Keeps (Unseen Bench.plan) (Update.update site depth k mesh) :=
        fun b => ends_stateAfter.mpr (plan_update depth k mesh b)
      have answered : Keeps (Unseen Bench.plan) (decided site depth k mesh) :=
        updated.bind fun _ => (Silent.control k).bind fun _ => .pure _
      have attempted : Keeps (Unseen Bench.plan) (Intake.attempt (decided site depth k mesh)) := answered.after
      exact attempted.bind fun _ => ih.bind fun _ => .pure _
    | meanwhile change =>
      have changed : Keeps (Unseen Bench.plan)
          (modify fun b => { b with world := change b.world } : Act R W PUnit) := fun _ => rfl
      exact changed.bind fun _ => ih

end

/-! ## Copies -/

/-- The second bench has the controls of the set as well, under other numbers, and the same markers and
    surroundings. Both have recorded the same since each had its own past, but for these numbers. -/
structure Copied (number : ControlId → ControlId) (S : ControlId → Prop) (past past' : List (Event R))
    (b b' : Bench R W) : Prop where
  world : b.world = b'.world
  markers : b.markers = b'.markers
  controls : ∀ k, S k → b'.controls[number k]? = b.controls[k]?.map (Control.rename number)
  members : ∀ k c, S k → b.controls[k]? = some c → ∀ m ∈ c.strategy.members, S m
  events : ∃ new, b.trace = new ++ past ∧ b'.trace = new.map (Event.rename number) ++ past'

section

variable {number : ControlId → ControlId} {S : ControlId → Prop} {past past' : List (Event R)} {b b' : Bench R W}

theorem Copied.record (h : Copied number S past past' b b') (e : Event R) :
    Copied number S past past' (b.record e) (b'.record (e.rename number)) := by
  obtain ⟨new, hb, hb'⟩ := h.events
  exact ⟨h.world, h.markers, h.controls, h.members, e :: new, congrArg (e :: ·) hb,
    congrArg (e.rename number :: ·) hb'⟩

theorem Copied.likeness : Likeness Eq (Copied number S past past' : Bench R W → Bench R W → Prop) where
  world h := h.world
  markers h := h.markers
  elsewhere h hw := ⟨hw, h.markers, h.controls, h.members, h.events⟩
  setMarker k m h := ⟨h.world, congrArg (List.set · k m) h.markers, h.controls, h.members, h.events⟩
  record e he h := by
    have recorded := h.record e
    rwa [e.rename_of_isVisit number he] at recorded

/-- A control that is changed is changed in the copy. -/
theorem Copied.setControl (apart : ∀ i j, S i → S j → number i = number j → i = j)
    (h : Copied number S past past' b b') {k : ControlId} (hk : S k) {c : Control R}
    (hc : ∀ m ∈ c.strategy.members, S m) :
    Copied number S past past' (b.setControl k c) (b'.setControl (number k) (c.rename number)) := by
  refine ⟨h.world, h.markers, fun j hj => ?_, fun j d hj hd => ?_, h.events⟩
  · by_cases same : k = j
    · subst same
      simp only [Bench.setControl_controls, List.getElem?_set_self', h.controls k hk]
      cases b.controls[k]? <;> rfl
    · have apart' : number k ≠ number j := fun equal => same (apart k j hk hj equal)
      simp only [Bench.setControl_controls, List.getElem?_set_ne same, List.getElem?_set_ne apart']
      exact h.controls j hj
  · rw [Bench.setControl_controls] at hd
    by_cases same : k = j
    · subst same
      obtain ⟨-, -, rfl⟩ := Option.map_eq_some_iff.mp (List.getElem?_set_self'.symm.trans hd)
      exact hc
    · rw [List.getElem?_set_ne same] at hd
      exact h.members j d hj hd

theorem Copied.renumbers (apart : ∀ i j, S i → S j → number i = number j → i = j) :
    Renumbers number S (Copied number S past past' : Bench R W → Bench R W → Prop) where
  control h hk := h.controls _ hk
  member h hk hc hm := h.members _ _ hk hc _ hm
  setControl h hk hc := h.setControl apart hk hc
  visit _ h _ _ := h.record _

variable [Arith R] {site : Site R W}

/-- Updates of a control and of its copy come to the same, and leave a copy. -/
theorem run_mimics (apart : ∀ i j, S i → S j → number i = number j → i = j) {k : ControlId} (hk : S k)
    (turns : List (Turn W)) :
    Mimics (Copied number S past past') (run site k turns) (run site (number k) turns) := by
  have faithful : Faithful site Eq (Copied number S past past') := { indistinct_eq site, Copied.likeness with }
  have names : Renumbers number S (Copied number S past past' : Bench R W → Bench R W → Prop) :=
    Copied.renumbers apart
  induction turns with
  | nil => exact .pure _
  | cons turn later ih =>
    cases turn with
    | update depth mesh =>
      have answered : Mimics (Copied number S past past') (decided site depth k mesh)
          (decided site depth (number k) mesh) :=
        (faithful.update names depth hk mesh).bind fun _ => names.control_bind hk fun _ _ => .pure _
      have attempted : Mimics (Copied number S past past') (Intake.attempt (decided site depth k mesh))
          (Intake.attempt (decided site depth (number k) mesh)) := by
        intro b b' copied
        obtain ⟨same, left⟩ := answered b b' copied
        exact ⟨congrArg Except.ok same, left⟩
      exact attempted.bind fun _ => ih.bind fun _ => .pure _
    | meanwhile change =>
      refine .bind (.modified fun copied => ?_) fun _ => ih
      exact Copied.likeness.elsewhere copied (congrArg change copied.world)

end

/-! ## The same tree once more -/

/-- The tree under `k`, just made under other numbers, with the same settings and members. -/
structure Rebuilt (p : List (Strategy R)) (k : ControlId) (number : ControlId → ControlId) (t : Bench R W) :
    Prop where
  apart : ∀ i j, Reaches p k i → Reaches p k j → number i = number j → i = j
  made : ∀ j s, Reaches p k j → p[j]? = some s → t.controls[number j]? = some (Control.new (s.rename number))

/-- Whatever happens to the tree under `k` from now on, it would happen as well to one that is made now. -/
def AsNew [Arith R] (site : Site R W) (p : List (Strategy R)) (k : ControlId) (t : Bench R W) : Prop :=
  ∀ number t', Rebuilt p k number t' → t'.world = t.world → t'.markers = t.markers → ∀ later,
    outcome (run site k later) t = outcome (run site (number k) later) t' ∧
      Copied number (Reaches p k) t.trace t'.trace (stateAfter (run site k later) t)
        (stateAfter (run site (number k) later) t')

section

variable {p : List (Strategy R)} {k : ControlId} {b t : Bench R W}

/-- A tree can always be made once more, behind the controls that are there. -/
theorem rebuilt_behind (p : List (Strategy R)) (k : ControlId) (t : Bench R W) :
    Rebuilt p k (t.controls.length + ·) { t with
      controls := t.controls ++ p.map fun s => Control.new (s.rename (t.controls.length + ·)) } where
  apart i j _ _ same := Nat.add_left_cancel same
  made j s _ hs := by
    rw [List.getElem?_append_right (Nat.le_add_right _ _), Nat.add_sub_cancel_left, List.getElem?_map, hs,
      Option.map_some]

theorem Renews.asNew [Arith R] (site : Site R W) (tree : Tree p k) (h : Renews p (Reaches p k) b t) :
    AsNew site p k t := by
  intro number t' rebuilt world markers later
  refine run_mimics rebuilt.apart .refl later t t' ⟨world.symm, markers.symm, ?_, ?_, [], rfl, rfl⟩
  · intro j hj
    cases tree.of_reaches hj with
    | @node _ s hs _ _ =>
      rw [rebuilt.made j s hj hs, h.inside j hj, hs]
      rfl
  · intro j c hj hc m hm
    have hs : p[j]? = some c.strategy.restart := h.plan ▸ Bench.plan_getElem? hc
    exact hj.tail ⟨_, hs, by simpa using hm⟩

end

/-- After any run of updates of a tree, a reset of its root goes through, unless members are nested deeper than
    it goes. It leaves each control of the tree without a decision, and the tree as one that is just made. -/
theorem erases_history [Arith R] (site : Site R W) {b : Bench R W} {k : ControlId} (tree : Tree b.plan k)
    (before : List (Turn W)) (depth : Nat) :
    Ends (Update.reset site depth k) (stateAfter (run site k before) b)
      (fun _ t => Renews b.plan (Reaches b.plan k) (stateAfter (run site k before) b) t ∧
        (∀ j, Reaches b.plan k j → ∃ c, t.controls[j]? = some c ∧ c.last = .idle) ∧
        AsNew site b.plan k t)
      (fun f _ => f = .tooDeep ∧ ¬Shallow b.plan depth k) := by
  have planned : (stateAfter (run site k before) b).plan = b.plan := (run_plan k before).after b
  refine (reset_renews site tree planned depth).mono ?_ fun _ _ failed => failed
  rintro _ t ⟨-, renewed⟩
  refine ⟨renewed, fun j hj => ?_, renewed.asNew site tree⟩
  cases tree.of_reaches hj with
  | @node _ s hs _ _ =>
    refine ⟨Control.new s, ?_, rfl⟩
    rw [renewed.inside j hj, hs, Option.map_some]

/-- A limited control in a rotation, and both in another one. -/
def braided : Bench Float (Stand Unit) :=
  { Queries.steep with
    controls := [Control.new (.coarsenLimited { Coarsening.new 0 with limit := 1 } .coarsen),
      Control.new (.rotation (-1) [0]), Control.new (.rotation (-1) [1, 0])] }

theorem tree_braided : Tree braided.plan 2 := by
  have limited : Tree braided.plan 0 := .node rfl rfl nofun
  have inner : Tree braided.plan 1 := .node rfl rfl fun m hm => List.mem_singleton.mp hm ▸ limited
  refine .node rfl rfl fun m hm => ?_
  have hm : m ∈ [1, 0] := hm
  obtain rfl | rfl : m = 1 ∨ m = 0 := by simpa using hm
  · exact inner
  · exact limited

set_option maxRecDepth 20000 in
/-- Two updates leave the limit to be restored; once reset, the tree merges again, and so does a new one. -/
theorem erases_history_braided :
    Tree braided.plan 2 ∧
      ∃ t t', Update.reset (Stand.site Queries.lowPair) 3 2
          (stateAfter (run (Stand.site Queries.lowPair) 2 [.update 3 0, .update 3 0]) braided) = .ok ⟨⟩ t ∧
        Rebuilt braided.plan 2 (t.controls.length + ·) t' ∧
        outcome (run (Stand.site Queries.lowPair) (t.controls.length + 2) [.update 3 0]) t' =
          .ok [.ok (true, .again (some .derefine))] := by
  have ended := erases_history (Stand.site Queries.lowPair) tree_braided [.update 3 0, .update 3 0] 3
  obtain ⟨t, reset, merges⟩ : ∃ t, Update.reset (Stand.site Queries.lowPair) 3 2
      (stateAfter (run (Stand.site Queries.lowPair) 2 [.update 3 0, .update 3 0]) braided) = .ok ⟨⟩ t ∧
      outcome (run (Stand.site Queries.lowPair) 2 [.update 3 0]) t = .ok [.ok (true, .again (some .derefine))] :=
    ⟨_, outcome_ok rfl, rfl⟩
  obtain ⟨-, -, asNew⟩ := ended.of_ok reset
  have rebuilt := rebuilt_behind braided.plan 2 t
  obtain ⟨same, -⟩ := asNew _ _ rebuilt rfl rfl [.update 3 0]
  exact ⟨tree_braided, t, _, reset, rebuilt, same.symm.trans merges⟩

end Restart

end Regrid
