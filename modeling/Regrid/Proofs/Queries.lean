/-
  Regrid.Proofs.Queries — which decisions a control can be found with.

  A control is asked for the decision it took last. Which decisions those can be is told by
  its strategy (`Decides`); a rotation decides what one of its members has decided, at any
  depth, and so no more than the controls it is made of.

  A set of controls is followed from their making on, whatever else is on the bench. None of
  them is a caller's own, and only controls of the set are appended to its rotations. Any
  operation on any control may go on, and each may fail.

  Proved for every control of the set, at any time (`queries_agree`): one that tells to stop
  has changed nothing. One that has refined lets computations go on, or it asks to be applied
  again; the latter only if it is a limited control that has refined to restore its limit, or
  a rotation in a set with such a control. That does happen: a limit that takes two rounds to
  restore shows a control that has refined and does not let computations go on
  (`refined_and_asks`).
-/

import Regrid.Proofs.Handover

namespace Regrid

variable {R W α β ε σ : Type}

/-! ## Decisions of a strategy -/

/-- The decisions that a strategy without members takes; of a caller's own nothing is known. -/
def Strategy.Decides : Strategy R → Decision → Prop
  | .refine _ _ _, d => d = .idle ∨ d = .stop ∨ d = .proceed (some .refine)
  | .coarsen _, d => d = .idle ∨ d = .proceed (some .derefine)
  | .coarsenLimited _ _, d =>
    d = .idle ∨ d = .proceed (some .derefine) ∨ d = .again (some .derefine) ∨ d = .again (some .refine)
  | .rebalance, d => d = .idle ∨ d = .proceed (some .rebalance)
  | .rotation _ _, _ | .foreign _ _, _ => False

namespace Queries

/-- Some control of the set takes this decision. -/
def Could (S : ControlId → Prop) (p : List (Strategy R)) (d : Decision) : Prop :=
  ∃ j s, S j ∧ p[j]? = some s ∧ s.Decides d

/-- The decisions that a control of the set can be found with. -/
def Answers (S : ControlId → Prop) (p : List (Strategy R)) : Strategy R → Decision → Prop
  | .rotation _ _, d => d = .idle ∨ Could S p d
  | s, d => s.Decides d

/-- The bench has the plan, and the controls of the set are found with decisions of theirs. -/
structure Legal (S : ControlId → Prop) (p : List (Strategy R)) (b : Bench R W) : Prop where
  plan : b.plan = p
  answers : ∀ k c, S k → b.controls[k]? = some c → Answers S p c.strategy c.last

section

variable {S : ControlId → Prop} {p : List (Strategy R)} {b t : Bench R W} {k : ControlId} {c c' : Control R}

theorem decides_restart (s : Strategy R) (d : Decision) : s.restart.Decides d ↔ s.Decides d := by
  cases s <;> rfl

theorem answers_restart (s : Strategy R) (d : Decision) : Answers S p s.restart d ↔ Answers S p s d := by
  cases s <;> rfl

theorem answers_same {s s' : Strategy R} (h : s'.restart = s.restart) (d : Decision) :
    Answers S p s' d ↔ Answers S p s d := by
  rw [← answers_restart, h, answers_restart]

/-- A control that is found with a decision of its own can be found with none. -/
theorem Answers.idle {s : Strategy R} {d : Decision} (h : Answers S p s d) : Answers S p s .idle := by
  cases s with
  | refine _ _ _ | coarsen _ | coarsenLimited _ _ | rebalance | rotation _ _ => exact .inl rfl
  | foreign _ _ => exact h.elim

theorem Answers.of_decides {s : Strategy R} {d : Decision} (h : s.Decides d) : Answers S p s d := by
  cases s with
  | refine _ _ _ | coarsen _ | coarsenLimited _ _ | rebalance => exact h
  | rotation _ _ | foreign _ _ => exact h.elim

/-- A control decides as its strategy does, or it is a rotation. -/
theorem Answers.leaf_or_rotation {s : Strategy R} {d : Decision} (h : Answers S p s d) :
    s.Decides d ∨ (∃ cursor members, s = .rotation cursor members) ∧ (d = .idle ∨ Could S p d) := by
  cases s with
  | rotation cursor members => exact .inr ⟨⟨cursor, members, rfl⟩, h⟩
  | refine _ _ _ | coarsen _ | coarsenLimited _ _ | rebalance | foreign _ _ => exact .inl h

theorem Answers.could {s : Strategy R} {d : Decision} (h : Answers S p s d) (hk : S k) (hp : p[k]? = some s.restart) :
    d = .idle ∨ Could S p d := by
  rcases h.leaf_or_rotation with decides | ⟨-, could⟩
  · exact .inr ⟨k, _, hk, hp, (decides_restart _ d).mpr decides⟩
  · exact could

theorem Legal.strategy (h : Legal S p b) (hk : b.controls[k]? = some c) : p[k]? = some c.strategy.restart := by
  rw [← h.plan]
  exact Bench.plan_getElem? hk

theorem Legal.of_controls (h : Legal S p b) (hc : t.controls = b.controls) : Legal S p t :=
  ⟨by rw [Bench.plan, hc]; exact h.plan, by rw [hc]; exact h.answers⟩

theorem Legal.of_rounds (h : Legal S p b) (ht : t.rounds = b.rounds) : Legal S p t :=
  h.of_controls (congrArg Prod.fst ht)

/-- A control is changed in its progress, and found with a decision of its own. -/
theorem Legal.set (h : Legal S p b) (hk : b.controls[k]? = some c) (hc : c'.strategy.restart = c.strategy.restart)
    (answers : S k → Answers S p c.strategy c'.last) : Legal S p (b.setControl k c') := by
  refine ⟨(Bench.plan_setControl hk hc).trans h.plan, ?_⟩
  intro j d hj hd
  by_cases hjk : k = j
  · subst hjk
    obtain rfl := Option.some.inj ((Bench.setControl_get hk).symm.trans hd)
    exact (answers_same hc _).mpr (answers hj)
  · rw [Bench.setControl_controls, List.getElem?_set_ne hjk] at hd
    exact h.answers j d hj hd

end

/-! ## What leaves decide -/

/-- Whatever the action returns satisfies the predicate. -/
def Yields (P : α → Prop) (x : EStateM ε σ α) : Prop := ∀ s, Ends x s (fun a _ => P a) (fun _ _ => True)

namespace Yields

variable {P : β → Prop}

theorem pure {b : β} (h : P b) : Yields P (Pure.pure b : EStateM ε σ β) := fun _ => h

theorem bind {x : EStateM ε σ α} {y : α → EStateM ε σ β} (hy : ∀ a, Yields P (y a)) : Yields P (x >>= y) := by
  intro s
  rw [ends_bind]
  exact ends_true.mono (fun a t _ => hy a t) fun _ _ h => h

theorem ite {c : Prop} [Decidable c] {x y : EStateM ε σ β} (hx : Yields P x) (hy : Yields P y) :
    Yields P (if c then x else y) := by
  split
  · exact hx
  · exact hy

end Yields

section

variable [Arith R] {site : Site R W} {mesh : MeshId}

theorem applyRefine_yields (marker : MarkerId) (mode : Mode) (limit : Int) :
    Yields (Strategy.refine marker mode limit : Strategy R).Decides (Update.applyRefine site marker mode limit mesh) :=
  .bind fun _ => .bind fun _ => .ite (.bind fun _ => .pure (.inr (.inl rfl))) <|
    .bind fun _ => .ite (.bind fun _ => .pure (.inr (.inl rfl))) <|
      .bind fun _ => .bind fun _ => .pure (.inr (.inr rfl))

theorem coarsen_yields (how : Coarsening R) (label : String) :
    Yields (Strategy.coarsen how).Decides (Coarsen.apply site how label mesh) :=
  .bind fun _ => .ite (.pure (.inl rfl)) <| .bind fun _ => .ite (.pure (.inr rfl)) (.pure (.inl rfl))

theorem coarsenLimited_yields (how : Coarsening R) (stage : Stage) (label : String) :
    Yields (fun r => (Strategy.coarsenLimited how stage).Decides r.1) (Coarsen.applyLimited site how stage label mesh) := by
  refine .bind fun _ => .ite (.pure (.inl rfl)) ?_
  cases stage with
  | coarsen =>
    refine .bind fun _ => .ite (.pure (.inl rfl)) (.bind fun _ => .ite (.pure ?_) (.pure ?_))
    · exact .inr (.inr (.inl rfl))
    · exact .inr (.inl rfl)
  | limit =>
    refine .bind fun _ => .bind fun _ => .bind fun _ => .bind fun _ => .ite (.pure ?_) (.pure ?_)
    · exact .inr (.inr (.inr rfl))
    · exact .inr (.inl rfl)

omit [Arith R] in
theorem applyRebalance_yields : Yields (Strategy.rebalance : Strategy R).Decides (Update.applyRebalance site mesh) :=
  .bind fun _ => .ite (.pure (.inl rfl)) (.bind fun _ => .bind fun _ => .bind fun _ => .pure (.inr rfl))

end

/-! ## Updates and resets -/

section

variable {S : ControlId → Prop} {p : List (Strategy R)} {b : Bench R W} {k : ControlId}

/-- Whatever comes of the action, the bench stays legal. -/
def Safe (S : ControlId → Prop) (p : List (Strategy R)) (x : Act R W α) : Prop :=
  ∀ b, Legal S p b → Ends x b (fun _ t => Legal S p t) (fun _ t => Legal S p t)

theorem Safe.discard {x : Act R W α} (hx : Safe S p x) : Safe S p (discard x) :=
  fun b h => ends_discard.mpr (hx b h)

theorem safe_of_rounds {x : Act R W α} (h : Keeps (Unseen Bench.rounds) x) : Safe S p x :=
  fun b legal => (h b).mono (fun _ _ => legal.of_rounds) fun _ _ => legal.of_rounds

theorem ends_control_legal {P : Control R → Bench R W → Prop} (h : Legal S p b)
    (hP : ∀ c, b.controls[k]? = some c → P c b) :
    Ends (Act.control k : Act R W (Control R)) b P (fun _ t => Legal S p t) := by
  cases hk : b.controls[k]? with
  | none => exact (Act.ends_control_none hk).mpr h
  | some c => exact (Act.ends_control_some hk).mpr (hP c hk)

theorem moveCursor_safe (f : Int → Int) : Safe S p (Rotation.moveCursor k f : Act R W Int) := by
  intro b h
  simp only [Rotation.moveCursor, ends_bind]
  refine ends_control_legal h fun c hc => ?_
  refine h.set hc (withCursor_restart _ _) ?_
  intro hk
  exact h.answers k c hk hc

theorem remember_ends {d : Decision} (h : Legal S p b)
    (answers : ∀ c, S k → b.controls[k]? = some c → Answers S p c.strategy d) :
    Ends (Update.remember k d : Act R W Unit) b (fun _ t => Legal S p t) (fun _ t => Legal S p t) := by
  simp only [Update.remember, ends_bind]
  refine ends_control_legal h fun c hc => ?_
  exact h.set hc rfl fun hk => answers c hk hc

/-- A rotation decides nothing, or what a member in the set was found with. -/
theorem turn_legal (hS : Closed p S) {visit : ControlId → Act R W Unit} (hv : ∀ m, Safe S p (visit m)) (size turns : Nat)
    (h : Legal S p b) :
    Ends (Rotation.turn visit k size turns) b (fun d t => Legal S p t ∧ (S k → d = .idle ∨ Could S p d))
      (fun _ t => Legal S p t) := by
  induction turns generalizing b with
  | zero => exact ⟨h, fun _ => .inl rfl⟩
  | succ turns ih =>
    simp only [Rotation.turn, ends_bind]
    refine (moveCursor_safe _ b h).mono (fun cursor t₁ h₁ => ?_) fun _ _ h => h
    refine ends_control_legal h₁ fun c hc => ?_
    split
    · exact h₁
    · rename_i member hm
      simp only [ends_bind, Act.ends_record]
      have visiting : Legal S p (t₁.record (.visit k cursor.toNat member)) := h₁.of_controls rfl
      refine (hv member _ visiting).mono (fun _ t₂ h₂ => ?_) fun _ _ h => h
      refine ends_control_legal h₂ fun c' hc' => ?_
      have decided : S k → c'.last = .idle ∨ Could S p c'.last := by
        intro hk
        have holds : Holds p k member :=
          ⟨_, h₁.strategy hc, by simpa using List.mem_of_getElem? hm⟩
        have hmember : S member := hS k member hk holds
        exact (h₂.answers member c' hmember hc').could hmember (h₂.strategy hc')
      split
      · exact ih h₂
      · simp only [ends_bind]
        refine ends_control_legal h₂ fun c'' _ => ?_
        rw [Act.ends_note]
        have noted : Legal S p (t₂.record (.note (.answered (Rotation.cursorOf c''.strategy) c'.strategy.label c'.last))) :=
          h₂.of_controls rfl
        split
        · rw [ends_bind, ends_discard]
          exact (moveCursor_safe _ _ noted).mono (fun _ _ h => ⟨h, decided⟩) fun _ _ h => h
        · exact ⟨noted, decided⟩

/-- A leaf decides as its strategy does, and touches no control. -/
theorem leaf_legal {s : Strategy R} {x : Act R W Decision} (h : Legal S p b) (hp : p[k]? = some s.restart)
    (rounds : Keeps (Unseen Bench.rounds) x) (yields : Yields s.Decides x) :
    Ends x b (fun d t => Legal S p t ∧ (S k → ∀ s', p[k]? = some s' → Answers S p s' d)) (fun _ t => Legal S p t) := by
  refine ((rounds b).and (yields b)).mono ?_ fun _ _ ht => h.of_rounds ht.1
  intro d t ht
  refine ⟨h.of_rounds ht.1, ?_⟩
  intro _ s' hs'
  obtain rfl := Option.some.inj (hp.symm.trans hs')
  exact (answers_restart s d).mpr (.of_decides ht.2)

variable [Arith R] {site : Site R W}

/-- A control of the set decides what it can be found with. -/
theorem apply_legal (hS : Closed p S) {visit : ControlId → Act R W Unit} (hv : ∀ m, Safe S p (visit m))
    (mesh : MeshId) (h : Legal S p b) :
    Ends (Update.apply site visit k mesh) b
      (fun d t => Legal S p t ∧ (S k → ∀ s, p[k]? = some s → Answers S p s d)) (fun _ t => Legal S p t) := by
  simp only [Update.apply, ends_bind]
  refine ends_control_legal h fun c hc => ?_
  have hp := h.strategy hc
  have answers := h.answers k c
  have mild := mild_rounds site
  obtain ⟨last, s⟩ := c
  cases s with
  | refine marker mode limit => exact leaf_legal h hp (mild.applyRefine _ _ _ _) (applyRefine_yields _ _ _)
  | coarsen how => exact leaf_legal h hp (mild.coarsen _ _ _) (coarsen_yields _ _)
  | coarsenLimited how stage =>
    rw [ends_bind]
    refine ((mild.coarsenLimited how stage _ mesh b).and (coarsenLimited_yields how stage _ b)).mono ?_ ?_
    · rintro ⟨d, stage'⟩ t ⟨rounds, decides⟩
      have hct : t.controls[k]? = some ⟨last, .coarsenLimited how stage⟩ := by
        rw [show t.controls = b.controls from congrArg Prod.fst rounds, hc]
      rw [ends_bind, Act.ends_putControl, ends_pure]
      refine ⟨(h.of_rounds rounds).set hct rfl fun hk => answers hk hc, ?_⟩
      intro _ s hs
      obtain rfl := Option.some.inj (hp.symm.trans hs)
      exact decides
    · rintro f t ⟨rounds, -⟩
      exact h.of_rounds rounds
  | rebalance => exact leaf_legal h hp (mild.applyRebalance _) applyRebalance_yields
  | rotation cursor members =>
    refine (turn_legal hS hv _ _ h).mono (fun d t ht => ⟨ht.1, ?_⟩) fun _ _ h => h
    intro hk s hs
    obtain rfl := Option.some.inj (hp.symm.trans hs)
    exact ht.2 hk
  | foreign f label =>
    refine (safe_of_rounds (overlooks_rounds.ask _) b h).mono (fun d t ht => ⟨ht, ?_⟩) fun _ _ h => h
    intro hk s hs
    exact (answers hk hc).elim

theorem update_safe (hS : Closed p S) (depth : Nat) (k : ControlId) (mesh : MeshId) :
    Safe S p (Update.update site depth k mesh) := by
  induction depth generalizing k with
  | zero => exact fun b h => h
  | succ depth ih =>
    intro b h
    simp only [Update.update, ends_bind]
    refine (apply_legal hS (fun m => (ih m).discard) mesh h).mono ?_ fun _ _ h => h
    rintro d t ⟨ht, answers⟩
    refine remember_ends ht fun c hk hc => ?_
    exact (answers_restart _ _).mp (answers hk _ (ht.strategy hc))

omit [Arith R] in
theorem forM_safe {f : ControlId → Act R W PUnit} (hf : ∀ m, Safe S p (f m)) (members : List ControlId) :
    Safe S p (members.forM f) := by
  induction members with
  | nil => exact fun b h => h
  | cons m ms ih =>
    intro b h
    show Ends (f m >>= fun _ => ms.forM f) b _ _
    rw [ends_bind]
    exact (hf m b h).mono (fun _ t ht => ih t ht) fun _ _ h => h

omit [Arith R] in
theorem reset_safe (depth : Nat) (k : ControlId) : Safe S p (Update.reset site depth k) := by
  induction depth generalizing k with
  | zero => exact fun b h => h
  | succ depth ih =>
    intro b h
    simp only [Update.reset, ends_bind]
    refine (remember_ends h fun c hk hc => (h.answers k c hk hc).idle).mono ?_ fun _ _ h => h
    intro _ t ht
    refine ends_control_legal ht fun c hc => ?_
    have restarted : Legal S p (t.setControl k ⟨.idle, c.strategy.restart⟩) :=
      ht.set hc (Strategy.restart_restart _) fun hk => (ht.answers k c hk hc).idle
    obtain ⟨last, s⟩ := c
    cases s with
    | rotation cursor members =>
      rw [ends_bind]
      refine (forM_safe ih members t ht).mono ?_ fun _ _ h => h
      intro _ u hu
      rw [ends_discard]
      exact moveCursor_safe _ u hu
    | foreign f label => exact safe_of_rounds (overlooks_rounds.ask _) t ht
    | refine _ _ _ | coarsen _ | coarsenLimited _ _ | rebalance => exact restarted

end

/-! ## Runs -/

/-- A strategy as the library's own controls are made with it. -/
inductive Plain : Strategy Float → Prop
  | refine (marker : MarkerId) : Plain (Control.refining marker)
  | coarsen (estimator : EstimatorId) : Plain (.coarsen (Coarsening.new estimator))
  | coarsenLimited (estimator : EstimatorId) : Plain (.coarsenLimited (Coarsening.new estimator) .coarsen)
  | rebalance : Plain .rebalance
  | rotation : Plain Control.emptyRotation

/-- A run on a set of controls, from before any of them is made. Whatever is done to any control may
    fail; only controls of the set are appended to its rotations. Meanwhile anything may happen that
    leaves the controls of the set alone. -/
inductive Run (site : Site Float W) (S : ControlId → Prop) : Bench Float W → Prop
  | start {b : Bench Float W} : (∀ k, S k → b.controls[k]? = none) → Run site S b
  | makes {b : Bench Float W} {s} : Run site S b → Plain s →
      Run site S { b with controls := b.controls ++ [Control.new s] }
  | operate {b : Bench Float W} (op : Handover.Op) : Run site S b → Run site S (stateAfter (op.act site) b)
  | append {b : Bench Float W} {k m} : Run site S b → (S k → S m) →
      Run site S (stateAfter (Rotation.append k m) b)
  | clear {b : Bench Float W} {k} : Run site S b → Run site S (stateAfter (Rotation.clear k) b)
  | meanwhile {b t : Bench Float W} : Run site S b → (∀ k, S k → t.controls[k]? = b.controls[k]?) → Run site S t

/-- The invariant of runs. -/
structure Kept (S : ControlId → Prop) (b : Bench R W) : Prop where
  closed : Closed b.plan S
  legal : Legal S b.plan b

section

variable {S : ControlId → Prop} {b t : Bench R W} {k : ControlId} {c c' : Control R}

theorem Answers.mono {p p' : List (Strategy R)} (could : ∀ d, Could S p d → Could S p' d) {s : Strategy R} {d : Decision}
    (h : Answers S p s d) : Answers S p' s d := by
  rcases h.leaf_or_rotation with decides | ⟨⟨cursor, members, rfl⟩, idle | held⟩
  · exact .of_decides decides
  · exact .inl idle
  · exact .inr (could d held)

/-- Controls that were there are there, and decide what they did. -/
theorem could_of_controls
    (h : ∀ j c, S j → b.controls[j]? = some c →
      ∃ c', t.controls[j]? = some c' ∧ ∀ d, c.strategy.Decides d → c'.strategy.Decides d)
    (d : Decision) (could : Could S b.plan d) : Could S t.plan d := by
  obtain ⟨j, s, hj, hs, decides⟩ := could
  simp only [Bench.plan, List.getElem?_map, Option.map_eq_some_iff] at hs
  obtain ⟨c, hc, rfl⟩ := hs
  obtain ⟨c', hc', grows⟩ := h j c hj hc
  exact ⟨j, _, hj, Bench.plan_getElem? hc', (decides_restart _ d).mpr (grows d ((decides_restart _ d).mp decides))⟩

/-- What a control of the set holds, and what it is found with. -/
theorem Kept.each (h : Kept S b) (hk : S k) (hc : b.controls[k]? = some c) :
    (∀ m ∈ c.strategy.members, S m) ∧ Answers S b.plan c.strategy c.last := by
  refine ⟨fun m hm => ?_, h.legal.answers k c hk hc⟩
  exact h.closed k m hk ⟨_, Bench.plan_getElem? hc, by simpa using hm⟩

theorem kept_of_each (could : ∀ d, Could S b.plan d → Could S t.plan d)
    (each : ∀ k c, S k → t.controls[k]? = some c →
      (∀ m ∈ c.strategy.members, S m) ∧ Answers S b.plan c.strategy c.last) : Kept S t := by
  refine ⟨?_, rfl, ?_⟩
  · rintro k m hk ⟨s, hs, hm⟩
    simp only [Bench.plan, List.getElem?_map, Option.map_eq_some_iff] at hs
    obtain ⟨c, hc, rfl⟩ := hs
    exact (each k c hk hc).1 m (by simpa using hm)
  · intro k c hk hc
    exact (each k c hk hc).2.mono could

theorem Kept.of_same (h : Kept S b) (same : ∀ k, S k → t.controls[k]? = b.controls[k]?) : Kept S t := by
  refine kept_of_each (could_of_controls fun j c hj hc => ⟨c, (same j hj).trans hc, fun _ h => h⟩) ?_
  intro k c hk hc
  exact h.each hk ((same k hk).symm.trans hc)

theorem Kept.of_controls (h : Kept S b) (same : t.controls = b.controls) : Kept S t :=
  h.of_same fun _ _ => by rw [same]

/-- Safe actions that keep the plan keep the invariant. -/
theorem Kept.of_safe (h : Kept S b) {x : Act R W α} (safe : Safe S b.plan x) : Kept S (stateAfter x b) := by
  have legal : Legal S b.plan (stateAfter x b) := ends_stateAfter.mp (safe b h.legal)
  have same := legal.plan
  exact ⟨by rw [same]; exact h.closed, by rw [same]; exact legal⟩

/-- The second strategy differs from the first in settings or members. -/
structure Akin (s s' : Strategy R) : Prop where
  decides : ∀ d, s.Decides d → s'.Decides d
  answers : ∀ S p d, Answers S p s d → Answers S p s' d

theorem Kept.set (h : Kept S b) (hk : b.controls[k]? = some c) (akin : Akin c.strategy c'.strategy)
    (last : c'.last = c.last) (members : S k → ∀ m ∈ c'.strategy.members, S m) : Kept S (b.setControl k c') := by
  refine kept_of_each (could_of_controls (b := b) fun j d hj hd => ?_) fun j d hj hd => ?_
  · by_cases hkj : k = j
    · subst hkj
      obtain rfl := Option.some.inj (hk.symm.trans hd)
      exact ⟨c', Bench.setControl_get hk, akin.decides⟩
    · exact ⟨d, by rw [Bench.setControl_controls, List.getElem?_set_ne hkj, hd], fun _ h => h⟩
  · by_cases hkj : k = j
    · subst hkj
      obtain rfl := Option.some.inj ((Bench.setControl_get hk).symm.trans hd)
      exact ⟨members hj, akin.answers _ _ _ (last ▸ (h.each hj hk).2)⟩
    · rw [Bench.setControl_controls, List.getElem?_set_ne hkj] at hd
      exact h.each hj hd

end

section

variable {site : Site Float W} {S : ControlId → Prop} {b : Bench Float W} {k : ControlId}

/-- A setting changes nothing in what a control can decide. -/
theorem tune_akin {c c' : Control Float} {s : ControlSetting} (h : c.tune s = .ok c') :
    c'.last = c.last ∧ Akin c.strategy c'.strategy ∧ c'.strategy.members = c.strategy.members := by
  obtain ⟨last, strategy⟩ := c
  cases strategy with
  | refine marker mode limit =>
    cases s with
    | mode mode' v =>
      obtain ⟨n, -, hc⟩ := ok_of_bind h
      cases hc
      exact ⟨rfl, ⟨fun _ h => h, fun _ _ _ h => h⟩, rfl⟩
    | threshold v | combine v | limit v => cases h
  | coarsen how =>
    obtain ⟨how', -, hc⟩ := ok_of_bind h
    cases hc
    exact ⟨rfl, ⟨fun _ h => h, fun _ _ _ h => h⟩, rfl⟩
  | coarsenLimited how stage =>
    obtain ⟨how', -, hc⟩ := ok_of_bind h
    cases hc
    exact ⟨rfl, ⟨fun _ h => h, fun _ _ _ h => h⟩, rfl⟩
  | rebalance | rotation cursor members | foreign f label => cases h

theorem kept_operate (h : Kept S b) (op : Handover.Op) : Kept S (stateAfter (op.act site) b) := by
  have rounds {α : Type} {x : Act Float W α} (hx : Keeps (Unseen Bench.rounds) x) : Kept S (stateAfter x b) :=
    h.of_safe (safe_of_rounds hx)
  have noted (f : Fault) : Kept S (b.noteFault f) :=
    h.of_controls (congrArg Prod.fst (b.rounds_noteFault f))
  have mild := mild_rounds site
  cases op with
  | update depth c m => exact h.of_safe (update_safe h.closed depth c m).discard
  | reset depth c => exact h.of_safe (reset_safe depth c)
  | tuneControl j s =>
    refine Act.changeControl_leaves (fun _ => h) (fun _ f _ _ => noted f) fun c c' hc htune => ?_
    obtain ⟨last, akin, members⟩ := tune_akin htune
    exact h.set hc akin last fun hj => members ▸ (h.each hj hc).1
  | read marker => exact rounds (mild.read marker).discard
  | stops marker => exact rounds (mild.stops (mild.read marker)).discard
  | tuneMarker marker s =>
    exact Act.changeMarker_leaves (fun _ => h) (fun _ f _ _ => noted f) fun _ _ _ _ => h.of_controls rfl
  | forget marker =>
    exact Act.changeMarker_leaves (fun _ => h) (fun _ f _ _ => noted f) fun _ _ _ _ => h.of_controls rfl
  | refine m marks mode limit => exact rounds (mild.refineMesh m marks mode limit)

theorem kept_append (h : Kept S b) {m : ControlId} (hm : S k → S m) :
    Kept S (stateAfter (Rotation.append k m) b) := by
  refine ends_stateAfter.mp ((Rotation.append_ends k m).mono ?_ ?_)
  · rintro n t ⟨-, last, cursor, members, hc, -, rfl⟩
    refine h.set hc ⟨fun _ h => h, fun _ _ _ h => h⟩ rfl ?_
    intro hk j hj
    rcases List.mem_append.mp hj with hj | hj
    · exact (h.each hk hc).1 j hj
    · rw [List.mem_singleton.mp hj]
      exact hm hk
  · rintro f t rfl
    exact h

theorem kept_clear (h : Kept S b) : Kept S (stateAfter (Rotation.clear k) b) := by
  refine ends_stateAfter.mp ((Rotation.clear_ends k).mono ?_ ?_)
  · rintro _ t ⟨last, cursor, members, hc, rfl⟩
    exact h.set hc ⟨fun _ h => h, fun _ _ _ h => h⟩ rfl fun _ => nofun
  · rintro f t rfl
    exact h

theorem kept_makes (h : Kept S b) {s : Strategy Float} (plain : Plain s) :
    Kept S { b with controls := b.controls ++ [Control.new s] } := by
  refine kept_of_each (could_of_controls (b := b) fun j c hj hc => ⟨c, ?_, fun _ h => h⟩) fun k c hk hc => ?_
  · obtain ⟨hlt, -⟩ := List.getElem?_eq_some_iff.mp hc
    exact (List.getElem?_append_left hlt).trans hc
  · by_cases hlt : k < b.controls.length
    · exact h.each hk ((List.getElem?_append_left hlt).symm.trans hc)
    · obtain rfl : Control.new s = c := by
        simp only [List.getElem?_append_right (Nat.le_of_not_lt hlt)] at hc
        exact (List.mem_singleton.mp (List.mem_of_getElem? hc)).symm
      cases plain with
      | refine _ | coarsen _ | coarsenLimited _ | rebalance | rotation => exact ⟨nofun, .inl rfl⟩

theorem run_kept (h : Run site S b) : Kept S b := by
  induction h with
  | @start b none =>
    refine kept_of_each (b := b) (fun _ h => h) fun k c hk hc => ?_
    rw [none k hk] at hc
    cases hc
  | makes _ plain ih => exact kept_makes ih plain
  | operate op _ ih => exact kept_operate ih op
  | append _ hm ih => exact kept_append ih hm
  | clear _ ih => exact kept_clear ih
  | meanwhile _ same ih => exact ih.of_same same

/-- A strategy that has refined lets computations go on, but for one that restores a limit. -/
theorem decides_refine {s : Strategy R} {d : Decision} (h : s.Decides d) (hd : d.isRefine = true) :
    d.isProceed = true ∨ d.isAgain = true ∧ ∃ how stage, s = .coarsenLimited how stage := by
  cases s with
  | refine marker mode limit =>
    rcases h with rfl | rfl | rfl
    · cases hd
    · cases hd
    · exact .inl rfl
  | coarsen how =>
    rcases h with rfl | rfl <;> cases hd
  | coarsenLimited how stage =>
    rcases h with rfl | rfl | rfl | rfl
    · cases hd
    · cases hd
    · cases hd
    · exact .inr ⟨rfl, how, stage, rfl⟩
  | rebalance =>
    rcases h with rfl | rfl <;> cases hd
  | rotation _ _ | foreign _ _ => exact h.elim

/-- At any time a control of the set that tells to stop has changed nothing, and one that has refined
    lets computations go on, or asks to be applied again; then it is a limited control, or a rotation
    and some control of the set is a limited one. -/
theorem queries_agree (h : Run site S b) (hk : S k) {c : Control Float} (hc : b.controls[k]? = some c) :
    (c.last.isStop = true →
      c.last.isRefine = false ∧ c.last.isDerefine = false ∧ c.last.isRebalance = false) ∧
    (c.last.isRefine = true → c.last.isProceed = true ∨
      c.last.isAgain = true ∧ ((∃ how stage, c.strategy = .coarsenLimited how stage) ∨
        (∃ cursor members, c.strategy = .rotation cursor members) ∧
          ∃ j last how stage, S j ∧ b.controls[j]? = some ⟨last, .coarsenLimited how stage⟩)) := by
  obtain ⟨last, strategy⟩ := c
  have answers : Answers S b.plan strategy last := (run_kept h).legal.answers k _ hk hc
  constructor
  · intro hstop
    cases last with
    | stop => exact ⟨rfl, rfl, rfl⟩
    | idle | proceed _ | again _ => cases hstop
  · intro hrefine
    rcases answers.leaf_or_rotation with decides | ⟨rotation, rfl | ⟨j, s, hj, hs, decides⟩⟩
    · rcases decides_refine decides hrefine with proceeds | ⟨again, limited⟩
      · exact .inl proceeds
      · exact .inr ⟨again, .inl limited⟩
    · cases hrefine
    · rcases decides_refine decides hrefine with proceeds | ⟨again, how, stage, rfl⟩
      · exact .inl proceeds
      · simp only [Bench.plan, List.getElem?_map, Option.map_eq_some_iff] at hs
        obtain ⟨⟨last', s'⟩, hc', hs'⟩ := hs
        refine .inr ⟨again, .inr ⟨rotation, j, last', ?_⟩⟩
        cases s' with
        | coarsenLimited how' stage' => exact ⟨how', stage', hj, hc'⟩
        | refine _ _ _ | coarsen _ | rebalance | rotation _ _ | foreign _ _ => cases hs'

end

/-! ## A closed run -/

/-- Two trees: merging the first pair puts a leaf beside one that is three levels finer. -/
def steep : Bench Float (Stand Unit) where
  world := ⟨⟨[⟨0, 1, 0⟩, ⟨0, 1, 1⟩, ⟨1, 3, 0⟩, ⟨1, 3, 1⟩, ⟨1, 2, 1⟩, ⟨1, 1, 1⟩], 0⟩, true, false, ⟨⟩⟩
  markers := []
  controls := []
  trace := []

/-- The first two elements have no error, the others a great one. -/
def lowPair : Stand.Company Float Unit where
  errors _ _ := pure [0, 0, 5, 5, 5, 5]
  flags _ _ := pure none
  marking _ _ := throw .missing
  decide _ _ := pure .idle
  reset _ _ := pure ⟨⟩

/-- A limited control under a limit, in a rotation that is updated twice. -/
def restoring : Bench Float (Stand Unit) :=
  let made := { steep with
    controls := [Control.new (.coarsenLimited (Coarsening.new 0) .coarsen), Control.new Control.emptyRotation] }
  let held := stateAfter (Rotation.append 1 0) made
  let limited := stateAfter ((Handover.Op.tuneControl 0 (.limit (.int 1))).act (Stand.site lowPair)) held
  let merged := stateAfter ((Handover.Op.update 2 1 0).act (Stand.site lowPair)) limited
  stateAfter ((Handover.Op.update 2 1 0).act (Stand.site lowPair)) merged

theorem run_restoring : Run (Stand.site lowPair) (· < 2) restoring := by
  have started : Run (Stand.site lowPair) (· < 2) steep := .start fun _ _ => rfl
  have made := (started.makes (.coarsenLimited 0)).makes .rotation
  have held := made.append (k := 1) (m := 0) fun _ => by decide
  exact ((held.operate (.tuneControl 0 (.limit (.int 1)))).operate (.update 2 1 0)).operate (.update 2 1 0)

theorem queries_agree_restoring :
    ∃ c, restoring.controls[1]? = some c ∧ 1 < 2 ∧ Run (Stand.site lowPair) (· < 2) restoring ∧
      c.last.isRefine = true ∧ c.last.isProceed = false ∧
      ∃ j last how stage, j < 2 ∧ restoring.controls[j]? = some ⟨last, .coarsenLimited how stage⟩ := by
  obtain ⟨c, hc, last, strategy⟩ : ∃ c, restoring.controls[1]? = some c ∧ c.last = .again (some .refine) ∧
      c.strategy = .rotation (-1) [0] := ⟨_, rfl, rfl, rfl⟩
  have refined : c.last.isRefine = true := by rw [last]; rfl
  have waits : c.last.isProceed = false := by rw [last]; rfl
  rcases (queries_agree run_restoring (by decide : 1 < 2) hc).2 refined with proceeds | ⟨-, limited⟩
  · rw [waits] at proceeds
    cases proceeds
  · rcases limited with ⟨how, stage, limited⟩ | ⟨-, inside⟩
    · rw [strategy] at limited
      cases limited
    · exact ⟨c, hc, by decide, run_restoring, refined, waits, inside⟩

/-- A control and a rotation that have refined, and do not let computations go on. -/
theorem refined_and_asks :
    Run (Stand.site lowPair) (· < 2) restoring ∧ ∀ k < 2, ∃ c, restoring.controls[k]? = some c ∧
      c.last.isRefine = true ∧ c.last.isProceed = false := by
  refine ⟨run_restoring, fun k hk => ?_⟩
  obtain rfl | rfl : k = 0 ∨ k = 1 := by omega
  · exact ⟨_, rfl, rfl, rfl⟩
  · exact ⟨_, rfl, rfl, rfl⟩

end Queries

end Regrid
