/-
  Regrid.Proofs.Rounds — rules for cycles and runs.

  A cycle goes in rounds: an update, a record, a word to the caller (`ends_apply`); a run in
  outer iterations: a computation and a cycle (`ends_iteration`). A cycle that has ended does
  not depend on how patient the caller was (`apply_more`).

  A run sees its state through its control, its mesh and its callbacks only. When a state
  carries something besides, `π` forgets it, and nothing that the run calls looks at it, the
  run is the one without it (`run_mirrors`). So a run of a session whose callbacks keep to the
  bench is a run of that bench (`Session.handle_mirrors`).
-/

import Regrid.Desk.Cycles
import Regrid.Proofs.Outcome

namespace Regrid

namespace Cycle

variable {R S T : Type}

/-! ## Rounds of a cycle -/

section

variable {h : Handle R S} {keep onUpdate : Decision → EStateM Fault S Unit} {s : S}
    {P : Decision → S → Prop} {Q : Fault → S → Prop}

/-- One round: an update, a record, a word to the caller, and the next round unless all is done. -/
theorem ends_apply (patience : Nat) :
    Ends (apply h keep onUpdate (patience + 1)) s P Q ↔
      Ends h.update s (fun needs t => Ends (keep (h.decision t)) t (fun _ u =>
        if needs then
          Ends (onUpdate (h.decision t)) u (fun _ v =>
            if (h.decision v).isProceed then P (h.decision t) v
            else Ends (apply h keep onUpdate patience) v P Q) Q
        else P (h.decision t) u) Q) Q := by
  simp only [apply, ends_bind, ends_get]
  refine Iff.of_eq (congrArg (Ends h.update s · Q) ?_)
  funext needs t
  refine congrArg (Ends (keep (h.decision t)) t · Q) ?_
  funext _ u
  cases needs with
  | false => rfl
  | true =>
    simp only [Bool.not_true, Bool.false_eq_true, if_false, if_true, ends_bind, ends_get]
    refine congrArg (Ends (onUpdate (h.decision t)) u · Q) ?_
    funext _ v
    split <;> rfl

/-- A cycle that has ended does not depend on how patient the caller was. -/
theorem apply_more {patience : Nat} {d : Decision} {t : S} (hd : apply h keep onUpdate patience s = .ok d t)
    (more : Nat) : apply h keep onUpdate (patience + more) s = .ok d t := by
  have same : Ends (apply h keep onUpdate (patience + more)) s (fun d' t' => d' = d ∧ t' = t)
      (fun _ _ => False) := by
    have ended : Ends (apply h keep onUpdate patience) s (fun d' t' => d' = d ∧ t' = t)
        (fun _ _ => False) := (ends_of_ok hd).mpr ⟨rfl, rfl⟩
    clear hd
    induction patience generalizing s with
    | zero => exact ended.elim
    | succ patience ih =>
      rw [show patience + 1 + more = patience + more + 1 by omega]
      rw [ends_apply] at ended ⊢
      refine ended.mono (fun needs t₁ h₁ => h₁.mono (fun _ t₂ h₂ => ?_) fun _ _ h => h) fun _ _ h => h
      cases needs with
      | false => exact h₂
      | true =>
        refine Ends.mono h₂ (fun _ t₃ h₃ => ?_) fun _ _ h => h
        split at h₃
        · rwa [if_pos ‹_›]
        · rw [if_neg ‹_›]
          exact ih h₃
  obtain ⟨_, _, hok, rfl, rfl⟩ := same.returns
  exact hok

end

theorem ends_lift {α : Type} {x : EStateM Fault S α} {l : Logged S} {P : α → Logged S → Prop}
    {Q : Fault → Logged S → Prop} :
    Ends (Logged.lift x) l P Q ↔
      Ends x l.state (fun a s => P a { l with state := s }) (fun f s => Q f { l with state := s }) := by
  simp only [Ends, Logged.lift]
  cases x l.state <;> rfl

section

variable {h : Handle R S} {compute : EStateM Fault S Unit} {onUpdate : Decision → EStateM Fault S Unit} {s : S}

/-- One round in a run: the record goes into the history between the update and the word to the
    caller. -/
theorem ends_round (patience : Nat) {past : History} {P : Decision → Logged S → Prop}
    {Q : Fault → Logged S → Prop} :
    Ends (apply (Logged.handle h) (Logged.keep h) (fun d => Logged.lift (onUpdate d)) (patience + 1))
        ⟨s, past⟩ P Q ↔
      Ends h.update s (fun needs t =>
        let past' := past.record (h.version t) (h.elements t) (h.decision t)
        if needs then
          Ends (onUpdate (h.decision t)) t (fun _ u =>
            if (h.decision u).isProceed then P (h.decision t) ⟨u, past'⟩
            else Ends (apply (Logged.handle h) (Logged.keep h) (fun d => Logged.lift (onUpdate d)) patience)
              ⟨u, past'⟩ P Q) fun f u => Q f ⟨u, past'⟩
        else P (h.decision t) ⟨t, past'⟩) fun f t => Q f ⟨t, past⟩ := by
  refine (ends_apply patience).trans (ends_lift.trans (Iff.of_eq (congrArg (Ends h.update s · _) ?_)))
  funext needs t
  cases needs with
  | false => rfl
  | true => exact propext ends_lift

/-- One outer iteration, and those after it. -/
theorem ends_iteration (patience left : Nat) (k : Int) {past : History} {P : Unit → Logged S → Prop}
    {Q : Fault → Logged S → Prop} :
    Ends (iterate h compute onUpdate patience (left + 1) k) ⟨s, past⟩ P Q ↔
      Ends compute s (fun _ t =>
        Ends (apply (Logged.handle h) (Logged.keep h) (fun d => Logged.lift (onUpdate d)) patience)
          ⟨t, { past with iteration := k }⟩ (fun d l =>
            let l' := { l with state := h.note (.iterated k d (h.elements l.state)) l.state }
            if d.isStop then P ⟨⟩ { l' with state := h.note (.stopped (k + 1)) l'.state }
            else Ends (iterate h compute onUpdate patience left (k + 1)) l' P Q) Q)
        fun f t => Q f ⟨t, { past with iteration := k }⟩ := by
  simp only [iterate, ends_bind, ends_modify]
  refine ends_lift.trans (Iff.of_eq (congrArg (Ends compute s · _) ?_))
  funext _ t
  refine congrArg (Ends _ _ · Q) ?_
  funext d l
  cases d.isStop <;> rfl

end

/-! ## What a state carries besides -/

/-- What comes of an action, as `π` shows the state that is left. -/
def shown {α : Type} (π : T → S) : EStateM.Result Fault T α → EStateM.Result Fault S α
  | .ok a t => .ok a (π t)
  | .error f t => .error f (π t)

/-- What `π` shows of `x'` is `x`. -/
def Mirrors {α : Type} (π : T → S) (x' : EStateM Fault T α) (x : EStateM Fault S α) : Prop :=
  ∀ t, x (π t) = shown π (x' t)

namespace Mirrors

variable {α β : Type} {π : T → S}

theorem pure (a : α) : Mirrors π (Pure.pure a) (Pure.pure a) := fun _ => rfl

theorem throw (f : Fault) : Mirrors π (MonadExcept.throw f : EStateM Fault T α) (MonadExcept.throw f) :=
  fun _ => rfl

theorem change {g' : T → T} {g : S → S} (hg : ∀ t, π (g' t) = g (π t)) :
    Mirrors π (modify g' : EStateM Fault T Unit) (modify g) := fun t =>
  congrArg (EStateM.Result.ok ()) (hg t).symm

theorem bind {x' : EStateM Fault T α} {x : EStateM Fault S α} {y' : α → EStateM Fault T β}
    {y : α → EStateM Fault S β} (hx : Mirrors π x' x) (hy : ∀ a, Mirrors π (y' a) (y a)) :
    Mirrors π (x' >>= y') (x >>= y) := by
  intro t
  have hxt := hx t
  cases he : x' t with
  | ok a u =>
    rw [he] at hxt
    rw [bind_of_ok he, bind_of_ok hxt]
    exact hy a u
  | error f u =>
    rw [he] at hxt
    rw [bind_of_error he, bind_of_error hxt]
    rfl

/-- A look at the state may go through anything that `π` shows of it. -/
theorem get {y' : T → EStateM Fault T β} {y : S → EStateM Fault S β}
    (hy : ∀ t, Mirrors π (y' t) (y (π t))) : Mirrors π (MonadState.get >>= y') (MonadState.get >>= y) :=
  fun t => hy t t

theorem ite {c : Prop} [Decidable c] {x' y' : EStateM Fault T α} {x y : EStateM Fault S α}
    (hx : Mirrors π x' x) (hy : Mirrors π y' y) :
    Mirrors π (if c then x' else y') (if c then x else y) := by
  split
  · exact hx
  · exact hy

end Mirrors

theorem Mirrors.lift {α : Type} {π : T → S} {x' : EStateM Fault T α} {x : EStateM Fault S α}
    (hx : Mirrors π x' x) :
    Mirrors (fun l : Logged T => (⟨π l.state, l.history⟩ : Logged S)) (Logged.lift x') (Logged.lift x) := by
  intro l
  simp only [Logged.lift, hx l.state]
  cases x' l.state <;> rfl

/-- What `π` shows of a handle is another one. -/
structure Handle.Mirrors (π : T → S) (h' : Handle R T) (h : Handle R S) : Prop where
  update : Cycle.Mirrors π h'.update h.update
  decision : ∀ t, h'.decision t = h.decision (π t)
  version : ∀ t, h'.version t = h.version (π t)
  elements : ∀ t, h'.elements t = h.elements (π t)
  note : ∀ n t, π (h'.note n t) = h.note n (π t)

section

variable {π : T → S} {h' : Handle R T} {h : Handle R S}

theorem Handle.Mirrors.logged (hh : h'.Mirrors π h) :
    (Logged.handle h').Mirrors (fun l => (⟨π l.state, l.history⟩ : Logged S)) (Logged.handle h) where
  update := hh.update.lift
  decision l := hh.decision l.state
  version l := hh.version l.state
  elements l := hh.elements l.state
  note n l := congrArg (Logged.mk · l.history) (hh.note n l.state)

theorem apply_mirrors (hh : h'.Mirrors π h) {keep' onUpdate' : Decision → EStateM Fault T Unit}
    {keep onUpdate : Decision → EStateM Fault S Unit} (hk : ∀ d, Mirrors π (keep' d) (keep d))
    (ho : ∀ d, Mirrors π (onUpdate' d) (onUpdate d)) (patience : Nat) :
    Mirrors π (apply h' keep' onUpdate' patience) (apply h keep onUpdate patience) := by
  induction patience with
  | zero => exact .throw _
  | succ patience ih =>
    refine hh.update.bind fun needs => .get fun t => ?_
    rw [← hh.decision]
    refine (hk _).bind fun _ => .ite (.pure _) ((ho _).bind fun _ => .get fun u => ?_)
    rw [← hh.decision]
    exact .ite (.pure _) ih

theorem iterate_mirrors (hh : h'.Mirrors π h) {compute' : EStateM Fault T Unit} {compute : EStateM Fault S Unit}
    {onUpdate' : Decision → EStateM Fault T Unit} {onUpdate : Decision → EStateM Fault S Unit}
    (hc : Mirrors π compute' compute) (ho : ∀ d, Mirrors π (onUpdate' d) (onUpdate d))
    (patience left : Nat) (k : Int) :
    Mirrors (fun l : Logged T => (⟨π l.state, l.history⟩ : Logged S))
      (iterate h' compute' onUpdate' patience left k) (iterate h compute onUpdate patience left k) := by
  have noted (n : Note R) := hh.logged.note n
  induction left generalizing k with
  | zero => exact .change fun l => noted (.exhausted k) l
  | succ left ih =>
    refine .bind (.change fun _ => rfl) fun _ => hc.lift.bind fun _ => .bind ?_ fun d =>
      .bind (.change fun l => ?_) fun _ => .ite (.change fun l => noted (.stopped (k + 1)) l) (ih (k + 1))
    · refine apply_mirrors hh.logged (fun d => .change fun l => ?_) (fun d => (ho d).lift) patience
      simp only [hh.version, hh.elements]
    · simp only [hh.elements, hh.note]

/-- A run does not see what its state carries besides. -/
theorem run_mirrors (hh : h'.Mirrors π h) {compute' : EStateM Fault T Unit} {compute : EStateM Fault S Unit}
    {onUpdate' : Decision → EStateM Fault T Unit} {onUpdate : Decision → EStateM Fault S Unit}
    (hc : Mirrors π compute' compute) (ho : ∀ d, Mirrors π (onUpdate' d) (onUpdate d))
    (patience iterations : Nat) :
    Mirrors π (run h' compute' onUpdate' patience iterations) (run h compute onUpdate patience iterations) := by
  intro t
  have iterated := iterate_mirrors hh hc ho patience iterations 0 ⟨t, History.empty⟩
  simp only [run, iterated]
  cases iterate h' compute' onUpdate' patience iterations 0 ⟨t, History.empty⟩ <;> rfl

end

end Cycle

/-! ## Runs on a bench -/

section

variable {R W : Type} [Arith R]

/-- The decision a control took last, and idle where there is no control. -/
def Bench.lastOf (b : Bench R W) (k : ControlId) : Decision :=
  match b.controls[k]? with
  | some c => c.last
  | none => .idle

omit [Arith R] in
theorem Bench.lastOf_some {b : Bench R W} {k : ControlId} {c : Control R} (h : b.controls[k]? = some c) :
    b.lastOf k = c.last := by
  simp only [Bench.lastOf, h]

/-- How a run on a bench reaches control `k`, with members nested at most `depth` deep, and a mesh. -/
def Bench.handle (site : Site R W) (depth : Nat) (k : ControlId) (mesh : MeshId) :
    Cycle.Handle R (Bench R W) where
  update := Update.update site depth k mesh
  decision b := b.lastOf k
  version b := site.version mesh b.world
  elements b := site.elements mesh b.world
  note n b := b.record (.note n)

/-- An update that returns says whether what it has decided needs spaces rebuilt. -/
theorem Update.ends_needsUpdate (site : Site R W) (depth : Nat) (k : ControlId) (mesh : MeshId)
    (b : Bench R W) :
    Ends (Update.update site depth k mesh) b (fun needs t => needs = (t.lastOf k).needsUpdate)
      (fun _ _ => True) := by
  cases depth with
  | zero => trivial
  | succ depth =>
    simp only [Update.update, Update.remember, bind_assoc, ends_bind]
    refine (ends_true).mono (fun d t _ => ?_) fun _ _ _ => trivial
    cases hc : t.controls[k]? with
    | none => exact (Act.ends_control_none hc).mpr trivial
    | some c =>
      simp only [Act.ends_control_some hc, Act.ends_putControl, ends_pure]
      rw [Bench.lastOf_some (Bench.setControl_get hc)]

end

/-- A session reaches a control and a mesh on its bench. -/
theorem Session.handle_mirrors (k : ControlId) (m : MeshId) :
    (Session.handle k m).Mirrors (·.bench) (Bench.handle Rig.site Update.maxDepth k m) where
  update d := by
    simp only [Session.handle, Session.act, Bench.handle]
    cases Update.update Rig.site Update.maxDepth k m d.bench <;> rfl
  decision d := by
    simp only [Session.handle, Session.lastOf, Bench.handle, Bench.lastOf]
    cases d.bench.controls[k]? <;> rfl
  version _ := rfl
  elements _ := rfl
  note _ _ := rfl

end Regrid
