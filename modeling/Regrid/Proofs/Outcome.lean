/-
  Regrid.Proofs.Outcome — what comes of an action.

  An action returns a value or fails, and leaves a state either way. `Ends x s P Q` says
  both: from state `s` the action `x` returns with `P`, or fails with `Q`. A sequence of
  actions is judged from its end (`ends_bind`), and each step on a bench has one rule
  here, so that whoever reasons about an update never unfolds the steps.

  `Keeps r x`: whatever comes of `x`, `r` holds between the states before and after. With
  `r = Unseen f` this says that what `f` sees of the state is as it was.
-/

import Mathlib.Data.List.Forall2
import Regrid.Bench

namespace Regrid

variable {ε σ α β γ : Type}

/-- From state `s` the action returns with `P`, or fails with `Q`. -/
def Ends (x : EStateM ε σ α) (s : σ) (P : α → σ → Prop) (Q : ε → σ → Prop) : Prop :=
  match x s with
  | .ok a t => P a t
  | .error f t => Q f t

/-- The state an action leaves, whatever came of it. -/
def stateAfter (x : EStateM ε σ α) (s : σ) : σ :=
  match x s with
  | .ok _ t => t
  | .error _ t => t

/-- What an action returns or fails with. -/
def outcome (x : EStateM ε σ α) (s : σ) : Except ε α :=
  match x s with
  | .ok a _ => .ok a
  | .error f _ => .error f

section

variable {x : EStateM ε σ α} {s : σ} {P P' : α → σ → Prop} {Q Q' : ε → σ → Prop}

theorem ends_of_ok {a : α} {t : σ} (h : x s = .ok a t) : Ends x s P Q ↔ P a t := by simp only [Ends, h]

theorem ends_of_error {f : ε} {t : σ} (h : x s = .error f t) :
    Ends x s P Q ↔ Q f t := by simp only [Ends, h]

theorem Ends.of_ok (h : Ends x s P Q) {a : α} {t : σ} (hx : x s = .ok a t) : P a t := (ends_of_ok hx).mp h

theorem Ends.of_error (h : Ends x s P Q) {f : ε} {t : σ} (hx : x s = .error f t) : Q f t :=
  (ends_of_error hx).mp h

/-- An action that cannot fail returns. -/
theorem Ends.returns (h : Ends x s P fun _ _ => False) : ∃ a t, x s = .ok a t ∧ P a t := by
  unfold Ends at h
  split at h
  · exact ⟨_, _, ‹_›, h⟩
  · exact h.elim

theorem Ends.mono (h : Ends x s P Q) (hP : ∀ a t, P a t → P' a t) (hQ : ∀ f t, Q f t → Q' f t) :
    Ends x s P' Q' := by
  unfold Ends at *
  split at h
  · exact hP _ _ h
  · exact hQ _ _ h

theorem Ends.and (h : Ends x s P Q) (h' : Ends x s P' Q') :
    Ends x s (fun a t => P a t ∧ P' a t) (fun f t => Q f t ∧ Q' f t) := by
  unfold Ends at *
  split at h <;> simp_all

/-- A failure is known for what it is. -/
theorem Ends.failing (h : Ends x s P Q) : Ends x s P (fun f t => x s = .error f t ∧ Q f t) := by
  cases hx : x s with
  | ok a t => exact (ends_of_ok hx).mpr (h.of_ok hx)
  | error f t => exact (ends_of_error hx).mpr ⟨rfl, h.of_error hx⟩

theorem ends_true : Ends x s (fun _ _ => True) (fun _ _ => True) := by
  unfold Ends
  split <;> trivial

theorem outcome_ok {a : α} (h : outcome x s = .ok a) : x s = .ok a (stateAfter x s) := by
  unfold outcome at h
  unfold stateAfter
  split at h
  · rename_i hx
    rw [hx, Except.ok.inj h]
  · cases h

/-- An action that cannot return fails. -/
theorem Ends.fails {e : ε} (h : Ends x s (fun _ _ => False) fun f _ => f = e) : outcome x s = .error e := by
  unfold Ends at h
  unfold outcome
  split at h
  · exact h.elim
  · rw [h]

/-- An outcome that is the same for every end is one of the state left behind. -/
theorem ends_stateAfter {I : σ → Prop} :
    Ends x s (fun _ t => I t) (fun _ t => I t) ↔ I (stateAfter x s) := by
  simp only [Ends, stateAfter]
  cases x s <;> rfl

/-! ## Sequences -/

@[simp] theorem ends_pure (a : α) : Ends (pure a : EStateM ε σ α) s P Q ↔ P a s := Iff.rfl

@[simp] theorem ends_throw (f : ε) : Ends (throw f : EStateM ε σ α) s P Q ↔ Q f s := Iff.rfl

@[simp] theorem ends_get {P : σ → σ → Prop} : Ends (get : EStateM ε σ σ) s P Q ↔ P s s := Iff.rfl

@[simp] theorem ends_set {P : PUnit → σ → Prop} (t : σ) :
    Ends (set t : EStateM ε σ PUnit) s P Q ↔ P ⟨⟩ t := Iff.rfl

@[simp] theorem ends_modify {P : PUnit → σ → Prop} (f : σ → σ) :
    Ends (modify f : EStateM ε σ PUnit) s P Q ↔ P ⟨⟩ (f s) := Iff.rfl

theorem get_apply (s : σ) : (get : EStateM ε σ σ) s = .ok s s := rfl

theorem bind_of_ok {y : α → EStateM ε σ β} {a : α} {t : σ} (h : x s = .ok a t) : (x >>= y) s = y a t := by
  simp only [bind, EStateM.bind, h]

theorem bind_of_error {y : α → EStateM ε σ β} {f : ε} {t : σ} (h : x s = .error f t) :
    (x >>= y) s = .error f t := by
  simp only [bind, EStateM.bind, h]

theorem ok_of_bind {x : Except ε α} {y : α → Except ε β} {b : β} (h : x >>= y = .ok b) :
    ∃ a, x = .ok a ∧ y a = .ok b := by
  cases x with
  | error f => cases h
  | ok a => exact ⟨a, rfl, h⟩

theorem ok_of_toOption {x : Except ε α} {v : α} (h : x.toOption = some v) : x = .ok v := by
  cases x with
  | error f => cases h
  | ok a => exact congrArg Except.ok (Option.some.inj h)

theorem stateAfter_bind {y : α → EStateM ε σ β} {a : α} {t : σ} (h : x s = .ok a t) :
    stateAfter (x >>= y) s = stateAfter (y a) t := by
  simp only [stateAfter, bind_of_ok h]

@[simp] theorem ends_bind {y : α → EStateM ε σ β} {P : β → σ → Prop} :
    Ends (x >>= y) s P Q ↔ Ends x s (fun a t => Ends (y a) t P Q) Q := by
  simp only [Ends, bind, EStateM.bind]
  cases x s <;> rfl

@[simp] theorem ends_map {g : α → β} {P : β → σ → Prop} :
    Ends (g <$> x) s P Q ↔ Ends x s (fun a t => P (g a) t) Q := by
  simp only [Ends, Functor.map, EStateM.map]
  cases x s <;> rfl

@[simp] theorem ends_discard {P : PUnit → σ → Prop} :
    Ends (discard x) s P Q ↔ Ends x s (fun _ t => P ⟨⟩ t) Q := ends_map

end

theorem discard_eq (x : EStateM ε σ α) : discard x = x >>= fun _ => pure ⟨⟩ := by
  funext s
  simp only [Functor.discard, Functor.mapConst, EStateM.map, bind, EStateM.bind, Function.comp]
  cases x s <;> rfl

theorem stateAfter_discard (x : EStateM ε σ α) (s : σ) : stateAfter (discard x) s = stateAfter x s := by
  unfold stateAfter
  simp only [Functor.discard, Functor.mapConst, EStateM.map, Function.comp]
  cases x s <;> rfl

/-! ## Lists of results -/

/-- Where each entry has a result of some kind, the results of all are a list of that kind. -/
theorem mapM_ok {f : α → Except Fault β} {xs : List α} {P : α → β → Prop}
    (h : ∀ x ∈ xs, ∃ y, f x = .ok y ∧ P x y) : ∃ ys, xs.mapM f = .ok ys ∧ List.Forall₂ P xs ys := by
  induction xs with
  | nil => exact ⟨[], rfl, .nil⟩
  | cons x xs ih =>
    obtain ⟨y, hy, hxy⟩ := h x (by simp)
    obtain ⟨ys, hys, hall⟩ := ih fun x' hx' => h x' (by simp [hx'])
    exact ⟨y :: ys, by simp only [List.mapM_cons, hy, hys]; rfl, .cons hxy hall⟩

theorem forall_of_forall₂ {P : β → Prop} {xs : List α} {ys : List β} (h : List.Forall₂ (fun _ y => P y) xs ys) :
    ∀ y ∈ ys, P y := by
  induction h with
  | nil => exact nofun
  | cons hy _ ih => exact List.forall_mem_cons.mpr ⟨hy, ih⟩

/-! ## Before and after -/

/-- A relation of before and after that holds over nothing and over one thing after another. -/
class Lasting (r : σ → σ → Prop) : Prop where
  refl : ∀ s, r s s
  trans : ∀ {s t u}, r s t → r t u → r s u

/-- Whatever comes of the action, the state is related to the one before. -/
def Keeps (r : σ → σ → Prop) (x : EStateM ε σ α) : Prop :=
  ∀ s, Ends x s (fun _ t => r s t) (fun _ t => r s t)

namespace Keeps

variable {r : σ → σ → Prop} [Lasting r] {x : EStateM ε σ α}

theorem pure (a : α) : Keeps r (Pure.pure a : EStateM ε σ α) := fun s => Lasting.refl s

theorem throw (e : ε) : Keeps r (MonadExcept.throw e : EStateM ε σ α) := fun s => Lasting.refl s

theorem bind {y : α → EStateM ε σ β} (hx : Keeps r x) (hy : ∀ a, Keeps r (y a)) : Keeps r (x >>= y) := by
  intro s
  refine ends_bind.mpr ((hx s).mono (fun a t ht => ?_) fun _ _ ht => ht)
  exact (hy a t).mono (fun _ _ hu => Lasting.trans ht hu) fun _ _ hu => Lasting.trans ht hu

omit [Lasting r] in
theorem after (hx : Keeps r x) (s : σ) : r s (stateAfter x s) := ends_stateAfter.mp (hx s)

/-- What follows an action is related to what the action leaves. -/
theorem after_bind {y : α → EStateM ε σ β} (hy : ∀ a, Keeps r (y a)) (s : σ) :
    r (stateAfter x s) (stateAfter (x >>= y) s) := by
  unfold stateAfter
  cases hx : x s with
  | ok a t => rw [bind_of_ok hx]; exact (hy a).after t
  | error f t => rw [bind_of_error hx]; exact Lasting.refl t

omit [Lasting r] in
theorem ite {c : Prop} [Decidable c] {y : EStateM ε σ α} (hx : Keeps r x) (hy : Keeps r y) :
    Keeps r (if c then x else y) := by
  split
  · exact hx
  · exact hy

omit [Lasting r] in
theorem discard (hx : Keeps r x) : Keeps r (discard x) := fun s => ends_discard.mpr (hx s)

theorem forM {f : β → EStateM ε σ PUnit} (hf : ∀ a, Keeps r (f a)) (xs : List β) : Keeps r (xs.forM f) := by
  induction xs with
  | nil => exact .pure _
  | cons a as ih =>
    show Keeps r (f a >>= fun _ => as.forM f)
    exact (hf a).bind fun _ => ih

end Keeps

/-- What `f` sees of the state is as it was. -/
def Unseen (f : σ → γ) (s t : σ) : Prop := f t = f s

instance (f : σ → γ) : Lasting (Unseen f) where
  refl _ := rfl
  trans h h' := Eq.trans h' h

/-! ## Steps on a bench -/

variable {R W : Type}

namespace Bench

variable (b : Bench R W)

@[simp] theorem record_world (e : Event R) : (b.record e).world = b.world := rfl
@[simp] theorem record_markers (e : Event R) : (b.record e).markers = b.markers := rfl
@[simp] theorem record_controls (e : Event R) : (b.record e).controls = b.controls := rfl
@[simp] theorem record_trace (e : Event R) : (b.record e).trace = e :: b.trace := rfl
@[simp] theorem setMarker_world (k : MarkerId) (m : Marker R) : (b.setMarker k m).world = b.world := rfl
@[simp] theorem setMarker_controls (k : MarkerId) (m : Marker R) :
    (b.setMarker k m).controls = b.controls := rfl
@[simp] theorem setMarker_trace (k : MarkerId) (m : Marker R) : (b.setMarker k m).trace = b.trace := rfl
@[simp] theorem setControl_world (k : ControlId) (c : Control R) : (b.setControl k c).world = b.world := rfl
@[simp] theorem setControl_markers (k : ControlId) (c : Control R) :
    (b.setControl k c).markers = b.markers := rfl
@[simp] theorem setControl_trace (k : ControlId) (c : Control R) : (b.setControl k c).trace = b.trace := rfl
@[simp] theorem setControl_controls (k : ControlId) (c : Control R) :
    (b.setControl k c).controls = b.controls.set k c := rfl

theorem setMarker_get {b : Bench R W} {k : MarkerId} {m n : Marker R} (h : b.markers[k]? = some m) :
    (b.setMarker k n).markers[k]? = some n := by
  obtain ⟨hlt, -⟩ := List.getElem?_eq_some_iff.mp h
  simp [setMarker, hlt]

theorem setControl_get {b : Bench R W} {k : ControlId} {c d : Control R} (h : b.controls[k]? = some c) :
    (b.setControl k d).controls[k]? = some d := by
  obtain ⟨hlt, -⟩ := List.getElem?_eq_some_iff.mp h
  simp [hlt]

/-- A fault is noted or not; what does not see notes does not see faults. -/
theorem noteFault_of_record {I : Bench R W → Prop} (f : Fault) (h : I b)
    (hr : ∀ n : Note R, I (b.record (.note n))) :
    I (b.noteFault f) := by
  unfold noteFault
  split
  · exact hr _
  · exact h

end Bench

namespace Act

variable {b : Bench R W} {P : α → Bench R W → Prop} {Q : Fault → Bench R W → Prop}

@[simp] theorem ends_record {P : PUnit → Bench R W → Prop} (e : Event R) :
    Ends (record e : Act R W Unit) b P Q ↔ P ⟨⟩ (b.record e) := Iff.rfl

@[simp] theorem ends_note {P : PUnit → Bench R W → Prop} (n : Note R) :
    Ends (note n : Act R W Unit) b P Q ↔ P ⟨⟩ (b.record (.note n)) := Iff.rfl

@[simp] theorem ends_call {P : PUnit → Bench R W → Prop} (mesh : MeshId) (c : Call R) :
    Ends (call mesh c : Act R W Unit) b P Q ↔ P ⟨⟩ (b.record (.call mesh c)) := Iff.rfl

@[simp] theorem ends_fail (f : Fault) : Ends (fail f : Act R W α) b P Q ↔ Q f (b.noteFault f) := Iff.rfl

@[simp] theorem ends_check_ok (a : α) : Ends (check (.ok a) : Act R W α) b P Q ↔ P a b := Iff.rfl

@[simp] theorem ends_check_error (f : Fault) :
    Ends (check (.error f) : Act R W α) b P Q ↔ Q f (b.noteFault f) := Iff.rfl

@[simp] theorem ends_look (f : W → α) : Ends (look f : Act R W α) b P Q ↔ P (f b.world) b := Iff.rfl

theorem ends_ask (q : EStateM Fault W α) :
    Ends (ask q : Act R W α) b P Q ↔
      Ends q b.world (fun a w => P a { b with world := w })
        (fun f w => Q f ({ b with world := w }.noteFault f)) := by
  simp only [Ends, ask]
  cases q b.world <;> rfl

theorem look_apply (f : W → α) : (look f : Act R W α) b = .ok (f b.world) b := rfl

theorem call_apply (mesh : MeshId) (c : Call R) :
    (call mesh c : Act R W Unit) b = .ok ⟨⟩ (b.record (.call mesh c)) := rfl

/-- Where faults do not matter, what follows a check may rely on it. -/
theorem ends_check_of {v : Except Fault α} (h : ∀ a, v = .ok a → P a b) :
    Ends (check v : Act R W α) b P (fun _ _ => True) := by
  cases v with
  | ok a => exact h a rfl
  | error f => trivial

theorem check_of_ok {v : Except Fault α} {a : α} (h : v = .ok a) : (check v : Act R W α) b = .ok a b := by
  rw [h]; rfl

theorem check_of_error {v : Except Fault α} {f : Fault} (h : v = .error f) :
    (check v : Act R W α) b = .error f (b.noteFault f) := by
  rw [h]; rfl

theorem ask_of_ok {q : EStateM Fault W α} {a : α} {w : W} (h : q b.world = .ok a w) :
    (ask q : Act R W α) b = .ok a { b with world := w } := by
  simp only [ask, h]

theorem marker_apply {k : MarkerId} {m : Marker R} (h : b.markers[k]? = some m) :
    (marker k : Act R W (Marker R)) b = .ok m b := by
  rw [marker, bind_of_ok (get_apply b), h]
  rfl

theorem marker_missing {k : MarkerId} (h : b.markers[k]? = none) :
    (marker k : Act R W (Marker R)) b = .error .missing b := by
  rw [marker, bind_of_ok (get_apply b), h]
  rfl

theorem ends_marker_some {P : Marker R → Bench R W → Prop} {k : MarkerId} {m : Marker R}
    (h : b.markers[k]? = some m) :
    Ends (marker k : Act R W (Marker R)) b P Q ↔ P m b :=
  ends_of_ok (marker_apply h)

theorem ends_marker_none {P : Marker R → Bench R W → Prop} {k : MarkerId} (h : b.markers[k]? = none) :
    Ends (marker k : Act R W (Marker R)) b P Q ↔ Q .missing b :=
  ends_of_error (marker_missing h)

theorem control_apply {k : ControlId} {c : Control R} (h : b.controls[k]? = some c) :
    (control k : Act R W (Control R)) b = .ok c b := by
  rw [control, bind_of_ok (get_apply b), h]
  rfl

theorem ends_control_some {P : Control R → Bench R W → Prop} {k : ControlId} {c : Control R}
    (h : b.controls[k]? = some c) : Ends (control k : Act R W (Control R)) b P Q ↔ P c b :=
  ends_of_ok (control_apply h)

theorem control_missing {k : ControlId} (h : b.controls[k]? = none) :
    (control k : Act R W (Control R)) b = .error .missing b := by
  rw [control, bind_of_ok (get_apply b), h]
  rfl

theorem ends_control_none {P : Control R → Bench R W → Prop} {k : ControlId} (h : b.controls[k]? = none) :
    Ends (control k : Act R W (Control R)) b P Q ↔ Q .missing b :=
  ends_of_error (control_missing h)

@[simp] theorem ends_putMarker {P : PUnit → Bench R W → Prop} (k : MarkerId) (m : Marker R) :
    Ends (putMarker k m : Act R W Unit) b P Q ↔ P ⟨⟩ (b.setMarker k m) := Iff.rfl

@[simp] theorem ends_putControl {P : PUnit → Bench R W → Prop} (k : ControlId) (c : Control R) :
    Ends (putControl k c : Act R W Unit) b P Q ↔ P ⟨⟩ (b.setControl k c) := Iff.rfl

/-- A change of a marker is made, or refused and noted; where there is no such marker nothing happens. -/
theorem changeMarker_leaves {I : Bench R W → Prop} {k : MarkerId} {f : Marker R → Except Fault (Marker R)}
    (missing : b.markers[k]? = none → I b)
    (refused : ∀ m e, b.markers[k]? = some m → f m = .error e → I (b.noteFault e))
    (made : ∀ m m', b.markers[k]? = some m → f m = .ok m' → I (b.setMarker k m')) :
    I (stateAfter (changeMarker k f : Act R W Unit) b) := by
  refine ends_stateAfter.mp ?_
  simp only [changeMarker, ends_bind]
  cases hk : b.markers[k]? with
  | none => exact (ends_marker_none hk).mpr (missing hk)
  | some m =>
    rw [ends_marker_some hk]
    cases hm : f m with
    | error e => exact refused m e hk hm
    | ok m' => exact made m m' hk hm

/-- A change of a control is made, or refused and noted; where there is no such control nothing happens. -/
theorem changeControl_leaves {I : Bench R W → Prop} {k : ControlId} {f : Control R → Except Fault (Control R)}
    (missing : b.controls[k]? = none → I b)
    (refused : ∀ c e, b.controls[k]? = some c → f c = .error e → I (b.noteFault e))
    (made : ∀ c c', b.controls[k]? = some c → f c = .ok c' → I (b.setControl k c')) :
    I (stateAfter (changeControl k f : Act R W Unit) b) := by
  refine ends_stateAfter.mp ?_
  simp only [changeControl, ends_bind]
  cases hk : b.controls[k]? with
  | none => exact (ends_control_none hk).mpr (missing hk)
  | some c =>
    rw [ends_control_some hk]
    cases hc : f c with
    | error e => exact refused c e hk hc
    | ok c' => exact made c c' hk hc

end Act

end Regrid
