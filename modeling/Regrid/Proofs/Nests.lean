/-
  Regrid.Proofs.Nests — rotations within rotations.

  A nest is a control whose rotations each stand in it once, while a leaf may stand in it
  often: no rotation is reached from two members of a rotation (`Nest`). So what a member's
  update leaves is the rotation that has called it and all that other members reach.

  A turn of a rotation is judged step by step: what holds as a member is called, and as it
  has answered (`Nest.ends_turn`). Where leaves do not fail, no update above them does
  (`Nest.update_returns`).

  A seat is a place of a leaf: a rotation and a position in it. Only rotations pay visits
  (`leaf_seats`).
-/

import Regrid.Proofs.Course
import Regrid.Proofs.Passes
import Regrid.Proofs.Rounds

namespace Regrid

variable {R W : Type}

/-! ## Nests -/

def Strategy.isRotation : Strategy R → Bool
  | .rotation _ _ => true
  | _ => false

/-- Control `k` is a rotation. -/
def rotates (p : List (Strategy R)) (k : ControlId) : Bool := p[k]?.any Strategy.isRotation

/-- The rotation `j` is reached from `k`. -/
def Under (p : List (Strategy R)) (k j : ControlId) : Prop := Reaches p k j ∧ rotates p j = true

/-- No rotation is reached from both. -/
def Apart (p : List (Strategy R)) (k m : ControlId) : Prop := ∀ j, Under p k j → ¬ Reaches p m j

/-- Rotations within rotations, at most `n` deep with the leaves; none is reached from two members
    of a rotation. -/
inductive Nest (p : List (Strategy R)) : Nat → ControlId → Prop
  | leaf {n k s} : p[k]? = some s → s.isRotation = false → Nest p (n + 1) k
  | rotation {n k cursor members} : p[k]? = some (.rotation cursor members) →
      (∀ m ∈ members, Nest p n m) → members.Pairwise (Apart p) → Nest p (n + 1) k

section

variable {p : List (Strategy R)} {n : Nat} {k m j : ControlId} {cursor : Int} {members : List ControlId}

theorem rotates_of_rotation (h : p[k]? = some (.rotation cursor members)) : rotates p k = true := by
  simp [rotates, h, Strategy.isRotation]

theorem members_of_leaf {s : Strategy R} (h : s.isRotation = false) : s.members = [] := by
  cases s with
  | rotation _ _ => cases h
  | _ => rfl

theorem Strategy.isRotation_restart (s : Strategy R) : s.restart.isRotation = s.isRotation := by
  cases s <;> rfl

/-- A leaf reaches no rotation. -/
theorem not_under_of_leaf (h : rotates p k = false) (hk : k < p.length) : ¬ Under p k j := by
  rintro ⟨hr, hj⟩
  have hs : p[k]? = some p[k] := List.getElem?_eq_getElem hk
  have leaf : p[k].isRotation = false := by simpa [rotates, hs] using h
  obtain rfl := reaches_self hs (members_of_leaf leaf) hr
  rw [h] at hj
  cases hj

theorem Apart.symm (h : Apart p k m) : Apart p m k := fun j hm hk => h j ⟨hk, hm.2⟩ hm.1

namespace Nest

theorem mono (h : Nest p n k) {n' : Nat} (hn : n ≤ n') : Nest p n' k := by
  induction h generalizing n' with
  | @leaf n k s hk hs =>
    obtain ⟨n', rfl⟩ : ∃ l, n' = l + 1 := ⟨n' - 1, by omega⟩
    exact .leaf hk hs
  | @rotation n k cursor members hk _ hapart ih =>
    obtain ⟨n', rfl⟩ : ∃ l, n' = l + 1 := ⟨n' - 1, by omega⟩
    exact .rotation hk (fun m hm => ih m hm (by omega)) hapart

theorem of_holds (h : Nest p (n + 1) k) (hm : Holds p k m) : Nest p n m := by
  obtain ⟨s, hs, hmem⟩ := hm
  cases h with
  | leaf hk hleaf =>
    obtain rfl := Option.some.inj (hk.symm.trans hs)
    rw [members_of_leaf hleaf] at hmem
    cases hmem
  | rotation hk hmembers _ =>
    obtain rfl := Option.some.inj (hk.symm.trans hs)
    exact hmembers m hmem

theorem of_reaches (h : Nest p n k) (hj : Reaches p k j) : Nest p n j := by
  induction hj with
  | refl => exact h
  | tail _ hm ih =>
    obtain ⟨n, rfl⟩ : ∃ l, n = l + 1 := by
      cases ih with
      | leaf | rotation => exact ⟨_, rfl⟩
    exact (ih.of_holds hm).mono (by omega)

/-- No control of a nest holds itself: it would stand in the nest below itself. -/
theorem alone (h : Nest p n k) : ¬ Relation.TransGen (Holds p) k k := by
  induction n generalizing k with
  | zero => cases h
  | succ n ih =>
    intro hloop
    obtain ⟨m, hm, hr⟩ := Relation.TransGen.head'_iff.mp hloop
    exact ih ((h.of_holds hm).of_reaches hr) hloop

theorem not_reaches (h : Nest p n k) (hm : Holds p k m) : ¬ Reaches p m k :=
  fun hr => h.alone (Relation.TransGen.head' hm hr)

/-- Members at different positions have no rotation in common. -/
theorem apart (h : Nest p (n + 1) k) (hk : p[k]? = some (.rotation cursor members)) {i i' : Nat}
    {m m' : ControlId} (hm : members[i]? = some m) (hm' : members[i']? = some m') (hne : i ≠ i') :
    Apart p m m' := by
  cases h with
  | leaf hk' hleaf =>
    obtain rfl := Option.some.inj (hk'.symm.trans hk)
    cases hleaf
  | rotation hk' _ hapart =>
    obtain ⟨-, rfl⟩ := Strategy.rotation.inj (Option.some.inj (hk'.symm.trans hk))
    obtain ⟨hlt, rfl⟩ := List.getElem?_eq_some_iff.mp hm
    obtain ⟨hlt', rfl⟩ := List.getElem?_eq_some_iff.mp hm'
    rcases Nat.lt_or_gt_of_ne hne with hlt | hlt
    · exact List.pairwise_iff_getElem.mp hapart _ _ _ _ hlt
    · exact (List.pairwise_iff_getElem.mp hapart _ _ _ _ hlt).symm

end Nest

end

/-! ## Seats -/

/-- A place of a leaf in a rotation. -/
structure Seat where
  rotation : ControlId
  position : Nat
  leaf : ControlId
  deriving DecidableEq, Repr

/-- The seat of a visit that was paid to a leaf. -/
def seatOf (p : List (Strategy R)) : Event R → Option Seat
  | .visit r i m => if rotates p m then none else some ⟨r, i, m⟩
  | _ => none

/-- The seats that were visited, the latest first. -/
def Bench.seats (p : List (Strategy R)) (b : Bench R W) : List Seat := b.trace.filterMap (seatOf p)

section

variable {p : List (Strategy R)} {b t : Bench R W}

@[simp] theorem seats_setControl (k : ControlId) (c : Control R) : (b.setControl k c).seats p = b.seats p := rfl

@[simp] theorem seats_note (n : Note R) : (b.record (.note n)).seats p = b.seats p := rfl

theorem seats_visit_leaf {k m : ControlId} {i : Nat} (h : rotates p m = false) :
    (b.record (.visit k i m)).seats p = ⟨k, i, m⟩ :: b.seats p := by
  simp [Bench.seats, seatOf, h]

theorem seats_visit_rotation {k m : ControlId} {i : Nat} (h : rotates p m = true) :
    (b.record (.visit k i m)).seats p = b.seats p := by
  simp [Bench.seats, seatOf, h]

theorem overlooks_seats (p : List (Strategy R)) : Overlooks (Bench.seats p : Bench R W → List Seat) where
  world _ _ := rfl
  setMarker _ _ _ := rfl
  record b e h := by
    cases e with
    | visit _ _ _ => cases h
    | call _ _ | estimate _ | note _ => rfl

theorem seats_onward (h : b.Onward t) : ∃ new, t.seats p = new ++ b.seats p := by
  obtain ⟨new, hnew⟩ := h
  exact ⟨new.filterMap (seatOf p), by simp [Bench.seats, ← hnew]⟩

end

/-- Updates and resets only add to what was recorded. -/
theorem aloof_onward [Arith R] (site : Site R W) : Aloof site (Bench.Onward : Bench R W → Bench R W → Prop) where
  toSilent := silent_onward site
  read := Blind.read
    { silent_onward site with
      setMarker := fun b _ _ => List.suffix_refl b.trace
      marking := fun _ => onward_ask _ }
  violations _ _ := onward_ask _
  refineMesh _ _ _ _ := .bind (fun b => b.onward_record _) fun _ => onward_ask _
  derefine _ _ _ _ := onward_ask _
  rebalance _ := onward_ask _
  visit b _ _ _ := b.onward_record _
  setControl b _ _ := List.suffix_refl b.trace
  decide _ := onward_ask _
  reset _ := onward_ask _

/-! ## Steps of a turn -/

namespace Bench

/-- The bench as a rotation has moved its cursor and calls a member. -/
def calling (b : Bench R W) (k : ControlId) (last : Decision) (members : List ControlId) (i : Nat)
    (m : ControlId) : Bench R W :=
  (b.setControl k ⟨last, .rotation i members⟩).record (.visit k i m)

/-- The bench as a member has answered: noted, and stepped back if that is asked for. -/
def answered (t : Bench R W) (k : ControlId) (last : Decision) (members : List ControlId) (i : Nat)
    (c : Control R) : Bench R W :=
  let noted := t.record (.note (.answered i c.strategy.label c.last))
  if c.last.isAgain then noted.setControl k ⟨last, .rotation ((i : Int) - 1) members⟩ else noted

end Bench

section

variable {k m : ControlId} {last : Decision} {cursor : Int} {members : List ControlId} {i : Nat}
    {b t : Bench R W} {c : Control R} {p : List (Strategy R)}

theorem calling_get (h : b.controls[k]? = some ⟨last, .rotation cursor members⟩) :
    (b.calling k last members i m).controls[k]? = some ⟨last, .rotation i members⟩ :=
  Bench.setControl_get h

theorem calling_other {j : ControlId} (h : k ≠ j) :
    (b.calling k last members i m).controls[j]? = b.controls[j]? := by
  simp [Bench.calling, h]

theorem calling_plan (h : b.controls[k]? = some ⟨last, .rotation cursor members⟩) :
    (b.calling k last members i m).plan = b.plan :=
  Bench.plan_setControl (k := k) h rfl

theorem calling_onward : b.Onward (b.calling k last members i m) := b.onward_record _

theorem answered_get (h : t.controls[k]? = some ⟨last, .rotation i members⟩) :
    (t.answered k last members i c).controls[k]? =
      some ⟨last, .rotation (if c.last.isAgain then (i : Int) - 1 else i) members⟩ := by
  unfold Bench.answered
  by_cases hagain : c.last.isAgain = true
  · simp only [if_pos hagain]
    exact Bench.setControl_get h
  · simp only [if_neg hagain]
    exact h

theorem answered_other {j : ControlId} (h : k ≠ j) :
    (t.answered k last members i c).controls[j]? = t.controls[j]? := by
  unfold Bench.answered
  by_cases hagain : c.last.isAgain = true <;> simp [hagain, h]

theorem answered_plan (h : t.controls[k]? = some ⟨last, .rotation i members⟩) :
    (t.answered k last members i c).plan = t.plan := by
  unfold Bench.answered
  by_cases hagain : c.last.isAgain = true
  · simp only [if_pos hagain]
    exact Bench.plan_setControl (k := k) h rfl
  · simp only [if_neg hagain]
    rfl

theorem answered_seats : (t.answered k last members i c).seats p = t.seats p := by
  unfold Bench.answered
  by_cases hagain : c.last.isAgain = true <;> simp [hagain]

theorem answered_onward : t.Onward (t.answered k last members i c) := by
  unfold Bench.answered
  by_cases hagain : c.last.isAgain = true
  · simp only [if_pos hagain]
    exact t.onward_record _
  · simp only [if_neg hagain]
    exact t.onward_record _

/-- A rotation of the plan, on the bench. -/
theorem rotation_of_plan (hb : b.plan = p) (h : rotates p k = true) :
    ∃ last cursor members, b.controls[k]? = some ⟨last, .rotation cursor members⟩ := by
  rw [← hb, rotates, Bench.plan, List.getElem?_map] at h
  cases hc : b.controls[k]? with
  | none => simp [hc] at h
  | some c =>
    obtain ⟨last, s⟩ := c
    cases s with
    | rotation cursor members => exact ⟨last, cursor, members, rfl⟩
    | _ => simp [hc, Strategy.restart, Strategy.isRotation] at h

/-- The rotation that the plan has there, on the bench. -/
theorem rotation_at (hb : b.plan = p) (h : p[k]? = some (.rotation cursor members)) :
    ∃ last cursor, b.controls[k]? = some ⟨last, .rotation cursor members⟩ := by
  obtain ⟨last, cursor', members', hc⟩ := rotation_of_plan hb (rotates_of_rotation h)
  obtain ⟨-, rfl⟩ : _ ∧ members' = members := by
    simpa [Strategy.restart, hb, h] using (Bench.plan_getElem? hc).symm
  exact ⟨last, cursor', hc⟩

/-- One step of a turn, where the member called leaves the rotation alone: its decision is the
    rotation's own, or it is idle and the turn goes on. -/
theorem Rotation.ends_step {visit : ControlId → Act R W Unit} {turns : Nat} {P : Decision → Bench R W → Prop}
    {Q : Fault → Bench R W → Prop} (h : b.controls[k]? = some ⟨last, .rotation cursor members⟩)
    (hi : (i : Int) = (cursor + 1) % members.length) (hm : members[i]? = some m)
    (hvisit : Ends (visit m) (b.calling k last members i m)
      (fun _ t => t.controls[k]? = some ⟨last, .rotation i members⟩ ∧ ∃ c, t.controls[m]? = some c ∧
        if c.last = .idle then Ends (turn visit k members.length turns) t P Q
        else P c.last (t.answered k last members i c)) Q) :
    Ends (turn visit k members.length (turns + 1)) b P Q := by
  have moved : (b.setControl k ⟨last, .rotation i members⟩).controls[k]? = some ⟨last, .rotation i members⟩ :=
    Bench.setControl_get h
  simp only [turn, ends_bind, ends_moveCursor h, ← hi, Act.ends_control_some moved, Strategy.members,
    Int.toNat_natCast, hm, Act.ends_record]
  refine hvisit.mono (fun _ t ht => ?_) fun _ _ h => h
  obtain ⟨hk, c, hc, hgoes⟩ := ht
  rw [Act.ends_control_some hc]
  by_cases hidle : c.last = .idle
  · rw [if_pos hidle] at hgoes ⊢
    exact hgoes
  · rw [if_neg hidle] at hgoes ⊢
    simp only [ends_bind, Act.ends_control_some hk, Act.ends_note]
    unfold Bench.answered at hgoes
    by_cases hagain : c.last.isAgain = true
    · simp only [if_pos hagain] at hgoes ⊢
      have noted : (t.record (.note (.answered (cursorOf (.rotation i members : Strategy R))
          c.strategy.label c.last))).controls[k]? = some ⟨last, .rotation i members⟩ := hk
      simp only [ends_bind, ends_discard, ends_moveCursor noted, ends_pure]
      exact hgoes
    · simp only [if_neg hagain] at hgoes ⊢
      exact hgoes

variable [Arith R] {site : Site R W} {n : Nat} {mesh : MeshId}

/-- The turn of a rotation, and what it has decided remembered. -/
theorem ends_update_rotation {P : Bool → Bench R W → Prop} {Q : Fault → Bench R W → Prop}
    (h : b.controls[k]? = some ⟨last, .rotation cursor members⟩) :
    Ends (Update.update site (n + 1) k mesh) b P Q ↔
      Ends (Rotation.turn (fun m => discard (Update.update site n m mesh)) k members.length members.length) b
        (fun d t => Ends (Update.remember k d) t (fun _ u => P d.needsUpdate u) Q) Q := by
  simp only [Update.update, Update.apply, ends_bind, Act.ends_control_some h, ends_pure]

/-- An update touches only what its control reaches. -/
theorem update_touches (site : Site R W) (n : Nat) (k : ControlId) (mesh : MeshId) (hb : b.plan = p) :
    Ends (Update.update site n k mesh) b (fun _ t => Touches (Reaches p k) b t)
      (fun _ t => Touches (Reaches p k) b t) :=
  update_stays (closed_reaches p k) n .refl mesh b hb

/-- In a nest, what a member's update leaves is the rotation at its cursor and all that other members
    reach. -/
theorem Nest.ends_step (nest : Nest p (n + 1) k) (hb : b.plan = p)
    (h : b.controls[k]? = some ⟨last, .rotation cursor members⟩)
    (hi : (i : Int) = (cursor + 1) % members.length) (hm : members[i]? = some m) {turns : Nat}
    {P : Decision → Bench R W → Prop} {Q : Fault → Bench R W → Prop}
    (hvisit : Ends (Update.update site n m mesh) (b.calling k last members i m)
      (fun _ t => Touches (Reaches p m) (b.calling k last members i m) t → t.plan = p →
        t.controls[k]? = some ⟨last, .rotation i members⟩ → ∀ c, t.controls[m]? = some c →
        if c.last = .idle then
          Ends (Rotation.turn (fun m => discard (Update.update site n m mesh)) k members.length turns) t P Q
        else P c.last (t.answered k last members i c)) Q) :
    Ends (Rotation.turn (fun m => discard (Update.update site n m mesh)) k members.length (turns + 1))
      b P Q := by
  have held : Holds p k m := ⟨.rotation (-1) members, hb ▸ Bench.plan_getElem? h, List.mem_of_getElem? hm⟩
  have called : (b.calling k last members i m).plan = p := (calling_plan h).trans hb
  refine Rotation.ends_step h hi hm (ends_discard.mpr
    ((hvisit.and (update_touches site n m mesh called)).mono (fun _ t ht => ?_) fun _ _ ht => ht.1))
  obtain ⟨hgoes, touched⟩ := ht
  have ht : t.plan = p := touched.plan.trans called
  have hk : t.controls[k]? = some ⟨last, .rotation i members⟩ :=
    (touched.control k (nest.not_reaches held)).trans (calling_get h)
  -- the member is one of the plan, so it is there
  obtain ⟨s, hs⟩ : ∃ s, p[m]? = some s := by
    cases nest.of_holds held with
    | leaf hm _ | rotation hm _ _ => exact ⟨_, hm⟩
  obtain ⟨c, hc, -⟩ : ∃ c, t.controls[m]? = some c ∧ c.strategy.restart = s := by
    rw [← ht, Bench.plan, List.getElem?_map, Option.map_eq_some_iff] at hs
    exact hs
  exact ⟨hk, c, hc, hgoes touched ht hk c hc⟩

/-! ## Leaves -/

/-- What a leaf decides, it decides without visits. -/
theorem leaf_apply {visit : ControlId → Act R W Unit} (hk : rotates b.plan k = false) :
    Ends (Update.apply site visit k mesh) b (fun _ t => t.seats p = b.seats p)
      (fun _ t => t.seats p = b.seats p) := by
  have mild := (overlooks_seats (W := W) p).mild site
  have puts (c : Control R) : Keeps (Unseen (Bench.seats p)) (Act.putControl k c : Act R W Unit) := fun _ => rfl
  simp only [Update.apply, ends_bind]
  cases hc : b.controls[k]? with
  | none => exact (Act.ends_control_none hc).mpr rfl
  | some c =>
    rw [Act.ends_control_some hc]
    rw [rotates, Bench.plan_getElem? hc] at hk
    obtain ⟨last, s⟩ := c
    cases s with
    | refine marker mode limit => exact mild.applyRefine _ _ _ _ b
    | coarsen how => exact mild.coarsen _ _ _ b
    | coarsenLimited how stage =>
      exact (mild.coarsenLimited _ _ _ _).bind (fun _ => (puts _).bind fun _ => .pure _) b
    | rebalance => exact mild.applyRebalance _ b
    | foreign f label => exact (overlooks_seats p).ask _ b
    | rotation cursor members => cases hk

/-- The update of a leaf pays no visits. -/
theorem leaf_seats (hk : rotates b.plan k = false) (depth : Nat) :
    Ends (Update.update site depth k mesh) b (fun _ t => t.seats p = b.seats p)
      (fun _ t => t.seats p = b.seats p) := by
  cases depth with
  | zero => rfl
  | succ depth =>
    have remembers (d : Decision) : Keeps (Unseen (Bench.seats p)) (Update.remember k d : Act R W Unit) :=
      (Silent.control k).bind fun _ _ => rfl
    refine ends_bind.mpr ((leaf_apply hk).mono (fun d t ht => ?_) fun _ _ ht => ht)
    refine (((remembers d).bind fun _ => .pure _) t).mono (fun _ u hu => ?_) fun _ u hu => ?_
    · exact Eq.trans hu ht
    · exact Eq.trans hu ht

/-! ## Turns -/

/-- A turn, by what holds when so many steps are left: a step that ends idle leaves it to the next one,
    any other decision ends the turn. The rotation is left at some cursor. -/
theorem Nest.ends_turn (nest : Nest p (n + 1) k) {J : Nat → Bench R W → Prop}
    {P : Decision → Bench R W → Prop} {Q : Fault → Bench R W → Prop} (done : ∀ b, J 0 b → P .idle b)
    (step : ∀ (turns : Nat) (b : Bench R W) (cursor : Int) (i : Nat) (m : ControlId), b.plan = p →
      b.controls[k]? = some ⟨last, .rotation cursor members⟩ → (i : Int) = (cursor + 1) % members.length →
      members[i]? = some m → J (turns + 1) b →
      Ends (Update.update site n m mesh) (b.calling k last members i m)
        (fun _ t => Touches (Reaches p m) (b.calling k last members i m) t →
          t.controls[k]? = some ⟨last, .rotation i members⟩ → ∀ c, t.controls[m]? = some c →
          if c.last = .idle then J turns t else P c.last (t.answered k last members i c)) Q)
    {turns : Nat} (hturns : turns ≤ members.length) (hb : b.plan = p)
    (h : b.controls[k]? = some ⟨last, .rotation cursor members⟩) (hJ : J turns b) :
    Ends (Rotation.turn (fun m => discard (Update.update site n m mesh)) k members.length turns) b
      (fun d t => P d t ∧ t.plan = p ∧ ∃ cursor, t.controls[k]? = some ⟨last, .rotation cursor members⟩) Q := by
  induction turns generalizing b cursor with
  | zero => exact ⟨done b hJ, hb, cursor, h⟩
  | succ turns ih =>
    obtain ⟨i, hi, hlt⟩ := Rotation.next_position cursor (show 0 < members.length by omega)
    have hm : members[i]? = some members[i] := List.getElem?_eq_getElem hlt
    refine nest.ends_step hb h hi hm ((step turns b cursor i _ hb h hi hm hJ).mono ?_ fun _ _ h => h)
    intro _ t hgoes touched ht hk c hc
    have went := hgoes touched hk c hc
    by_cases hidle : c.last = .idle
    · rw [if_pos hidle] at went ⊢
      exact ih (by omega) ht hk went
    · rw [if_neg hidle] at went ⊢
      exact ⟨went, (answered_plan hk).trans ht, _, answered_get hk⟩

/-- The update of a rotation in a nest, by its turn: in the end its decision is remembered. -/
theorem Nest.ends_update (nest : Nest p (n + 1) k) {J : Nat → Bench R W → Prop}
    {P : Decision → Bench R W → Prop} {Q : Fault → Bench R W → Prop} (done : ∀ b, J 0 b → P .idle b)
    (step : ∀ (turns : Nat) (b : Bench R W) (cursor : Int) (i : Nat) (m : ControlId), b.plan = p →
      b.controls[k]? = some ⟨last, .rotation cursor members⟩ → (i : Int) = (cursor + 1) % members.length →
      members[i]? = some m → J (turns + 1) b →
      Ends (Update.update site n m mesh) (b.calling k last members i m)
        (fun _ t => Touches (Reaches p m) (b.calling k last members i m) t →
          t.controls[k]? = some ⟨last, .rotation i members⟩ → ∀ c, t.controls[m]? = some c →
          if c.last = .idle then J turns t else P c.last (t.answered k last members i c)) Q)
    (hb : b.plan = p) (h : b.controls[k]? = some ⟨last, .rotation cursor members⟩)
    (hJ : J members.length b) :
    Ends (Update.update site (n + 1) k mesh) b
      (fun _ u => ∃ d t cursor, P d t ∧ t.plan = p ∧ t.controls[k]? = some ⟨last, .rotation cursor members⟩ ∧
        u = t.setControl k ⟨d, .rotation cursor members⟩) Q := by
  rw [ends_update_rotation h]
  refine (nest.ends_turn done step (Nat.le_refl _) hb h hJ).mono ?_ fun _ _ h => h
  rintro d t ⟨hP, ht, cursor, hk⟩
  simp only [Update.remember, ends_bind, Act.ends_control_some hk, Act.ends_putControl]
  exact ⟨d, t, cursor, hP, ht, hk, rfl⟩

/-! ## Updates return -/

/-- Among benches that stay such whatever is recorded and whatever control is set, the leaves that `k`
    reaches do not fail. -/
structure LeavesReturn (site : Site R W) (p : List (Strategy R)) (k : ControlId) (I : Bench R W → Prop) :
    Prop where
  record : ∀ b e, I b → I (b.record e)
  setControl : ∀ b j c, I b → I (b.setControl j c)
  leaf : ∀ b j depth mesh, I b → b.plan = p → Reaches p k j → rotates p j = false →
    Ends (Update.update site (depth + 1) j mesh) b (fun _ t => I t) (fun _ _ => False)

theorem LeavesReturn.of_holds {I : Bench R W → Prop} (h : LeavesReturn site p k I) (hm : Holds p k m) :
    LeavesReturn site p m I :=
  ⟨h.record, h.setControl, fun b j depth mesh hI hb hr => h.leaf b j depth mesh hI hb (.head hm hr)⟩

theorem LeavesReturn.answered {I : Bench R W → Prop} (h : LeavesReturn site p k I) (hI : I t) :
    I (t.answered k last members i c) := by
  unfold Bench.answered
  by_cases hagain : c.last.isAgain = true
  · simp only [if_pos hagain]
    exact h.setControl _ _ _ (h.record _ _ hI)
  · simp only [if_neg hagain]
    exact h.record _ _ hI

/-- Where leaves do not fail, no control above them does. -/
theorem Nest.update_returns {I : Bench R W → Prop} (nest : Nest p n k) (leaves : LeavesReturn site p k I)
    (hb : b.plan = p) (hI : I b) : Ends (Update.update site n k mesh) b (fun _ t => I t) (fun _ _ => False) := by
  induction n generalizing k b with
  | zero => cases nest
  | succ n ih =>
    by_cases hk : rotates p k = true
    · obtain ⟨last, cursor, members, h⟩ := rotation_of_plan hb hk
      refine (nest.ends_update (J := fun _ t => I t) (P := fun _ t => I t) (fun _ ht => ht) ?_ hb h hI).mono ?_
        fun _ _ h => h
      · intro turns b cursor i m hb h hi hm hI
        have held : Holds p k m := ⟨.rotation (-1) members, hb ▸ Bench.plan_getElem? h, List.mem_of_getElem? hm⟩
        refine (ih (nest.of_holds held) (leaves.of_holds held) ((calling_plan h).trans hb)
          (leaves.record _ _ (leaves.setControl _ _ _ hI))).mono ?_ fun _ _ h => h
        intro _ t ht _ _ c _
        by_cases hidle : c.last = .idle
        · rwa [if_pos hidle]
        · rw [if_neg hidle]
          exact leaves.answered ht
      · rintro _ _ ⟨d, t, cursor, ht, -, -, rfl⟩
        exact leaves.setControl _ _ _ ht
    · exact leaves.leaf b k n mesh hI hb .refl (by simpa using hk)

end

end Regrid
