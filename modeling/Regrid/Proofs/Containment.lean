/-
  Regrid.Proofs.Containment — which rotations can come to hold themselves.

  A rotation is never appended to itself, and that is all that is refused. A run of appends
  and clears, between which anything may happen that changes no members, tells whether an
  append has closed a loop: one in which the new member leads back to the rotation.

  Proved for every run:
  (1) No rotation is a member of itself.
  (2) As long as no append has closed a loop, no control leads back to itself. Of such a bench
      an append that is taken leaves one just if it does not close a loop itself.
  (3) No nesting is then deeper than there are controls: at any greater depth each update and
      each reset comes to the same, so that every one of them ends.

  Where rotations hold nothing but each other, no update and no reset ends at any depth
  (`endless_update`, `endless_reset`). Two appends are enough to come there, and both are taken:
  `loop_accepted`.
-/

import Mathlib
import Regrid.Proofs.Nests
import Regrid.Proofs.RoundRobin
import Regrid.Proofs.Same

namespace Regrid

variable {R W : Type}

/-! ## Loops -/

/-- No control leads back to itself. -/
def Acyclic (p : List (Strategy R)) : Prop := ∀ k, ¬ Relation.TransGen (Holds p) k k

section

variable {α : Type} {r r' : α → α → Prop} {a b : α}

/-- A chain over one more pair runs through it, or not. -/
theorem transGen_insert (h : ∀ x y, r' x y → r x y ∨ x = a ∧ y = b) {x y : α} (chain : Relation.TransGen r' x y) :
    Relation.TransGen r x y ∨ Relation.ReflTransGen r x a ∧ Relation.ReflTransGen r b y := by
  induction chain with
  | single step =>
    rcases h _ _ step with old | ⟨rfl, rfl⟩
    · exact .inl (.single old)
    · exact .inr ⟨.refl, .refl⟩
  | tail _ step ih =>
    rcases h _ _ step with old | ⟨rfl, rfl⟩
    · rcases ih with direct | ⟨before, after⟩
      · exact .inl (direct.tail old)
      · exact .inr ⟨before, after.tail old⟩
    · rcases ih with direct | ⟨before, -⟩
      · exact .inr ⟨direct.to_reflTransGen, .refl⟩
      · exact .inr ⟨before, .refl⟩

/-- One more pair closes no loop just if its end does not lead to its start. -/
theorem acyclic_insert (h : ∀ x y, r' x y ↔ r x y ∨ x = a ∧ y = b) :
    (∀ x, ¬ Relation.TransGen r' x x) ↔ (∀ x, ¬ Relation.TransGen r x x) ∧ ¬ Relation.ReflTransGen r b a := by
  have grows (x y : α) (step : r x y) : r' x y := (h x y).mpr (.inl step)
  constructor
  · intro acyclic
    refine ⟨fun x loop => acyclic x (Relation.TransGen.mono grows x x loop), fun back => acyclic a ?_⟩
    exact .head' ((h a b).mpr (.inr ⟨rfl, rfl⟩)) (Relation.ReflTransGen.mono grows b a back)
  · rintro ⟨acyclic, apart⟩ x loop
    rcases transGen_insert (fun x y => (h x y).mp) loop with old | ⟨before, after⟩
    · exact acyclic x old
    · exact apart (after.trans before)

end

/-! ## Members after an operation -/

section

variable {b t : Bench R W} {k m : ControlId} {n : Nat}

theorem Holds.lt {p : List (Strategy R)} (h : Holds p k m) : k < p.length := by
  obtain ⟨s, hs, -⟩ := h
  exact (List.getElem?_eq_some_iff.mp hs).1

theorem holds_setControl {c c' : Control R} (hc : b.controls[k]? = some c) (x y : ControlId) :
    Holds (b.setControl k c').plan x y ↔ if x = k then y ∈ c'.strategy.members else Holds b.plan x y := by
  by_cases hxk : x = k
  · subst hxk
    have own := Bench.plan_getElem? (Bench.setControl_get (d := c') hc)
    simp [Holds, own]
  · have same : (b.setControl k c').plan[x]? = b.plan[x]? := by
      simp [Bench.plan, List.getElem?_set_ne (Ne.symm hxk)]
    simp [Holds, same, hxk]

/-- A rotation takes any member but itself, and holds what it has held besides. -/
theorem holds_append (h : Rotation.append k m b = .ok n t) :
    k ≠ m ∧ ∀ x y, Holds t.plan x y ↔ Holds b.plan x y ∨ x = k ∧ y = m := by
  obtain ⟨hkm, last, cursor, members, hc, -, rfl⟩ := (Rotation.append_ends k m).of_ok h
  refine ⟨hkm, fun x y => ?_⟩
  rw [holds_setControl hc]
  by_cases hxk : x = k
  · subst hxk
    have own : Holds b.plan x y ↔ y ∈ members := by
      simp [Holds, Bench.plan_getElem? hc, Strategy.restart, Strategy.members]
    simp [own, Strategy.members]
  · simp [hxk]

theorem holds_clear (h : Rotation.clear k b = .ok ⟨⟩ t) {x y : ControlId} (holds : Holds t.plan x y) :
    Holds b.plan x y := by
  obtain ⟨last, cursor, members, hc, rfl⟩ := (Rotation.clear_ends k).of_ok h
  rw [holds_setControl hc] at holds
  by_cases hxk : x = k
  · rw [if_pos hxk] at holds
    cases holds
  · rwa [if_neg hxk] at holds

end

/-! ## Nesting -/

/-- Members are nested less than so deep. -/
def Shallow (p : List (Strategy R)) : Nat → ControlId → Prop
  | 0, _ => False
  | n + 1, k => ∀ m, Holds p k m → Shallow p n m

/-- The controls that a control leads to. -/
def below (p : List (Strategy R)) (k : ControlId) : Set ControlId := fun j => j < p.length ∧ Reaches p k j

section

variable {p : List (Strategy R)} {k m : ControlId}

theorem below_subset (p : List (Strategy R)) (k : ControlId) : below p k ⊆ ↑(Finset.range p.length) :=
  fun _ hj => Finset.mem_coe.mpr (Finset.mem_range.mpr hj.1)

theorem below_finite (p : List (Strategy R)) (k : ControlId) : (below p k).Finite :=
  (Finset.finite_toSet _).subset (below_subset p k)

/-- A member leads to less than the rotation does, which is not among it. -/
theorem below_ssubset (acyclic : Acyclic p) (h : Holds p k m) : below p m ⊂ below p k := by
  refine Set.ssubset_iff_subset_ne.mpr ⟨fun j hj => ⟨hj.1, .head h hj.2⟩, ?_⟩
  intro same
  have own : k ∈ below p k := ⟨h.lt, .refl⟩
  rw [← same] at own
  exact acyclic k (.head' h own.2)

theorem shallow_of_card (acyclic : Acyclic p) {n : Nat} (h : (below p k).ncard ≤ n) : Shallow p (n + 1) k := by
  induction n generalizing k with
  | zero =>
    intro m hm
    have less := Set.ncard_lt_ncard (below_ssubset acyclic hm) (below_finite p k)
    omega
  | succ n ih =>
    intro m hm
    have less := Set.ncard_lt_ncard (below_ssubset acyclic hm) (below_finite p k)
    exact ih (by omega)

/-- Without loops nothing is nested deeper than there are controls. -/
theorem shallow_of_acyclic (acyclic : Acyclic p) (k : ControlId) : Shallow p (p.length + 1) k := by
  refine shallow_of_card acyclic ?_
  have most := Set.ncard_le_ncard (below_subset p k) (Finset.finite_toSet _)
  rwa [Set.ncard_coe_finset, Finset.card_range] at most

end

/-! ## Updates and resets end -/

section

variable {site : Site R W} {p : List (Strategy R)} {k : ControlId} {n : Nat}

/-- An action that keeps to the plan is the same as itself. -/
theorem planned_same {α : Type} {x : Act R W α} (h : Stays p (fun _ => True) x) : Same (fun b => b.plan = p) x x := by
  refine Same.refl fun b hb => ?_
  have touched := h b hb
  have after : Touches (fun _ => True) b (stateAfter x b) := ends_stateAfter.mp touched
  exact after.plan.trans hb

theorem forM_same {f g : ControlId → Act R W PUnit} {members : List ControlId}
    (h : ∀ m ∈ members, Same (fun b => b.plan = p) (f m) (g m)) :
    Same (fun b => b.plan = p) (members.forM f) (members.forM g) := by
  induction members with
  | nil => exact .pure _
  | cons m ms ih =>
    show Same _ (f m >>= fun _ => ms.forM f) (g m >>= fun _ => ms.forM g)
    exact (h m (by simp)).bind fun _ => ih fun m' hm' => h m' (by simp [hm'])

/-- A reset goes no deeper than members are nested. -/
theorem reset_enough (h : Shallow p n k) {depth : Nat} (hd : n ≤ depth) :
    Same (fun b => b.plan = p) (Update.reset site depth k) (Update.reset site n k) := by
  induction n generalizing k depth with
  | zero => exact h.elim
  | succ n ih =>
    obtain ⟨depth, rfl⟩ : ∃ d, depth = d + 1 := ⟨depth - 1, by omega⟩
    refine (planned_same (remember_stays trivial _)).bind fun _ => .found fun c b hb hc => ?_
    have hp : p[k]? = some c.strategy.restart := hb ▸ Bench.plan_getElem? hc
    have restarted : (b.setControl k ⟨.idle, c.strategy.restart⟩).plan = p :=
      (Bench.plan_setControl hc (Strategy.restart_restart _)).trans hb
    obtain ⟨last, s⟩ := c
    cases s with
    | rotation cursor members =>
      refine ((forM_same fun m hm => ih (h m ⟨_, hp, hm⟩) (by omega)).bind fun _ => ?_) b hb
      exact (planned_same (moveCursor_stays trivial _)).discard
    | foreign f label => exact planned_same (.of_keeps (overlooks_rounds.ask _)) b hb
    | refine _ _ _ | coarsen _ | coarsenLimited _ _ | rebalance =>
      exact ⟨rfl, restarted⟩

variable [Arith R]

/-- An update goes no deeper than members are nested. -/
theorem update_enough (h : Shallow p n k) {depth : Nat} (hd : n ≤ depth) (mesh : MeshId) :
    Same (fun b => b.plan = p) (Update.update site depth k mesh) (Update.update site n k mesh) := by
  induction n generalizing k depth with
  | zero => exact h.elim
  | succ n ih =>
    obtain ⟨depth, rfl⟩ : ∃ d, depth = d + 1 := ⟨depth - 1, by omega⟩
    have applied : Same (fun b => b.plan = p)
        (Update.apply site (fun m => discard (Update.update site depth m mesh)) k mesh)
        (Update.apply site (fun m => discard (Update.update site n m mesh)) k mesh) := by
      intro b hb
      refine ⟨apply_congr (fun size turns => ?_) mesh, ?_⟩
      · have turned := Same.turn (k := k) (I := fun b : Bench R W => b.plan = p) (fun _ hb => hb)
          (fun f => planned_same (moveCursor_stays trivial f))
          (fun _ _ => planned_same fun _ _ => .record_visit trivial _ _)
          (fun _ => planned_same (.of_keeps fun _ => rfl))
          (fun m hm => (ih (h m hm) (by omega : n ≤ depth)).discard) size turns
        exact (turned b hb).1
      · refine (planned_same (apply_stays (fun _ _ _ _ => trivial) trivial (fun m _ => ?_) mesh) b hb).2
        exact (update_stays (fun _ _ _ _ => trivial) n trivial mesh).discard
    exact applied.bind fun d => (planned_same (remember_stays trivial d)).bind fun _ => .pure _

end

namespace Containment

/-! ## Runs -/

section

variable [Arith R] {site : Site R W} {b t : Bench R W} {k : ControlId}

/-- Controls that hold nothing at first, and what has become of their members since. The proposition
    says that no append has closed a loop. Meanwhile anything may happen that changes no members. -/
inductive Built (site : Site R W) : Prop → Bench R W → Prop
  | made {b : Bench R W} : (∀ k m, ¬ Holds b.plan k m) → Built site True b
  | append {p} {b t : Bench R W} {k m n} : Built site p b → Rotation.append k m b = .ok n t →
      Built site (p ∧ ¬ Reaches b.plan m k) t
  | clear {p} {b t : Bench R W} {k} : Built site p b → Rotation.clear k b = .ok ⟨⟩ t → Built site p t
  | update {p} {b : Bench R W} (depth k mesh) : Built site p b →
      Built site p (stateAfter (Update.update site depth k mesh) b)
  | reset {p} {b : Bench R W} (depth k) : Built site p b → Built site p (stateAfter (Update.reset site depth k) b)
  | meanwhile {p} {b t : Bench R W} : Built site p b → (∀ k m, Holds t.plan k m ↔ Holds b.plan k m) →
      Built site p t

/-- No rotation is appended to itself. -/
theorem built_irreflexive {p : Prop} (h : Built site p b) (k : ControlId) : ¬ Holds b.plan k k := by
  induction h generalizing k with
  | made none => exact none k k
  | append _ happ ih =>
    obtain ⟨hne, holds⟩ := holds_append happ
    rw [holds]
    rintro (old | ⟨rfl, rfl⟩)
    · exact ih k old
    · exact hne rfl
  | clear _ hclear ih => exact fun holds => ih k (holds_clear hclear holds)
  | update depth j mesh _ ih =>
    rw [plan_update]
    exact ih k
  | reset depth j _ ih =>
    rw [plan_reset]
    exact ih k
  | meanwhile _ same ih =>
    rw [same]
    exact ih k

/-- Where no append has closed a loop there is none. -/
theorem built_acyclic {p : Prop} (h : Built site p b) (open_ : p) : Acyclic b.plan := by
  induction h with
  | @made b none =>
    intro k loop
    obtain ⟨m, hm, -⟩ := Relation.TransGen.head'_iff.mp loop
    exact none k m hm
  | append _ happ ih => exact (acyclic_insert (holds_append happ).2).mpr ⟨ih open_.1, open_.2⟩
  | clear _ hclear ih =>
    exact fun k loop => ih open_ k (Relation.TransGen.mono (fun _ _ => holds_clear hclear) k k loop)
  | update depth j mesh _ ih =>
    rw [plan_update]
    exact ih open_
  | reset depth j _ ih =>
    rw [plan_reset]
    exact ih open_
  | meanwhile _ same ih =>
    exact fun k loop => ih open_ k (Relation.TransGen.mono (fun x y => (same x y).mp) k k loop)

/-- No rotation comes to hold itself. Without an append that closes a loop there is no loop, an append
    leaves none unless it closes one, and nothing goes deeper than there are controls. -/
theorem loops_only_by_append {p : Prop} (h : Built site p b) :
    (∀ k, ¬ Holds b.plan k k) ∧
    (p → Acyclic b.plan ∧
      (∀ k m n t, Rotation.append k m b = .ok n t → (Acyclic t.plan ↔ ¬ Reaches b.plan m k)) ∧
      ∀ depth k, b.controls.length < depth →
        (∀ mesh, Update.update site depth k mesh b = Update.update site (b.controls.length + 1) k mesh b) ∧
        Update.reset site depth k b = Update.reset site (b.controls.length + 1) k b) := by
  refine ⟨built_irreflexive h, fun unclosed => ?_⟩
  have acyclic := built_acyclic h unclosed
  refine ⟨acyclic, ?_, ?_⟩
  · intro k m n t happ
    have inserted : Acyclic t.plan ↔ Acyclic b.plan ∧ ¬ Reaches b.plan m k := acyclic_insert (holds_append happ).2
    rw [inserted]
    exact and_iff_right acyclic
  · intro depth k hdepth
    have shallow := shallow_of_acyclic acyclic k
    rw [show b.plan.length = b.controls.length by simp [Bench.plan]] at shallow
    exact ⟨fun mesh => (update_enough shallow hdepth mesh b rfl).1, (reset_enough shallow hdepth b rfl).1⟩

/-! ## Rotations that hold nothing but each other -/

/-- Each control of the set is a rotation with members, all of them in the set. -/
def Closing (p : List (Strategy R)) (L : ControlId → Prop) : Prop :=
  ∀ k, L k → ∃ m ms, p[k]? = some (.rotation (-1) (m :: ms)) ∧ ∀ j ∈ m :: ms, L j

variable {p : List (Strategy R)} {L : ControlId → Prop}

/-- An update goes on to a member, and so to any depth. -/
theorem endless_update (hL : Closing p L) (hk : L k) (hb : b.plan = p) (depth : Nat) (mesh : MeshId) :
    Ends (Update.update site depth k mesh) b (fun _ _ => False) (fun f _ => f = .tooDeep) := by
  induction depth generalizing k b with
  | zero => rfl
  | succ depth ih =>
    obtain ⟨m, ms, hp, members⟩ := hL k hk
    obtain ⟨last, cursor, hc⟩ := rotation_at hb hp
    obtain ⟨i, hi, hlt⟩ := Rotation.next_position cursor (List.length_pos_of_ne_nil (List.cons_ne_nil m ms))
    have hm : (m :: ms)[i]? = some (m :: ms)[i] := List.getElem?_eq_getElem hlt
    simp only [Update.update, Update.apply, ends_bind, Act.ends_control_some hc]
    refine Rotation.ends_step hc hi hm (ends_discard.mpr ?_)
    exact (ih (members _ (List.getElem_mem hlt)) ((calling_plan hc).trans hb)).mono (fun _ _ h => h.elim)
      fun _ _ h => h

omit [Arith R] in
theorem endless_reset (hL : Closing p L) (hk : L k) (hb : b.plan = p) (depth : Nat) :
    Ends (Update.reset site depth k) b (fun _ _ => False) (fun f _ => f = .tooDeep) := by
  induction depth generalizing k b with
  | zero => rfl
  | succ depth ih =>
    obtain ⟨m, ms, hp, members⟩ := hL k hk
    obtain ⟨last, cursor, hc⟩ := rotation_at hb hp
    have forgotten := Bench.setControl_get (d := ⟨.idle, .rotation cursor (m :: ms)⟩) hc
    have planned : (b.setControl k ⟨.idle, .rotation cursor (m :: ms)⟩).plan = p :=
      (Bench.plan_setControl hc (by rfl)).trans hb
    simp only [Update.reset, Update.remember, bind_assoc, ends_bind, Act.ends_control_some hc, Act.ends_putControl,
      Act.ends_control_some forgotten]
    show Ends (Update.reset site depth m >>= fun _ => ms.forM (Update.reset site depth)) _ _ _
    rw [ends_bind]
    exact (ih (members m (by simp)) planned).mono (fun _ _ h => h.elim) fun _ _ h => h

end

/-! ## Closed runs -/

/-- Two rotations and a control of a caller's own, none of which holds anything. -/
def apart : Bench Float (Stand (List Decision)) :=
  Rotation.dictation [] [Control.emptyRotation, Control.emptyRotation, .foreign 0 "leaf"]

/-- The first rotation holds the second, which holds the control. -/
def nested : Bench Float (Stand (List Decision)) :=
  stateAfter (Rotation.append 0 1) (stateAfter (Rotation.append 1 2) apart)

/-- Each of the rotations holds the other one. -/
def loop : Bench Float (Stand (List Decision)) :=
  stateAfter (Rotation.append 1 0) (stateAfter (Rotation.append 0 1) apart)

theorem apart_holds (k m : ControlId) : ¬ Holds apart.plan k m := by
  rintro ⟨s, hs, hm⟩
  have members : ∀ s ∈ apart.plan, s.members = [] := by decide
  rw [members s (List.mem_of_getElem? hs)] at hm
  cases hm

/-- The second rotation does not lead to the first when it is appended to it. -/
theorem built_nested : ∃ p : Prop, p ∧ Built (Stand.site Rotation.dictated) p nested := by
  have made : Built (Stand.site Rotation.dictated) True apart := .made apart_holds
  have inner : Rotation.append 1 2 apart = .ok 1 (stateAfter (Rotation.append 1 2) apart) := rfl
  have outer : Rotation.append 0 1 (stateAfter (Rotation.append 1 2) apart) = .ok 1 nested := rfl
  refine ⟨_, ⟨⟨trivial, ?_⟩, ?_⟩, (made.append inner).append outer⟩
  · intro back
    rcases Relation.ReflTransGen.cases_head back with same | ⟨m, hm, -⟩
    · exact absurd same (by decide)
    · exact apart_holds _ _ hm
  · intro back
    have closed : Closed (stateAfter (Rotation.append 1 2) apart).plan (fun j => j = 1 ∨ j = 2) := by
      intro k m _ hm
      rcases ((holds_append inner).2 k m).mp hm with old | ⟨-, rfl⟩
      · exact (apart_holds k m old).elim
      · exact .inr rfl
    have reached : 0 = 1 ∨ 0 = 2 := closed.of_reaches (.inl rfl) back
    omega

theorem loops_only_by_append_nested :
    ∃ p : Prop, p ∧ Built (Stand.site Rotation.dictated) p nested ∧ Acyclic nested.plan ∧ 3 < 480 ∧
      Update.update (Stand.site Rotation.dictated) 480 0 0 nested =
        Update.update (Stand.site Rotation.dictated) 4 0 0 nested := by
  obtain ⟨p, unclosed, built⟩ := built_nested
  obtain ⟨acyclic, -, ends⟩ := (loops_only_by_append built).2 unclosed
  exact ⟨p, unclosed, built, acyclic, by decide, (ends 480 0 (by decide)).1 0⟩

theorem closing_loop : Closing loop.plan fun k => k = 0 ∨ k = 1 := by
  rintro k (rfl | rfl)
  · exact ⟨1, [], rfl, by simp⟩
  · exact ⟨0, [], rfl, by simp⟩

/-- Each of two rotations is appended to the other. Both appends are taken, the first rotation leads back to
    itself, and at no depth does an update or a reset of it end. -/
theorem loop_accepted :
    (∃ p, Built (Stand.site Rotation.dictated) p loop) ∧ Relation.TransGen (Holds loop.plan) 0 0 ∧
      ∀ depth, outcome (Update.update (Stand.site Rotation.dictated) depth 0 0) loop = .error .tooDeep ∧
        outcome (Update.reset (Stand.site Rotation.dictated) depth 0) loop = .error .tooDeep := by
  have made : Built (Stand.site Rotation.dictated) True apart := .made apart_holds
  have first : Rotation.append 0 1 apart = .ok 1 (stateAfter (Rotation.append 0 1) apart) := rfl
  have second : Rotation.append 1 0 (stateAfter (Rotation.append 0 1) apart) = .ok 1 loop := rfl
  have forth : Holds loop.plan 0 1 := ⟨_, rfl, List.mem_singleton.mpr rfl⟩
  have back : Holds loop.plan 1 0 := ⟨_, rfl, List.mem_singleton.mpr rfl⟩
  refine ⟨⟨_, (made.append first).append second⟩, .head forth (.single back), fun depth => ?_⟩
  exact ⟨(endless_update closing_loop (.inl rfl) rfl depth 0).fails,
    (endless_reset closing_loop (.inl rfl) rfl depth).fails⟩

end Containment

end Regrid
