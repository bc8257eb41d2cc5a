/-
  Regrid.Proofs.Same — actions that cannot be told apart.

  Two actions are the same on states with a property if they come to the same from each of
  them and leave a state with the property (`Same`). A sequence of actions is the same as
  another one if its steps are. A rotation is the same whoever updates its members, if the
  members that the plan gives it are; other controls have no members (`apply_congr`).
-/

import Regrid.Proofs.Plan

namespace Regrid

variable {ε σ α β : Type}

/-- From every such state both actions come to the same, and the state stays such. -/
def Same (I : σ → Prop) (x y : EStateM ε σ α) : Prop := ∀ s, I s → x s = y s ∧ I (stateAfter y s)

namespace Same

variable {I : σ → Prop}

theorem refl {x : EStateM ε σ α} (hx : ∀ s, I s → I (stateAfter x s)) : Same I x x := fun s hs => ⟨rfl, hx s hs⟩

theorem pure (a : α) : Same I (Pure.pure a : EStateM ε σ α) (Pure.pure a) := fun _ hs => ⟨rfl, hs⟩

theorem throw (f : ε) : Same I (MonadExcept.throw f : EStateM ε σ α) (MonadExcept.throw f) := fun _ hs => ⟨rfl, hs⟩

theorem bind {x x' : EStateM ε σ α} {y y' : α → EStateM ε σ β} (hx : Same I x x') (hy : ∀ a, Same I (y a) (y' a)) :
    Same I (x >>= y) (x' >>= y') := by
  intro s hs
  obtain ⟨heq, hafter⟩ := hx s hs
  cases hx' : x' s with
  | ok a t =>
    rw [hx'] at heq
    rw [stateAfter, hx'] at hafter
    rw [bind_of_ok heq, stateAfter_bind hx', bind_of_ok hx']
    exact hy a t hafter
  | error f t =>
    rw [hx'] at heq
    rw [stateAfter, hx'] at hafter
    rw [bind_of_error heq, stateAfter, bind_of_error hx']
    exact ⟨rfl, hafter⟩

theorem discard {x y : EStateM ε σ α} (h : Same I x y) : Same I (discard x) (discard y) := by
  rw [discard_eq, discard_eq]
  exact h.bind fun _ => pure _

end Same

/-! ## Members -/

variable {R W : Type} {p : List (Strategy R)} {k : ControlId}

section

variable {I : Bench R W → Prop}

/-- What follows a look at a control may rely on it. -/
theorem Same.found {y y' : Control R → Act R W β}
    (h : ∀ c b, I b → b.controls[k]? = some c → y c b = y' c b ∧ I (stateAfter (y' c) b)) :
    Same I (Act.control k >>= y) (Act.control k >>= y') := by
  intro b hb
  cases hc : b.controls[k]? with
  | none =>
    have missing := Act.control_missing (b := b) hc
    refine ⟨by rw [bind_of_error missing, bind_of_error missing], ?_⟩
    rw [stateAfter, bind_of_error missing]
    exact hb
  | some c =>
    have found := Act.control_apply (b := b) hc
    rw [bind_of_ok found, stateAfter_bind found, bind_of_ok found]
    exact h c b hb hc

variable (plan : ∀ b, I b → b.plan = p)
include plan

/-- What follows a look at a control may rely on what the plan says of it. -/
theorem Same.control {y y' : Control R → Act R W β} (h : ∀ c, p[k]? = some c.strategy.restart → Same I (y c) (y' c)) :
    Same I (Act.control k >>= y) (Act.control k >>= y') :=
  .found fun c b hb hc => h c (plan b hb ▸ Bench.plan_getElem? hc) b hb

/-- Two rotations whose members cannot be told apart. -/
theorem Same.turn (moved : ∀ f, Same I (Rotation.moveCursor k f) (Rotation.moveCursor k f))
    (visited : ∀ i m, Same I (Act.record (.visit k i m)) (Act.record (.visit k i m)))
    (noted : ∀ n, Same I (Act.note n) (Act.note n)) {visit visit' : ControlId → Act R W Unit}
    (hv : ∀ m, Holds p k m → Same I (visit m) (visit' m)) (size turns : Nat) :
    Same I (Rotation.turn visit k size turns) (Rotation.turn visit' k size turns) := by
  induction turns with
  | zero => exact pure _
  | succ turns ih =>
    refine (moved _).bind fun cursor => .control plan fun c hc => ?_
    cases hm : c.strategy.members[cursor.toNat]? with
    | none => exact throw _
    | some member =>
      have holds : Holds p k member := ⟨_, hc, by simpa using List.mem_of_getElem? hm⟩
      refine (visited _ member).bind fun _ => (hv member holds).bind fun _ => .control plan fun c _ => ?_
      by_cases hidle : c.last = .idle
      · rw [if_pos hidle, if_pos hidle]
        exact ih
      · rw [if_neg hidle, if_neg hidle]
        refine .control plan fun _ _ => (noted _).bind fun _ => ?_
        by_cases hagain : c.last.isAgain = true
        · rw [if_pos hagain]
          exact (moved _).discard.bind fun _ => pure _
        · rw [if_neg hagain]
          exact pure _

end

/-- Who updates members matters to rotations only. -/
theorem apply_congr [Arith R] {site : Site R W} {visit visit' : ControlId → Act R W Unit} {b : Bench R W}
    (h : ∀ size turns, Rotation.turn visit k size turns b = Rotation.turn visit' k size turns b) (mesh : MeshId) :
    Update.apply site visit k mesh b = Update.apply site visit' k mesh b := by
  unfold Update.apply
  cases hc : b.controls[k]? with
  | none => rw [bind_of_error (Act.control_missing hc), bind_of_error (Act.control_missing hc)]
  | some c =>
    rw [bind_of_ok (Act.control_apply hc), bind_of_ok (Act.control_apply hc)]
    cases c.strategy with
    | rotation cursor members => exact h members.length members.length
    | refine _ _ _ | coarsen _ | coarsenLimited _ _ | rebalance | foreign _ _ => rfl

end Regrid
