/-
  Regrid.Proofs.RoundRobin — in which order a rotation updates its members.

  A visit is one member call: where the member stands, how many members there were, and
  what the member decided. `calls` is `Rotation.turn` that also yields its visits.

  While a rotation is not a member of itself, directly or through other rotations:
  - the first visit goes to the first member, and every later one to the next member in
    the order of the sequence, around its end, or to the same member if that asked to be
    applied again;
  - an update visits members up to the first decision that is not idle, which is its own,
    or each member once if all are idle;
  - the cursor is at least -1 and less than the number of members.
  The length counted is the one at the visit, whatever was appended before. A rotation that
  contains itself steps back twice for one decision; a closed run shows it.
-/

import Mathlib.Data.List.Chain
import Regrid.Forest.Site
import Regrid.Proofs.Plan

namespace Regrid

variable {R W : Type}

/-- One member call of a rotation. -/
structure Visit where
  position : Nat
  member : ControlId
  /-- How many members the rotation had. -/
  size : Nat
  decision : Decision
  deriving DecidableEq, Repr

namespace Visit

/-- The visit goes to a member that stands where the visit says. -/
def Pays (members : List ControlId) (v : Visit) : Prop :=
  v.size = members.length ∧ members[v.position]? = some v.member

theorem Pays.position_lt {members : List ControlId} {v : Visit} (h : v.Pays members) :
    v.position < members.length :=
  (List.getElem?_eq_some_iff.mp h.2).1

end Visit

namespace Rotation

/-- The member calls of a turn, with its decision. -/
def calls (visit : ControlId → Act R W Unit) (k : ControlId) (size : Nat) :
    Nat → Act R W (List Visit × Decision)
  | 0 => return ([], .idle)
  | turns + 1 => do
    let cursor ← moveCursor k fun i => (i + 1) % size
    let members := (← Act.control k).strategy.members
    match members[cursor.toNat]? with
    | none => throw .missing
    | some member =>
      Act.record (.visit k cursor.toNat member)
      visit member
      let c ← Act.control member
      let v : Visit := ⟨cursor.toNat, member, members.length, c.last⟩
      if c.last = .idle then
        let r ← calls visit k size turns
        return (v :: r.1, r.2)
      else
        Act.note (.answered (cursorOf (← Act.control k).strategy) c.strategy.label c.last)
        if c.last.isAgain then discard (moveCursor k (· - 1))
        return ([v], c.last)

theorem turn_eq_calls (visit : ControlId → Act R W Unit) (k : ControlId) (size turns : Nat) :
    turn visit k size turns = Prod.snd <$> calls visit k size turns := by
  induction turns with
  | zero => rfl
  | succ turns ih =>
    simp only [turn, calls, map_bind]
    refine bind_congr fun cursor => bind_congr fun c => ?_
    cases c.strategy.members[cursor.toNat]? with
    | none => rfl
    | some member =>
      simp only [map_bind]
      refine bind_congr fun _ => bind_congr fun _ => bind_congr fun c => ?_
      split
      · simp only [ih, bind_pure_comp, Functor.map_map]
      · simp only [map_bind]
        refine bind_congr fun _ => bind_congr fun _ => ?_
        split <;> simp

/-! ## The law -/

/-- Where the cursor is after these visits, if it was at `cursor` before. -/
def cursorAfter (cursor : Int) (vs : List Visit) : Int :=
  match vs.getLast? with
  | none => cursor
  | some v => if v.decision.isAgain then v.position - 1 else v.position

/-- `w` comes next after `v`: the same member again if it asked for that, the following one otherwise. -/
def Follows (v w : Visit) : Prop :=
  w.position = if v.decision.isAgain then v.position else (v.position + 1) % w.size

/-- The visits follow one another, and the first one follows the cursor. -/
structure InTurn (cursor : Int) (vs : List Visit) : Prop where
  chain : vs.IsChain Follows
  first : ∀ v ∈ vs.head?, (v.position : Int) = (cursor + 1) % v.size

/-- The visits of one update with at most `turns` of them: up to the decision that is not
    idle, or as many as there are turns. -/
def Decides (turns : Nat) (vs : List Visit) (d : Decision) : Prop :=
  (d = .idle ∧ vs.length = turns ∧ ∀ v ∈ vs, v.decision = .idle) ∨
    (d ≠ .idle ∧ vs.length ≤ turns ∧
      ∃ us v, vs = us ++ [v] ∧ (∀ u ∈ us, u.decision = .idle) ∧ v.decision = d)

theorem cursorAfter_append (cursor : Int) (vs ws : List Visit) :
    cursorAfter cursor (vs ++ ws) = cursorAfter (cursorAfter cursor vs) ws := by
  simp only [cursorAfter, List.getLast?_append]
  cases ws.getLast? <;> rfl

theorem cursorAfter_cons_idle (cursor : Int) {v : Visit} (hv : v.decision = .idle) (vs : List Visit) :
    cursorAfter cursor (v :: vs) = cursorAfter v.position vs := by
  rw [← List.singleton_append, cursorAfter_append]
  simp [cursorAfter, hv, Decision.isAgain, Decision.action]

theorem inTurn_nil (cursor : Int) : InTurn cursor [] := ⟨.nil, by simp⟩

theorem InTurn.cons_idle {cursor : Int} {v : Visit} {vs : List Visit} (hv : v.decision = .idle)
    (first : (v.position : Int) = (cursor + 1) % v.size) (h : InTurn v.position vs) :
    InTurn cursor (v :: vs) := by
  refine ⟨List.isChain_cons.mpr ⟨fun w hw => ?_, h.chain⟩, by simpa using first⟩
  have hnext := h.first w hw
  simp only [Follows, hv, Decision.isAgain, Decision.action]
  exact_mod_cast hnext

/-- Visits that go on where earlier ones left the cursor follow them. -/
theorem InTurn.append {cursor : Int} {size : Nat} {vs ws : List Visit} (h : InTurn cursor vs)
    (h' : InTurn (cursorAfter cursor vs) ws) (hvs : ∀ v ∈ vs, v.position < size)
    (hws : ∀ w ∈ ws, w.size = size) :
    InTurn cursor (vs ++ ws) := by
  cases hlast : vs.getLast? with
  | none =>
    obtain rfl : vs = [] := List.getLast?_eq_none_iff.mp hlast
    simpa [cursorAfter] using h'
  | some v =>
    have hlt := hvs v (List.mem_of_getLast? hlast)
    refine ⟨List.isChain_append.mpr ⟨h.chain, h'.chain, fun u hu w hw => ?_⟩, fun u hu => ?_⟩
    · obtain rfl : v = u := by simpa [hlast] using hu
      have hnext := h'.first w hw
      have hsize := hws w (List.mem_of_mem_head? hw)
      simp only [cursorAfter, hlast] at hnext
      simp only [Follows]
      split at hnext
      · rw [if_pos ‹_›]
        have : ((v.position : Int) - 1 + 1) % w.size = v.position := by
          rw [Int.sub_add_cancel, Int.emod_eq_of_lt] <;> omega
        omega
      · rw [if_neg ‹_›]
        exact_mod_cast hnext
    · obtain ⟨x, xs, rfl⟩ : ∃ x xs, vs = x :: xs := by
        cases vs with
        | nil => simp at hlast
        | cons x xs => exact ⟨x, xs, rfl⟩
      exact h.first u (by simpa using hu)

theorem decides_cons_idle {turns : Nat} {v : Visit} {vs : List Visit} {d : Decision}
    (hv : v.decision = .idle) (h : Decides turns vs d) : Decides (turns + 1) (v :: vs) d := by
  rcases h with ⟨hd, hlen, hall⟩ | ⟨hd, hlen, us, w, rfl, hall, hw⟩
  · exact .inl ⟨hd, by simp [hlen], by simpa [hv] using hall⟩
  · exact .inr ⟨hd, by simpa using hlen, v :: us, w, rfl, by simpa [hv] using hall, hw⟩

/-! ## One update -/

section

variable {p : List (Strategy R)} {k : ControlId} {last : Decision} {members : List ControlId}

/-- The rotation stands in the plan with its cursor somewhere between -1 and the last member. -/
def Stands (p : List (Strategy R)) (k : ControlId) (last : Decision) (members : List ControlId)
    (cursor : Int) (b : Bench R W) : Prop :=
  b.plan = p ∧ b.controls[k]? = some ⟨last, .rotation cursor members⟩ ∧ -1 ≤ cursor ∧
    cursor < members.length

theorem Stands.move {b : Bench R W} {cursor : Int} (h : Stands p k last members cursor b) {i : Int}
    (hi : -1 ≤ i ∧ i < members.length) :
    Stands p k last members i (b.setControl k ⟨last, .rotation i members⟩) :=
  ⟨Eq.trans (Bench.plan_setControl h.2.1 (by rfl)) h.1, Bench.setControl_get h.2.1, hi⟩

/-- Nothing of the rotation changes where it is out of reach. -/
theorem Stands.of_touches {S : ControlId → Prop} {b t : Bench R W} {cursor : Int}
    (h : Stands p k last members cursor b)
    (ht : Touches S b t) (hk : ¬ S k) : Stands p k last members cursor t :=
  ⟨ht.plan.trans h.1, (ht.control k hk).trans h.2.1, h.2.2⟩

/-- A member was called at position `i`, and what it has reached is not the rotation. -/
theorem Stands.of_call {S : ControlId → Prop} {b t : Bench R W} {cursor : Int} {i : Nat} {m : ControlId}
    (h : Stands p k last members cursor b) (hi : i < members.length)
    (ht : Touches S ((b.setControl k ⟨last, .rotation i members⟩).record (.visit k i m)) t) (hk : ¬ S k) :
    Stands p k last members i t ∧ t.visits k = (i, m) :: b.visits k := by
  have called : Stands p k last members i ((b.setControl k ⟨last, .rotation i members⟩).record (.visit k i m)) :=
    h.move (by omega)
  refine ⟨called.of_touches ht hk, ?_⟩
  rw [ht.visits k hk]
  simp [Bench.visits]

/-- The rotation as a turn has left it, with its visits and its decision. -/
structure Turned (p : List (Strategy R)) (k : ControlId) (last : Decision) (members : List ControlId)
    (cursor : Int) (turns : Nat) (b : Bench R W) (r : List Visit × Decision) (t : Bench R W) : Prop where
  stands : Stands p k last members (cursorAfter cursor r.1) t
  inTurn : InTurn cursor r.1
  decides : Decides turns r.1 r.2
  pays : ∀ v ∈ r.1, v.Pays members
  visits : t.visits k = (r.1.map fun v => (v.position, v.member)).reverse ++ b.visits k

/-- Where the cursor is when the last of these member calls has failed, if it was at `cursor` before. -/
def cursorFailed (cursor : Int) (called : List (Nat × ControlId)) : Int :=
  match called.getLast? with
  | none => cursor
  | some (i, _) => i

/-- The rotation as member calls have left it, the last of which has failed. -/
structure Broke (p : List (Strategy R)) (k : ControlId) (last : Decision) (members : List ControlId)
    (cursor : Int) (b : Bench R W) (called : List (Nat × ControlId)) (t : Bench R W) : Prop where
  stands : Stands p k last members (cursorFailed cursor called) t
  visits : t.visits k = called.reverse ++ b.visits k
  first : ∀ x ∈ called.head?, (x.1 : Int) = (cursor + 1) % members.length ∧ members[x.1]? = some x.2

section

variable {b t u : Bench R W} {cursor : Int} {turns : Nat} {v : Visit}

/-- The first visit is one of a member that decides something. -/
theorem Turned.single (hv : v.decision ≠ .idle) (first : (v.position : Int) = (cursor + 1) % v.size)
    (pays : v.Pays members) (hvisits : t.visits k = (v.position, v.member) :: b.visits k)
    (stands : Stands p k last members (cursorAfter cursor [v]) t) :
    Turned p k last members cursor (turns + 1) b ([v], v.decision) t :=
  ⟨stands, ⟨.singleton _, by simpa using first⟩, .inr ⟨hv, by simp, [], v, rfl, by simp, rfl⟩, by simpa using pays,
    by simpa using hvisits⟩

/-- The first visit is idle, and the turn goes on. -/
theorem Turned.cons {r : List Visit × Decision} (hv : v.decision = .idle)
    (first : (v.position : Int) = (cursor + 1) % v.size) (pays : v.Pays members)
    (hvisits : t.visits k = (v.position, v.member) :: b.visits k)
    (h : Turned p k last members v.position turns t r u) :
    Turned p k last members cursor (turns + 1) b (v :: r.1, r.2) u := by
  refine ⟨?_, .cons_idle hv first h.inTurn, decides_cons_idle hv h.decides, ?_, ?_⟩
  · rw [cursorAfter_cons_idle _ hv]
    exact h.stands
  · simpa using ⟨pays, h.pays⟩
  · simp [h.visits, hvisits]

/-- The first member that was called has failed. -/
theorem Broke.single {i : Nat} {m : ControlId} (hi : (i : Int) = (cursor + 1) % members.length)
    (hm : members[i]? = some m) (hvisits : t.visits k = (i, m) :: b.visits k)
    (stands : Stands p k last members i t) : Broke p k last members cursor b [(i, m)] t :=
  ⟨stands, hvisits, by simpa using ⟨hi, hm⟩⟩

/-- The first of several member calls was idle, and a later one has failed. -/
theorem Broke.cons {i : Nat} {m : ControlId} (hi : (i : Int) = (cursor + 1) % members.length)
    (hm : members[i]? = some m) (hvisits : t.visits k = (i, m) :: b.visits k)
    {called : List (Nat × ControlId)} (hne : called ≠ []) (h : Broke p k last members i t called u) :
    Broke p k last members cursor b ((i, m) :: called) u := by
  refine ⟨?_, by simp [h.visits, hvisits], by simpa using ⟨hi, hm⟩⟩
  obtain ⟨x, hx⟩ := Option.ne_none_iff_exists'.mp (mt List.getLast?_eq_none_iff.mp hne)
  have stands := h.stands
  simp only [cursorFailed, List.getLast?_cons, hx, Option.getD_some] at stands ⊢
  exact stands

end

/-- What a turn of the rotation `k`, no member of itself, does to its cursor and whom it visits.
    The visits of the whole turn are those of its first step, at the cursor it moves to, and
    those of the turns left, from there. -/
theorem calls_ends (alone : ¬ Relation.TransGen (Holds p) k k) {visit : ControlId → Act R W Unit}
    (hv : ∀ m, Holds p k m → Stays p (Relation.TransGen (Holds p) k) (visit m)) {turns : Nat}
    (hturns : turns ≤ members.length) {cursor : Int} {b : Bench R W}
    (hb : Stands p k last members cursor b) :
    Ends (calls visit k members.length turns) b (Turned p k last members cursor turns b)
      (fun _ t => ∃ called, called ≠ [] ∧ Broke p k last members cursor b called t) := by
  induction turns generalizing cursor b with
  | zero => exact ⟨hb, inTurn_nil cursor, .inl ⟨rfl, rfl, by simp⟩, by simp, rfl⟩
  | succ turns ih =>
    obtain ⟨i, hi, hlt⟩ := next_position cursor (show 0 < members.length by omega)
    have moved : Stands p k last members i (b.setControl k ⟨last, .rotation i members⟩) :=
      hb.move (by omega)
    have hmember : members[i]? = some members[i] := List.getElem?_eq_getElem hlt
    have held : Holds p k members[i] :=
      ⟨.rotation (-1) members, hb.1 ▸ Bench.plan_getElem? hb.2.1, List.getElem_mem hlt⟩
    simp only [calls, ends_bind, ends_moveCursor hb.2.1, ← hi, Int.toNat_natCast,
      Act.ends_control_some moved.2.1, Strategy.members, hmember, Act.ends_record]
    -- the member's update reaches what the rotation holds, and so not the rotation
    refine (hv _ held ((b.setControl k ⟨last, .rotation i members⟩).record (.visit k i members[i]))
      moved.1).mono (fun _ t ht => ?_) fun _ t ht => ?_
    · obtain ⟨after, hvisits⟩ := hb.of_call hlt ht alone
      cases hc : t.controls[members[i]]? with
      | none => exact (Act.ends_control_none hc).mpr ⟨_, by simp, .single hi hmember hvisits after⟩
      | some c =>
        rw [Act.ends_control_some hc]
        let v : Visit := ⟨i, members[i], members.length, c.last⟩
        have first : (v.position : Int) = (cursor + 1) % v.size := hi
        have pays : v.Pays members := ⟨rfl, hmember⟩
        by_cases hidle : c.last = .idle
        · simp only [if_pos hidle, ends_bind, ends_pure]
          refine (ih (by omega) after).mono (fun r u hu => ?_) fun _ u hu => ?_
          · exact hu.cons hidle first pays hvisits
          · obtain ⟨later, hne, hbroke⟩ := hu
            exact ⟨_, by simp, hbroke.cons hi hmember hvisits hne⟩
        · simp only [if_neg hidle, ends_bind, Act.ends_control_some after.2.1, Act.ends_note]
          have noted : Stands p k last members i (t.record (.note (.answered
              (cursorOf (.rotation i members : Strategy R)) c.strategy.label c.last))) := after
          by_cases hagain : c.last.isAgain = true
          · simp only [if_pos hagain, ends_bind, ends_discard, ends_moveCursor noted.2.1, ends_pure]
            refine .single hidle first pays (by simpa [Bench.visits] using hvisits) ?_
            simpa [cursorAfter, v, hagain] using noted.move (by omega)
          · simp only [if_neg hagain, ends_pure]
            refine .single hidle first pays (by simpa [Bench.visits] using hvisits) ?_
            simpa [cursorAfter, v, hagain] using noted
    · obtain ⟨after, hvisits⟩ := hb.of_call hlt ht alone
      exact ⟨_, by simp, .single hi hmember hvisits after⟩

variable {site : Site R W} [Arith R]

/-- An update of rotation `k` that also yields its visits. -/
def updateCalls (site : Site R W) : Nat → ControlId → MeshId → Act R W (List Visit × Decision)
  | 0, _, _ => throw .tooDeep
  | depth + 1, k, mesh => do
    let members ← membersOf k
    let r ← calls (fun m => discard (Update.update site depth m mesh)) k members.length members.length
    Update.remember k r.2
    return r

theorem update_eq_calls {b : Bench R W} {cursor : Int}
    (h : b.controls[k]? = some ⟨last, .rotation cursor members⟩)
    (depth : Nat) (mesh : MeshId) :
    Update.update site depth k mesh b = ((·.2.needsUpdate) <$> updateCalls site depth k mesh) b := by
  cases depth with
  | zero => rfl
  | succ depth =>
    simp only [Update.update, Update.apply, updateCalls, membersOf, map_bind, bind_assoc]
    simp only [bind, EStateM.bind, Act.control_apply h]
    simp only [turn_eq_calls, Functor.map, EStateM.map, pure, EStateM.pure]
    cases calls (fun m => discard (Update.update site depth m mesh)) k members.length
      members.length b <;> rfl

/-- What an update of a rotation does that is no member of itself. -/
theorem updateCalls_ends (alone : ¬ Relation.TransGen (Holds p) k k) {cursor : Int} {b : Bench R W}
    (hb : Stands p k last members cursor b) (depth : Nat) (mesh : MeshId) :
    Ends (updateCalls site depth k mesh) b
      (fun r t => Turned p k r.2 members cursor members.length b r t)
      (fun _ t => ∃ called, (0 < depth → called ≠ []) ∧ Broke p k last members cursor b called t) := by
  cases depth with
  | zero => exact ⟨[], nofun, hb, rfl, nofun⟩
  | succ depth =>
    have closed : Closed p (Relation.TransGen (Holds p) k) := fun _ _ hj hm => hj.tail hm
    have visited (m : ControlId) (hm : Holds p k m) :
        Stays p (Relation.TransGen (Holds p) k) (discard (Update.update site depth m mesh)) :=
      (update_stays closed depth (.single hm) mesh).discard
    simp only [updateCalls, membersOf, bind_assoc, ends_bind, Act.ends_control_some hb.2.1, ends_pure]
    refine (calls_ends alone visited (Nat.le_refl _) hb).mono (fun r t ht => ?_) fun _ t ht => ?_
    · have stands := ht.stands
      simp only [Update.remember, ends_bind, Act.ends_control_some stands.2.1, Act.ends_putControl]
      refine ⟨⟨?_, Bench.setControl_get stands.2.1, stands.2.2⟩, ht.inTurn, ht.decides, ht.pays, ht.visits⟩
      exact Eq.trans (Bench.plan_setControl stands.2.1 (by rfl)) stands.1
    · obtain ⟨called, hne, hbroke⟩ := ht
      exact ⟨called, fun _ => hne, hbroke⟩

omit [Arith R] in
/-- What a reset of a rotation does that is no member of itself. -/
theorem reset_ends (alone : ¬ Relation.TransGen (Holds p) k k) {cursor : Int} {b : Bench R W}
    (hb : Stands p k last members cursor b) (depth : Nat) :
    Ends (Update.reset site depth k) b (fun _ t => Stands p k .idle members (-1) t)
      (fun _ t => ∃ l i, Stands p k l members i t) := by
  cases depth with
  | zero => exact ⟨last, cursor, hb⟩
  | succ depth =>
    have forgotten : Stands p k .idle members cursor (b.setControl k ⟨.idle, .rotation cursor members⟩) :=
      ⟨Eq.trans (Bench.plan_setControl hb.2.1 (by rfl)) hb.1, Bench.setControl_get hb.2.1, hb.2.2⟩
    simp only [Update.reset, Update.remember, bind_assoc, ends_bind, Act.ends_control_some hb.2.1,
      Act.ends_putControl, Act.ends_control_some forgotten.2.1]
    have closed : Closed p (Relation.TransGen (Holds p) k) := fun _ _ hj hm => hj.tail hm
    have stays (m : ControlId) (hm : m ∈ members) :
        Stays p (Relation.TransGen (Holds p) k) (Update.reset site depth m) :=
      reset_stays closed depth (.single ⟨.rotation (-1) members, hb.1 ▸ Bench.plan_getElem? hb.2.1, hm⟩)
    refine (forM_stays stays _ forgotten.1).mono (fun _ t ht => ?_)
      fun _ t ht => ⟨.idle, cursor, forgotten.of_touches ht alone⟩
    have stands := forgotten.of_touches ht alone
    simp only [ends_discard, ends_moveCursor stands.2.1]
    exact stands.move (by omega)

end

/-! ## Runs -/

section

variable {k : ControlId} {vs : Option (List Visit)} {last : Decision} {members : List ControlId}
    {cursor : Int}

/-- The invariant of runs: the cursor is where the visits have left it. -/
structure Kept (k : ControlId) (vs : Option (List Visit)) (last : Decision)
    (members : List ControlId) (cursor : Int) (b : Bench R W) : Prop where
  stands : Stands b.plan k last members cursor b
  visits : ∀ us, vs = some us → InTurn (-1) us ∧ cursor = cursorAfter (-1) us ∧
    ∀ v ∈ us, v.position < members.length

theorem kept_of_control {b t : Bench R W} (h : Kept k vs last members cursor b)
    (ht : t.controls[k]? = b.controls[k]?) : Kept k vs last members cursor t :=
  ⟨⟨rfl, ht.trans h.stands.2.1, h.stands.2.2⟩, h.visits⟩

theorem kept_restart {b : Bench R W} (h : b.controls[k]? = some ⟨last, .rotation (-1) members⟩) :
    Kept k (some []) last members (-1) b := by
  refine ⟨⟨rfl, h, by omega⟩, fun us hus => ?_⟩
  obtain rfl : us = [] := by simpa using hus.symm
  exact ⟨inTurn_nil _, rfl, by simp⟩

theorem kept_append {b t : Bench R W} {m : ControlId} {n : Nat} (h : Kept k vs last members cursor b)
    (ht : append k m b = .ok n t) : Kept k vs last (members ++ [m]) cursor t := by
  obtain ⟨-, last', cursor', members', hk, -, rfl⟩ := (append_ends k m).of_ok ht
  cases h.stands.2.1.symm.trans hk
  have hlen : (members ++ [m]).length = members.length + 1 := by simp
  obtain ⟨-, -, lower, upper⟩ := h.stands
  refine ⟨⟨rfl, Bench.setControl_get hk, lower, by omega⟩, fun us hus => ?_⟩
  obtain ⟨inTurn, hcursor, positions⟩ := h.visits us hus
  exact ⟨inTurn, hcursor, fun v hv => by have := positions v hv; omega⟩

theorem kept_clear {b t : Bench R W} (h : Kept k vs last members cursor b) (ht : clear k b = .ok ⟨⟩ t) :
    Kept k (some []) last [] (-1) t := by
  obtain ⟨last', cursor', members', hk, rfl⟩ := (clear_ends k).of_ok ht
  cases h.stands.2.1.symm.trans hk
  exact kept_restart (Bench.setControl_get hk)

variable [Arith R] {site : Site R W}

/-- The visits that an update pays, if it returns. -/
def visitsOf (site : Site R W) (depth : Nat) (k : ControlId) (mesh : MeshId) (b : Bench R W) : List Visit :=
  match updateCalls site depth k mesh b with
  | .ok r _ => r.1
  | .error _ _ => []

/-- A run on rotation `k` since it was made, with its visits since then or since it was cleared or
    reset last; none once a member has failed. Meanwhile anything may happen that leaves `k` alone. -/
inductive Run (site : Site R W) (k : ControlId) : Option (List Visit) → Bench R W → Prop
  | made {b} : b.controls[k]? = some (Control.new Control.emptyRotation) → Run site k (some []) b
  | update {vs b depth mesh needs t} : Run site k vs b → ¬ Relation.TransGen (Holds b.plan) k k →
      Update.update site depth k mesh b = .ok needs t →
        Run site k (vs.map (· ++ visitsOf site depth k mesh b)) t
  | updateFailed {vs b depth mesh f t} : Run site k vs b → ¬ Relation.TransGen (Holds b.plan) k k →
      Update.update site depth k mesh b = .error f t → Run site k none t
  | append {vs b m n t} : Run site k vs b → append k m b = .ok n t → Run site k vs t
  | clear {vs b t} : Run site k vs b → clear k b = .ok ⟨⟩ t → Run site k (some []) t
  | reset {vs b depth t} : Run site k vs b → ¬ Relation.TransGen (Holds b.plan) k k →
      Update.reset site depth k b = .ok ⟨⟩ t → Run site k (some []) t
  | resetFailed {vs b depth f t} : Run site k vs b → ¬ Relation.TransGen (Holds b.plan) k k →
      Update.reset site depth k b = .error f t → Run site k none t
  | meanwhile {vs b t} : Run site k vs b → t.controls[k]? = b.controls[k]? → Run site k vs t

/-- An update judged by its visits is an update judged. -/
theorem ends_update {b : Bench R W} (h : b.controls[k]? = some ⟨last, .rotation cursor members⟩)
    (depth : Nat)
    (mesh : MeshId) {P : List Visit → Decision → Bench R W → Prop} {Q : Fault → Bench R W → Prop}
    (hcalls : Ends (updateCalls site depth k mesh) b (fun r t => P r.1 r.2 t) Q) :
    Ends (Update.update site depth k mesh) b
      (fun needs t => ∃ d, needs = d.needsUpdate ∧ P (visitsOf site depth k mesh b) d t) Q := by
  simp only [Ends, update_eq_calls h, Functor.map, EStateM.map, visitsOf] at hcalls ⊢
  cases hr : updateCalls site depth k mesh b with
  | ok r t =>
    simp only [hr] at hcalls ⊢
    exact ⟨_, rfl, hcalls⟩
  | error f t =>
    simp only [hr] at hcalls ⊢
    exact hcalls

/-- The visits of an update go on where those before it have left the cursor. -/
theorem kept_update {b : Bench R W} (h : Kept k vs last members cursor b)
    (alone : ¬ Relation.TransGen (Holds b.plan) k k) (depth : Nat) (mesh : MeshId) :
    Ends (Update.update site depth k mesh) b
      (fun needs t => ∃ d, needs = d.needsUpdate ∧
        Kept k (vs.map (· ++ visitsOf site depth k mesh b)) d members
          (cursorAfter cursor (visitsOf site depth k mesh b)) t)
      (fun _ t => ∃ i, Kept k none last members i t) := by
  refine ends_update h.stands.2.1 depth mesh (P := fun ws d t =>
    Kept k (vs.map (· ++ ws)) d members (cursorAfter cursor ws) t) ?_
  refine (updateCalls_ends alone h.stands depth mesh).mono (fun r t ht => ?_) fun _ t ht => ?_
  · obtain ⟨stands, inTurn, -, paid, -⟩ := ht
    refine ⟨⟨rfl, stands.2⟩, fun us hus => ?_⟩
    obtain ⟨us, rfl, rfl⟩ := Option.map_eq_some_iff.mp hus
    obtain ⟨earlier, rfl, positions⟩ := h.visits us rfl
    refine ⟨earlier.append inTurn positions fun w hw => (paid w hw).1,
      (cursorAfter_append _ _ _).symm, fun v hv => ?_⟩
    rcases List.mem_append.mp hv with hv | hv
    · exact positions v hv
    · exact (paid v hv).position_lt
  · obtain ⟨called, -, hbroke⟩ := ht
    exact ⟨_, ⟨rfl, hbroke.stands.2⟩, by simp⟩

theorem run_kept {b : Bench R W} (h : Run site k vs b) :
    ∃ last members cursor, Kept k vs last members cursor b := by
  induction h with
  | made hb => exact ⟨_, _, _, kept_restart hb⟩
  | update _ alone hu ih =>
    obtain ⟨last, members, cursor, hb⟩ := ih
    obtain ⟨d, -, kept⟩ := (kept_update hb alone _ _).of_ok hu
    exact ⟨d, members, _, kept⟩
  | updateFailed _ alone hu ih =>
    obtain ⟨last, members, cursor, hb⟩ := ih
    obtain ⟨i, kept⟩ := (kept_update hb alone _ _).of_error hu
    exact ⟨last, members, i, kept⟩
  | append _ ha ih =>
    obtain ⟨last, members, cursor, hb⟩ := ih
    exact ⟨_, _, _, kept_append hb ha⟩
  | clear _ hc ih =>
    obtain ⟨last, members, cursor, hb⟩ := ih
    exact ⟨_, _, _, kept_clear hb hc⟩
  | reset _ alone hr ih =>
    obtain ⟨last, members, cursor, hb⟩ := ih
    exact ⟨_, _, _, kept_restart ((reset_ends alone hb.stands _).of_ok hr).2.1⟩
  | resetFailed _ alone hr ih =>
    obtain ⟨last, members, cursor, hb⟩ := ih
    obtain ⟨l, i, stands⟩ := (reset_ends alone hb.stands _).of_error hr
    exact ⟨l, members, i, ⟨rfl, stands.2⟩, by simp⟩
  | meanwhile _ ht ih =>
    obtain ⟨last, members, cursor, hb⟩ := ih
    exact ⟨_, _, _, kept_of_control hb ht⟩

/-- Along every run the visits follow one another from the first member on and the cursor keeps
    its bounds; and an update visits members up to the one whose decision it reports. -/
theorem visits_in_turn {b : Bench R W} (h : Run site k vs b) :
    ∃ last members cursor, b.controls[k]? = some ⟨last, .rotation cursor members⟩ ∧
      (-1 ≤ cursor ∧ cursor < members.length) ∧
      (∀ us, vs = some us → us.IsChain Follows ∧ ∀ v ∈ us.head?, v.position = 0) ∧
      ∀ depth mesh, ¬ Relation.TransGen (Holds b.plan) k k →
        Ends (Update.update site depth k mesh) b
          (fun needs t => ∃ d, needs = d.needsUpdate ∧ t.controls[k]?.map (·.last) = some d ∧
            Decides members.length (visitsOf site depth k mesh b) d ∧
            (∀ v ∈ visitsOf site depth k mesh b, v.Pays members) ∧
            t.visits k =
              ((visitsOf site depth k mesh b).map fun v => (v.position, v.member)).reverse ++
                b.visits k)
          (fun _ _ => True) := by
  obtain ⟨last, members, cursor, kept⟩ := run_kept h
  refine ⟨last, members, cursor, kept.stands.2.1, kept.stands.2.2, fun us hus => ?_,
    fun depth mesh alone => ?_⟩
  · obtain ⟨inTurn, -, -⟩ := kept.visits us hus
    refine ⟨inTurn.chain, fun v hv => ?_⟩
    have hfirst := inTurn.first v hv
    simpa using hfirst
  · refine ends_update kept.stands.2.1 depth mesh (P := fun ws d t => t.controls[k]?.map (·.last) = some d ∧
      Decides members.length ws d ∧ (∀ v ∈ ws, v.Pays members) ∧
      t.visits k = (ws.map fun v => (v.position, v.member)).reverse ++ b.visits k) ?_
    refine (updateCalls_ends alone kept.stands depth mesh).mono (fun r t ht => ?_) fun _ _ _ => trivial
    obtain ⟨stands, -, decides, paid, visits⟩ := ht
    exact ⟨by rw [stands.2.1]; rfl, decides, paid, visits⟩

end

/-! ## Closed runs -/

/-- Controls that take the next of the decisions laid down, beside a forest of four leaves. -/
def dictated : Stand.Company Float (List Decision) where
  errors _ _ := pure []
  flags _ _ := pure none
  marking _ _ := throw .missing
  decide _ _ := do
    let d :: ds ← get | return .idle
    set ds
    return d
  reset _ _ := pure ⟨⟩

def dictation (ds : List Decision) (controls : List (Strategy Float)) :
    Bench Float (Stand (List Decision)) where
  world := ⟨Forest.ofRoots 4 0, true, false, ds⟩
  markers := []
  controls := controls.map Control.new
  trace := []

/-- A rotation and two controls, the second of which asks to be applied again. -/
def pair (members : List ControlId) : Bench Float (Stand (List Decision)) :=
  dictation [.idle, .again none] [.rotation (-1) members, .foreign 0 "first", .foreign 1 "second"]

theorem pair_alone : ¬ Relation.TransGen (Holds (pair [1, 2]).plan) 0 0 := by
  have leaf (j m : ControlId) (hj : j = 1 ∨ j = 2) (h : Holds (pair [1, 2]).plan j m) : m = 1 ∨ m = 2 := by
    obtain ⟨s, hs, hm⟩ := h
    rcases hj with rfl | rfl <;> cases hs <;> cases hm
  refine alone_of_closed (S := fun j => j = 1 ∨ j = 2) leaf (fun m h => ?_) (by decide)
  obtain ⟨s, hs, hm⟩ := h
  obtain rfl : .rotation (-1) [1, 2] = s := Option.some.inj hs
  simpa [Strategy.members] using hm

theorem visits_in_turn_of_pair :
    ∃ us b, Run (Stand.site dictated) 0 (some us) b ∧ us.map (·.position) = [0, 1] ∧ us.IsChain Follows ∧
      ¬ Relation.TransGen (Holds (pair [1, 2]).plan) 0 0 ∧
      Ends (Update.update (Stand.site dictated) 2 0 0) (pair [1, 2])
        (fun needs _ => ∃ d, needs = d.needsUpdate ∧
          Decides 2 (visitsOf (Stand.site dictated) 2 0 0 (pair [1, 2])) d)
        (fun _ _ => True) := by
  have first : Run (Stand.site dictated) 0 (some []) (pair [1]) :=
    (Run.made rfl).append (b := pair []) (m := 1) (n := 1) rfl
  have second : Run (Stand.site dictated) 0 (some []) (pair [1, 2]) := first.append (m := 2) (n := 2) rfl
  obtain ⟨t, hu⟩ : ∃ t, Update.update (Stand.site dictated) 2 0 0 (pair [1, 2]) = .ok true t := ⟨_, rfl⟩
  have third : Run (Stand.site dictated) 0 (some (visitsOf (Stand.site dictated) 2 0 0 (pair [1, 2]))) t :=
    second.update pair_alone hu
  obtain ⟨_, _, _, -, -, law, -⟩ := visits_in_turn third
  obtain ⟨last, members, cursor, hc, -, -, report⟩ := visits_in_turn second
  obtain rfl : [1, 2] = members := by cases hc; rfl
  exact ⟨_, t, third, by decide, (law _ rfl).1, pair_alone,
    (report 2 0 pair_alone).mono (fun _ _ ⟨d, needs, _, decides, _⟩ => ⟨d, needs, decides⟩)
      fun _ _ _ => trivial⟩

/-- A sequence, a control of its own, and a sequence that holds the first one: nothing refuses
    the loop, and one decision to be applied again steps the first cursor back twice, past -1. -/
theorem cursor_in_a_loop :
    ∃ t, (do
        discard (append 0 1)
        discard (append 0 2)
        discard (append 2 0)
        Update.update (Stand.site dictated) 4 0 0)
        (dictation [.idle, .again none] [Control.emptyRotation, .foreign 0 "inner",
          Control.emptyRotation]) = .ok true t ∧
      t.controls[0]? = some ⟨.again none, .rotation (-2) [1, 2]⟩ := by
  exact ⟨_, rfl, rfl⟩

end Rotation

end Regrid
