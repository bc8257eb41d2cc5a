/-
  Regrid.Proofs.Nesting — which leaf of a nest comes next, and how long a leaf waits.

  When the root of a nest asks to be applied again, so has the leaf visited last, and its
  seat is where the cursors of all rotations above it point to next (`Due`): whatever is done
  meanwhile that leaves the rotations alone, the next update of the root visits that seat
  first.

  How long a seat waits at most is told by the cursors above it (`wait`), in mixed radix with
  the sizes of the rotations for digits: the rotation at the top counts how far its cursor is
  from the member above the seat, and each time it gets there the rotation below counts
  down. An update of the root that does not ask to be applied again visits the seat, or
  leaves it less to wait (`Nest.update_nears`). So it is visited within as many such updates
  as the product of the sizes above it (`nested_sequences`). Leaves decide what they like.
-/

import Mathlib
import Regrid.Proofs.Nests
import Regrid.Proofs.RoundRobin

namespace Regrid

variable {R W : Type}

/-! ## The seat that comes next -/

/-- The next update of `k` visits this seat first: each rotation on the way has it, or the member above
    it, next in turn. -/
inductive Due (ss : List (Strategy R)) : ControlId → Seat → Prop
  | leaf {k cursor members m} {i : Nat} : ss[k]? = some (.rotation cursor members) →
      (i : Int) = (cursor + 1) % members.length → members[i]? = some m → rotates ss m = false →
      Due ss k ⟨k, i, m⟩
  | inner {k cursor members m seat} {i : Nat} : ss[k]? = some (.rotation cursor members) →
      (i : Int) = (cursor + 1) % members.length → members[i]? = some m → Due ss m seat → Due ss k seat

section

variable {p : List (Strategy R)} {n : Nat} {k m : ControlId} {cursor : Int} {members : List ControlId} {i : Nat}
    {b t : Bench R W}

theorem rotates_strategies (hb : b.plan = p) (k : ControlId) : rotates b.strategies k = rotates p k := by
  rw [← hb, Bench.plan_eq, rotates, rotates, List.getElem?_map]
  cases b.strategies[k]? with
  | none => rfl
  | some s => exact (Strategy.isRotation_restart s).symm

theorem ne_of_leaf {last : Decision} {j : ControlId} (hb : b.plan = p)
    (hk : b.controls[k]? = some ⟨last, .rotation cursor members⟩) (hj : rotates p j = false) : k ≠ j := by
  rintro rfl
  rw [← rotates_strategies hb, rotates_of_rotation (Bench.strategies_getElem? hk)] at hj
  cases hj

theorem strategies_of_controls (h : t.controls[k]? = b.controls[k]?) :
    t.strategies[k]? = b.strategies[k]? := by
  simp [Bench.strategies, h]

theorem holds_of_strategies (hb : b.plan = p) (h : b.strategies[k]? = some (.rotation cursor members))
    (hm : members[i]? = some m) : Holds p k m :=
  ⟨.rotation (-1) members, by rw [← hb, Bench.plan_eq, List.getElem?_map, h]; rfl, List.mem_of_getElem? hm⟩

theorem Due.isRotation {seat : Seat} (h : Due b.strategies k seat) (hb : b.plan = p) : rotates p k = true := by
  rw [← rotates_strategies hb]
  cases h with
  | leaf hk | inner hk => exact rotates_of_rotation hk

theorem Due.leaf_of_seat {seat : Seat} (h : Due b.strategies k seat) (hb : b.plan = p) :
    rotates p seat.leaf = false := by
  rw [← rotates_strategies hb]
  induction h with
  | leaf _ _ _ hleaf => exact hleaf
  | inner _ _ _ _ ih => exact ih

/-- Which seat comes next is seen from the rotations that are reached. -/
theorem Due.frame {seat : Seat} (h : Due b.strategies k seat) (hb : b.plan = p) (ht : t.plan = p)
    (agree : ∀ j, Under p k j → t.strategies[j]? = b.strategies[j]?) : Due t.strategies k seat := by
  induction h with
  | @leaf k cursor members m i hk hi hm hleaf =>
    have under : Under p k k := ⟨.refl, by rw [← rotates_strategies hb, rotates_of_rotation hk]⟩
    refine .leaf ((agree k under).trans hk) hi hm ?_
    rw [rotates_strategies ht, ← rotates_strategies hb, hleaf]
  | @inner k cursor members m seat i hk hi hm _ ih =>
    have under : Under p k k := ⟨.refl, by rw [← rotates_strategies hb, rotates_of_rotation hk]⟩
    have held := holds_of_strategies hb hk hm
    exact .inner ((agree k under).trans hk) hi hm (ih fun j hj => agree j ⟨.head held hj.1, hj.2⟩)

/-- A change of the rotation above a member is none for what the member reaches. -/
theorem Nest.strategies_under (nest : Nest p n k) (hm : Holds p k m) (hj : Under p m j)
    (h : ∀ j, k ≠ j → t.controls[j]? = b.controls[j]?) : t.strategies[j]? = b.strategies[j]? := by
  refine strategies_of_controls (h j ?_)
  rintro rfl
  exact nest.not_reaches hm hj.1

end

/-! ## The seat visited first, and the seat visited last -/

section

variable {k m : ControlId} {last : Decision} {cursor : Int} {members : List ControlId} {i : Nat}
    {b t : Bench R W} {c : Control R} {p : List (Strategy R)} [Arith R] {site : Site R W} {n : Nat}
    {mesh : MeshId}

/-- The first seat that was visited between `b` and `t` is this one. -/
def First (p : List (Strategy R)) (seat : Seat) (b t : Bench R W) : Prop :=
  ∃ after, t.seats p = after ++ seat :: b.seats p

omit [Arith R] in
theorem First.onward {seat : Seat} {u : Bench R W} (h : First p seat b t) (htu : t.Onward u) :
    First p seat b u := by
  obtain ⟨after, ht⟩ := h
  obtain ⟨new, hu⟩ := seats_onward (p := p) htu
  exact ⟨new ++ after, by rw [hu, ht, List.append_assoc]⟩

/-- The call of the next member begins the update: when it visits the seat first, so does the update. -/
theorem Nest.first_of_call (nest : Nest p (n + 1) k) (hb : b.plan = p)
    (h : b.controls[k]? = some ⟨last, .rotation cursor members⟩) (hi : (i : Int) = (cursor + 1) % members.length)
    (hm : members[i]? = some m) {seat : Seat}
    (hcall : Ends (Update.update site n m mesh) (b.calling k last members i m)
      (fun _ t => First p seat b t) (fun _ t => First p seat b t)) :
    Ends (Update.update site (n + 1) k mesh) b (fun _ t => First p seat b t) (fun _ t => First p seat b t) := by
  have onward := aloof_onward (R := R) site
  obtain ⟨hlt, -⟩ := List.getElem?_eq_some_iff.mp hm
  obtain ⟨turns, hturns⟩ : ∃ turns, members.length = turns + 1 := ⟨members.length - 1, by omega⟩
  have turned : Ends (Rotation.turn (fun m => discard (Update.update site n m mesh)) k members.length
      (turns + 1)) b (fun _ t => First p seat b t) (fun _ t => First p seat b t) := by
    refine nest.ends_step hb h hi hm (hcall.mono ?_ fun _ _ h => h)
    intro _ t ht _ _ _ c _
    by_cases hidle : c.last = .idle
    · rw [if_pos hidle]
      exact (onward.turn (fun m => (onward.update n m mesh).discard) k _ turns t).mono
        (fun _ _ hu => ht.onward hu) fun _ _ hu => ht.onward hu
    · rw [if_neg hidle]
      exact ht.onward answered_onward
  rw [← hturns] at turned
  refine (ends_update_rotation h).mpr (turned.mono ?_ fun _ _ h => h)
  intro d t ht
  exact (onward.remember k d t).mono (fun _ _ hu => ht.onward hu) fun _ _ hu => ht.onward hu

/-- Whatever comes of it, an update visits the seat that comes next before any other. -/
theorem Nest.due_first (nest : Nest p n k) (hb : b.plan = p) {seat : Seat} (due : Due b.strategies k seat) :
    Ends (Update.update site n k mesh) b (fun _ t => First p seat b t) (fun _ t => First p seat b t) := by
  induction n generalizing k b with
  | zero => cases nest
  | succ n ih =>
    have onward := aloof_onward (R := R) site
    obtain ⟨last, cursor, members, h⟩ := rotation_of_plan hb (due.isRotation hb)
    have same {cursor' : Int} {members' : List ControlId} (hk : b.strategies[k]? = some (.rotation cursor' members')) :
        cursor = cursor' ∧ members = members' := by
      simpa using (Bench.strategies_getElem? h).symm.trans hk
    cases due with
    | @leaf _ _ _ m i hk hi hm hleaf =>
      obtain ⟨rfl, rfl⟩ := same hk
      rw [rotates_strategies hb] at hleaf
      have called : First p ⟨k, i, m⟩ b (b.calling k last members i m) := ⟨[], seats_visit_leaf hleaf⟩
      exact nest.first_of_call hb h hi hm ((onward.update n m mesh _).mono (fun _ _ ht => called.onward ht)
        fun _ _ ht => called.onward ht)
    | @inner _ _ _ m _ i hk hi hm due =>
      obtain ⟨rfl, rfl⟩ := same hk
      have held := holds_of_strategies hb hk hm
      have called : (b.calling k last members i m).plan = p := (calling_plan h).trans hb
      have due' : Due (b.calling k last members i m).strategies m seat :=
        due.frame hb called fun j hj => nest.strategies_under held hj fun _ => calling_other
      have seats : (b.calling k last members i m).seats p = b.seats p := seats_visit_rotation (due.isRotation hb)
      refine nest.first_of_call hb h hi hm ((ih (nest.of_holds held) called due').mono ?_ ?_)
      · rintro _ t ⟨after, ht⟩
        exact ⟨after, by rw [ht, seats]⟩
      · rintro _ t ⟨after, ht⟩
        exact ⟨after, by rw [ht, seats]⟩

/-- The last seat visited between `b` and `t` is one whose leaf has decided `d`, and it comes next. -/
def Asked (p : List (Strategy R)) (k : ControlId) (d : Decision) (b t : Bench R W) : Prop :=
  ∃ seat before, t.seats p = seat :: (before ++ b.seats p) ∧ t.lastOf seat.leaf = d ∧ Due t.strategies k seat

omit [Arith R] in
/-- The rotation steps back to the member that has asked to be applied again. -/
theorem strategies_answered (h : t.controls[k]? = some ⟨last, .rotation i members⟩)
    (hagain : c.last.isAgain = true) :
    (t.answered k last members i c).strategies[k]? = some (.rotation ((i : Int) - 1) members) := by
  have hk := answered_get (c := c) h
  rw [if_pos hagain] at hk
  exact Bench.strategies_getElem? hk

omit [Arith R] in
/-- The visit of a leaf that asks to be applied again. -/
theorem Asked.of_leaf (hm : members[i]? = some m) (hleaf : rotates p m = false)
    (hseats : t.seats p = (b.calling k last members i m).seats p) (ht : t.plan = p)
    (hk : t.controls[k]? = some ⟨last, .rotation i members⟩) (hc : t.controls[m]? = some c)
    (hagain : c.last.isAgain = true) : Asked p k c.last b (t.answered k last members i c) := by
  obtain ⟨hlt, -⟩ := List.getElem?_eq_some_iff.mp hm
  have hne : k ≠ m := ne_of_leaf ht hk hleaf
  refine ⟨⟨k, i, m⟩, [], ?_, ?_, .leaf (strategies_answered hk hagain) ?_ hm ?_⟩
  · rw [answered_seats, hseats]
    exact seats_visit_leaf hleaf
  · exact Bench.lastOf_some ((answered_other hne).trans hc)
  · rw [Int.sub_add_cancel, Int.emod_eq_of_lt (by omega) (by omega)]
  · rw [rotates_strategies ((answered_plan hk).trans ht), hleaf]

omit [Arith R] in
/-- What asks below asks above, as the rotation steps back to the member. -/
theorem Asked.of_member (nest : Nest p n k) (hheld : Holds p k m) (hm : members[i]? = some m)
    (hrotates : rotates p m = true) (h : Asked p m c.last (b.calling k last members i m) t) (ht : t.plan = p)
    (hk : t.controls[k]? = some ⟨last, .rotation i members⟩) (hagain : c.last.isAgain = true) :
    Asked p k c.last b (t.answered k last members i c) := by
  obtain ⟨hlt, -⟩ := List.getElem?_eq_some_iff.mp hm
  obtain ⟨seat, before, hseats, hlast, due⟩ := h
  have hne : k ≠ seat.leaf := ne_of_leaf ht hk (due.leaf_of_seat ht)
  refine ⟨seat, before, ?_, ?_, .inner (strategies_answered hk hagain) ?_ hm ?_⟩
  · rw [answered_seats, hseats]
    exact congrArg (fun s => seat :: (before ++ s)) (seats_visit_rotation hrotates)
  · rw [Bench.lastOf, answered_other hne]
    exact hlast
  · rw [Int.sub_add_cancel, Int.emod_eq_of_lt (by omega) (by omega)]
  · exact due.frame ht ((answered_plan hk).trans ht) fun j hj =>
      nest.strategies_under hheld hj fun _ => answered_other

omit [Arith R] in
theorem Asked.earlier {d : Decision} {b₀ : Bench R W} {new : List Seat} (h : Asked p k d b t)
    (hb : b.seats p = new ++ b₀.seats p) : Asked p k d b₀ t := by
  obtain ⟨seat, before, hseats, hlast, due⟩ := h
  exact ⟨seat, before ++ new, by rw [hseats, hb, List.append_assoc], hlast, due⟩

/-- When a rotation asks to be applied again, so has the leaf it has visited last. -/
theorem Nest.update_asks (nest : Nest p n k) (hb : b.plan = p) (hk : rotates p k = true) :
    Ends (Update.update site n k mesh) b
      (fun _ t => (t.lastOf k).isAgain = true → Asked p k (t.lastOf k) b t) (fun _ _ => True) := by
  induction n generalizing k b with
  | zero => cases nest
  | succ n ih =>
    obtain ⟨last, cursor, members, h⟩ := rotation_of_plan hb hk
    refine (nest.ends_update (J := fun _ t => ∃ new, t.seats p = new ++ b.seats p)
      (P := fun d t => d.isAgain = true → Asked p k d b t) (Q := fun _ _ => True) ?_ ?_ hb h ⟨[], rfl⟩).mono ?_
      fun _ _ _ => trivial
    · intro _ _ hidle
      cases hidle
    · rintro turns b₁ cursor₁ i m hb₁ h₁ hi hm ⟨new, hnew⟩
      have held : Holds p k m := ⟨.rotation (-1) members, hb₁ ▸ Bench.plan_getElem? h₁, List.mem_of_getElem? hm⟩
      have called : (b₁.calling k last members i m).plan = p := (calling_plan h₁).trans hb₁
      have asks (t : Bench R W) (c : Control R) (ht : t.plan = p)
          (honward : (b₁.calling k last members i m).Onward t)
          (hagain : c.last.isAgain = true → Asked p k c.last b₁ (t.answered k last members i c)) :
          if c.last = .idle then ∃ new, t.seats p = new ++ b.seats p
          else c.last.isAgain = true → Asked p k c.last b (t.answered k last members i c) := by
        by_cases hidle : c.last = .idle
        · rw [if_pos hidle]
          obtain ⟨later, hlater⟩ := seats_onward (p := p) (calling_onward.trans honward)
          exact ⟨later ++ new, by rw [hlater, hnew, List.append_assoc]⟩
        · rw [if_neg hidle]
          exact fun hc => (hagain hc).earlier hnew
      have onward := (aloof_onward (R := R) site).update n m mesh (b₁.calling k last members i m)
      by_cases hrotates : rotates p m = true
      · refine ((ih (nest.of_holds held) called hrotates).and onward).mono ?_ fun _ _ _ => trivial
        rintro _ t ⟨hasked, honward⟩ touched hk c hc
        have ht := touched.plan.trans called
        rw [Bench.lastOf_some hc] at hasked
        exact asks t c ht honward fun hagain =>
          .of_member nest held hm hrotates (hasked hagain) ht hk hagain
      · have hleaf : rotates p m = false := by simpa using hrotates
        refine ((leaf_seats (p := p) (called.symm ▸ hleaf) n).and onward).mono ?_ fun _ _ _ => trivial
        rintro _ t ⟨hseats, honward⟩ touched hk c hc
        have ht := touched.plan.trans called
        exact asks t c ht honward fun hagain => .of_leaf hm hleaf hseats ht hk hc hagain
    · rintro _ _ ⟨d, t, cursor, hasked, ht, hk, rfl⟩ hagain
      rw [Bench.lastOf_some (Bench.setControl_get hk)] at hagain ⊢
      obtain ⟨seat, before, hseats, hlast, due⟩ := hasked hagain
      have hne : k ≠ seat.leaf := ne_of_leaf ht hk (due.leaf_of_seat ht)
      have same : (t.setControl k ⟨d, .rotation cursor members⟩).strategies = t.strategies :=
        Bench.strategies_same hk rfl
      refine ⟨seat, before, hseats, ?_, ?_⟩
      · rw [← hlast, Bench.lastOf, Bench.lastOf, Bench.setControl_controls, List.getElem?_set_ne hne]
      · rwa [same]

end

/-! ## Waiting -/

/-- One step of the way down to a seat: a rotation of some size, and a position in it. -/
structure Leg where
  rotation : ControlId
  position : Nat
  size : Nat
  deriving DecidableEq, Repr

/-- The way from `k` down to a seat. -/
inductive Path (p : List (Strategy R)) : ControlId → List Leg → Seat → Prop
  | last {k cursor members m} {i : Nat} : p[k]? = some (.rotation cursor members) → members[i]? = some m →
      rotates p m = false → Path p k [⟨k, i, members.length⟩] ⟨k, i, m⟩
  | step {k cursor members m legs seat} {i : Nat} : p[k]? = some (.rotation cursor members) →
      members[i]? = some m → Path p m legs seat → Path p k (⟨k, i, members.length⟩ :: legs) seat

/-- The cursor of a rotation. -/
def cursorIn (ss : List (Strategy R)) (k : ControlId) : Int :=
  match ss[k]? with
  | some s => Rotation.cursorOf s
  | none => -1

/-- How many members the rotation calls before it comes to this leg. -/
def Leg.distance (leg : Leg) (cursor : Int) : Nat := ((leg.position - (cursor + 1)) % leg.size).toNat

/-- How long the seat at the end of the legs waits at most. -/
def wait (ss : List (Strategy R)) : List Leg → Nat
  | [] => 0
  | leg :: legs => wait ss legs * leg.size + leg.distance (cursorIn ss leg.rotation)

section

variable {p : List (Strategy R)} {k m : ControlId} {legs : List Leg} {seat : Seat} {b t u : Bench R W}

theorem Leg.distance_lt (leg : Leg) (cursor : Int) (h : 0 < leg.size) : leg.distance cursor < leg.size := by
  have lower := Int.emod_nonneg (leg.position - (cursor + 1)) (b := leg.size) (by omega)
  have upper := Int.emod_lt_of_pos (leg.position - (cursor + 1)) (b := leg.size) (by omega)
  unfold distance
  omega

/-- A rotation that has come to the leg has come all around before the next time. -/
theorem Leg.distance_self (leg : Leg) (h : leg.position < leg.size) :
    leg.distance leg.position + 1 = leg.size := by
  unfold distance
  rw [show (leg.position : Int) - (leg.position + 1) = leg.size - 1 - leg.size by omega, Int.sub_emod_right,
    Int.emod_eq_of_lt (by omega) (by omega)]
  omega

/-- A rotation that moves to another member is one step nearer to the leg. -/
theorem Leg.distance_next (leg : Leg) (h : leg.position < leg.size) {cursor : Int} {i : Nat}
    (hi : (i : Int) = (cursor + 1) % leg.size) (hne : i ≠ leg.position) :
    leg.distance i + 1 = leg.distance cursor := by
  have lower := Int.emod_nonneg (cursor + 1) (b := leg.size) (by omega)
  have upper := Int.emod_lt_of_pos (cursor + 1) (b := leg.size) (by omega)
  have same : (leg.position - (cursor + 1)) % (leg.size : Int) = ((leg.position : Int) - i) % leg.size := by
    rw [hi, Int.sub_emod_emod]
  unfold distance
  rw [same]
  by_cases hlt : i < leg.position
  · rw [Int.emod_eq_of_lt (by omega) (by omega), Int.emod_eq_of_lt (by omega) (by omega)]
    omega
  · -- the leg lies behind, and is reached around the end
    have around (x : Int) (hx : x = (leg.position : Int) - i ∨ x = (leg.position : Int) - (i + 1)) :
        x % leg.size = x + leg.size := by
      rw [← Int.add_emod_right]
      exact Int.emod_eq_of_lt (by omega) (by omega)
    rw [around _ (.inl rfl), around _ (.inr rfl)]
    omega

/-- A wait is less than the product of the sizes. -/
theorem wait_lt (ss : List (Strategy R)) (h : ∀ leg ∈ legs, 0 < leg.size) :
    wait ss legs < (legs.map (·.size)).prod := by
  induction legs with
  | nil => exact Nat.one_pos
  | cons leg legs ih =>
    have hlegs := ih fun l hl => h l (by simp [hl])
    have hdistance := leg.distance_lt (cursorIn ss leg.rotation) (h leg (by simp))
    have hmul := Nat.mul_le_mul_right leg.size (Nat.succ_le_of_lt hlegs)
    rw [Nat.succ_mul] at hmul
    rw [List.map_cons, List.prod_cons, Nat.mul_comm leg.size]
    unfold wait
    omega

theorem wait_frame {ss ss' : List (Strategy R)} (h : ∀ leg ∈ legs, ss'[leg.rotation]? = ss[leg.rotation]?) :
    wait ss' legs = wait ss legs := by
  induction legs with
  | nil => rfl
  | cons leg legs ih =>
    unfold wait
    rw [ih fun l hl => h l (by simp [hl]), cursorIn, cursorIn, h leg (by simp)]

theorem Path.positive (h : Path p k legs seat) : ∀ leg ∈ legs, 0 < leg.size := by
  induction h with
  | @last k cursor members m i _ hm _ =>
    obtain ⟨hlt, -⟩ := List.getElem?_eq_some_iff.mp hm
    intro leg hleg
    obtain rfl := List.mem_singleton.mp hleg
    exact Nat.zero_lt_of_lt hlt
  | @step k cursor members m legs seat i _ hm _ ih =>
    obtain ⟨hlt, -⟩ := List.getElem?_eq_some_iff.mp hm
    intro leg hleg
    rcases List.mem_cons.mp hleg with rfl | hleg
    · exact Nat.zero_lt_of_lt hlt
    · exact ih leg hleg

/-- The way down to a seat goes through rotations that are reached. -/
theorem Path.under (h : Path p k legs seat) : ∀ leg ∈ legs, Under p k leg.rotation := by
  induction h with
  | @last k cursor members m i hk _ _ =>
    intro leg hleg
    obtain rfl := List.mem_singleton.mp hleg
    exact ⟨.refl, rotates_of_rotation hk⟩
  | @step k cursor members m legs seat i hk hm _ ih =>
    intro leg hleg
    rcases List.mem_cons.mp hleg with rfl | hleg
    · exact ⟨.refl, rotates_of_rotation hk⟩
    · obtain ⟨hr, hrotates⟩ := ih leg hleg
      exact ⟨.head ⟨_, hk, List.mem_of_getElem? hm⟩ hr, hrotates⟩

theorem Path.rotates (h : Path p k legs seat) : rotates p k = true := by
  cases h with
  | last hk | step hk => exact rotates_of_rotation hk

/-- From `b` to `t` the seat is visited, or has so much less to wait. -/
def Nears (p : List (Strategy R)) (legs : List Leg) (seat : Seat) (gain : Nat) (b t : Bench R W) : Prop :=
  ∃ new, t.seats p = new ++ b.seats p ∧ (seat ∈ new ∨ wait t.strategies legs + gain ≤ wait b.strategies legs)

theorem Nears.trans {gain gain' : Nat} (h : Nears p legs seat gain b t) (h' : Nears p legs seat gain' t u) :
    Nears p legs seat (gain + gain') b u := by
  obtain ⟨new, hnew, hgain⟩ := h
  obtain ⟨new', hnew', hgain'⟩ := h'
  refine ⟨new' ++ new, by rw [hnew', hnew, List.append_assoc], ?_⟩
  rcases hgain with hseat | hgain
  · exact .inl (List.mem_append_right _ hseat)
  · rcases hgain' with hseat | hgain'
    · exact .inl (List.mem_append_left _ hseat)
    · exact .inr (by omega)

theorem Nears.mono {gain gain' : Nat} (h : Nears p legs seat gain b t) (hle : gain' ≤ gain) :
    Nears p legs seat gain' b t := by
  obtain ⟨new, hnew, hseat | hgain⟩ := h
  · exact ⟨new, hnew, .inl hseat⟩
  · exact ⟨new, hnew, .inr (by omega)⟩

theorem Nears.refl : Nears p legs seat 0 b b := ⟨[], rfl, .inr (Nat.le_refl _)⟩

variable {last : Decision} {cursor : Int} {members : List ControlId} {i : Nat} {c : Control R} {n gain : Nat}

theorem cursorIn_of_get (h : b.controls[k]? = some ⟨last, .rotation cursor members⟩) :
    cursorIn b.strategies k = cursor := by
  simp only [cursorIn, Bench.strategies_getElem? h, Rotation.cursorOf]

/-- The rotation has come to the member above the seat: it comes all around before the next time, but
    there is one time less to come. -/
theorem Nears.of_member (h : Nears p legs seat 1 b t) (hi : i < members.length)
    (ht : t.controls[k]? = some ⟨last, .rotation i members⟩) :
    Nears p (⟨k, i, members.length⟩ :: legs) seat 1 b t := by
  obtain ⟨new, hnew, hseat | hgain⟩ := h
  · exact ⟨new, hnew, .inl hseat⟩
  · refine ⟨new, hnew, .inr ?_⟩
    have around : Leg.distance ⟨k, i, members.length⟩ i + 1 = members.length := Leg.distance_self _ hi
    have below := Nat.mul_le_mul_right members.length hgain
    rw [Nat.succ_mul] at below
    simp only [wait, cursorIn_of_get ht]
    omega

/-- The rotation has come to another member, which leaves all above the seat as it was. -/
theorem Nears.of_other {new : List Seat} (hseats : t.seats p = new ++ b.seats p) (hi : i < members.length)
    {i' : Nat} (hi' : (i' : Int) = (cursor + 1) % members.length) (hne : i' ≠ i)
    (hb : b.controls[k]? = some ⟨last, .rotation cursor members⟩)
    (ht : t.controls[k]? = some ⟨last, .rotation i' members⟩)
    (agree : ∀ leg ∈ legs, t.strategies[leg.rotation]? = b.strategies[leg.rotation]?) :
    Nears p (⟨k, i, members.length⟩ :: legs) seat 1 b t := by
  refine ⟨new, hseats, .inr ?_⟩
  have nearer := Leg.distance_next ⟨k, i, members.length⟩ hi hi' hne
  simp only [wait, cursorIn_of_get ht, cursorIn_of_get hb, wait_frame agree]
  omega

theorem Nears.answered (h : Nears p legs seat gain b t) (hagain : c.last.isAgain = false) :
    Nears p legs seat gain b (t.answered k last members i c) := by
  unfold Bench.answered
  simp only [hagain, Bool.false_eq_true, if_false]
  exact h

/-- What one call has gained is enough, whatever the calls before it did. -/
theorem Nears.after_call {turns size : Nat} (h : Nears p legs seat (if turns + 1 = size then 0 else 1) b t)
    (hcall : c.last.isAgain = false → Nears p legs seat 1 t u) :
    if c.last = .idle then Nears p legs seat (if turns = size then 0 else 1) b u
    else c.last.isAgain = false → Nears p legs seat 1 b (u.answered k last members i c) := by
  by_cases hidle : c.last = .idle
  · rw [if_pos hidle]
    refine (h.trans (hcall (by rw [hidle]; rfl))).mono ?_
    split <;> omega
  · rw [if_neg hidle]
    intro hagain
    exact (h.trans ((hcall hagain).answered hagain)).mono (by omega)

variable [Arith R] {site : Site R W} {mesh : MeshId}

/-- An update of a rotation brings a seat nearer if a call of the member above it does. -/
theorem Nest.update_nears_above (nest : Nest p (n + 1) k) (hb : b.plan = p)
    (h : b.controls[k]? = some ⟨last, .rotation cursor members⟩) (hm : members[i]? = some m)
    (under : ∀ leg ∈ legs, Under p m leg.rotation)
    (hit : ∀ (b : Bench R W) (cursor : Int), b.plan = p →
      b.controls[k]? = some ⟨last, .rotation cursor members⟩ →
      Ends (Update.update site n m mesh) (b.calling k last members i m)
        (fun _ t => (t.lastOf m).isAgain = false → Nears p legs seat 1 b t) (fun _ _ => True)) :
    Ends (Update.update site (n + 1) k mesh) b
      (fun _ u => (u.lastOf k).isAgain = false → Nears p (⟨k, i, members.length⟩ :: legs) seat 1 b u)
      (fun _ _ => True) := by
  obtain ⟨hlt, -⟩ := List.getElem?_eq_some_iff.mp hm
  have hplan : p[k]? = some (.rotation (-1) members) := hb ▸ Bench.plan_getElem? h
  have held : Holds p k m := ⟨_, hplan, List.mem_of_getElem? hm⟩
  refine (nest.ends_update
    (J := fun turns t => Nears p (⟨k, i, members.length⟩ :: legs) seat (if turns = members.length then 0 else 1) b t)
    (P := fun d t => d.isAgain = false → Nears p (⟨k, i, members.length⟩ :: legs) seat 1 b t)
    (Q := fun _ _ => True) ?_ ?_ hb h (by rw [if_pos rfl]; exact .refl)).mono ?_ fun _ _ _ => trivial
  · intro t ht _
    rwa [if_neg (by omega)] at ht
  · intro turns b₁ cursor₁ i' m' hb₁ h₁ hi' hm' near
    by_cases hpos : i' = i
    · subst hpos
      obtain rfl := Option.some.inj (hm.symm.trans hm')
      refine (hit b₁ cursor₁ hb₁ h₁).mono ?_ fun _ _ _ => trivial
      intro _ t hnear _ hk c hc
      rw [Bench.lastOf_some hc] at hnear
      exact near.after_call fun hagain => (hnear hagain).of_member hlt hk
    · have onward := (aloof_onward (R := R) site).update n m' mesh (b₁.calling k last members i' m')
      refine onward.mono ?_ fun _ _ _ => trivial
      intro _ t honward touched hk c _
      obtain ⟨new, hnew⟩ := seats_onward (p := p) (calling_onward.trans honward)
      refine near.after_call fun _ => .of_other hnew hlt hi' hpos h₁ hk fun leg hleg => ?_
      -- nothing above the seat is reached from another member
      have apart := nest.apart hplan hm hm' (Ne.symm hpos)
      have below : k ≠ leg.rotation := by
        intro e
        exact nest.not_reaches held (e ▸ (under leg hleg).1)
      exact strategies_of_controls ((touched.control _ (apart _ (under leg hleg))).trans (calling_other below))
  · rintro _ _ ⟨d, t, cursor, hnear, -, hk, rfl⟩ hagain
    rw [Bench.lastOf_some (Bench.setControl_get hk)] at hagain
    obtain ⟨new, hnew, hgain⟩ := hnear hagain
    have same : (t.setControl k ⟨d, .rotation cursor members⟩).strategies = t.strategies :=
      Bench.strategies_same hk rfl
    exact ⟨new, hnew, by rwa [same]⟩

/-- An update that does not ask to be applied again visits the seat, or leaves it less to wait. -/
theorem Nest.update_nears (path : Path p k legs seat) (nest : Nest p n k) (hb : b.plan = p) :
    Ends (Update.update site n k mesh) b (fun _ t => (t.lastOf k).isAgain = false → Nears p legs seat 1 b t)
      (fun _ _ => True) := by
  induction path generalizing n b with
  | @last k _ members m i hk hm hleaf =>
    cases n with
    | zero => cases nest
    | succ n =>
      obtain ⟨last, cursor, h⟩ := rotation_at hb hk
      refine nest.update_nears_above hb h hm (by simp) fun b₁ cursor₁ hb₁ h₁ => ?_
      have called : (b₁.calling k last members i m).plan = p := (calling_plan h₁).trans hb₁
      refine (leaf_seats (p := p) (called.symm ▸ hleaf) n).mono ?_ fun _ _ _ => trivial
      intro _ t hseats _
      refine ⟨[⟨k, i, m⟩], ?_, .inl (by simp)⟩
      rw [hseats]
      exact seats_visit_leaf hleaf
  | @step k _ members m legs seat i hk hm path ih =>
    cases n with
    | zero => cases nest
    | succ n =>
      obtain ⟨last, cursor, h⟩ := rotation_at hb hk
      have held : Holds p k m := ⟨_, hk, List.mem_of_getElem? hm⟩
      refine nest.update_nears_above hb h hm path.under fun b₁ cursor₁ hb₁ h₁ => ?_
      have called : (b₁.calling k last members i m).plan = p := (calling_plan h₁).trans hb₁
      refine (ih (nest.of_holds held) called).mono ?_ fun _ _ _ => trivial
      intro _ t hnear hagain
      obtain ⟨new, hnew, hgain⟩ := hnear hagain
      have seats : (b₁.calling k last members i m).seats p = b₁.seats p := seats_visit_rotation path.rotates
      have waits : wait (b₁.calling k last members i m).strategies legs = wait b₁.strategies legs :=
        wait_frame fun leg hleg => nest.strategies_under held (path.under leg hleg) fun _ => calling_other
      exact ⟨new, by rw [hnew, seats], by rwa [waits] at hgain⟩

end

/-! ## Runs -/

/-- From `b` to `t` the rotations that `k` reaches are left alone, and pay no visits. -/
structure Beside (p : List (Strategy R)) (k : ControlId) (b t : Bench R W) : Prop where
  plan : t.plan = p
  strategies : ∀ j, Under p k j → t.strategies[j]? = b.strategies[j]?
  seats : ∃ new, t.seats p = new ++ b.seats p ∧ ∀ seat ∈ new, ¬ Reaches p k seat.rotation

/-- So many updates of `k` that did not ask to be applied again; what is done meanwhile leaves the
    rotations alone. -/
inductive Rounds [Arith R] (site : Site R W) (p : List (Strategy R)) (depth : Nat) (k : ControlId) :
    Nat → Bench R W → Bench R W → Prop
  | start (b) : Rounds site p depth k 0 b b
  | update {n b c mesh needs t} : Rounds site p depth k n b c →
      Update.update site depth k mesh c = .ok needs t → (t.lastOf k).isAgain = false →
      Rounds site p depth k (n + 1) b t
  | meanwhile {n b c t} : Rounds site p depth k n b c → Beside p k c t → Rounds site p depth k n b t

section

variable [Arith R] {site : Site R W} {p : List (Strategy R)} {depth n : Nat} {k : ControlId} {b t : Bench R W}

/-- Every update of a run brings the seat nearer. -/
theorem Rounds.nears (run : Rounds site p depth k n b t) (nest : Nest p depth k) (hb : b.plan = p)
    {legs : List Leg} {seat : Seat} (path : Path p k legs seat) : t.plan = p ∧ Nears p legs seat n b t := by
  induction run with
  | start b => exact ⟨hb, .refl⟩
  | @update n b c mesh needs t _ hu hagain ih =>
    obtain ⟨hc, near⟩ := ih hb
    have touched := (update_touches site depth k mesh hc).of_ok hu
    have nearer : Nears p legs seat 1 c t := (nest.update_nears path hc).of_ok hu hagain
    exact ⟨touched.plan.trans hc, near.trans nearer⟩
  | @meanwhile n b c t _ beside ih =>
    obtain ⟨-, near⟩ := ih hb
    obtain ⟨new, hnew, -⟩ := beside.seats
    have still : Nears p legs seat 0 c t := by
      refine ⟨new, hnew, .inr (Nat.le_of_eq ?_)⟩
      exact wait_frame fun leg hleg => beside.strategies _ (path.under leg hleg)
    exact ⟨beside.plan, near.trans still⟩

/-- In a nest of rotations, at most `depth` deep: where leaves do not fail, updates return. When an
    update asks to be applied again, the leaf it has visited last has decided that, and the next update
    visits the same seat first, whatever comes of it. A seat is visited within as many updates that do not
    ask to be applied again as the product of the sizes of the rotations above it. -/
theorem nested_sequences (nest : Nest p depth k) (hk : rotates p k = true) :
    (∀ I : Bench R W → Prop, LeavesReturn site p k I → ∀ b mesh, b.plan = p → I b →
      Ends (Update.update site depth k mesh) b (fun _ t => I t) (fun _ _ => False)) ∧
    (∀ (b : Bench R W) mesh needs t, b.plan = p → Update.update site depth k mesh b = .ok needs t →
      (t.lastOf k).isAgain = true →
      ∃ seat before, t.seats p = seat :: (before ++ b.seats p) ∧ rotates p seat.leaf = false ∧
        t.lastOf seat.leaf = t.lastOf k ∧
        ∀ t', Beside p k t t' → ∀ mesh', Ends (Update.update site depth k mesh') t'
          (fun _ u => First p seat t' u) (fun _ u => First p seat t' u)) ∧
    (∀ legs seat, Path p k legs seat → ∀ b t, b.plan = p →
      Rounds site p depth k (legs.map (·.size)).prod b t →
      ∃ new, t.seats p = new ++ b.seats p ∧ seat ∈ new) := by
  refine ⟨?_, ?_, ?_⟩
  · intro I leaves b mesh hb hI
    exact nest.update_returns leaves hb hI
  · intro b mesh needs t hb hu hagain
    have ht : t.plan = p := ((update_touches site depth k mesh hb).of_ok hu).plan.trans hb
    obtain ⟨seat, before, hseats, hlast, due⟩ := (nest.update_asks hb hk).of_ok hu hagain
    refine ⟨seat, before, hseats, due.leaf_of_seat ht, hlast, ?_⟩
    intro t' beside mesh'
    exact nest.due_first beside.plan (due.frame ht beside.plan beside.strategies)
  · intro legs seat path b t hb run
    obtain ⟨-, new, hnew, hseat | hgain⟩ := run.nears nest hb path
    · exact ⟨new, hnew, hseat⟩
    · have bound := wait_lt b.strategies path.positive
      omega

end

/-! ## A nest of two rotations -/

/-- A rotation of a rotation with two leaves, and a third leaf. -/
def grove : List (Strategy Float) :=
  [.rotation (-1) [1, 2], .rotation (-1) [3, 4], .foreign 0 "after", .foreign 1 "first", .foreign 2 "second"]

theorem grove_nest : Nest grove 3 0 := by
  have leaf (n : Nat) (k : ControlId) (hk : k = 2 ∨ k = 3 ∨ k = 4) : Nest grove (n + 1) k := by
    rcases hk with rfl | rfl | rfl <;> exact .leaf rfl rfl
  have apart (k m : ControlId) (hm : rotates grove m = false) (hlt : m < 5) : Apart grove k m := by
    rintro j ⟨-, hj⟩ hr
    exact not_under_of_leaf hm hlt ⟨hr, hj⟩
  refine .rotation rfl ?_ (.cons ?_ (.cons (by simp) .nil))
  · intro m hm
    obtain rfl | rfl : m = 1 ∨ m = 2 := by simpa using hm
    · refine .rotation rfl ?_ (.cons ?_ (.cons (by simp) .nil))
      · intro m hm
        exact leaf 0 m (.inr (by simpa using hm))
      · intro m hm
        obtain rfl : m = 4 := by simpa using hm
        exact apart 3 4 rfl (by decide)
    · exact leaf 1 2 (.inl rfl)
  · intro m hm
    obtain rfl : m = 2 := by simpa using hm
    exact apart 1 2 rfl (by decide)

/-- A control that decides as laid down does not fail. -/
theorem dictated_returns {b : Bench Float (Stand (List Decision))} {k : ControlId} {last : Decision} {f : Nat}
    {label : String} (h : b.controls[k]? = some ⟨last, .foreign f label⟩) (depth : Nat) (mesh : MeshId) :
    Ends (Update.update (Stand.site Rotation.dictated) (depth + 1) k mesh) b (fun _ _ => True)
      (fun _ _ => False) := by
  have remembered (d : Decision) (w : Stand (List Decision)) :
      Ends (Update.remember k d) { b with world := w } (fun _ _ => True) (fun _ _ => False) := by
    simp only [Update.remember, ends_bind]
    exact (Act.ends_control_some (b := { b with world := w }) h).mpr trivial
  simp only [Update.update, Update.apply, ends_bind, Act.ends_control_some h]
  obtain ⟨⟨forest, isNonconforming, isDistributed, ds⟩, markers, controls, trace⟩ := b
  cases ds with
  | nil => exact remembered .idle _
  | cons d ds => exact remembered d _

theorem grove_returns : LeavesReturn (Stand.site Rotation.dictated) grove 0 (fun _ => True) where
  record _ _ _ := trivial
  setControl _ _ _ _ := trivial
  leaf b j depth mesh _ hb hr hj := by
    obtain ⟨s, hs⟩ : ∃ s, grove[j]? = some s := by
      cases grove_nest.of_reaches hr with
      | leaf hs | rotation hs => exact ⟨_, hs⟩
    have foreign (f : Nat) (label : String) (hs : grove[j]? = some (.foreign f label)) :
        ∃ last, b.controls[j]? = some ⟨last, .foreign f label⟩ := by
      rw [← hb, Bench.plan, List.getElem?_map, Option.map_eq_some_iff] at hs
      obtain ⟨⟨last, s⟩, hc, hs⟩ := hs
      cases s <;> cases hs
      exact ⟨last, hc⟩
    obtain ⟨f, label, hs⟩ : ∃ f label, grove[j]? = some (.foreign f label) := by
      have hlt : j < 5 := (List.getElem?_eq_some_iff.mp hs).1
      interval_cases j
      · cases hj
      · cases hj
      all_goals exact ⟨_, _, rfl⟩
    obtain ⟨last, hc⟩ := foreign f label hs
    exact dictated_returns hc depth mesh

/-- Four updates that do not ask to be applied again. -/
theorem grove_rounds : ∃ t, Rounds (Stand.site Rotation.dictated) grove 3 0 4
    (Rotation.dictation [.proceed none, .idle, .proceed none, .stop, .proceed none] grove) t := by
  have step {n : Nat} {needs : Bool} {b c t : Bench Float (Stand (List Decision))}
      (run : Rounds (Stand.site Rotation.dictated) grove 3 0 n b c)
      (hu : Update.update (Stand.site Rotation.dictated) 3 0 0 c = .ok needs t)
      (hagain : (t.lastOf 0).isAgain = false) : Rounds (Stand.site Rotation.dictated) grove 3 0 (n + 1) b t :=
    run.update hu hagain
  exact ⟨_, step (step (step (step (.start _) rfl rfl) rfl rfl) rfl rfl) rfl rfl⟩

theorem nested_sequences_of_grove :
    Ends (Update.update (Stand.site Rotation.dictated) 3 0 0) (Rotation.dictation [.again none] grove)
      (fun _ _ => True) (fun _ _ => False) ∧
    (∃ t seat before, Update.update (Stand.site Rotation.dictated) 3 0 0 (Rotation.dictation [.again none] grove) =
        .ok true t ∧ t.seats grove = seat :: before ∧ t.lastOf seat.leaf = .again none ∧
        Ends (Update.update (Stand.site Rotation.dictated) 3 0 0) t (fun _ u => First grove seat t u)
          (fun _ u => First grove seat t u)) ∧
    ∃ t, (⟨1, 1, 4⟩ : Seat) ∈ t.seats grove ∧ Rounds (Stand.site Rotation.dictated) grove 3 0 4
      (Rotation.dictation [.proceed none, .idle, .proceed none, .stop, .proceed none] grove) t := by
  have law := @nested_sequences _ _ _ (Stand.site Rotation.dictated) _ _ _ grove_nest rfl
  obtain ⟨returns, asks, waits⟩ := law
  refine ⟨?_, ?_, ?_⟩
  · exact returns _ grove_returns _ 0 rfl trivial
  · obtain ⟨t, hu⟩ : ∃ t, Update.update (Stand.site Rotation.dictated) 3 0 0
        (Rotation.dictation [.again none] grove) = .ok true t := ⟨_, rfl⟩
    obtain ⟨seat, before, hseats, -, hlast, first⟩ := asks _ 0 true t rfl hu (by cases hu; rfl)
    refine ⟨t, seat, before ++ [], hu, hseats, ?_, first t ⟨?_, fun _ _ => rfl, [], rfl, by simp⟩ 0⟩
    · rw [hlast]
      cases hu
      rfl
    · cases hu
      rfl
  · obtain ⟨t, run⟩ := grove_rounds
    have outer : grove[0]? = some (.rotation (-1) [1, 2]) := rfl
    have inner : grove[1]? = some (.rotation (-1) [3, 4]) := rfl
    have path : Path grove 0 [⟨0, 0, 2⟩, ⟨1, 1, 2⟩] ⟨1, 1, 4⟩ := .step outer rfl (.last inner rfl rfl)
    obtain ⟨new, hnew, hseat⟩ := waits _ _ path _ t rfl run
    refine ⟨t, ?_, run⟩
    rw [hnew]
    exact List.mem_append_left _ hseat

end Regrid
