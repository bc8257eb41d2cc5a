/-
  Regrid.Proofs.Reentry — what becomes of a request to be applied again.

  A rotation whose last decision asks for it is to be applied again, and the member that
  asked is to be the first one called. A run keeps the request with the rotation: who has
  asked, and where an update has failed last since then. A failed update leaves the
  decision, and so the request, but the cursor is at the member that failed.

  So the next update calls the member first that has asked, and one after a failed update
  the member behind the one that failed (`again_reenters`). A member that fails when it is
  called again is therefore passed over by the update after that, whatever the decision of
  the rotation still says; a closed run shows it (`request_passed_over`).
-/

import Regrid.Proofs.RoundRobin

namespace Regrid

variable {R W : Type}

namespace Rotation

/-- A request to be applied again, which stands until an update returns. -/
structure Request where
  position : Nat
  member : ControlId
  /-- Where an update has failed last since the request was made. -/
  failed : Option Nat
  deriving DecidableEq, Repr

namespace Request

/-- Where the cursor is. -/
def cursor (q : Request) : Int :=
  match q.failed with
  | none => q.position - 1
  | some i => i

/-- Where the next update begins, among so many members. -/
def next (q : Request) (size : Nat) : Nat :=
  match q.failed with
  | none => q.position
  | some i => (i + 1) % size

/-- The request after member calls the last of which has failed. -/
def afterFailure (q : Request) (called : List (Nat × ControlId)) : Request :=
  match called.getLast? with
  | none => q
  | some (i, _) => { q with failed := some i }

/-- The request that an update with these visits leaves. -/
def ofVisits (vs : List Visit) : Option Request :=
  match vs.getLast? with
  | none => none
  | some v => if v.decision.isAgain then some ⟨v.position, v.member, none⟩ else none

theorem cursor_afterFailure (q : Request) (called : List (Nat × ControlId)) :
    (q.afterFailure called).cursor = cursorFailed q.cursor called := by
  unfold afterFailure cursorFailed
  cases called.getLast? <;> rfl

theorem position_afterFailure (q : Request) (called : List (Nat × ControlId)) :
    (q.afterFailure called).position = q.position ∧ (q.afterFailure called).member = q.member := by
  unfold afterFailure
  cases called.getLast? <;> exact ⟨rfl, rfl⟩

/-- The next update begins behind the cursor. -/
theorem next_cursor (q : Request) {size : Nat} (h : q.position < size) :
    (q.next size : Int) = (q.cursor + 1) % size := by
  unfold next cursor
  cases q.failed with
  | none =>
    rw [Int.sub_add_cancel, Int.emod_eq_of_lt] <;> omega
  | some i => exact_mod_cast rfl

end Request

/-! ## How an update begins -/

/-- From `b` to `t` rotation `k` has called the member at position `i` before any other. -/
def Begins (k : ControlId) (members : List ControlId) (i : Nat) (b t : Bench R W) : Prop :=
  ∃ m later, members[i]? = some m ∧ t.visits k = later ++ (i, m) :: b.visits k

section

variable {p : List (Strategy R)} {k : ControlId} {last : Decision} {members : List ControlId} {cursor : Int}
    {b t : Bench R W} {i : Nat}

theorem begins_of_called {called : List (Nat × ControlId)} (hne : called ≠ [])
    (hvisits : t.visits k = called.reverse ++ b.visits k)
    (hfirst : ∀ x ∈ called.head?, x.1 = i ∧ members[i]? = some x.2) : Begins k members i b t := by
  obtain ⟨⟨j, m⟩, rest, rfl⟩ := List.exists_cons_of_ne_nil hne
  obtain ⟨rfl, hm⟩ := hfirst (j, m) rfl
  exact ⟨m, rest.reverse, hm, by simpa using hvisits⟩

variable [Arith R] {site : Site R W}

/-- An update begins behind the cursor, whether it returns or fails. -/
theorem update_begins (alone : ¬ Relation.TransGen (Holds p) k k) (hb : Stands p k last members cursor b)
    (hi : (i : Int) = (cursor + 1) % members.length) (hlt : i < members.length) (depth : Nat) (mesh : MeshId) :
    Ends (Update.update site (depth + 1) k mesh) b (fun _ t => Begins k members i b t)
      (fun _ t => Begins k members i b t) := by
  refine (ends_update hb.2.1 (depth + 1) mesh (P := fun _ _ t => Begins k members i b t) ?_).mono
    (fun _ _ ⟨_, _, h⟩ => h) fun _ _ h => h
  refine (updateCalls_ends alone hb (depth + 1) mesh).mono ?_ ?_
  · rintro ⟨vs, d⟩ t ⟨-, inTurn, decides, paid, visits⟩
    have some : vs ≠ [] := by
      rintro rfl
      rcases decides with ⟨-, hlen, -⟩ | ⟨-, -, us, v, hus, -⟩
      · have : 0 = members.length := hlen
        omega
      · simp at hus
    refine begins_of_called (by simpa using some) visits ?_
    intro x hx
    obtain ⟨v, hv, rfl⟩ : ∃ v, vs.head? = .some v ∧ (v.position, v.member) = x := by
      simpa [List.head?_map] using hx
    have hposition := inTurn.first v hv
    obtain ⟨hsize, hmember⟩ := paid v (List.mem_of_mem_head? hv)
    rw [hsize, ← hi] at hposition
    have same : v.position = i := by exact_mod_cast hposition
    exact ⟨same, same ▸ hmember⟩
  · rintro f t ⟨called, hne, broke⟩
    refine begins_of_called (hne (Nat.succ_pos depth)) broke.visits ?_
    intro x hx
    obtain ⟨hposition, hmember⟩ := broke.first x hx
    rw [← hi] at hposition
    have same : x.1 = i := by exact_mod_cast hposition
    exact ⟨same, same ▸ hmember⟩

/-! ## Requests along a run -/

/-- A run on rotation `k` since it was made, with the request that it stands under. Meanwhile anything
    may happen that leaves `k` alone; its members are not dropped. -/
inductive Requested (site : Site R W) (k : ControlId) : Option Request → Bench R W → Prop
  | made {b : Bench R W} : b.controls[k]? = some (Control.new Control.emptyRotation) → Requested site k none b
  | append {r : Option Request} {b t : Bench R W} {m n} : Requested site k r b → append k m b = .ok n t → Requested site k r t
  | update {r : Option Request} {b t : Bench R W} {depth mesh needs} : Requested site k r b → ¬ Relation.TransGen (Holds b.plan) k k →
      Update.update site depth k mesh b = .ok needs t →
        Requested site k (Request.ofVisits (visitsOf site depth k mesh b)) t
  | updateFailed {r : Option Request} {b t : Bench R W} {depth mesh f called} :
      Requested site k r b → ¬ Relation.TransGen (Holds b.plan) k k →
      Update.update site depth k mesh b = .error f t → t.visits k = called.reverse ++ b.visits k →
        Requested site k (r.map (·.afterFailure called)) t
  | reset {r : Option Request} {b t : Bench R W} {depth} : Requested site k r b → ¬ Relation.TransGen (Holds b.plan) k k →
      Update.reset site depth k b = .ok ⟨⟩ t → Requested site k none t
  | meanwhile {r : Option Request} {b t : Bench R W} : Requested site k r b → t.controls[k]? = b.controls[k]? → Requested site k r t

/-- The invariant of runs: a request stands just if the decision is one, and it knows the cursor. -/
structure Awaits (k : ControlId) (r : Option Request) (last : Decision) (members : List ControlId)
    (cursor : Int) (b : Bench R W) : Prop where
  stands : Stands b.plan k last members cursor b
  asked : last.isAgain = r.isSome
  request : ∀ q, r = some q → q.cursor = cursor ∧ members[q.position]? = some q.member

variable {r : Option Request}

omit [Arith R] in
theorem awaits_of_control (h : Awaits k r last members cursor b) (ht : t.controls[k]? = b.controls[k]?) :
    Awaits k r last members cursor t :=
  ⟨⟨rfl, ht.trans h.stands.2.1, h.stands.2.2⟩, h.asked, h.request⟩

omit [Arith R] in
theorem awaits_none (h : b.controls[k]? = some ⟨.idle, .rotation (-1) members⟩) :
    Awaits k none .idle members (-1) b :=
  ⟨⟨rfl, h, by omega⟩, rfl, nofun⟩

omit [Arith R] in
theorem awaits_append {m : ControlId} {n : Nat} (h : Awaits k r last members cursor b)
    (ht : append k m b = .ok n t) : Awaits k r last (members ++ [m]) cursor t := by
  -- what a new member does to the rotation is said by the run of its visits
  have kept : Kept k none last members cursor b := ⟨h.stands, nofun⟩
  refine ⟨(kept_append kept ht).stands, h.asked, ?_⟩
  intro q hq
  obtain ⟨hcursor, hmember⟩ := h.request q hq
  obtain ⟨hlt, -⟩ := List.getElem?_eq_some_iff.mp hmember
  exact ⟨hcursor, by rw [List.getElem?_append_left hlt, hmember]⟩

/-- The decision of an update is a request just if its last visit has made one. -/
theorem Decides.asked {turns : Nat} {vs : List Visit} {d : Decision} (h : Decides turns vs d) :
    d.isAgain = (Request.ofVisits vs).isSome := by
  unfold Request.ofVisits
  rcases h with ⟨rfl, -, hall⟩ | ⟨-, -, us, v, rfl, -, rfl⟩
  · cases hlast : vs.getLast? with
    | none => rfl
    | some v =>
      have hidle := hall v (List.mem_of_getLast? hlast)
      simp [hidle, Decision.isAgain, Decision.action]
  · rw [List.getLast?_concat]
    by_cases hagain : v.decision.isAgain = true <;> simp [hagain]

theorem Request.ofVisits_cursor {vs : List Visit} {q : Request} (h : Request.ofVisits vs = some q) (cursor : Int) :
    q.cursor = cursorAfter cursor vs ∧ ∃ v ∈ vs, v.position = q.position ∧ v.member = q.member := by
  unfold Request.ofVisits at h
  cases hlast : vs.getLast? with
  | none => simp [hlast] at h
  | some v =>
    by_cases hagain : v.decision.isAgain = true
    · obtain rfl : ⟨v.position, v.member, none⟩ = q := by simpa [hlast, hagain] using h
      refine ⟨?_, v, List.mem_of_getLast? hlast, rfl, rfl⟩
      simp [Request.cursor, cursorAfter, hlast, hagain]
    · simp [hlast, hagain] at h

/-- An update that returns answers the request, and may leave another one; one that fails leaves the
    request, and knows where it has failed. -/
theorem awaits_update (h : Awaits k r last members cursor b) (alone : ¬ Relation.TransGen (Holds b.plan) k k)
    (depth : Nat) (mesh : MeshId) :
    Ends (Update.update site depth k mesh) b
      (fun _ t => ∃ d cursor, Awaits k (Request.ofVisits (visitsOf site depth k mesh b)) d members cursor t)
      (fun _ t => ∀ called, t.visits k = called.reverse ++ b.visits k →
        Awaits k (r.map (·.afterFailure called)) last members (cursorFailed cursor called) t) := by
  refine (ends_update h.stands.2.1 depth mesh (P := fun vs d t =>
    Awaits k (Request.ofVisits vs) d members (cursorAfter cursor vs) t) ?_).mono
    (fun _ _ ⟨d, _, h⟩ => ⟨d, _, h⟩) fun _ _ h => h
  refine (updateCalls_ends alone h.stands depth mesh).mono ?_ ?_
  · rintro ⟨vs, d⟩ t ⟨stands, -, decides, paid, -⟩
    refine ⟨⟨rfl, stands.2⟩, decides.asked, ?_⟩
    intro q hq
    obtain ⟨hcursor, v, hv, hposition, hmember⟩ := Request.ofVisits_cursor hq cursor
    exact ⟨hcursor, by rw [← hposition, ← hmember]; exact (paid v hv).2⟩
  · rintro f t ⟨called', -, broke⟩ called hcalled
    obtain rfl : called' = called := by
      have same := broke.visits.symm.trans hcalled
      exact List.reverse_injective (List.append_cancel_right same)
    refine ⟨⟨rfl, broke.stands.2⟩, by simpa using h.asked, ?_⟩
    intro q hq
    obtain ⟨q, rfl, rfl⟩ := Option.map_eq_some_iff.mp hq
    obtain ⟨rfl, hmember⟩ := h.request q rfl
    obtain ⟨hposition, hwho⟩ := q.position_afterFailure called'
    exact ⟨q.cursor_afterFailure called', by rw [hposition, hwho]; exact hmember⟩

theorem requested_awaits (h : Requested site k r b) : ∃ last members cursor, Awaits k r last members cursor b := by
  induction h with
  | made hb => exact ⟨_, _, _, awaits_none hb⟩
  | append _ ha ih =>
    obtain ⟨last, members, cursor, hb⟩ := ih
    exact ⟨_, _, _, awaits_append hb ha⟩
  | update _ alone hu ih =>
    obtain ⟨last, members, cursor, hb⟩ := ih
    obtain ⟨d, cursor', ht⟩ := (awaits_update hb alone _ _).of_ok hu
    exact ⟨d, members, cursor', ht⟩
  | updateFailed _ alone hu hcalled ih =>
    obtain ⟨last, members, cursor, hb⟩ := ih
    exact ⟨_, _, _, (awaits_update hb alone _ _).of_error hu _ hcalled⟩
  | reset _ alone hr ih =>
    obtain ⟨last, members, cursor, hb⟩ := ih
    exact ⟨_, _, _, awaits_none ((reset_ends alone hb.stands _).of_ok hr).2.1⟩
  | meanwhile _ ht ih =>
    obtain ⟨last, members, cursor, hb⟩ := ih
    exact ⟨_, _, _, awaits_of_control hb ht⟩

/-- A rotation stands under a request just if its decision is one. The next update, whether it returns or
    fails, calls the member first that has asked, if no update has failed since, and otherwise the
    member behind the one that has failed last. -/
theorem again_reenters (h : Requested site k r b) :
    ∃ last members cursor, b.controls[k]? = some ⟨last, .rotation cursor members⟩ ∧
      last.isAgain = r.isSome ∧
      ∀ q, r = some q → members[q.position]? = some q.member ∧
        ∀ depth mesh, ¬ Relation.TransGen (Holds b.plan) k k →
          Ends (Update.update site (depth + 1) k mesh) b
            (fun _ t => Begins k members (q.next members.length) b t)
            (fun _ t => Begins k members (q.next members.length) b t) := by
  obtain ⟨last, members, cursor, awaits⟩ := requested_awaits h
  refine ⟨last, members, cursor, awaits.stands.2.1, awaits.asked, ?_⟩
  intro q hq
  obtain ⟨rfl, hmember⟩ := awaits.request q hq
  refine ⟨hmember, ?_⟩
  intro depth mesh alone
  obtain ⟨hlt, -⟩ := List.getElem?_eq_some_iff.mp hmember
  have hnext := q.next_cursor hlt
  have upper := Int.emod_lt_of_pos (q.cursor + 1) (b := members.length) (by omega)
  exact update_begins alone awaits.stands hnext (by omega) depth mesh

end

/-! ## A closed run -/

/-- Controls that take the next of the decisions laid down, or fail where none is. -/
def prone : Stand.Company Float (List (Option Decision)) where
  errors _ _ := pure []
  flags _ _ := pure none
  marking _ _ := throw .missing
  decide _ _ := do
    let d :: ds ← get | return .idle
    set ds
    match d with
    | some d => return d
    | none => throw (.outside "x")
  reset _ _ := pure ⟨⟩

/-- A rotation and two controls; the first to be called asks to be applied again, and the next fails. -/
def restless (members : List ControlId) : Bench Float (Stand (List (Option Decision))) where
  world := ⟨Forest.ofRoots 4 0, true, false, [some (.again none), none, some (.proceed none)]⟩
  markers := []
  controls := [.new (.rotation (-1) members), .new (.foreign 0 "first"), .new (.foreign 1 "second")]
  trace := []

/-- The first member has asked. -/
def asked : Bench Float (Stand (List (Option Decision))) :=
  stateAfter (Update.update (Stand.site prone) 2 0 0) (restless [1, 2])

/-- The first member was called again, and has failed. -/
def broken : Bench Float (Stand (List (Option Decision))) :=
  stateAfter (Update.update (Stand.site prone) 2 0 0) asked

theorem requested_asked : Requested (Stand.site prone) 0 (some ⟨0, 1, none⟩) asked := by
  have first : Requested (Stand.site prone) 0 none (restless [1]) :=
    (Requested.made rfl).append (b := restless []) (m := 1) (n := 1) rfl
  have second : Requested (Stand.site prone) 0 none (restless [1, 2]) := first.append (m := 2) (n := 2) rfl
  have asks : Update.update (Stand.site prone) 2 0 0 (restless [1, 2]) = .ok true asked := rfl
  exact second.update pair_alone asks

theorem again_reenters_of_asked :
    Requested (Stand.site prone) 0 (some ⟨0, 1, none⟩) asked ∧
      Ends (Update.update (Stand.site prone) 2 0 0) asked (fun _ t => Begins 0 [1, 2] 0 asked t)
        (fun _ t => Begins 0 [1, 2] 0 asked t) := by
  obtain ⟨last, members, cursor, hc, -, reenters⟩ := again_reenters requested_asked
  obtain rfl : [1, 2] = members := by cases hc; rfl
  exact ⟨requested_asked, (reenters _ rfl).2 1 0 pair_alone⟩

/-- The first member asked to be applied again and failed when it was. The request stands, but the next
    update calls the second member first, and the decision of that one takes its place. -/
theorem request_passed_over :
    Requested (Stand.site prone) 0 (some ⟨0, 1, some 0⟩) broken ∧
      broken.controls[0]? = some ⟨.again none, .rotation 0 [1, 2]⟩ ∧
      ∃ t, Update.update (Stand.site prone) 2 0 0 broken = .ok true t ∧
        t.visits 0 = (1, 2) :: broken.visits 0 ∧
        t.controls[0]? = some ⟨.proceed none, .rotation 1 [1, 2]⟩ := by
  have fails : Update.update (Stand.site prone) 2 0 0 asked = .error (.outside "x") broken := rfl
  have called : broken.visits 0 = [(0, 1)].reverse ++ asked.visits 0 := rfl
  exact ⟨requested_asked.updateFailed pair_alone fails called, rfl, _, rfl, rfl, rfl⟩

end Rotation

end Regrid
