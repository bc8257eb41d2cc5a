/-
  Regrid.Proofs.Chronicle — a history tells what happened in a run.

  A diary goes with the state of a run: every call to compute, to update the control and to
  tell the caller enters itself when it returns. A run does not see the diary
  (`diary_mirrors`), so what a diary says of a run is what happens in it.

  The history alone says what the diary is (`story`): an outer iteration is computed first;
  each update is recorded with the mesh as the update has left it; and the caller is told at
  once, after just those updates that need spaces rebuilt. The records of an iteration belong
  to updates that ask for another one, and at the end to one that does not (`IsRound`). An
  iteration that ends with a decision to stop is the last, and so is the one that uses up
  the iterations (`Told`).

  Of the control and the callbacks it is assumed that they return, that a callback leaves the
  control's decision alone (`Serves`), and that the control does not ask to be applied again
  for ever (`Settles`). Then there is a patience from which on a run returns, with a history
  that does not depend on the patience any more (`history_tells`).
-/

import Regrid.Proofs.RoundRobin
import Regrid.Proofs.Rounds

namespace Regrid

namespace Cycle

variable {R S : Type}

/-! ## Diaries -/

/-- One call of a run that has returned; of an update the mesh as it is then, and the decision. -/
inductive Happening where
  | computed
  | updated (version elements : Int) (d : Decision)
  | told (d : Decision)
  deriving DecidableEq, Repr

structure Diary (S : Type) where
  state : S
  entries : List Happening

namespace Diary

/-- A call that is entered when it has returned. -/
def lift {α : Type} (entry : S → Happening) (x : EStateM Fault S α) : EStateM Fault (Diary S) α := fun l =>
  match x l.state with
  | .ok a s => .ok a ⟨s, l.entries ++ [entry s]⟩
  | .error f s => .error f { l with state := s }

def handle (h : Handle R S) : Handle R (Diary S) where
  update := lift (fun s => .updated (h.version s) (h.elements s) (h.decision s)) h.update
  decision l := h.decision l.state
  version l := h.version l.state
  elements l := h.elements l.state
  note n l := { l with state := h.note n l.state }

def compute (x : EStateM Fault S Unit) : EStateM Fault (Diary S) Unit := lift (fun _ => .computed) x

def onUpdate (x : Decision → EStateM Fault S Unit) (d : Decision) : EStateM Fault (Diary S) Unit :=
  lift (fun _ => .told d) (x d)

theorem ends_lift {α : Type} {entry : S → Happening} {x : EStateM Fault S α} {s : S} {es : List Happening}
    {P : α → Diary S → Prop} {Q : Fault → Diary S → Prop} :
    Ends (lift entry x) ⟨s, es⟩ P Q ↔
      Ends x s (fun a t => P a ⟨t, es ++ [entry t]⟩) (fun f t => Q f ⟨t, es⟩) := by
  simp only [Ends, lift]
  cases x s <;> rfl

theorem lift_mirrors {α : Type} (entry : S → Happening) (x : EStateM Fault S α) :
    Mirrors state (lift entry x) x := by
  intro l
  simp only [lift]
  cases x l.state <;> rfl

theorem handle_mirrors (h : Handle R S) : (handle h).Mirrors state h where
  update := lift_mirrors _ _
  decision _ := rfl
  version _ := rfl
  elements _ := rfl
  note _ _ := rfl

end Diary

/-- A run that keeps a diary. -/
def runDiary (h : Handle R S) (compute : EStateM Fault S Unit) (onUpdate : Decision → EStateM Fault S Unit)
    (patience iterations : Nat) : EStateM Fault (Diary S) History :=
  run (Diary.handle h) (Diary.compute compute) (Diary.onUpdate onUpdate) patience iterations

/-- A run does not see its diary. -/
theorem diary_mirrors (h : Handle R S) (compute : EStateM Fault S Unit)
    (onUpdate : Decision → EStateM Fault S Unit) (patience iterations : Nat) :
    Mirrors Diary.state (runDiary h compute onUpdate patience iterations)
      (run h compute onUpdate patience iterations) :=
  run_mirrors (Diary.handle_mirrors h) (Diary.lift_mirrors _ _) (fun _ => Diary.lift_mirrors _ _) _ _

/-! ## What a history tells -/

/-- An update is recorded, and the caller told of it where spaces are to be rebuilt. -/
def recordStory (r : Record) : List Happening :=
  .updated r.version r.elements r.decision :: if r.decision.needsUpdate then [.told r.decision] else []

/-- Outer iterations, given by their records. -/
def story (blocks : List (List Record)) : List Happening :=
  blocks.flatMap fun rs => .computed :: rs.flatMap recordStory

/-- The records of iteration `k`, which ends with decision `d`. -/
def IsRound (k : Int) (d : Decision) (rs : List Record) : Prop :=
  ∃ before last, rs = before ++ [last] ∧ (∀ r ∈ before, r.decision.isAgain = true) ∧
    last.decision.isAgain = false ∧ last.decision = d ∧ ∀ r ∈ rs, r.iteration = k

/-- What can be told of a run from iteration `k` on, with so many iterations left. -/
inductive Told : Nat → Int → List (List Record) → Prop
  | exhausted (k) : Told 0 k []
  | stopped {left k d rs} : IsRound k d rs → d.isStop = true → Told (left + 1) k [rs]
  | next {left k d rs blocks} : IsRound k d rs → d.isStop = false → Told left (k + 1) blocks →
      Told (left + 1) k (rs :: blocks)

/-! ## Decisions -/

theorem needsUpdate_of_isAgain {d : Decision} (h : d.isAgain = true) : d.needsUpdate = true := by
  cases d with
  | again _ => rfl
  | _ => cases h

theorem isProceed_of_isAgain {d : Decision} (h : d.isAgain = true) : d.isProceed = false := by
  cases d with
  | again _ => rfl
  | _ => cases h

theorem isProceed_of_needsUpdate {d : Decision} (h : d.needsUpdate = true) (ha : d.isAgain = false) :
    d.isProceed = true := by
  cases d with
  | proceed _ => rfl
  | again _ => exact absurd ha (by simp [Decision.isAgain, Decision.action])
  | _ => cases h

theorem isStop_of_isAgain {d : Decision} (h : d.isAgain = true) : d.isStop = false := by
  cases d with
  | again _ => rfl
  | _ => cases h

/-! ## The records of one iteration -/

theorem isRound_once {r : Record} (h : r.decision.isAgain = false) : IsRound r.iteration r.decision [r] :=
  ⟨[], r, rfl, by simp, h, rfl, by simp⟩

theorem IsRound.again {r : Record} {k : Int} {d : Decision} {rs : List Record} (h : IsRound k d rs)
    (hr : r.decision.isAgain = true) (hk : r.iteration = k) : IsRound k d (r :: rs) := by
  obtain ⟨before, last, rfl, hbefore, hlast, hd, hall⟩ := h
  refine ⟨r :: before, last, rfl, ?_, hlast, hd, ?_⟩
  · intro x hx
    rcases List.mem_cons.mp hx with rfl | hx
    · exact hr
    · exact hbefore x hx
  · intro x hx
    rcases List.mem_cons.mp hx with rfl | hx
    · exact hk
    · exact hall x hx

/-- Only the last record of an iteration can be one of a decision to stop. -/
theorem IsRound.isStop {k : Int} {d : Decision} {rs : List Record} (h : IsRound k d rs) :
    (∀ r ∈ rs.dropLast, r.decision.isStop = false) ∧ rs.getLast?.map (·.decision) = some d := by
  obtain ⟨before, last, rfl, hbefore, -, rfl, -⟩ := h
  refine ⟨?_, by simp⟩
  intro r hr
  rw [List.dropLast_concat] at hr
  exact isStop_of_isAgain (hbefore r hr)

section

variable {h : Handle R S} {compute : EStateM Fault S Unit} {onUpdate : Decision → EStateM Fault S Unit}
    {I : S → Prop} {s : S}

/-- In such states the control and the callbacks return, and a callback leaves the control's decision
    as it is; and they remain such states. -/
structure Serves (h : Handle R S) (compute : EStateM Fault S Unit) (onUpdate : Decision → EStateM Fault S Unit)
    (I : S → Prop) : Prop where
  update : ∀ s, I s → Ends h.update s (fun _ t => I t) (fun _ _ => False)
  compute : ∀ s, I s → Ends compute s (fun _ t => I t) (fun _ _ => False)
  onUpdate : ∀ d s, I s → Ends (onUpdate d) s (fun _ t => h.decision t = h.decision s ∧ I t)
    (fun _ _ => False)
  note : ∀ n s, I s → I (h.note n s)

/-- From `s` on the control asks to be applied again a finite number of times. -/
inductive Settles (h : Handle R S) (onUpdate : Decision → EStateM Fault S Unit) : S → Prop
  | once {s needs t} : h.update s = .ok needs t → (h.decision t).isAgain = false → Settles h onUpdate s
  | again {s needs t u} : h.update s = .ok needs t → (h.decision t).isAgain = true →
      onUpdate (h.decision t) t = .ok ⟨⟩ u → Settles h onUpdate u → Settles h onUpdate s

/-- What an update returns is whether its decision needs spaces rebuilt. -/
def Candid (h : Handle R S) : Prop :=
  ∀ s, Ends h.update s (fun needs t => needs = (h.decision t).needsUpdate) (fun _ _ => True)

/-- The cycle of one outer iteration, with the history and the diary of the run. -/
abbrev cycle (h : Handle R S) (onUpdate : Decision → EStateM Fault S Unit) (patience : Nat) :
    EStateM Fault (Logged (Diary S)) Decision :=
  apply (Logged.handle (Diary.handle h)) (Logged.keep (Diary.handle h))
    (fun d => Logged.lift (Diary.onUpdate onUpdate d)) patience

/-- One round of the cycle: what the update has left goes into history and diary before the caller
    is told. -/
theorem ends_cycle (patience : Nat) {es : List Happening} {past : History}
    {P : Decision → Logged (Diary S) → Prop} {Q : Fault → Logged (Diary S) → Prop} :
    Ends (cycle h onUpdate (patience + 1)) ⟨⟨s, es⟩, past⟩ P Q ↔
      Ends h.update s (fun needs t =>
        let es' := es ++ [.updated (h.version t) (h.elements t) (h.decision t)]
        let past' := past.record (h.version t) (h.elements t) (h.decision t)
        if needs then
          Ends (onUpdate (h.decision t)) t (fun _ u =>
            if (h.decision u).isProceed then P (h.decision t) ⟨⟨u, es' ++ [.told (h.decision t)]⟩, past'⟩
            else Ends (cycle h onUpdate patience) ⟨⟨u, es' ++ [.told (h.decision t)]⟩, past'⟩ P Q)
            fun f u => Q f ⟨⟨u, es'⟩, past'⟩
        else P (h.decision t) ⟨⟨t, es'⟩, past'⟩) fun f t => Q f ⟨⟨t, es⟩, past⟩ := by
  refine (ends_round patience).trans (Diary.ends_lift.trans (Iff.of_eq (congrArg (Ends h.update s · _) ?_)))
  funext needs t
  cases needs with
  | false => rfl
  | true => exact propext Diary.ends_lift

/-- From a state that settles there is patience enough for the iteration: its records are added to
    the history, and what they tell to the diary. -/
theorem apply_tells (candid : Candid h) (serves : Serves h compute onUpdate I)
    (settles : Settles h onUpdate s) (hs : I s) (es : List Happening) (past : History) :
    ∃ patience, Ends (cycle h onUpdate patience) ⟨⟨s, es⟩, past⟩
      (fun d l => ∃ rs, l.history = { past with records := past.records ++ rs } ∧ IsRound past.iteration d rs ∧
        l.state.entries = es ++ rs.flatMap recordStory ∧ I l.state.state)
      (fun _ _ => False) := by
  induction settles generalizing es past with
  | @once s needs t hu hagain =>
    obtain rfl := (candid s).of_ok hu
    have ht := (serves.update s hs).of_ok hu
    let r : Record := ⟨past.iteration, h.version t, h.elements t, h.decision t⟩
    refine ⟨1, (ends_cycle 0).mpr ((ends_of_ok hu).mpr ?_)⟩
    by_cases hneeds : (h.decision t).needsUpdate = true
    · obtain ⟨_, u, htell, hkept, hu⟩ := (serves.onUpdate (h.decision t) t ht).returns
      have proceeds : (h.decision u).isProceed = true := by
        rw [hkept]
        exact isProceed_of_needsUpdate hneeds hagain
      simp only [if_pos hneeds, ends_of_ok htell, if_pos proceeds]
      exact ⟨[r], rfl, isRound_once hagain, by simp [recordStory, r, hneeds], hu⟩
    · simp only [if_neg hneeds]
      exact ⟨[r], rfl, isRound_once hagain, by simp [recordStory, r, hneeds], ht⟩
  | @again s needs t u hu hagain htell _ ih =>
    obtain rfl := (candid s).of_ok hu
    have ht := (serves.update s hs).of_ok hu
    obtain ⟨hkept, hu'⟩ := (serves.onUpdate (h.decision t) t ht).of_ok htell
    let r : Record := ⟨past.iteration, h.version t, h.elements t, h.decision t⟩
    have hneeds := needsUpdate_of_isAgain hagain
    have waits : ¬ (h.decision u).isProceed = true := by
      rw [hkept, isProceed_of_isAgain hagain]
      exact Bool.false_ne_true
    -- the rest of the iteration starts from the record of this update
    obtain ⟨patience, rest⟩ := ih hu'
      (es ++ [.updated (h.version t) (h.elements t) (h.decision t)] ++ [.told (h.decision t)])
      (past.record (h.version t) (h.elements t) (h.decision t))
    refine ⟨patience + 1, (ends_cycle patience).mpr ((ends_of_ok hu).mpr ?_)⟩
    simp only [if_pos hneeds, ends_of_ok htell, if_neg waits]
    refine rest.mono (fun d l hl => ?_) fun _ _ h => h
    obtain ⟨rs, hrecords, round, hentries, hl⟩ := hl
    refine ⟨r :: rs, ?_, round.again hagain rfl, ?_, hl⟩
    · rw [hrecords]
      simp [History.record, r]
    · rw [hentries]
      simp [recordStory, r, hneeds]

/-! ## The records of all iterations -/

/-- Given patience enough, the iterations end as they do under any greater patience, and history
    and diary tell the same. -/
theorem iterate_tells (candid : Candid h) (serves : Serves h compute onUpdate I)
    (settles : ∀ s, I s → Settles h onUpdate s) (left : Nat) (k : Int) (hs : I s) (es : List Happening)
    (past : History) :
    ∃ enough l, (∀ patience, enough ≤ patience →
        Ends (iterate (Diary.handle h) (Diary.compute compute) (Diary.onUpdate onUpdate) patience left k)
          ⟨⟨s, es⟩, past⟩ (fun _ l' => l' = l) fun _ _ => False) ∧
      ∃ blocks, l.history.records = past.records ++ blocks.flatten ∧ Told left k blocks ∧
        l.state.entries = es ++ story blocks := by
  induction left generalizing k s es past with
  | zero =>
    exact ⟨0, _, fun _ _ => rfl, [], (List.append_nil _).symm, .exhausted k, (List.append_nil _).symm⟩
  | succ left ih =>
    obtain ⟨_, u, hcompute, hu⟩ := (serves.compute s hs).returns
    obtain ⟨patience₁, applied⟩ := apply_tells candid serves (settles u hu) hu (es ++ [.computed])
      { past with iteration := k }
    obtain ⟨d, ⟨⟨t, entries⟩, _⟩, happly, rs, rfl, round, rfl, ht⟩ := applied.returns
    let noted := h.note (.iterated k d (h.elements t)) t
    let history : History := { past with records := past.records ++ rs, iteration := k }
    let entries := es ++ [.computed] ++ rs.flatMap recordStory
    -- this iteration is the same under any greater patience
    have goes (patience : Nat) (hp : patience₁ ≤ patience) {P : Unit → Logged (Diary S) → Prop} :
        Ends (iterate (Diary.handle h) (Diary.compute compute) (Diary.onUpdate onUpdate) patience (left + 1) k)
            ⟨⟨s, es⟩, past⟩ P (fun _ _ => False) ↔
          if d.isStop then P ⟨⟩ ⟨⟨h.note (.stopped (k + 1)) noted, entries⟩, history⟩
          else Ends (iterate (Diary.handle h) (Diary.compute compute) (Diary.onUpdate onUpdate) patience left
            (k + 1)) ⟨⟨noted, entries⟩, history⟩ P fun _ _ => False := by
      have applies := apply_more happly (patience - patience₁)
      rw [Nat.add_sub_cancel' hp] at applies
      refine (ends_iteration patience left k).trans (Diary.ends_lift.trans ?_)
      exact (ends_of_ok hcompute).trans (ends_of_ok applies)
    by_cases hstop : d.isStop = true
    · refine ⟨patience₁, ⟨⟨h.note (.stopped (k + 1)) noted, entries⟩, history⟩, fun patience hp => ?_, [rs], ?_,
        .stopped round hstop, ?_⟩
      · rw [goes patience hp, if_pos hstop]
      · simp [history]
      · simp [story, entries]
    · obtain ⟨patience₂, l, rest, blocks, hrecords, htold, hentries⟩ := ih (k + 1)
        (serves.note _ t ht : I noted) entries history
      refine ⟨max patience₁ patience₂, l, ?_, rs :: blocks, ?_,
        .next round (by simpa using hstop) htold, ?_⟩
      · intro patience hp
        rw [goes patience (by omega), if_neg hstop]
        exact rest patience (by omega)
      · rw [hrecords]
        simp [history]
      · rw [hentries]
        simp [story, entries]

end

section

variable {left : Nat} {k : Int} {blocks : List (List Record)}

/-- One block of records for each iteration that was made. -/
theorem Told.rounds (h : Told left k blocks) :
    (0 < left → 0 < blocks.length) ∧ blocks.length ≤ left ∧
      ∀ (i : Nat) rs, blocks[i]? = some rs → ∃ d, IsRound (k + i) d rs := by
  induction h with
  | exhausted k => exact ⟨id, Nat.le_refl 0, fun i rs hi => by simp at hi⟩
  | @stopped left k d rs round _ =>
    refine ⟨fun _ => by simp, by simp, ?_⟩
    intro i rs' hi
    cases i with
    | zero =>
      obtain rfl : rs = rs' := by simpa using hi
      exact ⟨d, by simpa using round⟩
    | succ i => simp at hi
  | @next left k d rs blocks round _ _ ih =>
    obtain ⟨-, hlen, hrounds⟩ := ih
    refine ⟨fun _ => by simp, by simpa using hlen, ?_⟩
    intro i rs' hi
    cases i with
    | zero =>
      obtain rfl : rs = rs' := by simpa using hi
      exact ⟨d, by simpa using round⟩
    | succ i =>
      obtain ⟨d', round'⟩ := hrounds i rs' (by simpa using hi)
      refine ⟨d', ?_⟩
      rwa [show k + ((i + 1 : Nat) : Int) = k + 1 + i by omega]

/-- No record but the last is one of a decision to stop, and unless that is, the iterations were
    used up. -/
theorem Told.isStop (h : Told left k blocks) :
    (∀ r ∈ blocks.flatten.dropLast, r.decision.isStop = false) ∧
      (blocks.length = left ∨ ∃ r ∈ blocks.flatten.getLast?, r.decision.isStop = true) := by
  induction h with
  | exhausted k => exact ⟨by simp, .inl rfl⟩
  | @stopped left k d rs round hstop =>
    obtain ⟨before, last⟩ := round.isStop
    obtain ⟨r, hr, rfl⟩ := Option.map_eq_some_iff.mp last
    exact ⟨by simpa using before, .inr ⟨r, by simpa using hr, hstop⟩⟩
  | @next left k d rs blocks round hstop _ ih =>
    obtain ⟨hbefore, hend⟩ := ih
    have unstopped : ∀ r ∈ rs, r.decision.isStop = false := by
      intro r hr
      obtain ⟨before, last⟩ := round.isStop
      obtain ⟨r', hr', rfl⟩ := Option.map_eq_some_iff.mp last
      obtain ⟨rs, rfl⟩ := List.getLast?_eq_some_iff.mp hr'
      rcases List.mem_append.mp hr with hr | hr
      · exact before r (by simpa using hr)
      · obtain rfl : r = r' := by simpa using hr
        exact hstop
    refine ⟨?_, ?_⟩
    · intro r hr
      rw [List.flatten_cons] at hr
      by_cases hnil : blocks.flatten = []
      · rw [hnil, List.append_nil] at hr
        exact unstopped r (List.dropLast_subset _ hr)
      · rw [List.dropLast_append_of_ne_nil hnil] at hr
        rcases List.mem_append.mp hr with hr | hr
        · exact unstopped r hr
        · exact hbefore r hr
    · rcases hend with hend | ⟨r, hr, hrstop⟩
      · exact .inl (by simp [hend])
      · exact .inr ⟨r, by simp [List.getLast?_append, Option.mem_def.mp hr], hrstop⟩

end

/-- A history says that the run was stopped just if one of its records does. -/
theorem isStopped_iff {history : History} (h : ∀ r ∈ history.records.dropLast, r.decision.isStop = false) :
    history.isStopped = true ↔ ∃ r ∈ history.records, r.decision.isStop = true := by
  unfold History.isStopped
  cases hlast : history.records.getLast? with
  | none =>
    obtain hnil := List.getLast?_eq_none_iff.mp hlast
    simp [hnil]
  | some last =>
    obtain ⟨before, hrecords⟩ := List.getLast?_eq_some_iff.mp hlast
    rw [hrecords, List.dropLast_concat] at h
    rw [hrecords]
    constructor
    · intro hstop
      exact ⟨last, by simp, hstop⟩
    · rintro ⟨r, hr, hstop⟩
      rcases List.mem_append.mp hr with hr | hr
      · rw [h r hr] at hstop
        cases hstop
      · obtain rfl : r = last := by simpa using hr
        exact hstop

end Cycle

/-! ## The run of a control -/

namespace Bench

variable {R W : Type} [Arith R] {site : Site R W} {depth : Nat} {k : ControlId} {mesh : MeshId}
    {compute : Act R W Unit} {onUpdate : Decision → Act R W Unit}

open Regrid.Cycle

/-- Under callbacks that leave the decision of control `k` alone, while the control asks to be applied
    again a finite number of times, the run returns; its history is in blocks, one for each iteration,
    and tells all calls that were made; it is stopped by a decision to stop, which is the last, or else
    the iterations are used up. -/
theorem history_tells {I : Bench R W → Prop} (serves : Serves (handle site depth k mesh) compute onUpdate I)
    (settles : ∀ b, I b → Settles (handle site depth k mesh) onUpdate b) {b : Bench R W} (hb : I b)
    {iterations : Nat} (hpos : 0 < iterations) :
    ∃ enough history t blocks,
      (∀ patience, enough ≤ patience →
        run (handle site depth k mesh) compute onUpdate patience iterations b = .ok history t ∧
        runDiary (handle site depth k mesh) compute onUpdate patience iterations ⟨b, []⟩ =
          .ok history ⟨t, story blocks⟩) ∧
      history.records = blocks.flatten ∧ 0 < blocks.length ∧ blocks.length ≤ iterations ∧
      (∀ (i : Nat) rs, blocks[i]? = some rs → ∃ d, IsRound i d rs) ∧
      (∀ r ∈ history.records.dropLast, r.decision.isStop = false) ∧
      (history.isStopped = true ↔ ∃ r ∈ history.records, r.decision.isStop = true) ∧
      (history.isStopped = false → blocks.length = iterations) := by
  have candid : Candid (handle site depth k mesh) := Update.ends_needsUpdate site depth k mesh
  obtain ⟨enough, ⟨⟨t, entries⟩, history⟩, iterated, blocks, hrecords, told, hentries⟩ :=
    iterate_tells candid serves settles iterations 0 hb [] History.empty
  obtain rfl : entries = story blocks := by simpa using hentries
  have hrecords : history.records = blocks.flatten := by simpa [History.empty] using hrecords
  obtain ⟨hlen, hmost, hrounds⟩ := told.rounds
  obtain ⟨hbefore, hend⟩ := told.isStop
  rw [← hrecords] at hbefore hend
  refine ⟨enough, history, t, blocks, ?_, hrecords, hlen hpos, hmost, ?_, hbefore, isStopped_iff hbefore, ?_⟩
  · intro patience hp
    obtain ⟨_, _, hdiary, rfl⟩ := (iterated patience hp).returns
    have diary : runDiary (handle site depth k mesh) compute onUpdate patience iterations ⟨b, []⟩ =
        .ok history ⟨t, story blocks⟩ := by
      rw [runDiary, run, hdiary]
    refine ⟨?_, diary⟩
    have mirrored := diary_mirrors (handle site depth k mesh) compute onUpdate patience iterations ⟨b, []⟩
    rw [diary] at mirrored
    exact mirrored
  · intro i rs hi
    simpa using hrounds i rs hi
  · intro hgoes
    rcases hend with hend | ⟨r, hr, hstop⟩
    · exact hend
    · have stopped : history.isStopped = true :=
        (isStopped_iff hbefore).mpr ⟨r, List.mem_of_getLast? hr, hstop⟩
      rw [hgoes] at stopped
      cases stopped

/-! ## A control that decides as laid down -/

/-- A caller's control alone, without or with a decision so far. -/
def Single (b : Bench Float (Stand (List Decision))) : Prop :=
  ∃ last, b.controls = [⟨last, .foreign 0 "control"⟩]

theorem update_single {b : Bench Float (Stand (List Decision))} (hb : Single b) :
    Ends (Update.update (Stand.site Rotation.dictated) 1 0 0) b
      (fun _ t => t.controls = [⟨b.world.around.headD .idle, .foreign 0 "control"⟩] ∧
        t.world.around = b.world.around.tail) (fun _ _ => False) := by
  obtain ⟨⟨forest, isNonconforming, isDistributed, ds⟩, markers, controls, trace⟩ := b
  obtain ⟨last, rfl⟩ := hb
  cases ds with
  | nil => exact ⟨rfl, rfl⟩
  | cons d ds => exact ⟨rfl, rfl⟩

theorem single_serves :
    Serves (handle (Stand.site Rotation.dictated) 1 0 0) (pure ⟨⟩) (fun _ => pure ⟨⟩) Single where
  update _ hb := (update_single hb).mono (fun _ _ ht => ⟨_, ht.1⟩) fun _ _ h => h
  compute _ hb := hb
  onUpdate _ _ hb := ⟨rfl, hb⟩
  note _ _ hb := hb

/-- When the decisions laid down have run out, the control is idle. -/
theorem single_settles (ds : List Decision) {b : Bench Float (Stand (List Decision))} (hb : Single b)
    (hds : b.world.around = ds) :
    Settles (handle (Stand.site Rotation.dictated) 1 0 0) (fun _ => pure ⟨⟩) b := by
  induction ds generalizing b with
  | nil =>
    obtain ⟨needs, t, hu, hc, -⟩ := (update_single hb).returns
    refine .once hu ?_
    simp [handle, lastOf, hc, hds, Decision.isAgain, Decision.action]
  | cons d ds ih =>
    obtain ⟨needs, t, hu, hc, hrest⟩ := (update_single hb).returns
    have decided : (handle (Stand.site Rotation.dictated) 1 0 0).decision t = d := by
      simp [handle, lastOf, hc, hds]
    by_cases hagain : d.isAgain = true
    · exact .again hu (by rw [decided, hagain]) rfl (ih ⟨_, hc⟩ (by simp [hrest, hds]))
    · exact .once hu (by simpa [decided] using hagain)

/-- Three updates in two iterations: asked to go on, done, and stopped. -/
theorem history_tells_of_single :
    ∃ enough history t blocks,
      (∀ patience, enough ≤ patience →
        run (handle (Stand.site Rotation.dictated) 1 0 0) (pure ⟨⟩) (fun _ => pure ⟨⟩) patience 5
            (Rotation.dictation [.again none, .proceed none, .stop] [.foreign 0 "control"]) = .ok history t ∧
        runDiary (handle (Stand.site Rotation.dictated) 1 0 0) (pure ⟨⟩) (fun _ => pure ⟨⟩) patience 5
            ⟨Rotation.dictation [.again none, .proceed none, .stop] [.foreign 0 "control"], []⟩ =
          .ok history ⟨t, story blocks⟩) ∧
      history.records = blocks.flatten ∧ blocks.length ≤ 5 := by
  have single : Single (Rotation.dictation [.again none, .proceed none, .stop] [.foreign 0 "control"]) :=
    ⟨_, rfl⟩
  obtain ⟨enough, history, t, blocks, returns, hrecords, -, hmost, -⟩ :=
    history_tells single_serves (fun b hb => single_settles b.world.around hb rfl) single
      (by decide : 0 < 5)
  exact ⟨enough, history, t, blocks, returns, hrecords, hmost⟩

end Bench

end Regrid
