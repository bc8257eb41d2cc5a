/-
  Regrid.Proofs.Talk — what a computation tells its peers.

  A talk is what is left of a computation for those who share its mesh: it ends, or it
  enters a reduction and goes on from what comes of it. `Went` lists the reductions and the
  result of one talk that took place. An action on a bench follows a talk (`Follows`) if all
  its runs are such talks; its reductions are those the bench noted where there is a
  communicator, and a marker that has the mesh to itself answers itself.

  Talks of several workers amount to one talk (`Amounts`) if they enter the same reductions
  as it does, in the same order, and go on amounting to it whenever each gets a combination
  of what all of them put in. With an honest communicator they all end as the one talk does
  when it answers itself (`Amounts.result`).
-/

import Mathlib.Data.Fintype.Basic
import Mathlib.Tactic.Choose
import Regrid.Proofs.Passes

namespace Regrid

variable {R W α β γ δ : Type} {n : Nat}

/-! ## Reductions -/

/-- What was put into a reduction, and what came of it. -/
structure Reduced (R : Type) where
  op : Reduction
  own : Quantity R
  whole : Quantity R
  deriving DecidableEq

def Event.reduced? : Event R → Option (Reduced R)
  | .note (.reduced op own whole) => some ⟨op, own, whole⟩
  | _ => none

/-- The reductions that were noted, in order. -/
def Bench.reductions (b : Bench R W) : List (Reduced R) := (b.trace.filterMap Event.reduced?).reverse

@[simp] theorem Bench.reductions_record (b : Bench R W) (e : Event R) :
    (b.record e).reductions = b.reductions ++ e.reduced?.toList := by
  cases he : e.reduced? <;> simp [reductions, he]

theorem Bench.reductions_noteFault (b : Bench R W) (f : Fault) :
    (b.noteFault f).reductions = b.reductions := by
  unfold noteFault
  cases f.report? with
  | none => rfl
  | some r => rfl

/-- The bench once a reduction was entered and what came of it was noted. -/
theorem Bench.reductions_reduced (b : Bench R W) (mesh : MeshId) (op : Reduction) (own whole : Quantity R) (w : W) :
    ({ b.record (.call mesh (.reduce op own)) with world := w }.record (.note (.reduced op own whole))).reductions =
      b.reductions ++ [⟨op, own, whole⟩] := by
  have called : ({ b.record (.call mesh (.reduce op own)) with world := w } : Bench R W).reductions =
      b.reductions := by
    show (b.record _).reductions = b.reductions
    rw [reductions_record]
    exact List.append_nil _
  rw [reductions_record, called]
  rfl

/-- What the workers put in, combined two at a time in any order, comes to a quantity. -/
inductive Reduction.Comes [Arith R] {ι : Type} [DecidableEq ι] (op : Reduction) (own : ι → Quantity R) :
    Finset ι → Quantity R → Prop where
  | one (i : ι) : Comes op own {i} (own i)
  | join {s t : Finset ι} {a b whole : Quantity R} : Comes op own s a → Comes op own t b → Disjoint s t →
      op.combine a b = .ok whole → Comes op own (s ∪ t) whole

/-- What all workers entered as their k-th reduction came to each as a combination of all they put in. -/
def Honest [Arith R] (logs : Fin n → List (Reduced R)) : Prop :=
  ∀ (k : Nat) (op : Reduction) (own whole : Fin n → Quantity R),
    (∀ i, (logs i)[k]? = some ⟨op, own i, whole i⟩) → ∀ i, op.Comes own Finset.univ (whole i)

/-- What is promised of logs was promised of what was added last, if it was added to logs of one length. -/
theorem Honest.of_append [Arith R] {base logs : Fin n → List (Reduced R)}
    (h : Honest fun i => base i ++ logs i) (level : ∀ i j, (base i).length = (base j).length) :
    Honest logs := by
  intro k op own whole hk i
  refine h ((base i).length + k) op own whole (fun j => ?_) i
  rw [level i j, List.getElem?_append_right (by omega), Nat.add_sub_cancel_left, hk j]

/-! ## Talks -/

inductive Talk (R α : Type) where
  | ends (result : Except Fault α)
  | enters (op : Reduction) (own : Quantity R) (next : Quantity R → Talk R α)

namespace Talk

def bind : Talk R α → (α → Talk R β) → Talk R β
  | ends (.ok a), next => next a
  | ends (.error f), _ => ends (.error f)
  | enters op own more, next => enters op own fun whole => (more whole).bind next

instance : Monad (Talk R) where
  pure a := ends (.ok a)
  bind := bind

/-- The talk took place, with these reductions and this result. -/
inductive Went : Talk R α → List (Reduced R) → Except Fault α → Prop where
  | ends (result : Except Fault α) : Went (.ends result) [] result
  | enters {op : Reduction} {own : Quantity R} {next : Quantity R → Talk R α} {whole : Quantity R}
      {log : List (Reduced R)} {result : Except Fault α} :
      Went (next whole) log result → Went (.enters op own next) (⟨op, own, whole⟩ :: log) result

theorem went_ends {r result : Except Fault α} {log : List (Reduced R)} :
    (ends r).Went log result ↔ log = [] ∧ result = r :=
  ⟨fun h => by cases h; exact ⟨rfl, rfl⟩, fun ⟨hlog, hr⟩ => hlog ▸ hr ▸ .ends _⟩

theorem went_enters {op : Reduction} {own : Quantity R} {next : Quantity R → Talk R α}
    {log : List (Reduced R)} {result : Except Fault α} :
    (enters op own next).Went log result ↔
      ∃ whole rest, log = ⟨op, own, whole⟩ :: rest ∧ (next whole).Went rest result :=
  ⟨fun h => by cases h with | enters h => exact ⟨_, _, rfl, h⟩, fun ⟨_, _, hlog, h⟩ => hlog ▸ .enters h⟩

/-- What comes of a talk that gets back whatever it puts in. -/
def alone : Talk R α → Except Fault α
  | ends result => result
  | enters _ own next => (next own).alone

theorem alone_bind (talk : Talk R α) (next : α → Talk R β) :
    (talk >>= next).alone = talk.alone >>= fun a => (next a).alone := by
  induction talk with
  | ends result => cases result <;> rfl
  | enters _ own _ ih => exact ih own

theorem Went.eq_alone {talk : Talk R α} {log : List (Reduced R)} {result : Except Fault α}
    (h : talk.Went log result) (own : ∀ e ∈ log, e.whole = e.own) : result = talk.alone := by
  induction h with
  | ends result => rfl
  | @enters op mine next whole log result _ ih =>
    obtain ⟨hwhole, rest⟩ := List.forall_mem_cons.mp own
    obtain rfl : whole = mine := hwhole
    exact ih rest

theorem Went.bind_ok {talk : Talk R α} {next : α → Talk R β} {log log' : List (Reduced R)} {a : α}
    {result : Except Fault β} (h : talk.Went log (.ok a)) (h' : (next a).Went log' result) :
    (talk >>= next).Went (log ++ log') result := by
  generalize hr : Except.ok a = r at h
  induction h with
  | ends r =>
    subst hr
    exact h'
  | enters _ ih => exact .enters (ih hr)

theorem Went.bind_error {talk : Talk R α} {next : α → Talk R β} {log : List (Reduced R)} {f : Fault}
    (h : talk.Went log (.error f)) : (talk >>= next).Went log (.error f) := by
  generalize hr : Except.error f = r at h
  induction h with
  | ends r =>
    subst hr
    exact .ends _
  | enters _ ih => exact .enters (ih hr)

end Talk

/-! ## Actions that follow a talk -/

/-- In which worlds actions are observed, and how the reductions between two benches show. -/
structure Observer (R W : Type) where
  here : W → Prop
  shows : List (Reduced R) → Bench R W → Bench R W → Prop
  nothing : ∀ {b t}, t.reductions = b.reductions → shows [] b t
  append : ∀ {log log' b t u}, shows log b t → shows log' t u → shows (log ++ log') b u

namespace Observer

/-- What a communicator reduces is noted. -/
def notes (here : W → Prop) : Observer R W where
  here := here
  shows log b t := t.reductions = b.reductions ++ log
  nothing h := by simpa using h
  append h h' := by rw [h', h, List.append_assoc]

/-- Where there is no communicator, what is put in comes back, and nothing is noted. -/
def alone (here : W → Prop) : Observer R W where
  here := here
  shows log _ _ := ∀ e ∈ log, e.whole = e.own
  nothing _ := List.forall_mem_nil _
  append h h' := List.forall_mem_append.mpr ⟨h, h'⟩

/-- The run of the action from this bench is such a talk, and stays in the observed worlds. -/
def FollowsAt (o : Observer R W) (x : Act R W α) (talk : Talk R α) (b : Bench R W) : Prop :=
  ∃ log, o.shows log b (stateAfter x b) ∧ talk.Went log (outcome x b) ∧ o.here (stateAfter x b).world

/-- All runs of the action are such talks, and stay in the observed worlds. -/
def Follows (o : Observer R W) (x : Act R W α) (talk : Talk R α) : Prop :=
  ∀ b, o.here b.world → ∃ log, o.shows log b (stateAfter x b) ∧ talk.Went log (outcome x b) ∧
    o.here (stateAfter x b).world

theorem FollowsAt.bind {o : Observer R W} {x : Act R W α} {talk : Talk R α} {b : Bench R W} {y : α → Act R W β}
    {next : α → Talk R β} (hx : o.FollowsAt x talk b)
    (hy : ∀ a t, x b = .ok a t → o.here t.world → o.FollowsAt (y a) (next a) t) :
    o.FollowsAt (x >>= y) (talk >>= next) b := by
  obtain ⟨log, shown, went, there⟩ := hx
  cases hrun : x b with
  | ok a t =>
    simp only [stateAfter, outcome, hrun] at shown went there
    obtain ⟨log', shown', went', there'⟩ := hy a t hrun there
    refine ⟨log ++ log', ?_, ?_, ?_⟩
    · simpa only [stateAfter, bind_of_ok hrun] using o.append shown shown'
    · simpa only [outcome, bind_of_ok hrun] using went.bind_ok went'
    · simpa only [stateAfter, bind_of_ok hrun] using there'
  | error f t =>
    simp only [stateAfter, outcome, hrun] at shown went there
    refine ⟨log, ?_, ?_, ?_⟩
    · simpa only [stateAfter, bind_of_error hrun] using shown
    · simpa only [outcome, bind_of_error hrun] using went.bind_error
    · simpa only [stateAfter, bind_of_error hrun] using there

namespace Follows

variable {o : Observer R W} {x : Act R W α} {talk : Talk R α}

theorem bind {y : α → Act R W β} {next : α → Talk R β} (hx : o.Follows x talk)
    (hy : ∀ a, o.Follows (y a) (next a)) : o.Follows (x >>= y) (talk >>= next) :=
  fun b hb => FollowsAt.bind (hx b hb) fun a t _ there => hy a t there

theorem of_run {b t : Bench R W} {a : α} {log : List (Reduced R)} (run : x b = .ok a t)
    (shown : o.shows log b t) (went : talk.Went log (.ok a)) (there : o.here t.world) :
    ∃ log, o.shows log b (stateAfter x b) ∧ talk.Went log (outcome x b) ∧ o.here (stateAfter x b).world := by
  simp only [stateAfter, outcome, run]
  exact ⟨log, shown, went, there⟩

/-- A silent action that returns the same everywhere. -/
theorem of_ok {a : α}
    (h : ∀ b, o.here b.world → ∃ t, x b = .ok a t ∧ t.reductions = b.reductions ∧ o.here t.world) :
    o.Follows x (.ends (.ok a)) := by
  intro b hb
  obtain ⟨t, run, same, there⟩ := h b hb
  exact of_run run (o.nothing same) (.ends _) there

/-- What follows a silent action is all there is to tell. -/
theorem after {a : α} {y : α → Act R W β} {more : Talk R β} (hx : o.Follows x (.ends (.ok a)))
    (hy : o.Follows (y a) more) : o.Follows (x >>= y) more := by
  intro b hb
  obtain ⟨log, shown, went, there⟩ := hx b hb
  obtain ⟨rfl, returned⟩ := Talk.went_ends.mp went
  have run := bind_of_ok (y := y) (outcome_ok returned)
  obtain ⟨log, shown', went', there'⟩ := hy _ there
  simp only [stateAfter, outcome, run] at shown' went' there' ⊢
  exact ⟨[] ++ log, o.append shown shown', went', there'⟩

theorem pure (a : α) : o.Follows (Pure.pure a) (Pure.pure a) := of_ok fun b hb => ⟨b, rfl, rfl, hb⟩

theorem look {g : W → α} {a : α} (h : ∀ w, o.here w → g w = a) : o.Follows (Act.look g) (.ends (.ok a)) :=
  of_ok fun b hb => ⟨b, by rw [Act.look_apply, h b.world hb], rfl, hb⟩

theorem record {e : Event R} (h : e.reduced? = none) : o.Follows (Act.record e) (.ends (.ok ⟨⟩)) :=
  of_ok fun b hb => ⟨b.record e, rfl, by simp [h], hb⟩

theorem ask {q : EStateM Fault W α} {a : α} (h : ∀ w, o.here w → ∃ w', q w = .ok a w' ∧ o.here w') :
    o.Follows (Act.ask q) (.ends (.ok a)) := by
  refine of_ok fun b hb => ?_
  obtain ⟨w, hq, there⟩ := h b.world hb
  exact ⟨_, Act.ask_of_ok hq, rfl, there⟩

theorem check (v : Except Fault α) : o.Follows (Act.check v) (.ends v) := by
  cases v with
  | ok a => exact pure a
  | error f =>
    refine fun b hb => ⟨[], o.nothing (b.reductions_noteFault f), .ends _, ?_⟩
    show o.here (b.noteFault f).world
    rw [b.noteFault_world f]
    exact hb

theorem check_ok {v : Except Fault α} {a : α} (h : v = .ok a) : o.Follows (Act.check v) (.ends (.ok a)) :=
  h ▸ .check v

/-- A worker's reductions are noted, if its communicator answers. -/
theorem reduce {site : Site R W} {mesh : MeshId} {here : W → Prop}
    (connected : ∀ w, here w → site.isConnected mesh w = true) (op : Reduction) (own : Quantity R)
    (answers : ∀ w, here w → ∃ whole w', site.allreduce mesh op own w = .ok whole w' ∧ here w') :
    (notes here).Follows (Collective.reduce site mesh op own) (.enters op own Pure.pure) := by
  intro b hb
  obtain ⟨whole, w, hall, there⟩ := answers b.world hb
  exact of_run (reduce_apply (connected b.world hb) hall) (b.reductions_reduced mesh op own whole w)
    (.enters (.ends _)) there

/-- Who has the mesh to itself gets back what it puts in. -/
theorem reduce_alone {site : Site R W} {mesh : MeshId} {here : W → Prop}
    (unconnected : ∀ w, here w → site.isConnected mesh w = false) (op : Reduction) (own : Quantity R) :
    (alone here).Follows (Collective.reduce site mesh op own) (.enters op own Pure.pure) := by
  intro b hb
  have run : Collective.reduce site mesh op own b = .ok own b := by
    rw [Collective.reduce, bind_of_ok (Act.look_apply (site.isConnected mesh)), unconnected b.world hb]
    rfl
  exact of_run run (List.forall_mem_singleton.mpr rfl) (.enters (.ends _)) hb

end Follows

end Observer

/-! ## Talks of workers and one talk -/

variable [Arith R]

/-- The talks of the workers take the course of one talk that answers itself, and end alike. -/
inductive Amounts (rel : (Fin n → α) → β → Prop) : (Fin n → Talk R α) → Talk R β → Prop where
  | returns {a : Fin n → α} {v : β} : rel a v → Amounts rel (fun i => .ends (.ok (a i))) (.ends (.ok v))
  | fails (f : Fault) : Amounts rel (fun _ => .ends (.error f)) (.ends (.error f))
  | enters {op : Reduction} {own : Fin n → Quantity R} {next : Fin n → Quantity R → Talk R α}
      {one : Quantity R} {more : Quantity R → Talk R β} :
      (∀ whole : Fin n → Quantity R, (∀ i, op.Comes own Finset.univ (whole i)) →
        Amounts rel (fun i => next i (whole i)) (more one)) →
      Amounts rel (fun i => .enters op (own i) (next i)) (.enters op one more)

namespace Amounts

variable {rel : (Fin n → α) → β → Prop} {talks : Fin n → Talk R α} {talk : Talk R β}

theorem bind {rel' : (Fin n → γ) → δ → Prop} {next : Fin n → α → Talk R γ} {more : β → Talk R δ}
    (h : Amounts rel talks talk) (h' : ∀ a v, rel a v → Amounts rel' (fun i => next i (a i)) (more v)) :
    Amounts rel' (fun i => talks i >>= next i) (talk >>= more) := by
  induction h with
  | returns hrel => exact h' _ _ hrel
  | fails f => exact .fails f
  | enters _ ih => exact .enters ih

/-- What all workers have, and the one as well. -/
def Common (a : Fin n → α) (v : α) : Prop := ∀ i, a i = v

theorem bind_common {talk : Talk R α} {rel' : (Fin n → γ) → δ → Prop} {next : Fin n → α → Talk R γ}
    {more : α → Talk R δ} (h : Amounts Common talks talk)
    (h' : ∀ v, Amounts rel' (fun i => next i v) (more v)) :
    Amounts rel' (fun i => talks i >>= next i) (talk >>= more) := by
  refine h.bind fun a v hv => ?_
  obtain rfl : a = fun _ => v := funext hv
  exact h' v

theorem check (v : Except Fault α) : Amounts (n := n) Common (fun _ => .ends v) (.ends v : Talk R α) :=
  match v with
  | .ok _ => .returns fun _ => rfl
  | .error f => .fails f

/-- All return what is related to what the one returns, or all fail as the one does. -/
def Alike (rel : (Fin n → α) → β → Prop) (results : Fin n → Except Fault α) : Except Fault β → Prop
  | .ok v => ∃ a : Fin n → α, (∀ i, results i = .ok (a i)) ∧ rel a v
  | .error f => ∀ i, results i = .error f

theorem mono {rel' : (Fin n → α) → β → Prop} (h : Amounts rel talks talk) (h' : ∀ a v, rel a v → rel' a v) :
    Amounts rel' talks talk := by
  induction h with
  | returns hrel => exact .returns (h' _ _ hrel)
  | fails f => exact .fails f
  | enters _ ih => exact .enters ih

/-- With an honest communicator the workers end as the one does that answers itself. -/
theorem result (h : Amounts rel talks talk) {logs : Fin n → List (Reduced R)}
    {results : Fin n → Except Fault α} (went : ∀ i, (talks i).Went (logs i) (results i))
    (honest : Honest logs) : Alike rel results talk.alone := by
  induction h generalizing logs with
  | returns hrel => exact ⟨_, fun i => (Talk.went_ends.mp (went i)).2, hrel⟩
  | fails f => exact fun i => (Talk.went_ends.mp (went i)).2
  | enters _ ih =>
    choose whole rests hlogs went using fun i => Talk.went_enters.mp (went i)
    -- what all workers entered first is one reduction
    have comes := honest 0 _ _ whole fun i => by rw [hlogs i]; rfl
    have later : Honest rests := fun k op own whole' hk => honest (k + 1) op own whole' fun i => by
      rw [hlogs i, List.getElem?_cons_succ, hk i]
    exact ih whole comes went later

end Amounts

end Regrid
