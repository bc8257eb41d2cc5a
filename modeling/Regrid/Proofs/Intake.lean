/-
  Regrid.Proofs.Intake — an update that fails over what it is given.

  A control that refines or merges first takes in what an estimator delivers, and what the
  mesh's table of groups says: the vector is converted, its size and its entries are
  checked, the threshold is found, flags are checked, and the errors of groups are combined
  (`intake`). Only then is the mesh asked for anything. On a mesh that is not shared, an
  update whose intake fails

  (1) fails in the same way, has called no mesh, and leaves every marker and every control
      as it was: decisions, stages and settings, kept markings with their stamps, and the
      counts of builds and of marked elements (`Untouched`);
  (2) is not noticed by anything that happens later. Whatever is changed in the surroundings
      meanwhile, every later request is answered as if the update had never been made, and
      records the same (`Unnoticed`).

  Nothing else makes such an update fail but a method of the mesh, or a total that is no real
  number and is judged.
-/

import Regrid.Forest.Site
import Regrid.Proofs.Plan
import Regrid.Proofs.Twins

namespace Regrid

variable {R W α : Type}

/-- Somebody was asked to deliver something, or something was noted. -/
def Event.isAside : Event R → Bool
  | .estimate _ | .note _ => true
  | .call _ _ | .visit _ _ _ => false

namespace Intake

/-! ## What is taken in -/

section

variable [Arith R] (site : Site R W)

/-- The errors of the groups of a mesh, from what is delivered. -/
def groupErrors (how : Coarsening R) (label : String) (mesh : MeshId) : Act R W (List R) := do
  let delivered ← Marking.askErrors site how.estimator
  let errors ← Act.check (Admission.errorVector label (.int (← Act.look (site.elements mesh))) delivered)
  let groups ← Act.look (site.groups mesh)
  Act.check (Coarsen.groupErrors how.combine errors groups)

/-- A pass once the errors of the groups are known. -/
def merge (how : Coarsening R) (mesh : MeshId) (limit : Int) (combined : List R) : Act R W Bool := do
  let under := Coarsen.countUnder how.threshold combined
  if (← Collective.count site mesh under).isZero then
    Act.note (.nothingUnder how.threshold)
    return false
  Act.call mesh (.derefine combined how.threshold limit)
  let changed ← Act.ask (site.derefine mesh combined how.threshold limit)
  let anywhere ← Collective.max site mesh (.int (if changed then 1 else 0))
  if anywhere.isZero then return false
  Act.note (.derefined under)
  return true

/-- The part of an update in which it takes in what it is given, and changes no mesh. -/
def intake (mesh : MeshId) (c : Control R) : Act R W Unit :=
  match c.strategy with
  | .refine marker _ _ => discard (Marking.read site marker)
  | .coarsen how | .coarsenLimited how .coarsen => do
    if ← Act.look (site.isNonconforming mesh) then discard (groupErrors site how c.strategy.label mesh)
  | .coarsenLimited _ .limit | .rebalance | .rotation _ _ | .foreign _ _ => return ⟨⟩

/-- The control refines what this marker marks. -/
def Reads (c : Control R) (b : Bench R W) (m : Marker R) : Prop :=
  ∃ marker mode limit, c.strategy = .refine marker mode limit ∧ b.markers[marker]? = some m

/-- The strategies that mark or merge. -/
def Adapts : Strategy R → Prop
  | .refine _ _ _ | .coarsen _ | .coarsenLimited _ _ => True
  | .rebalance | .rotation _ _ | .foreign _ _ => False

theorem pass_eq (how : Coarsening R) (label : String) (mesh : MeshId) (limit : Int) :
    Coarsen.pass site how label mesh limit = groupErrors site how label mesh >>= merge site how mesh limit := by
  simp only [Coarsen.pass, groupErrors, bind_assoc]
  rfl

end

/-! ## Where a mesh is not shared -/

/-- The mesh has no communicator. -/
def Serial (site : Site R W) (mesh : MeshId) : Prop := ∀ w, site.isConnected mesh w = false

namespace Serial

variable {site : Site R W} {mesh : MeshId} (serial : Serial site mesh)
include serial

theorem reduce (op : Reduction) (own : Quantity R) : Collective.reduce site mesh op own = pure own := by
  funext b
  rw [Collective.reduce, bind_of_ok (Act.look_apply _), serial b.world]
  rfl

variable [Narrow R]

theorem sum (own : Number R) : Collective.sum site mesh own = pure own := by
  rw [Collective.sum, serial.reduce, pure_bind]
  rfl

theorem max (own : Number R) : Collective.max site mesh own = pure own := by
  rw [Collective.max, serial.reduce, pure_bind]
  rfl

theorem count (own : Nat) : Collective.count site mesh own = pure (.int own) := serial.sum _

end Serial

/-- The relation holds over what is asked of estimators, and over what is noted. -/
structure Asides (site : Site R W) (r : Bench R W → Bench R W → Prop) : Prop where
  record : ∀ b e, e.isAside = true → r b (b.record e)
  errors : ∀ e, Keeps r (Act.ask (site.errors e))
  flags : ∀ e, Keeps r (Act.ask (site.flags e))

namespace Asides

variable {site : Site R W} {r : Bench R W → Bench R W → Prop} [Lasting r] (h : Asides site r) {mesh : MeshId}
include h

theorem noteFault (b : Bench R W) (f : Fault) : r b (b.noteFault f) :=
  b.noteFault_of_record (I := fun t => r b t) f (Lasting.refl b) fun _ => h.record b _ rfl

theorem check (v : Except Fault α) : Keeps r (Act.check v : Act R W α) :=
  match v with
  | .ok a => .pure a
  | .error f => fun b => h.noteFault b f

theorem askErrors (estimator : EstimatorId) : Keeps r (Marking.askErrors site estimator) :=
  .bind (fun b => h.record b _ rfl) fun _ => h.errors _

theorem readFlags (estimator : EstimatorId) (elements : Int) (context : String) :
    Keeps r (Marking.readFlags site estimator elements context) :=
  (h.flags _).bind fun flags =>
    match flags with
    | none => .pure _
    | some _ => (h.check _).bind fun _ => .pure _

variable [Arith R] (serial : Serial site mesh)

theorem groupErrors (how : Coarsening R) (label : String) (mesh : MeshId) :
    Keeps r (Intake.groupErrors site how label mesh) :=
  (h.askErrors _).bind fun _ => (Silent.look _).bind fun _ => (h.check _).bind fun _ =>
    (Silent.look _).bind fun _ => h.check _

include serial

theorem total (errors : List R) (exponent : Exponent R) : Keeps r (Norm.total site mesh errors exponent) := by
  unfold Norm.total Norm.commonPeak
  rw [serial.max, pure_bind]
  refine (h.check _).bind fun m => ?_
  cases exponent with
  | infinite => exact .pure _
  | finite p =>
    show Keeps r (Norm.scaled site mesh errors m p (Norm.root m p))
    rw [Norm.scaled, serial.sum, pure_bind]
    exact .ite (.pure _) ((h.check _).bind fun _ => h.check _)

theorem pass (estimator : EstimatorId) (s : Settings R) : Keeps r (Marking.pass site mesh estimator s) := by
  unfold Marking.pass
  simp only [serial.sum, serial.count, pure_bind]
  refine (Silent.look _).bind fun _ => (h.askErrors _).bind fun _ => (h.check _).bind fun _ =>
    (h.check _).bind fun _ => (h.total serial _ _).bind fun error => (h.check _).bind fun _ =>
    (h.readFlags _ _ _).bind fun _ => (h.check _).bind fun _ => ?_
  cases error with
  | none => exact .pure _
  | some e => exact .bind (fun b => h.record b _ rfl) fun _ => .pure _

end Asides

/-! ## Nothing is touched -/

/-- What the surroundings become when somebody is asked to deliver something, once or more often. -/
inductive Asked (site : Site R W) : W → W → Prop
  | nothing (w : W) : Asked site w w
  | errors {w w' : W} (e : EstimatorId) : Asked site w w' → Asked site w (stateAfter (site.errors e) w')
  | flags {w w' : W} (e : EstimatorId) : Asked site w w' → Asked site w (stateAfter (site.flags e) w')
  | marking {w w' : W} (k : Nat) : Asked site w w' → Asked site w (stateAfter (site.marking k) w')

instance (site : Site R W) : Lasting (Asked site) where
  refl := .nothing
  trans h h' := by
    induction h' with
    | nothing => exact h
    | errors e _ ih => exact .errors e ih
    | flags e _ ih => exact .flags e ih
    | marking k _ ih => exact .marking k ih

/-- All markers and controls are as they were. No mesh and no communicator was called; those who
    deliver may have been asked to, and something may have been noted. -/
structure Untouched (site : Site R W) (b t : Bench R W) : Prop where
  markers : t.markers = b.markers
  controls : t.controls = b.controls
  asides : ∃ new, t.trace = new ++ b.trace ∧ ∀ e ∈ new, e.isAside = true
  world : Asked site b.world t.world

instance (site : Site R W) : Lasting (Untouched site) where
  refl b := ⟨rfl, rfl, ⟨[], rfl, nofun⟩, Lasting.refl _⟩
  trans h h' := by
    obtain ⟨new, htrace, aside⟩ := h.asides
    obtain ⟨new', htrace', aside'⟩ := h'.asides
    refine ⟨h'.markers.trans h.markers, h'.controls.trans h.controls, ⟨new' ++ new, ?_, ?_⟩,
      Lasting.trans h.world h'.world⟩
    · rw [htrace', htrace, List.append_assoc]
    · exact List.forall_mem_append.mpr ⟨aside', aside⟩

section

variable {site : Site R W}

theorem untouched_record (b : Bench R W) {e : Event R} (h : e.isAside = true) :
    Untouched site b (b.record e) :=
  ⟨rfl, rfl, ⟨[e], rfl, List.forall_mem_singleton.mpr h⟩, .nothing _⟩

theorem untouched_noteFault (b : Bench R W) (f : Fault) : Untouched site b (b.noteFault f) :=
  b.noteFault_of_record (I := fun t => Untouched site b t) f (Lasting.refl b) fun _ => untouched_record b rfl

theorem untouched_ask {q : EStateM Fault W α} (hq : ∀ w, Asked site w (stateAfter q w)) :
    Keeps (Untouched site) (Act.ask q : Act R W α) := by
  intro b
  have went := hq b.world
  rw [Act.ends_ask]
  unfold Ends
  unfold stateAfter at went
  cases hw : q b.world with
  | ok a w =>
    rw [hw] at went
    exact ⟨rfl, rfl, ⟨[], rfl, nofun⟩, went⟩
  | error f w =>
    rw [hw] at went
    have gone : Untouched site b { b with world := w } := ⟨rfl, rfl, ⟨[], rfl, nofun⟩, went⟩
    exact Lasting.trans gone (untouched_noteFault _ f)

theorem asides_untouched (site : Site R W) : Asides site (Untouched site) where
  record b _ he := untouched_record b he
  errors e := untouched_ask fun w => .errors e (.nothing w)
  flags e := untouched_ask fun w => .flags e (.nothing w)

/-! ## Reads that fail -/

variable [Arith R] {k : MarkerId} {b : Bench R W}

/-- A pass that fails fails before it is counted. -/
theorem run_fails {m : Marker R} (serial : Serial site m.mesh) (hk : b.markers[k]? = some m) :
    Ends (Marking.run site k) b (fun _ _ => True) (fun _ t => Untouched site b t) := by
  have counted {x : Act R W (Marking R)} (hx : Keeps (Untouched site) x) : Ends (do
      let v ← x
      let old ← Act.marker k
      Act.putMarker k { old with tally := old.tally + v.marked }
      return v : Act R W (Marking R)) b (fun _ _ => True) (fun _ t => Untouched site b t) := by
    rw [ends_bind]
    refine (hx b).mono (fun v u hu => ?_) fun _ _ h => h
    have hm : u.markers[k]? = some m := hu.markers ▸ hk
    rw [ends_bind, Act.ends_marker_some hm]
    trivial
  rw [Marking.run, ends_bind, Act.ends_marker_some hk]
  cases m.source with
  | threshold estimator settings => exact counted ((asides_untouched site).pass serial estimator settings)
  | foreign n label => exact counted (untouched_ask fun w => .marking n (.nothing w))

/-- A read that fails keeps nothing. -/
theorem read_fails (serial : ∀ m, b.markers[k]? = some m → Serial site m.mesh) :
    Ends (Marking.read site k) b (fun _ _ => True) (fun _ t => Untouched site b t) := by
  cases hk : b.markers[k]? with
  | none =>
    rw [Marking.read, ends_bind, Act.ends_marker_none hk]
    exact Lasting.refl b
  | some m =>
    unfold Ends
    rw [Marking.read_apply site hk]
    cases m.cache.probe (site.version m.mesh b.world) with
    | answer v => trivial
    | refuse => exact untouched_noteFault b _
    | build =>
      show Ends (Marking.rebuild site k m _) b _ _
      rw [Marking.rebuild, ends_bind]
      exact (run_fails (serial m hk) hk).mono (fun _ _ _ => trivial) fun _ _ h => h

/-! ## Updates that fail -/

variable {mesh : MeshId} {c : Control R} {t : Bench R W} {f : Fault}

theorem intake_fails (serial : ∀ m, Reads c b m → Serial site m.mesh) :
    Ends (intake site mesh c) b (fun _ _ => True) (fun _ t => Untouched site b t) := by
  have groups (how : Coarsening R) : Ends (do
      if ← Act.look (site.isNonconforming mesh) then discard (groupErrors site how c.strategy.label mesh)
      : Act R W Unit) b (fun _ _ => True) (fun _ t => Untouched site b t) := by
    rw [ends_bind, Act.ends_look]
    split
    · rw [ends_discard]
      exact ((asides_untouched site).groupErrors how _ mesh b).mono (fun _ _ _ => trivial) fun _ _ h => h
    · trivial
  unfold intake
  split
  · rw [ends_discard]
    exact read_fails fun m hm => serial m ⟨_, _, _, ‹_›, hm⟩
  · exact groups _
  · exact groups _
  · trivial
  · trivial
  · trivial
  · trivial

end

/-! ## What makes an update fail -/

/-- A method of the mesh fails, and leaves the surroundings like this. -/
inductive MeshFails (site : Site R W) (mesh : MeshId) (f : Fault) (w' : W) : Prop
  | refine {marks mode limit w} (h : site.refine mesh marks mode limit w = .error f w')
  | derefine {errors threshold limit w} (h : site.derefine mesh errors threshold limit w = .error f w')
  | violations {limit w} (h : site.violations mesh limit w = .error f w')

/-- Nothing that was delivered: a method of the mesh fails, or a total that is judged is no real number. -/
def Otherwise (site : Site R W) (mesh : MeshId) (f : Fault) (t : Bench R W) : Prop :=
  MeshFails site mesh f t.world ∨ f = .notReal

/-- The second action fails where the first fails and as it does. Where the first returns, the second
    fails in one of these ways only. -/
structure Leads (P : Fault → Bench R W → Prop) (b : Bench R W) (x : Act R W Unit) (y : Act R W α) : Prop where
  fails : ∀ f t, x b = .error f t → y b = .error f t
  goesOn : ∀ u, x b = .ok ⟨⟩ u → Ends y b (fun _ _ => True) P

namespace Leads

variable {P : Fault → Bench R W → Prop} {b : Bench R W} {β : Type}

theorem nothing {y : Act R W α} (h : Ends y b (fun _ _ => True) P) : Leads P b (pure ⟨⟩) y := ⟨nofun, fun _ _ => h⟩

/-- Only what the second action does here matters. -/
theorem here {x : Act R W Unit} {y y' : Act R W α} (h : Leads P b x y) (same : y' b = y b) : Leads P b x y' := by
  refine ⟨fun f t fails => same.trans (h.fails f t fails), fun u returns => ?_⟩
  have went := h.goesOn u returns
  unfold Ends at went ⊢
  rw [same]
  exact went

theorem discard {x : Act R W α} {y : α → Act R W β}
    (h : ∀ a u, x b = .ok a u → Ends (y a) u (fun _ _ => True) P) : Leads P b (discard x) (x >>= y) := by
  rw [discard_eq]
  cases hx : x b with
  | ok a u =>
    refine ⟨fun f t fails => ?_, fun _ _ => ends_bind.mpr ((ends_of_ok hx).mpr (h a u hx))⟩
    rw [bind_of_ok hx] at fails
    cases fails
  | error f t =>
    refine ⟨fun f' t' fails => ?_, fun u returns => ?_⟩
    · rw [bind_of_error hx] at fails
      cases fails
      exact bind_of_error hx
    · rw [bind_of_error hx] at returns
      cases returns

theorem look {g : W → β} {x : β → Act R W Unit} {y : β → Act R W α}
    (h : Leads P b (x (g b.world)) (y (g b.world))) : Leads P b (Act.look g >>= x) (Act.look g >>= y) := by
  have looked := Act.look_apply (b := b) g
  refine ⟨fun f t fails => ?_, fun u returns => ?_⟩
  · rw [bind_of_ok looked] at fails ⊢
    exact h.fails f t fails
  · rw [bind_of_ok looked] at returns
    exact ends_bind.mpr (h.goesOn u returns)

/-- What comes after fails in one of the ways, too. -/
theorem bind {x : Act R W Unit} {y : Act R W α} {z : α → Act R W β} (h : Leads P b x y)
    (h' : ∀ a t, y b = .ok a t → Ends (z a) t (fun _ _ => True) P) : Leads P b x (y >>= z) := by
  refine ⟨fun f t fails => bind_of_error (h.fails f t fails), fun u returns => ?_⟩
  have went := h.goesOn u returns
  rw [ends_bind]
  cases hy : y b with
  | ok a t => exact (ends_of_ok hy).mpr (h' a t hy)
  | error f t => exact (ends_of_error hy).mpr (went.of_error hy)

end Leads

section

variable [Arith R] {site : Site R W} {mesh : MeshId}

/-- Whatever it starts from, the action fails in one of these ways only. -/
def FailsOtherwise (site : Site R W) (mesh : MeshId) (x : Act R W α) : Prop :=
  ∀ b, Ends x b (fun _ _ => True) (Otherwise site mesh)

namespace FailsOtherwise

variable {β : Type}

omit [Arith R] in
theorem pure (a : α) : FailsOtherwise site mesh (Pure.pure a) := fun _ => trivial

omit [Arith R] in
theorem bind {x : Act R W α} {y : α → Act R W β} (hx : FailsOtherwise site mesh x)
    (hy : ∀ a, FailsOtherwise site mesh (y a)) :
    FailsOtherwise site mesh (x >>= y) := fun b => ends_bind.mpr ((hx b).mono (fun a t _ => hy a t) fun _ _ h => h)

omit [Arith R] in
theorem ite {c : Prop} [Decidable c] {x y : Act R W α} (hx : FailsOtherwise site mesh x)
    (hy : FailsOtherwise site mesh y) :
    FailsOtherwise site mesh (if c then x else y) := by
  split
  · exact hx
  · exact hy

omit [Arith R] in
theorem record (e : Event R) : FailsOtherwise site mesh (Act.record e) := fun _ => trivial

omit [Arith R] in
theorem ask {q : EStateM Fault W α} (h : ∀ f w w', q w = .error f w' → MeshFails site mesh f w') :
    FailsOtherwise site mesh (Act.ask q) := by
  intro b
  rw [Act.ends_ask]
  cases hq : q b.world with
  | ok a w => exact (ends_of_ok hq).mpr trivial
  | error f w =>
    refine (ends_of_error hq).mpr (.inl ?_)
    rw [Bench.noteFault_world]
    exact h f _ w hq

omit [Arith R] in
theorem refine (marks : List Mark) (mode : Mode) (limit : Int) :
    FailsOtherwise site mesh (Coarsen.refine site mesh marks mode limit) :=
  (record _).bind fun _ => .ask fun _ _ _ h => .refine h

omit [Arith R] in
theorem violations (limit : Int) : FailsOtherwise site mesh (Coarsen.violations site mesh limit) :=
  (ask fun _ _ _ h => .violations h).bind fun _ => (record _).bind fun _ => .pure _

variable (serial : Serial site mesh)
include serial

theorem isBroken (limit : Int) : FailsOtherwise site mesh (Coarsen.isBroken site mesh limit) := by
  unfold Coarsen.isBroken
  simp only [serial.count, pure_bind]
  exact .ite (.pure _) ((violations _).bind fun _ => .pure _)

theorem merge (how : Coarsening R) (limit : Int) (combined : List R) :
    FailsOtherwise site mesh (Intake.merge site how mesh limit combined) := by
  unfold Intake.merge
  simp only [serial.count, serial.max, pure_bind]
  exact .ite ((record _).bind fun _ => .pure _) ((record _).bind fun _ =>
    (ask fun _ _ _ h => .derefine h).bind fun _ => .ite (.pure _) ((record _).bind fun _ => .pure _))

end FailsOtherwise

/-- The mesh is not shared. If the control has a marker, it is a threshold marker of such a mesh, and
    estimators leave the version of that mesh as it is. -/
structure Undisturbed (site : Site R W) (mesh : MeshId) (c : Control R) (b : Bench R W) : Prop where
  serial : Serial site mesh
  marker : ∀ m, Reads c b m → Serial site m.mesh ∧ ∃ estimator settings, m.source = .threshold estimator settings
  errors : ∀ m, Reads c b m → ∀ e, Keeps (Unseen (site.version m.mesh)) (site.errors e)
  flags : ∀ m, Reads c b m → ∀ e, Keeps (Unseen (site.version m.mesh)) (site.flags e)

omit [Arith R] in
theorem world_ask {γ : Type} {g : W → γ} {q : EStateM Fault W α} (hq : Keeps (Unseen g) q) :
    Keeps (Unseen fun b => g b.world) (Act.ask q : Act R W α) := by
  intro b
  rw [Act.ends_ask]
  refine (hq b.world).mono (fun _ _ h => h) fun f w h => ?_
  show g (Bench.noteFault _ f).world = _
  rw [Bench.noteFault_world]
  exact h

namespace Undisturbed

variable {c : Control R} {b u : Bench R W} (undisturbed : Undisturbed site mesh c b)
include undisturbed

/-- What was read is read again. -/
theorem again {k : MarkerId} {mode : Mode} {limit : Int} (hs : c.strategy = .refine k mode limit) {v : Marking R}
    (hread : Marking.read site k b = .ok v u) :
    ∃ m estimator settings, Marking.Next site k m estimator settings (.answer v) u := by
  cases hk : b.markers[k]? with
  | none =>
    rw [Marking.read, bind_of_error (Act.marker_missing hk)] at hread
    cases hread
  | some m =>
    have hm : Reads c b m := ⟨k, mode, limit, hs, hk⟩
    obtain ⟨serial, estimator, settings, hs⟩ := undisturbed.marker m hm
    have next : Marking.Next site k m.mesh estimator settings (m.cache.probe (site.version m.mesh b.world)) b :=
      ⟨m, hk, rfl, hs, rfl⟩
    have asides : Asides site (Unseen fun b => site.version m.mesh b.world) :=
      ⟨fun _ _ _ => rfl, fun e => world_ask (undisturbed.errors m hm e), fun e => world_ask (undisturbed.flags m hm e)⟩
    have passed := asides.pass serial estimator settings b
    refine ⟨m.mesh, estimator, settings, next.again hread ?_⟩
    cases hp : m.cache.probe (site.version m.mesh b.world) with
    | answer v' =>
      rw [Marking.read_answer hk hp] at hread
      cases hread
      rfl
    | refuse =>
      rw [Marking.read_apply site hk, hp] at hread
      cases hread
    | build =>
      rw [Marking.read_build hk hs hp] at hread
      cases hpass : Marking.pass site m.mesh estimator settings b with
      | error f t =>
        rw [hpass] at hread
        cases hread
      | ok v' t =>
        rw [hpass] at hread
        cases hread
        have same := passed.of_ok hpass
        exact same

/-- Judging what was read fails over a total only. -/
theorem stops {k : MarkerId} {mode : Mode} {limit : Int} (hs : c.strategy = .refine k mode limit) {v : Marking R}
    (hread : Marking.read site k b = .ok v u) :
    Ends (Marking.stops site k) u (fun _ _ => True) (Otherwise site mesh) := by
  obtain ⟨m, estimator, settings, next⟩ := undisturbed.again hs hread
  unfold Ends
  rw [next.stops]
  cases hjudged : settings.stops v with
  | ok stops => trivial
  | error f =>
    refine .inr ?_
    unfold Settings.stops at hjudged
    cases htotal : v.totalError with
    | none =>
      rw [htotal] at hjudged
      exact (Except.error.inj hjudged).symm
    | some e =>
      rw [htotal] at hjudged
      cases hjudged

theorem leads_refine {marker : MarkerId} {mode : Mode} {limit : Int} (hs : c.strategy = .refine marker mode limit) :
    Leads (Otherwise site mesh) b (discard (Marking.read site marker))
      (Update.applyRefine site marker mode limit mesh) := by
  refine .discard fun v u hread => ?_
  rw [ends_bind]
  refine (undisturbed.stops hs hread).mono (fun stops t _ => ?_) fun _ _ h => h
  have rest : FailsOtherwise site mesh (do
      if stops then
        Act.note .criterionMet
        return .stop
      if (← Collective.count site mesh v.marks.length).isZero then
        Act.note .nothingMarked
        return .stop
      Coarsen.refine site mesh v.marks mode limit
      Act.note (.refined v.marks.length)
      return .proceed (some .refine) : Act R W Decision) := by
    simp only [undisturbed.serial.count, pure_bind]
    exact .ite ((FailsOtherwise.record _).bind fun _ => .pure _) (.ite ((FailsOtherwise.record _).bind fun _ => .pure _)
      ((FailsOtherwise.refine _ _ _).bind fun _ => (FailsOtherwise.record _).bind fun _ => .pure _))
  exact rest t

/-- A pass of a control that merges fails over the errors of the groups, or otherwise. -/
theorem leads_pass (how : Coarsening R) (label : String) (limit : Int) :
    Leads (Otherwise site mesh) b (discard (groupErrors site how label mesh))
      (Coarsen.pass site how label mesh limit) := by
  rw [pass_eq]
  exact .discard fun combined u _ => FailsOtherwise.merge undisturbed.serial how limit combined u

/-- A control that merges takes in nothing where the mesh is conforming. -/
theorem leads_merging (how : Coarsening R) (label : String) (limit : Int) {α : Type} (idle : α) {z : Bool → Act R W α}
    (hz : ∀ changed, FailsOtherwise site mesh (z changed)) :
    Leads (Otherwise site mesh) b
      (do if ← Act.look (site.isNonconforming mesh) then discard (groupErrors site how label mesh))
      (do
        if !(← Act.look (site.isNonconforming mesh)) then return idle
        z (← Coarsen.pass site how label mesh limit)) := by
  refine .look ?_
  cases site.isNonconforming mesh b.world with
  | true => exact (undisturbed.leads_pass how label limit).bind fun changed t _ => hz changed t
  | false => exact .nothing trivial

/-- What an update does begins with its intake, and fails over it or otherwise. -/
theorem leads_apply (adapts : Adapts c.strategy) {k : ControlId} (hk : b.controls[k]? = some c)
    (visit : ControlId → Act R W Unit) :
    Leads (Otherwise site mesh) b (intake site mesh c) (Update.apply site visit k mesh) := by
  have found : Update.apply site visit k mesh b = _ := bind_of_ok (Act.control_apply hk)
  refine .here ?_ found
  have serial := undisturbed.serial
  unfold intake
  cases hs : c.strategy with
  | refine marker mode limit => exact undisturbed.leads_refine hs
  | coarsen how =>
    exact undisturbed.leads_merging how _ how.limit Decision.idle fun changed => .ite (.pure _) (.pure _)
  | coarsenLimited how stage =>
    refine Leads.bind ?_ fun _ _ _ => trivial
    cases stage with
    | coarsen =>
      exact undisturbed.leads_merging how _ 0 (Decision.idle, Stage.coarsen) fun changed =>
        .ite (.pure _) ((FailsOtherwise.isBroken serial _).bind fun _ => .ite (.pure _) (.pure _))
    | limit =>
      have rest : FailsOtherwise site mesh (Coarsen.applyLimited site how .limit c.strategy.label mesh) :=
        .bind (fun _ => trivial) fun _ => .ite (.pure _) <| (FailsOtherwise.violations _).bind fun _ =>
          (FailsOtherwise.refine _ _ _).bind fun _ => (FailsOtherwise.record _).bind fun _ =>
          (FailsOtherwise.isBroken serial _).bind fun _ => .ite (.pure _) (.pure _)
      rw [hs] at rest
      exact .nothing (rest b)
  | rebalance | rotation _ _ | foreign _ _ =>
    rw [hs] at adapts
    exact adapts.elim

/-- An update begins with its intake, and fails over it or otherwise. -/
theorem leads_update (adapts : Adapts c.strategy) {k : ControlId} (hk : b.controls[k]? = some c) (depth : Nat) :
    Leads (Otherwise site mesh) b (intake site mesh c) (Update.update site (depth + 1) k mesh) := by
  refine (undisturbed.leads_apply adapts hk _).bind fun d t applied => ?_
  -- the control is still there to remember the decision
  have stays (p : List (Strategy R)) : Stays p (fun _ => True)
      (Update.apply site (fun m => discard (Update.update site depth m mesh)) k mesh) :=
    apply_stays (fun _ _ _ _ => trivial) trivial
      (fun _ _ => (update_stays (fun _ _ _ _ => trivial) depth trivial mesh).discard) mesh
  have planned := Stays.plan_after stays b
  simp only [stateAfter, applied] at planned
  obtain ⟨c', hk'⟩ : ∃ c', t.controls[k]? = some c' := by
    have there := planned ▸ Bench.plan_getElem? hk
    simp only [Bench.plan, List.getElem?_map, Option.map_eq_some_iff] at there
    exact ⟨_, there.choose_spec.1⟩
  rw [ends_bind, Update.remember, ends_bind, Act.ends_control_some hk']
  trivial

end Undisturbed

end

/-! ## What happens later -/

/-- What a caller may ask for. -/
inductive Request where
  | update (depth : Nat) (k : ControlId) (mesh : MeshId)
  | reset (depth : Nat) (k : ControlId)
  | tuneControl (k : ControlId) (s : ControlSetting)
  | append (k member : ControlId)
  | clear (k : ControlId)
  | read (marker : MarkerId)
  | stops (marker : MarkerId)
  | tuneMarker (marker : MarkerId) (s : MarkerSetting)
  | forget (marker : MarkerId)
  | refine (mesh : MeshId) (marks : List Mark) (mode : Mode) (limit : Int)
  | makeMarker (m : Marker Float)
  | makeControl (c : Control Float)

inductive Answer where
  | done
  | yesNo (b : Bool)
  | count (n : Nat)
  | marking (v : Marking Float)

def Request.act (site : Site Float W) : Request → Act Float W Answer
  | .update depth k mesh => do return .yesNo (← Update.update site depth k mesh)
  | .reset depth k => do Update.reset site depth k; return .done
  | .tuneControl k s => do Act.changeControl k fun c => c.tune s; return .done
  | .append k member => do return .count (← Rotation.append k member)
  | .clear k => do Rotation.clear k; return .done
  | .read marker => do return .marking (← Marking.read site marker)
  | .stops marker => do return .yesNo (← Marking.stops site marker)
  | .tuneMarker marker s => do Act.changeMarker marker fun m => m.tune s; return .done
  | .forget marker => do Act.changeMarker marker fun m => .ok m.forget; return .done
  | .refine mesh marks mode limit => do Coarsen.refine site mesh marks mode limit; return .done
  | .makeMarker m => do modify fun b => { b with markers := b.markers ++ [m] }; return .done
  | .makeControl c => do modify fun b => { b with controls := b.controls ++ [c] }; return .done

/-- A request, or a change of the surroundings. -/
inductive Step (W : Type) where
  | request (r : Request)
  | meanwhile (change : W → W)

/-- The outcome of an action, which is not a failure of those who want to know it. -/
def attempt (x : Act R W α) : Act R W (Except Fault α) := fun b => .ok (outcome x b) (stateAfter x b)

/-- The answers to all requests, failures among them. -/
def session (site : Site Float W) : List (Step W) → Act Float W (List (Except Fault Answer))
  | [] => return []
  | .request r :: later => do
    let answer ← attempt (r.act site)
    return answer :: (← session site later)
  | .meanwhile change :: later => do
    modify fun b => { b with world := change b.world }
    session site later

/-- Changes of surroundings that cannot be told apart leave surroundings that cannot. -/
def Step.Even (rel : W → W → Prop) : Step W → Prop
  | .request _ => True
  | .meanwhile change => ∀ w w', rel w w' → rel (change w) (change w')

/-- Whoever goes on from the later bench, once its surroundings cannot be told from what they would be
    otherwise, gets the answers that come from the earlier one, and records and leaves the same. -/
def Unnoticed (site : Site Float W) (b t : Bench Float W) : Prop :=
  ∀ rel, Indistinct site rel → ∀ w w', rel w w' → ∀ later : List (Step W), (∀ s ∈ later, s.Even rel) →
    outcome (session site later) { t with world := w } = outcome (session site later) { b with world := w' } ∧
    Twins rel t.trace b.trace (stateAfter (session site later) { t with world := w })
      (stateAfter (session site later) { b with world := w' })

section

variable {site : Site Float W} {rel : W → W → Prop}

theorem Request.uniform (indistinct : Indistinct site rel) (r : Request) : Uniform rel (r.act site) := by
  cases r with
  | update depth k mesh => exact (indistinct.update depth k mesh).bind fun _ => .pure _
  | reset depth k => exact (indistinct.resets depth k).bind fun _ => .pure _
  | tuneControl k s => exact (Uniform.changeControl k _).bind fun _ => .pure _
  | append k member => exact (Uniform.append k member).bind fun _ => .pure _
  | clear k => exact (Uniform.clear k).bind fun _ => .pure _
  | read marker => exact (indistinct.read marker).bind fun _ => .pure _
  | stops marker => exact (indistinct.stops marker).bind fun _ => .pure _
  | tuneMarker marker s => exact (Uniform.changeMarker marker _).bind fun _ => .pure _
  | forget marker => exact (Uniform.changeMarker marker _).bind fun _ => .pure _
  | refine mesh marks mode limit => exact (indistinct.refineMesh mesh marks mode limit).bind fun _ => .pure _
  | makeMarker m =>
    exact .bind (.modified fun h => ⟨h.world, congrArg (· ++ [m]) h.markers, h.controls, h.events⟩) fun _ => .pure _
  | makeControl c =>
    exact .bind (.modified fun h => ⟨h.world, h.markers, congrArg (· ++ [c]) h.controls, h.events⟩) fun _ => .pure _

theorem uniform_attempt {x : Act R W α} (hx : Uniform rel x) : Uniform rel (attempt x) := by
  intro past past' b b' h
  obtain ⟨same, twins⟩ := hx past past' b b' h
  exact ⟨congrArg Except.ok same, twins⟩

theorem session_uniform (indistinct : Indistinct site rel) {later : List (Step W)}
    (even : ∀ s ∈ later, s.Even rel) : Uniform rel (session site later) := by
  induction later with
  | nil => exact .pure _
  | cons s later ih =>
    obtain ⟨first, rest⟩ := List.forall_mem_cons.mp even
    cases s with
    | request r => exact (uniform_attempt (r.uniform indistinct)).bind fun _ => (ih rest).bind fun _ => .pure _
    | meanwhile change =>
      exact (Uniform.modified fun h => h.elsewhere (first _ _ h.world)).bind fun _ => ih rest

theorem Untouched.unnoticed {b t : Bench Float W} (h : Untouched site b t) : Unnoticed site b t :=
  fun _ indistinct _ _ related _ even =>
    session_uniform indistinct even _ _ _ _ ⟨related, h.markers, h.controls, [], rfl, rfl⟩

end

/-- An update that fails over what it is given has called no mesh and changed nothing, and nothing that
    happens later tells that it was made. An update fails over what it is given, or because a method
    of the mesh fails or a total is no real number. -/
theorem failed_update_changes_nothing {site : Site Float W} {mesh : MeshId} {b : Bench Float W} {k : ControlId}
    {c : Control Float} (hk : b.controls[k]? = some c) (adapts : Adapts c.strategy)
    (undisturbed : Undisturbed site mesh c b) (depth : Nat) :
    (∀ f t, intake site mesh c b = .error f t →
      Update.update site (depth + 1) k mesh b = .error f t ∧ Untouched site b t ∧ Unnoticed site b t) ∧
    (∀ f t, Update.update site (depth + 1) k mesh b = .error f t →
      intake site mesh c b = .error f t ∨ (∃ u, intake site mesh c b = .ok ⟨⟩ u) ∧ Otherwise site mesh f t) := by
  have leads := undisturbed.leads_update adapts hk depth
  constructor
  · intro f t fails
    have untouched : Untouched site b t := (intake_fails fun m hm => (undisturbed.marker m hm).1).of_error fails
    exact ⟨leads.fails f t fails, untouched, untouched.unnoticed⟩
  · intro f t fails
    cases hintake : intake site mesh c b with
    | error f' t' =>
      rw [leads.fails f' t' hintake] at fails
      cases fails
      exact .inl rfl
    | ok a u => exact .inr ⟨⟨u, rfl⟩, (leads.goesOn u hintake).of_error fails⟩

/-! ## A vector that is outgrown -/

/-- An estimator that delivers what it was given. -/
def given : Stand.Company Float (List Float) where
  errors _ _ := get
  flags _ _ := pure none
  marking _ _ := throw .missing
  decide _ _ := pure .idle
  reset _ _ := pure ⟨⟩

/-- A forest of two roots, and a control that refines what is marked. -/
def grove (errors : List Float) : Bench Float (Stand (List Float)) :=
  ⟨⟨Forest.ofRoots 2 0, true, false, errors⟩, [Marker.new 0 (.threshold 0 Settings.default)],
    [Control.new (Control.refining 0)], []⟩

/-- The forest has been refined once and has three elements, but there are two errors still. -/
def outgrown : Bench Float (Stand (List Float)) :=
  stateAfter (Update.update (Stand.site given) 1 0 0) (grove [0, 3])

/-- There is an error for each of the three elements. -/
def repaired : Stand (List Float) := { outgrown.world with around := [0, 1, 4] }

set_option maxRecDepth 20000 in
theorem undisturbed_outgrown (c : Control Float) : Undisturbed (Stand.site given) 0 c outgrown where
  serial _ := rfl
  marker m hm := by
    refine ⟨fun _ => rfl, 0, Settings.default, ?_⟩
    obtain ⟨k, _, _, -, hk⟩ := hm
    have sources : outgrown.markers.map Marker.source = [.threshold 0 Settings.default] := rfl
    have mem : m.source ∈ outgrown.markers.map Marker.source := List.mem_map_of_mem (List.mem_of_getElem? hk)
    rw [sources] at mem
    exact List.mem_singleton.mp mem
  errors _ _ _ := fun _ => rfl
  flags _ _ _ := fun _ => rfl

set_option maxRecDepth 20000 in
theorem failed_update_changes_nothing_outgrown :
    ∃ t, Update.update (Stand.site given) 1 0 0 outgrown =
        .error (.wrongSize .errors 2 (.int 3) "ThresholdMarker") t ∧
      Untouched (Stand.site given) outgrown t ∧
      outcome (session (Stand.site given) [.request (.update 1 0 0)]) { t with world := repaired } =
        .ok [.ok (.yesNo true)] := by
  obtain ⟨same, -⟩ := failed_update_changes_nothing (k := 0)
    (c := ⟨.proceed (some .refine), Control.refining 0⟩) (b := outgrown) rfl trivial (undisturbed_outgrown _) 0
  obtain ⟨fails, untouched, unnoticed⟩ := same (.wrongSize .errors 2 (.int 3) "ThresholdMarker") _ rfl
  have later := (unnoticed Eq (indistinct_eq _) repaired repaired rfl [.request (.update 1 0 0)]
    fun s hs => List.mem_singleton.mp hs ▸ trivial).1
  exact ⟨_, fails, untouched, later.trans rfl⟩

end Intake

end Regrid
