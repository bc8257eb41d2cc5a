/-
  Regrid.Proofs.Mimics — two benches on which the same is done.

  Two benches are alike if they have the same markers, in surroundings that cannot be told
  apart, and what is done to both leaves them alike (`Faithful`). What a relation of this kind
  says of controls and of the past is left open. An action mimics another one if, on benches
  that are alike, both return or fail alike and leave benches that are alike (`Mimics`).

  Surroundings cannot be told apart if they look the same and answer every question alike,
  and stay so over the answer (`Indistinct`); each is such to itself.

  Passes, reads, and whatever a control without members does to a mesh mimic themselves:
  controls have no part in them. Where the controls of a set are found on the second bench
  under other numbers (`Renumbers`), updates and resets of them mimic those of the first: a
  number is only ever used to find a control, and to tell who pays a visit to whom.
-/

import Regrid.Control.Update
import Regrid.Proofs.Passes

namespace Regrid

variable {R W α β : Type}

/-! ## Surroundings -/

/-- Asked in either of two worlds that are related, the question is answered alike and leaves them related. -/
def Even (rel : W → W → Prop) (q : EStateM Fault W α) : Prop :=
  ∀ w w', rel w w' → outcome q w = outcome q w' ∧ rel (stateAfter q w) (stateAfter q w')

/-- Related worlds cannot be told apart. -/
structure Indistinct (site : Site R W) (rel : W → W → Prop) : Prop where
  version : ∀ mesh w w', rel w w' → site.version mesh w = site.version mesh w'
  elements : ∀ mesh w w', rel w w' → site.elements mesh w = site.elements mesh w'
  isNonconforming : ∀ mesh w w', rel w w' → site.isNonconforming mesh w = site.isNonconforming mesh w'
  isDistributed : ∀ mesh w w', rel w w' → site.isDistributed mesh w = site.isDistributed mesh w'
  isConnected : ∀ mesh w w', rel w w' → site.isConnected mesh w = site.isConnected mesh w'
  groups : ∀ mesh w w', rel w w' → site.groups mesh w = site.groups mesh w'
  allreduce : ∀ mesh op own, Even rel (site.allreduce mesh op own)
  refine : ∀ mesh marks mode limit, Even rel (site.refine mesh marks mode limit)
  derefine : ∀ mesh errors threshold limit, Even rel (site.derefine mesh errors threshold limit)
  violations : ∀ mesh limit, Even rel (site.violations mesh limit)
  rebalance : ∀ mesh, Even rel (site.rebalance mesh)
  errors : ∀ estimator, Even rel (site.errors estimator)
  flags : ∀ estimator, Even rel (site.flags estimator)
  marking : ∀ f, Even rel (site.marking f)
  decide : ∀ f, Even rel (site.decide f)
  reset : ∀ f, Even rel (site.reset f)

theorem even_eq (q : EStateM Fault W α) : Even Eq q := by
  rintro w _ rfl
  exact ⟨rfl, rfl⟩

/-- A world cannot be told from itself. -/
theorem indistinct_eq (site : Site R W) : Indistinct site Eq where
  version mesh _ _ h := congrArg (site.version mesh) h
  elements mesh _ _ h := congrArg (site.elements mesh) h
  isNonconforming mesh _ _ h := congrArg (site.isNonconforming mesh) h
  isDistributed mesh _ _ h := congrArg (site.isDistributed mesh) h
  isConnected mesh _ _ h := congrArg (site.isConnected mesh) h
  groups mesh _ _ h := congrArg (site.groups mesh) h
  allreduce _ _ _ := even_eq _
  refine _ _ _ _ := even_eq _
  derefine _ _ _ _ := even_eq _
  violations _ _ := even_eq _
  rebalance _ := even_eq _
  errors _ := even_eq _
  flags _ := even_eq _
  marking _ := even_eq _
  decide _ := even_eq _
  reset _ := even_eq _

/-! ## Benches that are alike -/

/-- Benches that are related have the same markers in related surroundings, and stay related when the same
    is done to both. -/
structure Likeness (rel : W → W → Prop) (r : Bench R W → Bench R W → Prop) : Prop where
  world : ∀ {b b'}, r b b' → rel b.world b'.world
  markers : ∀ {b b'}, r b b' → b.markers = b'.markers
  elsewhere : ∀ {b b' w w'}, r b b' → rel w w' → r { b with world := w } { b' with world := w' }
  setMarker : ∀ {b b'} k m, r b b' → r (b.setMarker k m) (b'.setMarker k m)
  record : ∀ {b b'} e, e.isVisit = false → r b b' → r (b.record e) (b'.record e)

/-- And their surroundings cannot be told apart. -/
structure Faithful (site : Site R W) (rel : W → W → Prop) (r : Bench R W → Bench R W → Prop) : Prop
    extends Indistinct site rel, Likeness rel r

/-- On related benches the second action does what the first one does. -/
def Mimics (r : Bench R W → Bench R W → Prop) (x y : Act R W α) : Prop :=
  ∀ b b', r b b' → outcome x b = outcome y b' ∧ r (stateAfter x b) (stateAfter y b')

namespace Mimics

variable {r : Bench R W → Bench R W → Prop}

theorem pure (a : α) : Mimics r (Pure.pure a : Act R W α) (Pure.pure a) := fun _ _ h => ⟨rfl, h⟩

theorem throw (f : Fault) : Mimics r (MonadExcept.throw f : Act R W α) (MonadExcept.throw f) :=
  fun _ _ h => ⟨rfl, h⟩

theorem bind {x x' : Act R W α} {y y' : α → Act R W β} (hx : Mimics r x x') (hy : ∀ a, Mimics r (y a) (y' a)) :
    Mimics r (x >>= y) (x' >>= y') := by
  intro b b' h
  obtain ⟨same, alike⟩ := hx b b' h
  cases hb : x b with
  | ok a t =>
    cases hb' : x' b' with
    | ok a' t' =>
      simp only [outcome, stateAfter, hb, hb'] at same alike
      obtain rfl := Except.ok.inj same
      simpa only [outcome, stateAfter, bind_of_ok hb, bind_of_ok hb'] using hy a t t' alike
    | error f' t' =>
      simp only [outcome, hb, hb'] at same
      cases same
  | error f t =>
    cases hb' : x' b' with
    | ok a' t' =>
      simp only [outcome, hb, hb'] at same
      cases same
    | error f' t' =>
      simp only [outcome, stateAfter, hb, hb'] at same alike
      obtain rfl := Except.error.inj same
      simpa only [outcome, stateAfter, bind_of_error hb, bind_of_error hb'] using ⟨trivial, alike⟩

theorem ite {c : Prop} [Decidable c] {x x' y y' : Act R W α} (hx : Mimics r x x') (hy : Mimics r y y') :
    Mimics r (if c then x else y) (if c then x' else y') := by
  split
  · exact hx
  · exact hy

theorem discard {x x' : Act R W α} (hx : Mimics r x x') : Mimics r (discard x) (Functor.discard x') := by
  rw [discard_eq, discard_eq]
  exact hx.bind fun _ => .pure _

/-- The second goes through the list under other names. -/
theorem forM {γ : Type} {f : β → Act R W PUnit} {f' : γ → Act R W PUnit} {name : β → γ} (xs : List β)
    (hf : ∀ a ∈ xs, Mimics r (f a) (f' (name a))) : Mimics r (xs.forM f) ((xs.map name).forM f') := by
  induction xs with
  | nil => exact .pure _
  | cons a as ih =>
    obtain ⟨first, rest⟩ := List.forall_mem_cons.mp hf
    show Mimics r (f a >>= fun _ => as.forM f) (f' (name a) >>= fun _ => (as.map name).forM f')
    exact first.bind fun _ => ih rest

/-- Changes of the benches that leave them related. -/
theorem modified {f f' : Bench R W → Bench R W} (h : ∀ {b b'}, r b b' → r (f b) (f' b')) :
    Mimics r (modify f : Act R W PUnit) (modify f') := fun _ _ hb => ⟨rfl, h hb⟩

end Mimics

/-! ## Actions without controls -/

namespace Likeness

variable {rel : W → W → Prop} {r : Bench R W → Bench R W → Prop} (h : Likeness rel r)
include h

theorem noteFault {b b' : Bench R W} (alike : r b b') (f : Fault) : r (b.noteFault f) (b'.noteFault f) := by
  unfold Bench.noteFault
  cases f.report? with
  | none => exact alike
  | some _ => exact h.record _ rfl alike

theorem plain {e : Event R} (he : e.isVisit = false) : Mimics r (Act.record e : Act R W Unit) (Act.record e) :=
  .modified (h.record e he)

theorem note (n : Note R) : Mimics r (Act.note n : Act R W Unit) (Act.note n) := h.plain rfl

theorem call (mesh : MeshId) (c : Call R) : Mimics r (Act.call mesh c : Act R W Unit) (Act.call mesh c) := h.plain rfl

theorem check (v : Except Fault α) : Mimics r (Act.check v : Act R W α) (Act.check v) :=
  match v with
  | .ok a => .pure a
  | .error f => fun _ _ alike => ⟨rfl, h.noteFault alike f⟩

theorem look {g : W → α} (hg : ∀ w w', rel w w' → g w = g w') :
    Mimics r (Act.look g : Act R W α) (Act.look g) :=
  fun _ _ alike => ⟨congrArg Except.ok (hg _ _ (h.world alike)), alike⟩

theorem ask {q : EStateM Fault W α} (hq : Even rel q) : Mimics r (Act.ask q : Act R W α) (Act.ask q) := by
  intro b b' alike
  obtain ⟨same, related⟩ := hq _ _ (h.world alike)
  unfold outcome at same
  unfold stateAfter at related
  unfold outcome stateAfter Act.ask
  cases hw : q b.world with
  | ok a w =>
    cases hw' : q b'.world with
    | ok a' w' =>
      rw [hw, hw'] at same related
      exact ⟨same, h.elsewhere alike related⟩
    | error f' w' =>
      rw [hw, hw'] at same
      cases same
  | error f w =>
    cases hw' : q b'.world with
    | ok a' w' =>
      rw [hw, hw'] at same
      cases same
    | error f' w' =>
      rw [hw, hw'] at same related
      obtain rfl := Except.error.inj same
      exact ⟨rfl, h.noteFault (h.elsewhere alike related) f⟩

theorem marker (k : MarkerId) : Mimics r (Act.marker k : Act R W (Marker R)) (Act.marker k) := by
  intro b b' alike
  cases hk : b.markers[k]? with
  | none =>
    have hk' := h.markers alike ▸ hk
    simpa only [outcome, stateAfter, Act.marker_missing hk, Act.marker_missing hk'] using ⟨trivial, alike⟩
  | some m =>
    have hk' := h.markers alike ▸ hk
    simpa only [outcome, stateAfter, Act.marker_apply hk, Act.marker_apply hk'] using ⟨trivial, alike⟩

theorem putMarker (k : MarkerId) (m : Marker R) : Mimics r (Act.putMarker k m : Act R W Unit) (Act.putMarker k m) :=
  .modified (h.setMarker k m)

end Likeness

/-! ## Reads -/

namespace Faithful

variable {site : Site R W} {rel : W → W → Prop} {r : Bench R W → Bench R W → Prop} (h : Faithful site rel r)
include h

theorem reduce (mesh : MeshId) (op : Reduction) (own : Quantity R) :
    Mimics r (Collective.reduce site mesh op own) (Collective.reduce site mesh op own) :=
  (h.look (h.isConnected mesh)).bind fun _ => .ite
    ((h.call _ _).bind fun _ => (h.ask (h.allreduce _ _ _)).bind fun _ => (h.note _).bind fun _ => .pure _)
    (.pure _)

section

variable [Narrow R]

theorem sum (mesh : MeshId) (own : Number R) :
    Mimics r (Collective.sum site mesh own) (Collective.sum site mesh own) :=
  (h.reduce _ _ _).bind fun _ => .pure _

theorem max (mesh : MeshId) (own : Number R) :
    Mimics r (Collective.max site mesh own) (Collective.max site mesh own) :=
  (h.reduce _ _ _).bind fun _ => .pure _

theorem count (mesh : MeshId) (own : Nat) :
    Mimics r (Collective.count site mesh own) (Collective.count site mesh own) := h.sum _ _

end

theorem askErrors (estimator : EstimatorId) :
    Mimics r (Marking.askErrors site estimator) (Marking.askErrors site estimator) :=
  (h.plain rfl).bind fun _ => h.ask (h.errors _)

theorem readFlags (estimator : EstimatorId) (elements : Int) (context : String) :
    Mimics r (Marking.readFlags site estimator elements context)
      (Marking.readFlags site estimator elements context) :=
  (h.ask (h.flags _)).bind fun flags =>
    match flags with
    | none => .pure _
    | some _ => (h.check _).bind fun _ => .pure _

variable [Arith R]

theorem scaled (mesh : MeshId) (errors : List R) (m p : R) (rootOf : R → Except Fault (Option R)) :
    Mimics r (Norm.scaled site mesh errors m p rootOf) (Norm.scaled site mesh errors m p rootOf) :=
  .ite (.pure _) ((h.sum _ _).bind fun _ => (h.check _).bind fun _ => h.check _)

theorem total (mesh : MeshId) (errors : List R) (exponent : Exponent R) :
    Mimics r (Norm.total site mesh errors exponent) (Norm.total site mesh errors exponent) :=
  ((h.max _ _).bind fun _ => h.check _).bind fun _ =>
    match exponent with
    | .infinite => .pure _
    | .finite _ => h.scaled _ _ _ _ _

theorem pass (mesh : MeshId) (estimator : EstimatorId) (s : Settings R) :
    Mimics r (Marking.pass site mesh estimator s) (Marking.pass site mesh estimator s) :=
  (h.look (h.elements mesh)).bind fun _ => (h.askErrors _).bind fun _ =>
    (h.check _).bind fun _ => (h.sum _ _).bind fun _ => (h.check _).bind fun _ =>
    (h.total _ _ _).bind fun error => (h.check _).bind fun _ => (h.readFlags _ _ _).bind fun _ =>
    (h.count _ _).bind fun _ => (h.check _).bind fun _ =>
      match error with
      | none => .pure _
      | some _ => (h.note _).bind fun _ => .pure _

theorem run (k : MarkerId) : Mimics r (Marking.run site k) (Marking.run site k) := by
  have counted (v : Marking R) : Mimics r (do
      let old ← Act.marker k
      Act.putMarker k { old with tally := old.tally + v.marked }
      return v : Act R W (Marking R)) (do
      let old ← Act.marker k
      Act.putMarker k { old with tally := old.tally + v.marked }
      return v) :=
    (h.marker k).bind fun _ => (h.putMarker _ _).bind fun _ => .pure _
  refine (h.marker k).bind fun m => ?_
  cases m.source with
  | threshold e s => exact (h.pass _ _ _).bind counted
  | foreign n l => exact (h.ask (h.marking _)).bind counted

theorem rebuild (k : MarkerId) (m : Marker R) (live : Int) :
    Mimics r (Marking.rebuild site k m live) (Marking.rebuild site k m live) := by
  refine (h.run k).bind fun v => .bind (.modified fun {b b'} alike => ?_) fun _ => .pure _
  have same : b.markers[k]?.getD m = b'.markers[k]?.getD m := by rw [h.markers alike]
  unfold Marking.keepMarking
  rw [same]
  exact h.record _ rfl (h.setMarker k _ alike)

theorem read (k : MarkerId) : Mimics r (Marking.read site k) (Marking.read site k) := by
  intro b b' alike
  cases hk : b.markers[k]? with
  | none =>
    have hk' := h.markers alike ▸ hk
    have missing {b : Bench R W} (hb : b.markers[k]? = none) : Marking.read site k b = .error .missing b := by
      rw [Marking.read, bind_of_error (Act.marker_missing hb)]
    simpa only [outcome, stateAfter, missing hk, missing hk'] using ⟨trivial, alike⟩
  | some m =>
    have hk' := h.markers alike ▸ hk
    have live := h.version m.mesh _ _ (h.world alike)
    simp only [outcome, stateAfter, Marking.read_apply site hk, Marking.read_apply site hk', live]
    cases m.cache.probe (site.version m.mesh b'.world) with
    | answer v => exact ⟨rfl, alike⟩
    | refuse => exact ⟨rfl, h.noteFault alike _⟩
    | build => exact h.rebuild k m _ b b' alike

theorem stops (k : MarkerId) : Mimics r (Marking.stops site k) (Marking.stops site k) :=
  (h.marker k).bind fun m =>
    match m.source with
    | .foreign _ _ => .pure _
    | .threshold _ _ => (h.read k).bind fun _ => h.check _

/-! ## Updates of controls without members -/

omit [Arith R] in
theorem refineMesh (mesh : MeshId) (marks : List Mark) (mode : Mode) (limit : Int) :
    Mimics r (Coarsen.refine site mesh marks mode limit) (Coarsen.refine site mesh marks mode limit) :=
  (h.call _ _).bind fun _ => h.ask (h.refine _ _ _ _)

omit [Arith R] in
theorem violationsOf (mesh : MeshId) (limit : Int) :
    Mimics r (Coarsen.violations site mesh limit) (Coarsen.violations site mesh limit) :=
  (h.ask (h.violations _ _)).bind fun _ => (h.call _ _).bind fun _ => .pure _

theorem isBroken (mesh : MeshId) (limit : Int) :
    Mimics r (Coarsen.isBroken site mesh limit) (Coarsen.isBroken site mesh limit) :=
  .ite (.pure _) ((h.violationsOf _ _).bind fun _ => (h.count _ _).bind fun _ => .pure _)

theorem coarsenPass (how : Coarsening R) (label : String) (mesh : MeshId) (limit : Int) :
    Mimics r (Coarsen.pass site how label mesh limit) (Coarsen.pass site how label mesh limit) :=
  (h.askErrors _).bind fun _ => (h.look (h.elements mesh)).bind fun _ => (h.check _).bind fun _ =>
    (h.look (h.groups mesh)).bind fun _ => (h.check _).bind fun _ => (h.count _ _).bind fun _ =>
    .ite ((h.note _).bind fun _ => .pure _)
      ((h.call _ _).bind fun _ => (h.ask (h.derefine _ _ _ _)).bind fun _ =>
        (h.max _ _).bind fun _ => .ite (.pure _) ((h.note _).bind fun _ => .pure _))

theorem coarsen (how : Coarsening R) (label : String) (mesh : MeshId) :
    Mimics r (Coarsen.apply site how label mesh) (Coarsen.apply site how label mesh) :=
  (h.look (h.isNonconforming mesh)).bind fun _ => .ite (.pure _)
    ((h.coarsenPass _ _ _ _).bind fun _ => .ite (.pure _) (.pure _))

theorem coarsenLimited (how : Coarsening R) (stage : Stage) (label : String) (mesh : MeshId) :
    Mimics r (Coarsen.applyLimited site how stage label mesh) (Coarsen.applyLimited site how stage label mesh) :=
  (h.look (h.isNonconforming mesh)).bind fun _ => .ite (.pure _) <|
    match stage with
    | .coarsen => (h.coarsenPass _ _ _ _).bind fun _ => .ite (.pure _)
        ((h.isBroken _ _).bind fun _ => .ite (.pure _) (.pure _))
    | .limit => (h.violationsOf _ _).bind fun _ => (h.refineMesh _ _ _ _).bind fun _ =>
      (h.note _).bind fun _ => (h.isBroken _ _).bind fun _ => .ite (.pure _) (.pure _)

theorem applyRefine (marker : MarkerId) (mode : Mode) (limit : Int) (mesh : MeshId) :
    Mimics r (Update.applyRefine site marker mode limit mesh) (Update.applyRefine site marker mode limit mesh) :=
  (h.read _).bind fun _ => (h.stops _).bind fun _ => .ite ((h.note _).bind fun _ => .pure _)
    ((h.count _ _).bind fun _ => .ite ((h.note _).bind fun _ => .pure _)
      ((h.refineMesh _ _ _ _).bind fun _ => (h.note _).bind fun _ => .pure _))

omit [Arith R] in
theorem applyRebalance (mesh : MeshId) :
    Mimics r (Update.applyRebalance site mesh) (Update.applyRebalance site mesh) :=
  (h.look (h.isDistributed mesh)).bind fun _ => .ite (.pure _)
    ((h.call _ _).bind fun _ => (h.ask (h.rebalance _)).bind fun _ => (h.note _).bind fun _ => .pure _)

end Faithful

/-! ## Controls under other numbers -/

/-- The strategy with its members under other numbers. -/
def Strategy.rename (number : ControlId → ControlId) : Strategy R → Strategy R
  | .rotation cursor members => .rotation cursor (members.map number)
  | s => s

def Control.rename (number : ControlId → ControlId) (c : Control R) : Control R :=
  { c with strategy := c.strategy.rename number }

/-- The visit with both controls under other numbers; no other event names a control. -/
def Event.rename (number : ControlId → ControlId) : Event R → Event R
  | .visit k i m => .visit (number k) i (number m)
  | e => e

section

variable {number : ControlId → ControlId} (s : Strategy R) (c : Control R)

theorem Event.rename_of_isVisit (number : ControlId → ControlId) {e : Event R} (h : e.isVisit = false) :
    e.rename number = e := by
  cases e with
  | visit _ _ _ => cases h
  | call _ _ | estimate _ | note _ => rfl

@[simp] theorem Strategy.rename_id : s.rename id = s := by
  cases s <;> simp [Strategy.rename]

@[simp] theorem Control.rename_id : c.rename id = c := by
  simp [Control.rename]

@[simp] theorem Strategy.rename_label : (s.rename number).label = s.label := by
  cases s <;> rfl

@[simp] theorem Strategy.rename_members : (s.rename number).members = s.members.map number := by
  cases s <;> rfl

@[simp] theorem Strategy.rename_cursor : Rotation.cursorOf (s.rename number) = Rotation.cursorOf s := by
  cases s <;> rfl

@[simp] theorem Strategy.rename_withCursor (cursor : Int) :
    Rotation.withCursor cursor (s.rename number) = (Rotation.withCursor cursor s).rename number := by
  cases s <;> rfl

@[simp] theorem Strategy.members_withCursor (cursor : Int) :
    (Rotation.withCursor cursor s).members = s.members := by
  cases s <;> rfl

end

/-- The second of related benches has the controls of the set under other numbers; their members are in
    the set, and a visit is paid under these numbers. -/
structure Renumbers (number : ControlId → ControlId) (S : ControlId → Prop) (r : Bench R W → Bench R W → Prop) :
    Prop where
  control : ∀ {b b' k}, r b b' → S k → b'.controls[number k]? = b.controls[k]?.map (Control.rename number)
  member : ∀ {b b' k c m}, r b b' → S k → b.controls[k]? = some c → m ∈ c.strategy.members → S m
  setControl : ∀ {b b' k c}, r b b' → S k → (∀ m ∈ c.strategy.members, S m) →
    r (b.setControl k c) (b'.setControl (number k) (c.rename number))
  visit : ∀ {b b' k m} i, r b b' → S k → S m →
    r (b.record (.visit k i m)) (b'.record (.visit (number k) i (number m)))

namespace Renumbers

variable {number : ControlId → ControlId} {S : ControlId → Prop} {r : Bench R W → Bench R W → Prop}
    (names : Renumbers number S r) {k : ControlId} (hk : S k)
include names hk

/-- What follows a look at a control of the set may rely on its members being in the set. -/
theorem control_bind {y y' : Control R → Act R W α}
    (hy : ∀ c, (∀ m ∈ c.strategy.members, S m) → Mimics r (y c) (y' (c.rename number))) :
    Mimics r (Act.control k >>= y) (Act.control (number k) >>= y') := by
  intro b b' alike
  have there := names.control alike hk
  cases hc : b.controls[k]? with
  | none =>
    rw [hc, Option.map_none] at there
    simpa only [outcome, stateAfter, bind_of_error (Act.control_missing hc), bind_of_error (Act.control_missing there)]
      using ⟨trivial, alike⟩
  | some c =>
    rw [hc, Option.map_some] at there
    simpa only [outcome, stateAfter, bind_of_ok (Act.control_apply hc), bind_of_ok (Act.control_apply there)]
      using hy c (fun m hm => names.member alike hk hc hm) b b' alike

theorem putControl {c : Control R} (hc : ∀ m ∈ c.strategy.members, S m) :
    Mimics r (Act.putControl k c : Act R W Unit) (Act.putControl (number k) (c.rename number)) :=
  .modified fun alike => names.setControl alike hk hc

theorem remember (d : Decision) :
    Mimics r (Update.remember k d : Act R W Unit) (Update.remember (number k) d) :=
  names.control_bind hk fun c hc => names.putControl hk (c := { c with last := d }) hc

theorem moveCursor (f : Int → Int) :
    Mimics r (Rotation.moveCursor k f : Act R W Int) (Rotation.moveCursor (number k) f) := by
  refine names.control_bind hk fun c hc => ?_
  have moved := names.putControl hk
    (c := { c with strategy := Rotation.withCursor (f (Rotation.cursorOf c.strategy)) c.strategy }) (by simpa using hc)
  have cursor : Rotation.cursorOf (c.rename number).strategy = Rotation.cursorOf c.strategy := by simp [Control.rename]
  simp only [cursor]
  refine .bind ?_ fun _ => .pure _
  simpa [Control.rename] using moved

end Renumbers

/-! ## Updates and resets of all controls -/

namespace Faithful

variable {site : Site R W} {rel : W → W → Prop} {r : Bench R W → Bench R W → Prop} (h : Faithful site rel r)
    {number : ControlId → ControlId} {S : ControlId → Prop} (names : Renumbers number S r)
include h names

theorem turn {visit visit' : ControlId → Act R W Unit} (hv : ∀ m, S m → Mimics r (visit m) (visit' (number m)))
    {k : ControlId} (hk : S k) (size turns : Nat) :
    Mimics r (Rotation.turn visit k size turns) (Rotation.turn visit' (number k) size turns) := by
  induction turns with
  | zero => exact .pure _
  | succ turns ih =>
    refine (names.moveCursor hk _).bind fun cursor => names.control_bind hk fun c hc => ?_
    simp only [Control.rename, Strategy.rename_members, List.getElem?_map]
    cases hm : c.strategy.members[cursor.toNat]? with
    | none => exact .throw _
    | some member =>
      have inside : S member := hc member (List.mem_of_getElem? hm)
      refine .bind (.modified fun alike => names.visit _ alike hk inside) fun _ => (hv member inside).bind fun _ => ?_
      refine names.control_bind inside fun c' _ => ?_
      simp only [Control.rename]
      refine .ite ih (names.control_bind hk fun c'' _ => ?_)
      simp only [Control.rename, Strategy.rename_cursor, Strategy.rename_label]
      exact (h.note _).bind fun _ => .ite ((names.moveCursor hk _).discard.bind fun _ => .pure _) (.pure _)

variable [Arith R]

theorem apply {visit visit' : ControlId → Act R W Unit} (hv : ∀ m, S m → Mimics r (visit m) (visit' (number m)))
    {k : ControlId} (hk : S k) (mesh : MeshId) :
    Mimics r (Update.apply site visit k mesh) (Update.apply site visit' (number k) mesh) := by
  refine names.control_bind hk fun c hc => ?_
  obtain ⟨last, s⟩ := c
  cases s with
  | refine marker mode limit => exact h.applyRefine _ _ _ _
  | coarsen how => exact h.coarsen _ _ _
  | coarsenLimited how stage =>
    refine (h.coarsenLimited _ _ _ _).bind fun result => ?_
    exact (names.putControl hk (c := ⟨last, .coarsenLimited how result.2⟩) nofun).bind fun _ => .pure _
  | rebalance => exact h.applyRebalance _
  | rotation cursor members =>
    simp only [Control.rename, Strategy.rename, List.length_map]
    exact h.turn names hv hk _ _
  | foreign f label => exact h.ask (h.decide f)

/-- Updates of a control mimic those of the control that has its number. -/
theorem update (depth : Nat) {k : ControlId} (hk : S k) (mesh : MeshId) :
    Mimics r (Update.update site depth k mesh) (Update.update site depth (number k) mesh) := by
  induction depth generalizing k with
  | zero => exact .throw _
  | succ depth ih =>
    exact (h.apply names (fun m hm => (ih hm).discard) hk mesh).bind fun _ =>
      (names.remember hk _).bind fun _ => .pure _

omit [Arith R] in
theorem resets (depth : Nat) {k : ControlId} (hk : S k) :
    Mimics r (Update.reset site depth k) (Update.reset site depth (number k)) := by
  induction depth generalizing k with
  | zero => exact .throw _
  | succ depth ih =>
    refine (names.remember hk _).bind fun _ => names.control_bind hk fun c hc => ?_
    obtain ⟨last, s⟩ := c
    cases s with
    | rotation cursor members =>
      exact (Mimics.forM members fun m hm => ih (hc m hm)).bind fun _ => (names.moveCursor hk _).discard
    | foreign f label => exact h.ask (h.reset f)
    | refine _ _ _ | coarsen _ | coarsenLimited _ _ | rebalance => exact names.putControl hk nofun

end Faithful

end Regrid
