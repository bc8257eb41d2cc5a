/-
  Regrid.Proofs.Handover — no stale position reaches a mesh.

  A refinement control reads its marker, judges the marking, counts the marks over all
  workers and hands the marks to the mesh. Nobody checks the positions again. They are
  those of elements of the mesh because of four things: a pass marks only elements that
  are there; the marking is kept with the version of the pass; the version rises when the
  elements change, so a marking that is still answered belongs to the elements of now; and
  nothing between the read and the handover touches the mesh.

  Around the control anything may go on: updates and resets of it and of other controls,
  sequences that hold it among them, reads, settings and resets of markers, refinements by
  the caller, other estimates. Each of these may fail. Of the surroundings it is assumed
  that estimators and communicators leave the mesh alone, and that nobody brings its
  version down or changes its elements without raising it (`Steady`).

  `updateVia` is an update in which the handover of control `k` is left open. What is proved
  (`hands_over_soundly`): put anything in its place that does what the mesh does with every
  list that is sound, and no update can be told from the real one. So the control never
  hands over a list that is not sound. A sound list (`Sound`) is that of a pass which ran at
  the present version, and since which the mesh was asked for no refinement that raises the
  version; hence where every refinement does, no pass serves two of them.
-/

import Regrid.Proofs.Limiting
import Regrid.Proofs.Passes
import Regrid.Proofs.Same

namespace Regrid.Handover

variable {W α β : Type}

/-! ## What is assumed of the surroundings -/

section

variable (site : Site Float W) (mesh : MeshId)

/-- How old the mesh is and how many elements it has. -/
def look (w : W) : Int × Int := (site.version mesh w, site.elements mesh w)

/-- The version does not go down, and rises where the elements change. -/
structure Lawful (w w' : W) : Prop where
  version : site.version mesh w ≤ site.version mesh w'
  elements : site.version mesh w' = site.version mesh w → site.elements mesh w' = site.elements mesh w

instance : Lasting (Lawful site mesh) where
  refl _ := ⟨Int.le_refl _, fun _ => rfl⟩
  trans {s t u} h h' := by
    have hle := h.version
    have hle' := h'.version
    refine ⟨by omega, fun same => ?_⟩
    rw [h'.elements (by omega), h.elements (by omega)]

/-- Estimators and communicators leave the mesh alone, and everybody keeps to the law. -/
structure Steady : Prop where
  errors : ∀ e, Keeps (Unseen (look site mesh)) (site.errors e)
  flags : ∀ e, Keeps (Unseen (look site mesh)) (site.flags e)
  allreduce : ∀ m op own, Keeps (Unseen (look site mesh)) (site.allreduce m op own)
  refine : ∀ m marks mode limit, Keeps (Lawful site mesh) (site.refine m marks mode limit)
  derefine : ∀ m errors threshold limit, Keeps (Lawful site mesh) (site.derefine m errors threshold limit)
  violations : ∀ m limit, Keeps (Lawful site mesh) (site.violations m limit)
  rebalance : ∀ m, Keeps (Lawful site mesh) (site.rebalance m)
  marking : ∀ f, Keeps (Lawful site mesh) (site.marking f)
  decide : ∀ f, Keeps (Lawful site mesh) (site.decide f)
  reset : ∀ f, Keeps (Lawful site mesh) (site.reset f)

/-- The refinement raises the version whenever it is asked for. -/
def Raises (marks : List Mark) (mode : Mode) (limit : Int) : Prop :=
  ∀ w, site.version mesh w < site.version mesh (stateAfter (site.refine mesh marks mode limit) w)

/-- From `b` to `t` the mesh was asked for no refinement that raises the version. -/
def Unrefined (b t : Bench Float W) : Prop :=
  ∃ later, t.trace = later ++ b.trace ∧ ∀ marks mode limit,
    Event.call mesh (.refine marks mode limit) ∈ later → ¬Raises site mesh marks mode limit

instance : Lasting (Unrefined site mesh) where
  refl _ := ⟨[], rfl, nofun⟩
  trans {s t u} h h' := by
    obtain ⟨later, hlater, hnone⟩ := h
    obtain ⟨later', hlater', hnone'⟩ := h'
    refine ⟨later' ++ later, by rw [hlater', hlater, List.append_assoc], fun marks mode limit hmem => ?_⟩
    rcases List.mem_append.mp hmem with hmem | hmem
    · exact hnone' marks mode limit hmem
    · exact hnone marks mode limit hmem

/-! ## Sound lists -/

/-- The marking of a pass with the settings, which was run at the version and with the elements
    of `t`. It was kept when the pass returned, and no refinement has raised the version since. -/
def Made (estimator : EstimatorId) (settings : Settings Float) (v : Marking Float) (t : Bench Float W) :
    Prop :=
  ∃ b₀ t₀, Marking.pass site mesh estimator settings b₀ = .ok v t₀ ∧
    look site mesh b₀.world = look site mesh t.world ∧ Unrefined site mesh b₀ t ∧
    ∃ owner, .note (.rebuilt owner (site.version mesh t.world)) :: t₀.trace <:+ t.trace

/-- What a list is like when it is handed over at `t`. -/
structure Sound (j : MarkerId) (marks : List Mark) (t : Bench Float W) : Prop where
  /-- Over all workers there are marks. -/
  counted : ∃ w whole, Collective.Gives site mesh .sum (.int marks.length) w whole t.world ∧
    whole.value.isZero = false
  increasing : (marks.map Mark.index).Pairwise (· < ·)
  inside : ∀ mark ∈ marks, 0 ≤ mark.index ∧ mark.index < site.elements mesh t.world
  made : ∃ m estimator settings v, t.markers[j]? = some m ∧ m.source = .threshold estimator settings ∧
    Made site mesh estimator settings v t ∧ v.marks = marks

/-! ## Updates with the handover left open -/

/-- The marks a refinement control comes to hand over, and nothing where it stops. -/
def chosen (marker : MarkerId) (m : MeshId) : Act Float W (Option (List Mark)) := do
  let marks := (← Marking.read site marker).marks
  if ← Marking.stops site marker then
    Act.note .criterionMet
    return none
  if (← Collective.count site m marks.length).isZero then
    Act.note .nothingMarked
    return none
  return some marks

variable (k : ControlId) (hand : Mode → Int → List Mark → Act Float W Unit)

def refineVia (marker : MarkerId) (mode : Mode) (limit : Int) (m : MeshId) : Act Float W Decision := do
  match ← chosen site marker m with
  | none => return .stop
  | some marks =>
    hand mode limit marks
    Act.note (.refined marks.length)
    return .proceed (some .refine)

def applyVia (visit : ControlId → Act Float W Unit) (c : ControlId) (m : MeshId) : Act Float W Decision := do
  match (← Act.control c).strategy with
  | .refine marker mode limit =>
    if c = k ∧ m = mesh then refineVia site hand marker mode limit m else Update.apply site visit c m
  | _ => Update.apply site visit c m

/-- An update in which control `k` hands over to `hand` when it is applied to the mesh. -/
def updateVia : Nat → ControlId → MeshId → Act Float W Bool
  | 0, _, _ => throw .tooDeep
  | depth + 1, c, m => do
    let d ← applyVia site mesh k hand (fun member => discard (updateVia depth member m)) c m
    Update.remember c d
    return d.needsUpdate

/-! ## Runs -/

inductive Op where
  | update (depth : Nat) (c : ControlId) (m : MeshId)
  | reset (depth : Nat) (c : ControlId)
  | tuneControl (c : ControlId) (s : ControlSetting)
  | read (marker : MarkerId)
  | stops (marker : MarkerId)
  | tuneMarker (marker : MarkerId) (s : MarkerSetting)
  | forget (marker : MarkerId)
  | refine (m : MeshId) (marks : List Mark) (mode : Mode) (limit : Int)

def Op.act : Op → Act Float W Unit
  | .update depth c m => discard (Update.update site depth c m)
  | .reset depth c => Update.reset site depth c
  | .tuneControl c s => Act.changeControl c fun x => x.tune s
  | .read marker => discard (Marking.read site marker)
  | .stops marker => discard (Marking.stops site marker)
  | .tuneMarker marker s => Act.changeMarker marker fun x => x.tune s
  | .forget marker => Act.changeMarker marker fun x => .ok x.forget
  | .refine m marks mode limit => Coarsen.refine site m marks mode limit

/-- The mode and the limit after an operation: those of the last setting of control `k` whose
    limit was admitted. -/
def Op.setting (present : Mode × Int) : Op → Mode × Int
  | .tuneControl c (.mode mode v) =>
    if c = k then
      match Admission.nonNegativeInteger "nc_limit" v with
      | .ok limit => (mode, limit)
      | .error _ => present
    else present
  | _ => present

/-- The strategy that the settings of control `k` make of it. -/
def planned (j : MarkerId) (set : Option (Mode × Int)) : Option (Strategy Float) :=
  set.map fun present => .refine j present.1 present.2

/-- Only what is neither a visit nor a refinement has been recorded. -/
def Plainly (b t : Bench Float W) : Prop := ∃ later, t.trace = later ++ b.trace ∧ ∀ e ∈ later, e.isPlain = true

/-- From the making of marker `j` on, with the mode and the limit of control `k`, which is made
    with that marker at any time. Between the operations all may change but for these two, as
    long as the mesh keeps to the law. -/
inductive Run (j : MarkerId) : Option (Mode × Int) → Bench Float W → Prop
  | made {b estimator settings} :
      b.markers[j]? = some (Marker.new mesh (.threshold estimator settings)) →
      0 ≤ site.version mesh b.world → b.controls[k]? = none → Run j none b
  | makes {b} : Run j none b → b.controls.length = k →
      Run j (some (.conforming, Defaults.limit))
        { b with controls := b.controls ++ [Control.new (Control.refining j)] }
  | operate {set b} (op : Op) : Run j set b →
      Run j (set.map fun present => op.setting k present) (stateAfter (op.act site) b)
  | meanwhile {set b t} : Run j set b → t.markers[j]? = b.markers[j]? →
      (t.controls[k]?.map Control.strategy = b.controls[k]?.map Control.strategy) → Plainly b t →
      Lawful site mesh b.world t.world → Run j set t

/-- What marker `j` keeps is out of date, or was made as the mesh is now. -/
structure Fresh (j : MarkerId) (b : Bench Float W) : Prop where
  started : 0 ≤ site.version mesh b.world
  marker : ∃ m estimator settings, b.markers[j]? = some m ∧ m.mesh = mesh ∧
    m.source = .threshold estimator settings ∧ m.cache.stamp ≤ site.version mesh b.world ∧
    ∀ v, m.cache.value = some v → m.cache.stamp = site.version mesh b.world →
      Made site mesh estimator settings v b

/-- Marker `j` answers with the marking as the mesh is now. -/
def Held (j : MarkerId) (v : Marking Float) (b : Bench Float W) : Prop :=
  ∃ m, b.markers[j]? = some m ∧ m.cache.value = some v ∧ m.cache.stamp = site.version mesh b.world

/-- From `b` to `t` it stays true that what marker `j` keeps is fresh. -/
def Freshly (j : MarkerId) (b t : Bench Float W) : Prop := Fresh site mesh j b → Fresh site mesh j t

end

instance (site : Site Float W) (mesh : MeshId) (j : MarkerId) : Lasting (Freshly site mesh j) where
  refl _ := id
  trans h h' := h' ∘ h

section

variable {site : Site Float W} {mesh : MeshId} {j : MarkerId} {b t : Bench Float W}

/-! ## What keeps a marking fresh -/

theorem unrefined_of_trace (h : t.trace = b.trace) : Unrefined site mesh b t := ⟨[], h, nofun⟩

theorem not_refine_of_isPlain {e : Event Float} (h : e.isPlain = true) (marks : List Mark) (mode : Mode)
    (limit : Int) : Event.call mesh (.refine marks mode limit) ≠ e := by
  rintro rfl
  cases h

theorem Plainly.unrefined (h : Plainly b t) : Unrefined site mesh b t := by
  obtain ⟨later, htrace, hplain⟩ := h
  refine ⟨later, htrace, fun marks mode limit hmem => ?_⟩
  exact absurd rfl (not_refine_of_isPlain (hplain _ hmem) marks mode limit)

theorem plainly_record (b : Bench Float W) {e : Event Float} (h : e.isPlain = true) :
    Plainly b (b.record e) := by
  refine ⟨[e], rfl, fun e' he' => ?_⟩
  rw [List.mem_singleton.mp he']
  exact h

theorem plainly_noteFault (b : Bench Float W) (f : Fault) : Plainly b (b.noteFault f) :=
  b.noteFault_of_record (I := fun t => Plainly b t) f ⟨[], rfl, List.forall_mem_nil _⟩ fun n =>
    plainly_record b (e := .note n) rfl

theorem Unrefined.onward (h : Unrefined site mesh b t) : b.Onward t := by
  obtain ⟨later, htrace, -⟩ := h
  exact ⟨later, htrace.symm⟩

theorem Made.later {estimator : EstimatorId} {settings : Settings Float} {v : Marking Float}
    (h : Made site mesh estimator settings v b) (hlook : look site mesh t.world = look site mesh b.world)
    (hu : Unrefined site mesh b t) : Made site mesh estimator settings v t := by
  obtain ⟨b₀, t₀, hpass, hlook₀, hu₀, owner, hnoted⟩ := h
  have hversion : site.version mesh t.world = site.version mesh b.world := congrArg Prod.fst hlook
  refine ⟨b₀, t₀, hpass, hlook₀.trans hlook.symm, Lasting.trans hu₀ hu, owner, ?_⟩
  rw [hversion]
  exact hnoted.trans hu.onward

/-- What leaves the marker alone and keeps to the law keeps its marking fresh, unless it asks for a
    refinement that does not raise the version. -/
theorem Fresh.frame (h : Fresh site mesh j b) (hk : t.markers[j]? = b.markers[j]?)
    (hl : Lawful site mesh b.world t.world)
    (hu : site.version mesh t.world = site.version mesh b.world → Unrefined site mesh b t) :
    Fresh site mesh j t := by
  obtain ⟨m, estimator, settings, hm, hmesh, hs, hstamp, hmade⟩ := h.marker
  have hle := hl.version
  refine ⟨Int.le_trans h.started hle, m, estimator, settings, hk.trans hm, hmesh, hs,
    Int.le_trans hstamp hle, fun v hv hlive => ?_⟩
  -- a stamp that is up to date now was so before, and then nothing has raised the version
  have same : site.version mesh t.world = site.version mesh b.world := by omega
  refine (hmade v hv (by omega)).later ?_ (hu same)
  exact Prod.ext same (hl.elements same)

theorem lawful_of_look {w w' : W} (h : look site mesh w' = look site mesh w) : Lawful site mesh w w' := by
  have hversion : site.version mesh w' = site.version mesh w := congrArg Prod.fst h
  exact ⟨by omega, fun _ => congrArg Prod.snd h⟩

theorem Fresh.record (h : Fresh site mesh j b) {e : Event Float} (he : e.isPlain = true) :
    Fresh site mesh j (b.record e) :=
  h.frame rfl (Lasting.refl _) fun _ => (plainly_record b he).unrefined

theorem Fresh.noteFault (h : Fresh site mesh j b) (f : Fault) : Fresh site mesh j (b.noteFault f) :=
  b.noteFault_of_record (I := Fresh site mesh j) f h fun n => h.record (e := .note n) rfl

theorem fresh_ask {q : EStateM Fault W α} (hq : Keeps (Lawful site mesh) q) :
    Keeps (Freshly site mesh j) (Act.ask q : Act Float W α) := by
  intro b
  rw [Act.ends_ask]
  have world (w : W) (hw : Lawful site mesh b.world w) (h : Fresh site mesh j b) :
      Fresh site mesh j { b with world := w } := h.frame rfl hw fun _ => unrefined_of_trace rfl
  exact (hq b.world).mono (fun _ w hw => world w hw) fun f w hw h => (world w hw h).noteFault f

theorem fresh_ask_look {q : EStateM Fault W α} (hq : Keeps (Unseen (look site mesh)) q) :
    Keeps (Freshly site mesh j) (Act.ask q : Act Float W α) :=
  fresh_ask fun w => (hq w).mono (fun _ _ => lawful_of_look) fun _ _ => lawful_of_look

theorem silent_fresh (steady : Steady site mesh) : Silent site (Freshly site mesh j) where
  record _ _ he h := h.record he
  errors e := fresh_ask_look (steady.errors e)
  flags e := fresh_ask_look (steady.flags e)
  allreduce m op own := fresh_ask_look (steady.allreduce m op own)

theorem look_ask {q : EStateM Fault W α} (hq : Keeps (Unseen (look site mesh)) q) :
    Keeps (Unseen fun b => look site mesh b.world) (Act.ask q : Act Float W α) := by
  intro b
  rw [Act.ends_ask]
  refine (hq b.world).mono (fun _ w hw => hw) fun f w hw => ?_
  show look site mesh (Bench.noteFault _ f).world = _
  rw [Bench.noteFault_world]
  exact hw

theorem silent_look (steady : Steady site mesh) : Silent site (Unseen fun b => look site mesh b.world) where
  record _ _ _ := rfl
  errors e := look_ask (steady.errors e)
  flags e := look_ask (steady.flags e)
  allreduce m op own := look_ask (steady.allreduce m op own)

theorem unrefined_ask (q : EStateM Fault W α) : Keeps (Unrefined site mesh) (Act.ask q : Act Float W α) := by
  intro b
  rw [Act.ends_ask]
  unfold Ends
  cases q b.world with
  | ok a w => exact unrefined_of_trace rfl
  | error f w =>
    have plain : Plainly b ({ b with world := w }.noteFault f) := plainly_noteFault { b with world := w } f
    exact plain.unrefined

theorem silent_unrefined (site : Site Float W) (mesh : MeshId) : Silent site (Unrefined site mesh) where
  record b _ he := (plainly_record b he).unrefined
  errors _ := unrefined_ask _
  flags _ := unrefined_ask _
  allreduce _ _ _ := unrefined_ask _

/-! ## Reads -/

theorem Fresh.setMarker (h : Fresh site mesh j b) {k : MarkerId} (hne : k ≠ j) (m : Marker Float) :
    Fresh site mesh j (b.setMarker k m) := by
  refine h.frame ?_ (Lasting.refl _) fun _ => unrefined_of_trace rfl
  simp [Bench.setMarker, hne]

theorem Fresh.setControl (h : Fresh site mesh j b) (c : ControlId) (x : Control Float) :
    Fresh site mesh j (b.setControl c x) := h.frame rfl (Lasting.refl _) fun _ => unrefined_of_trace rfl

/-- A marker that drops what it keeps is fresh. -/
theorem Fresh.drop (h : Fresh site mesh j b) {m m' : Marker Float} {estimator : EstimatorId}
    {settings : Settings Float} (hm : b.markers[j]? = some m) (hmesh : m'.mesh = m.mesh)
    (hs : m'.source = .threshold estimator settings) (hcache : m'.cache = m.cache.forget) :
    Fresh site mesh j (b.setMarker j m') := by
  obtain ⟨m₀, -, -, hm₀, hmesh₀, -⟩ := h.marker
  obtain rfl : m₀ = m := Option.some.inj (hm₀.symm.trans hm)
  have hstarted := h.started
  refine ⟨hstarted, m', estimator, settings, Bench.setMarker_get hm, hmesh.trans hmesh₀, hs, ?_, fun v hv => ?_⟩
  · rw [hcache]
    show (-1 : Int) ≤ site.version mesh b.world
    omega
  · rw [hcache] at hv
    cases hv

/-- A read of marker `j` answers with what it then holds, and that is fresh. -/
theorem read_holds (steady : Steady site mesh) (h : Fresh site mesh j b) :
    Ends (Marking.read site j) b (fun v t => Fresh site mesh j t ∧ Held site mesh j v t)
      (fun _ t => Fresh site mesh j t) := by
  obtain ⟨m, estimator, settings, hm, rfl, hs, hstamp, hmade⟩ := h.marker
  cases hp : m.cache.probe (site.version m.mesh b.world) with
  | refuse =>
    have run := Marking.read_apply site hm
    rw [hp] at run
    rw [ends_of_error run]
    exact h.noteFault _
  | answer v =>
    rw [ends_of_ok (Marking.read_answer hm hp)]
    exact ⟨h, m, hm, Stamped.probe_answer.mp hp⟩
  | build =>
    have run := Marking.read_build hm hs hp
    have alone := ((silent_objects site).pass m.mesh estimator settings).after b
    have fresh := ((silent_fresh steady).pass m.mesh estimator settings).after b h
    have looked := ((silent_look steady).pass m.mesh estimator settings).after b
    have unrefined := ((silent_unrefined site m.mesh).pass m.mesh estimator settings).after b
    unfold stateAfter at alone fresh looked unrefined
    cases hpass : Marking.pass site m.mesh estimator settings b with
    | error f t =>
      rw [hpass] at run fresh
      rw [ends_of_error run]
      exact fresh
    | ok v t =>
      rw [hpass] at run alone fresh looked unrefined
      rw [ends_of_ok run]
      have ht : t.markers[j]? = some m := (congrArg (·.1[j]?) alone).trans hm
      have hversion : site.version m.mesh t.world = site.version m.mesh b.world := congrArg Prod.fst looked
      have hkept : (t.passed j m (site.version m.mesh b.world) v).markers[j]? =
          some (m.passed (site.version m.mesh b.world) v) := Bench.setMarker_get ht
      refine ⟨⟨fresh.started, _, estimator, settings, hkept, rfl, hs, ?_, fun v' hv' _ => ?_⟩,
        _, hkept, rfl, hversion.symm⟩
      · exact Int.le_of_eq hversion.symm
      · obtain rfl : v = v' := Option.some.inj hv'
        have noted : Plainly t (t.passed j m (site.version m.mesh b.world) v) :=
          ⟨[_], rfl, by simp [Event.isPlain]⟩
        refine ⟨b, t, hpass, looked.symm, Lasting.trans unrefined noted.unrefined, m.source.label, ?_⟩
        show _ <:+ .note (.rebuilt m.source.label (site.version m.mesh b.world)) :: t.trace
        rw [← hversion]
        exact List.suffix_refl _

theorem read_fresh (steady : Steady site mesh) (k : MarkerId) :
    Keeps (Freshly site mesh j) (Marking.read site k) := by
  by_cases hk : k = j
  · subst hk
    intro b
    unfold Ends
    cases hread : Marking.read site k b with
    | ok v t => exact fun h => ((read_holds steady h).of_ok hread).1
    | error f t => exact fun h => (read_holds steady h).of_error hread
  · refine (silent_fresh steady).readOf (fun b m h => h.setMarker hk m) fun f => fresh_ask (steady.marking f)

/-! ## Updates -/

/-- A refinement of any mesh raises the version, or needs not. -/
theorem refine_fresh (steady : Steady site mesh) (m : MeshId) (marks : List Mark) (mode : Mode) (limit : Int) :
    Keeps (Freshly site mesh j) (Coarsen.refine site m marks mode limit) := by
  intro b
  simp only [Coarsen.refine, ends_bind, Act.ends_call, Act.ends_ask, Bench.record_world]
  -- what is recorded: the call, and the fault if it fails
  have after (w : W) (hw : w = stateAfter (site.refine m marks mode limit) b.world)
      (h : Fresh site mesh j b) :
      Fresh site mesh j { b.record (.call m (.refine marks mode limit)) with world := w } := by
    have lawful := (steady.refine m marks mode limit).after b.world
    rw [← hw] at lawful
    refine h.frame rfl lawful fun same => ⟨[.call m (.refine marks mode limit)], rfl, ?_⟩
    intro marks' mode' limit' hmem hraises
    obtain ⟨rfl, rfl, rfl, rfl⟩ : mesh = m ∧ marks' = marks ∧ mode' = mode ∧ limit' = limit := by
      simpa using hmem
    have raised := hraises b.world
    rw [← hw] at raised
    exact Int.ne_of_gt raised same
  unfold Ends
  cases hrefine : site.refine m marks mode limit b.world with
  | ok a w => exact after w (by rw [stateAfter, hrefine])
  | error f w => exact fun h => (after w (by rw [stateAfter, hrefine]) h).noteFault f

theorem aloof_fresh (steady : Steady site mesh) : Aloof site (Freshly site mesh j) where
  toSilent := silent_fresh steady
  read := read_fresh steady
  violations m limit := fresh_ask (steady.violations m limit)
  refineMesh := refine_fresh steady
  derefine m errors threshold limit := fresh_ask (steady.derefine m errors threshold limit)
  rebalance m := fresh_ask (steady.rebalance m)
  visit b k i m h := h.frame rfl (Lasting.refl _) fun _ =>
    ⟨[.visit k i m], rfl, fun marks mode limit hmem => by simp at hmem⟩
  setControl _ k c h := h.setControl k c
  decide f := fresh_ask (steady.decide f)
  reset f := fresh_ask (steady.reset f)

/-- Nothing has changed since the read, so judging the marking does not run another pass. -/
theorem stops_held (h : Fresh site mesh j b) {v : Marking Float} (held : Held site mesh j v b) :
    Ends (Marking.stops site j) b (fun _ t => t = b) (fun _ _ => True) := by
  obtain ⟨m, hm, hkept⟩ := held
  obtain ⟨m', estimator, settings, hm', rfl, hs, -⟩ := h.marker
  obtain rfl : m' = m := Option.some.inj (hm'.symm.trans hm)
  have answered := Marking.read_answer hm (Stamped.probe_answer.mpr hkept)
  unfold Ends
  rw [Marking.stops_apply hm hs, bind_of_ok answered]
  cases settings.stops v with
  | ok a => rfl
  | error f => trivial

/-- Marks that are counted over all workers are a sound list, unless there are none. -/
theorem count_sound (steady : Steady site mesh) (h : Fresh site mesh j b) {v : Marking Float}
    (held : Held site mesh j v b) :
    Ends (Collective.count site mesh v.marks.length) b
      (fun n t => n.isZero = false → Sound site mesh j v.marks t) (fun _ _ => True) := by
  obtain ⟨m, hm, hv, hlive⟩ := held
  obtain ⟨m', estimator, settings, hm', -, hs, -, hmade⟩ := h.marker
  obtain rfl : m' = m := Option.some.inj (hm'.symm.trans hm)
  have alone := (silent_objects site).count mesh v.marks.length b
  have looked := (silent_look steady).count mesh v.marks.length b
  have unrefined := (silent_unrefined site mesh).count mesh v.marks.length b
  have gives : Ends (Collective.count site mesh v.marks.length) b _ _ := count_gives v.marks.length
  refine (gives.and ((alone.and looked).and unrefined)).mono (fun n t ht hn => ?_) fun _ _ _ => trivial
  obtain ⟨⟨whole, hgives, rfl, -⟩, ⟨halone, hlooked⟩, hunrefined⟩ := ht
  have made : Made site mesh estimator settings v t := (hmade v hv hlive).later hlooked hunrefined
  obtain ⟨b₀, t₀, hpass, hlook₀, -⟩ := id made
  have formed := (Marking.pass_wellFormed mesh estimator settings).of_ok hpass
  have elements : site.elements mesh b₀.world = site.elements mesh t.world := congrArg Prod.snd hlook₀
  rw [elements] at formed
  have hmt : t.markers[j]? = some m' := (congrArg (·.1[j]?) halone).trans hm
  exact ⟨⟨_, whole, hgives, hn⟩, formed.increasing, formed.inside,
    m', estimator, settings, v, hmt, hs, made, rfl⟩

/-- What a control comes to hand over is sound. -/
theorem chosen_sound (steady : Steady site mesh) (h : Fresh site mesh j b) :
    Ends (chosen site j mesh) b (fun r t => ∀ marks, r = some marks → Sound site mesh j marks t)
      (fun _ _ => True) := by
  unfold chosen
  simp only [ends_bind]
  refine (read_holds steady h).mono (fun v t ht => ?_) fun _ _ _ => trivial
  obtain ⟨fresh, held⟩ := ht
  refine (stops_held fresh held).mono (fun stops t' ht' => ?_) fun _ _ _ => trivial
  subst ht'
  split
  · exact fun marks hmarks => by cases hmarks
  simp only [ends_bind]
  refine (count_sound steady fresh held).mono (fun n u sound => ?_) fun _ _ _ => trivial
  split
  · exact fun marks hmarks => by cases hmarks
  · rename_i hcount
    intro marks hmarks
    obtain rfl : v.marks = marks := Option.some.inj hmarks
    exact sound (by simpa using hcount)

/-! ## Updates that cannot be told apart -/

/-- What marker `j` keeps is fresh, and the controls are built to the plan. -/
def Ready (site : Site Float W) (mesh : MeshId) (j : MarkerId) (p : List (Strategy Float))
    (b : Bench Float W) : Prop :=
  Fresh site mesh j b ∧ b.plan = p

/-- An action that keeps to the plan and keeps the marking fresh is the same as itself. -/
theorem ready_same {p : List (Strategy Float)} {x : Act Float W α} (hx : Keeps (Freshly site mesh j) x)
    (hp : Stays p (fun _ => True) x) : Same (Ready site mesh j p) x x := by
  refine Same.refl fun b hb => ⟨hx.after b hb.1, ?_⟩
  have touched := hp b hb.2
  have after : Touches (fun _ => True) b (stateAfter x b) := ends_stateAfter.mp touched
  exact after.plan.trans hb.2

variable {k : ControlId} {p : List (Strategy Float)} {mode : Mode} {limit : Int}
    {hand : Mode → Int → List Mark → Act Float W Unit}

/-- The real handover makes the real update. -/
theorem refineVia_self (site : Site Float W) (marker : MarkerId) (mode : Mode) (limit : Int) (m : MeshId) :
    refineVia site (fun mode limit marks => Coarsen.refine site m marks mode limit) marker mode limit m =
      Update.applyRefine site marker mode limit m := by
  simp only [refineVia, chosen, Update.applyRefine, bind_assoc]
  refine congrArg (_ >>= ·) (funext fun v => congrArg (_ >>= ·) (funext fun stops => ?_))
  cases stops with
  | true => simp
  | false =>
    simp only [Bool.false_eq_true, if_false, bind_assoc]
    refine congrArg (_ >>= ·) (funext fun n => ?_)
    cases n.isZero <;> simp

/-- Where the list is sound, the real handover takes place. -/
theorem refineVia_same (steady : Steady site mesh) (h : Fresh site mesh j b)
    (agrees : ∀ marks t, Sound site mesh j marks t →
      hand mode limit marks t = Coarsen.refine site mesh marks mode limit t) :
    refineVia site hand j mode limit mesh b = Update.applyRefine site j mode limit mesh b := by
  have sound := chosen_sound steady h
  rw [← refineVia_self]
  unfold refineVia
  cases hchosen : chosen site j mesh b with
  | error f t => rw [bind_of_error hchosen, bind_of_error hchosen]
  | ok r t =>
    rw [bind_of_ok hchosen, bind_of_ok hchosen]
    cases r with
    | none => rfl
    | some marks =>
      have handed := agrees marks t (sound.of_ok hchosen marks rfl)
      simp only [Bind.bind, EStateM.bind, handed]

theorem apply_same (steady : Steady site mesh) {depth : Nat} {m : MeshId}
    {visit : ControlId → Act Float W Unit}
    (hv : ∀ member, Same (Ready site mesh j p) (visit member) (discard (Update.update site depth member m)))
    (c : ControlId) :
    Same (Ready site mesh j p) (Update.apply site visit c m)
      (Update.apply site (fun member => discard (Update.update site depth member m)) c m) := by
  have aloof := aloof_fresh (j := j) steady
  have real : Same (Ready site mesh j p)
      (Update.apply site (fun member => discard (Update.update site depth member m)) c m)
      (Update.apply site (fun member => discard (Update.update site depth member m)) c m) :=
    ready_same (aloof.apply (fun member => (aloof.update depth member m).discard) c m)
      (apply_stays (fun _ _ _ _ => trivial) trivial
        (fun member _ => (update_stays (fun _ _ _ _ => trivial) depth trivial m).discard) m)
  intro b hb
  refine ⟨apply_congr (fun size turns => ?_) m, (real b hb).2⟩
  have turns := Same.turn (k := c) (fun _ hb => hb.2)
    (fun f => ready_same (p := p) (aloof.moveCursor c f) (moveCursor_stays trivial f))
    (fun _ _ => ready_same (fun b => aloof.visit b _ _ _) fun b _ => Touches.record_visit (b := b) trivial _ _)
    (fun n => ready_same (aloof.note n) (.of_keeps fun _ => rfl)) (fun member _ => hv member) size turns
  exact (turns b hb).1

/-- No update can be told from the real one, where the plan has control `k` refine by marker `j`. -/
theorem update_same (steady : Steady site mesh) {set : Option (Mode × Int)}
    (plan : p[k]? = planned j set)
    (agrees : ∀ mode limit marks t, set = some (mode, limit) → Sound site mesh j marks t →
      hand mode limit marks t = Coarsen.refine site mesh marks mode limit t)
    (depth : Nat) (c : ControlId) (m : MeshId) :
    Same (Ready site mesh j p) (updateVia site mesh k hand depth c m) (Update.update site depth c m) := by
  induction depth generalizing c with
  | zero => exact fun b hb => ⟨rfl, hb⟩
  | succ depth ih =>
    have applied : Same (Ready site mesh j p)
        (applyVia site mesh k hand (fun member => discard (updateVia site mesh k hand depth member m)) c m)
        (Update.apply site (fun member => discard (Update.update site depth member m)) c m) := by
      intro b hb
      have others := apply_same steady (fun member => (ih member).discard) c b hb
      refine ⟨?_, others.2⟩
      rw [← others.1]
      unfold applyVia
      cases hc : b.controls[c]? with
      | none =>
        rw [bind_of_error (Act.control_missing hc), Update.apply, bind_of_error (Act.control_missing hc)]
      | some x =>
        rw [bind_of_ok (Act.control_apply hc)]
        cases hs : x.strategy with
        | coarsen _ | coarsenLimited _ _ | rebalance | rotation _ _ | foreign _ _ => rfl
        | refine marker mode limit =>
          by_cases hown : c = k ∧ m = mesh
          · obtain ⟨rfl, rfl⟩ := hown
            simp only [and_self, if_true]
            -- the plan tells what the control was set to
            have planned : p[c]? = some (.refine marker mode limit) := by
              rw [← hb.2, Bench.plan_getElem? hc, hs]
              rfl
            obtain ⟨⟨mode', limit'⟩, hset, hrefine⟩ := Option.map_eq_some_iff.mp (plan.symm.trans planned)
            obtain ⟨rfl, rfl, rfl⟩ : j = marker ∧ mode' = mode ∧ limit' = limit := by simpa using hrefine
            rw [refineVia_same steady hb.1 fun marks t => agrees mode' limit' marks t hset, Update.apply,
              bind_of_ok (Act.control_apply hc), hs]
          · simp only [hown, if_false]
    have remembered (d : Decision) : Same (Ready site mesh j p) (Update.remember c d) (Update.remember c d) :=
      ready_same ((aloof_fresh steady).remember c d) (remember_stays trivial d)
    exact applied.bind fun d => (remembered d).bind fun _ => Same.pure _

/-! ## Runs -/

/-- Changing a marker changes no control; marker `j` drops what it kept. -/
theorem changeMarker_ready (h : Fresh site mesh j b) {k : MarkerId}
    {f : Marker Float → Except Fault (Marker Float)}
    (hf : ∀ m m' estimator settings, m.source = .threshold estimator settings → f m = .ok m' →
      m'.mesh = m.mesh ∧ m'.cache = m.cache.forget ∧ ∃ settings', m'.source = .threshold estimator settings') :
    Fresh site mesh j (stateAfter (Act.changeMarker k f : Act Float W Unit) b) ∧
      (stateAfter (Act.changeMarker k f : Act Float W Unit) b).plan = b.plan := by
  constructor
  · refine Act.changeMarker_leaves (fun _ => h) (fun _ e _ _ => h.noteFault e) fun m m' hk hm => ?_
    by_cases hkj : k = j
    · subst hkj
      obtain ⟨m₀, estimator, settings, hm₀, -, hs, -⟩ := h.marker
      obtain rfl : m₀ = m := Option.some.inj (hm₀.symm.trans hk)
      obtain ⟨hmesh, hcache, settings', hs'⟩ := hf m₀ m' estimator settings hs hm
      exact h.drop hk hmesh hs' hcache
    · exact h.setMarker hkj m'
  · exact Act.changeMarker_leaves (I := fun t => t.plan = b.plan) (fun _ => rfl) (fun _ e _ _ => plan_noteFault b e)
      fun _ _ _ _ => rfl

theorem tune_drops {s : MarkerSetting} {m m' : Marker Float} {estimator : EstimatorId}
    {settings : Settings Float} (hs : m.source = .threshold estimator settings) (h : m.tune s = .ok m') :
    m'.mesh = m.mesh ∧ m'.cache = m.cache.forget ∧ ∃ settings', m'.source = .threshold estimator settings' := by
  simp only [Marker.tune, hs] at h
  cases hsettings : settings.tune s with
  | error f => rw [hsettings] at h; cases h
  | ok settings' =>
    rw [hsettings] at h
    obtain rfl := Except.ok.inj h
    exact ⟨rfl, rfl, settings', rfl⟩

/-- A refinement control takes a mode with a limit that is admitted, and no other setting. -/
theorem tune_setting {x : Control Float} (hx : x.strategy = .refine j mode limit) (k : ControlId)
    (s : ControlSetting) :
    match x.tune s with
    | .ok x' => some x'.strategy.restart = planned j (some ((Op.tuneControl k s).setting k (mode, limit)))
    | .error _ => (Op.tuneControl k s).setting k (mode, limit) = (mode, limit) := by
  cases s with
  | threshold v | combine v | limit v =>
    simp only [Control.tune, hx]
    rfl
  | mode mode' v =>
    simp only [Control.tune, hx, Op.setting, if_true]
    cases Admission.nonNegativeInteger "nc_limit" v with
    | ok n => rfl
    | error f => rfl

theorem setting_of_ne {c : ControlId} (h : c ≠ k) (s : ControlSetting) (present : Mode × Int) :
    (Op.tuneControl c s).setting k present = present := by
  cases s with
  | threshold v | combine v | limit v => rfl
  | mode mode' v => exact if_neg h

theorem tune_own {set : Option (Mode × Int)} (hp : b.plan[k]? = planned j set) (s : ControlSetting) :
    (stateAfter (Act.changeControl k (fun x => x.tune s) : Act Float W Unit) b).plan[k]? =
      planned j (set.map fun present => (Op.tuneControl k s).setting k present) := by
  have refining {x : Control Float} (hc : b.controls[k]? = some x) :
      ∃ mode limit, set = some (mode, limit) ∧ x.strategy = .refine j mode limit := by
    rw [Bench.plan_getElem? hc] at hp
    obtain ⟨⟨mode, limit⟩, hset, hx⟩ := Option.map_eq_some_iff.mp hp.symm
    refine ⟨mode, limit, hset, ?_⟩
    cases hs : x.strategy <;> rw [hs] at hx <;> cases hx
    rfl
  refine Act.changeControl_leaves (I := fun t => t.plan[k]? = _) (fun hc => ?_) (fun x e hc htune => ?_)
    fun x x' hc htune => ?_
  · have unset : planned j set = none := by
      rw [← hp]
      simp [Bench.plan, hc]
    rw [planned, Option.map_eq_none_iff] at unset
    rw [hp, unset]
    rfl
  · obtain ⟨mode, limit, rfl, hx⟩ := refining hc
    have tuned := tune_setting hx k s
    rw [htune] at tuned
    rw [plan_noteFault, hp, Option.map_some, tuned]
  · obtain ⟨mode, limit, rfl, hx⟩ := refining hc
    have tuned := tune_setting hx k s
    rw [htune] at tuned
    rw [Bench.plan_getElem? (Bench.setControl_get hc)]
    exact tuned

theorem tune_other {c : ControlId} (hck : c ≠ k) (s : ControlSetting) :
    (stateAfter (Act.changeControl c (fun x => x.tune s) : Act Float W Unit) b).plan[k]? = b.plan[k]? := by
  refine Act.changeControl_leaves (I := fun t => t.plan[k]? = b.plan[k]?) (fun _ => rfl) (fun _ e _ _ => ?_)
    fun _ x' _ _ => ?_
  · rw [plan_noteFault]
  · simp [Bench.plan, hck]

/-- An operation leaves what marker `j` keeps fresh, and control `k` as it was last set. -/
theorem operate_ready (steady : Steady site mesh) {set : Option (Mode × Int)} (h : Fresh site mesh j b)
    (hp : b.plan[k]? = planned j set) (op : Op) :
    Fresh site mesh j (stateAfter (op.act site) b) ∧
      (stateAfter (op.act site) b).plan[k]? = planned j (set.map fun present => op.setting k present) := by
  have aloof := aloof_fresh (j := j) steady
  cases op with
  | update depth c m =>
    simp only [Op.act, stateAfter_discard, Op.setting, Option.map_id']
    refine ⟨(aloof.update depth c m).after b h, ?_⟩
    rw [plan_update, hp]
  | reset depth c =>
    simp only [Op.act, Op.setting, Option.map_id']
    refine ⟨(aloof.resets depth c).after b h, ?_⟩
    rw [plan_reset, hp]
  | tuneControl c s =>
    refine ⟨Act.changeControl_leaves (fun _ => h) (fun _ e _ _ => h.noteFault e) (fun _ x' _ _ => ?_), ?_⟩
    · exact h.setControl c x'
    · by_cases hck : c = k
      · subst hck
        exact tune_own hp s
      · simp only [setting_of_ne hck s, Option.map_id']
        exact (tune_other hck s).trans hp
  | read marker =>
    simp only [Op.act, stateAfter_discard, Op.setting, Option.map_id']
    refine ⟨(aloof.read marker).after b h, ?_⟩
    rw [plan_of_rounds ((mild_rounds site).read marker), hp]
  | stops marker =>
    simp only [Op.act, stateAfter_discard, Op.setting, Option.map_id']
    refine ⟨(aloof.stops (aloof.read marker)).after b h, ?_⟩
    rw [plan_of_rounds ((mild_rounds site).stops ((mild_rounds site).read marker)), hp]
  | tuneMarker marker s =>
    simp only [Op.act, Op.setting, Option.map_id']
    have tuned := changeMarker_ready (k := marker) (f := fun x => x.tune s) h fun _ _ _ _ hs => tune_drops hs
    exact ⟨tuned.1, by rw [tuned.2, hp]⟩
  | forget marker =>
    simp only [Op.act, Op.setting, Option.map_id']
    have forgotten := changeMarker_ready (k := marker) (f := fun x => .ok x.forget) h ?_
    · exact ⟨forgotten.1, by rw [forgotten.2, hp]⟩
    · intro m m' estimator settings hs hm
      obtain rfl := Except.ok.inj hm
      exact ⟨rfl, rfl, settings, hs⟩
  | refine m marks mode limit =>
    simp only [Op.act, Op.setting, Option.map_id']
    refine ⟨(aloof.refineMesh m marks mode limit).after b h, ?_⟩
    rw [plan_of_rounds ((mild_rounds site).refineMesh m marks mode limit), hp]

theorem run_ready (steady : Steady site mesh) {set : Option (Mode × Int)} (h : Run site mesh k j set b) :
    Fresh site mesh j b ∧ b.plan[k]? = planned j set := by
  induction h with
  | made hm hstarted hk =>
    refine ⟨⟨hstarted, _, _, _, hm, rfl, rfl, ?_, nofun⟩, by simp [Bench.plan, planned, hk]⟩
    exact Int.le_trans (by decide : (-1 : Int) ≤ 0) hstarted
  | @makes b _ hlength ih =>
    refine ⟨ih.1.frame rfl (Lasting.refl _) fun _ => unrefined_of_trace rfl, ?_⟩
    subst hlength
    simp [Bench.plan, planned, Control.new, Control.refining, Strategy.restart]
  | operate op _ ih => exact operate_ready steady ih.1 ih.2 op
  | @meanwhile set b t _ hm hk hplain hlaw ih =>
    refine ⟨ih.1.frame hm hlaw fun _ => hplain.unrefined, ?_⟩
    have restarted : t.plan[k]? = b.plan[k]? := by
      simpa [Bench.plan, Function.comp_def] using congrArg (Option.map Strategy.restart) hk
    rw [restarted, ih.2]

/-- Over any history, put anything in place of control `k`'s handover that does what the mesh does
    with every sound list, in the mode and with the limit last set: no update is any different. -/
theorem hands_over_soundly (steady : Steady site mesh) {set : Option (Mode × Int)}
    (h : Run site mesh k j set b)
    (agrees : ∀ mode limit marks t, set = some (mode, limit) → Sound site mesh j marks t →
      hand mode limit marks t = Coarsen.refine site mesh marks mode limit t)
    (depth : Nat) (c : ControlId) (m : MeshId) :
    updateVia site mesh k hand depth c m b = Update.update site depth c m b := by
  obtain ⟨fresh, hp⟩ := run_ready steady h
  exact (update_same steady hp agrees depth c m b ⟨fresh, rfl⟩).1

end

/-! ## A forest keeps to the law -/

section

variable {E : Type} (c : Stand.Company Float E) (mesh : MeshId)

theorem look_stand (q : Forest → EStateM Fault E α) :
    Keeps (Unseen (look (Stand.site c) mesh)) (Stand.ask q) := by
  intro s
  unfold Ends Stand.ask
  cases q s.forest s.around <;> rfl

theorem lawful_stand (q : Forest → EStateM Fault E α) :
    Keeps (Lawful (Stand.site c) mesh) (Stand.ask q) := fun s =>
  (look_stand c mesh q s).mono (fun _ _ => lawful_of_look) fun _ _ => lawful_of_look

/-- A change that raises the version may do to the leaves what it likes. -/
theorem lawful_of_lt {w w' : Stand E} (h : w.forest.version < w'.forest.version) :
    Lawful (Stand.site c) mesh w w' := by
  refine ⟨Int.le_of_lt h, fun same => ?_⟩
  exact absurd same (Int.ne_of_gt h)

theorem steady_forest : Steady (Stand.site c) mesh where
  errors _ := look_stand c mesh _
  flags _ := look_stand c mesh _
  allreduce _ _ _ := fun _ => rfl
  refine _ marks _ _ := by
    intro s
    cases marks with
    | nil => exact Lasting.refl (r := Lawful (Stand.site c) mesh) s
    | cons mark marks => exact lawful_of_lt c mesh (Int.lt_succ _)
  derefine _ errors threshold limit := by
    intro s
    show Lawful (Stand.site c) mesh s { s with forest := (s.forest.derefine errors threshold limit).2 }
    unfold Forest.derefine
    by_cases hstarts : (s.forest.merged errors threshold limit).isEmpty = true
    · rw [if_pos hstarts]
      exact Lasting.refl _
    · rw [if_neg hstarts]
      exact lawful_of_lt c mesh (Int.lt_succ _)
  violations _ _ := fun s => Lasting.refl s
  rebalance _ := fun _ => lawful_of_lt c mesh (Int.lt_succ _)
  marking _ := lawful_stand c mesh _
  decide _ := lawful_stand c mesh _
  reset _ := lawful_stand c mesh _

end

/-- An estimator that finds an error in the second of two elements. -/
def second : Stand.Company Float Unit where
  errors _ _ := pure [0, 3]
  flags _ _ := pure none
  marking _ _ := throw .missing
  decide _ _ := pure .idle
  reset _ _ := pure ⟨⟩

/-- A forest of two roots, and a marker that was just made. -/
def start : Bench Float (Stand Unit) :=
  ⟨⟨Forest.ofRoots 2 0, true, false, ⟨⟩⟩, [Marker.new 0 (.threshold 0 Settings.default)], [], []⟩

/-- A mesh that takes no other mode or limit and no position that it does not have. -/
def careful (mode : Mode) (limit : Int) (marks : List Mark) : Act Float (Stand Unit) Unit := do
  let elements ← Act.look ((Stand.site second).elements 0)
  if mode = .nonconforming ∧ limit = 2 ∧ ∀ mark ∈ marks, 0 ≤ mark.index ∧ mark.index < elements then
    Coarsen.refine (Stand.site second) 0 marks mode limit
  else throw .missing

set_option maxRecDepth 20000 in
theorem hands_over_soundly_careful :
    ∃ b, Run (Stand.site second) 0 0 0 (some (.nonconforming, 2)) b ∧
      outcome (updateVia (Stand.site second) 0 0 careful 1 0 0) b = .ok true ∧
      updateVia (Stand.site second) 0 0 careful 1 0 0 b = Update.update (Stand.site second) 1 0 0 b := by
  have made : Run (Stand.site second) 0 0 0 none start := .made rfl (by decide) rfl
  have controlled := made.makes rfl
  have set := controlled.operate (.tuneControl 0 (.mode .nonconforming (.int 2)))
  have admitted : (Op.tuneControl 0 (.mode .nonconforming (.int 2))).setting 0 (.conforming, Defaults.limit) =
      (.nonconforming, 2) := rfl
  rw [Option.map_some, admitted] at set
  have agrees (mode : Mode) (limit : Int) (marks : List Mark) (t : Bench Float (Stand Unit))
      (hset : some (.nonconforming, 2) = some (mode, limit)) (sound : Sound (Stand.site second) 0 0 marks t) :
      careful mode limit marks t = Coarsen.refine (Stand.site second) 0 marks mode limit t := by
    obtain ⟨rfl, rfl⟩ : Mode.nonconforming = mode ∧ 2 = limit := by simpa using hset
    rw [careful, bind_of_ok (Act.look_apply _), if_pos ⟨rfl, rfl, sound.inside⟩]
  have same := hands_over_soundly (steady_forest second 0) set agrees 1 0 0
  refine ⟨_, set, ?_, same⟩
  unfold outcome
  rw [same]
  rfl

end Regrid.Handover
