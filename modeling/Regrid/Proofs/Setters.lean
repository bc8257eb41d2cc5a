/-
  Regrid.Proofs.Setters — what a setting that is refused, or accepted, changes.

  A setter finds the marker or control, admits the value, and stores it. If any of this fails,
  markers and controls are as they were, all of them and in all they hold; a report may have
  been noted. If it returns, the field that was named holds the number that was given, and
  every other setting, the decision, the stage and the counters are as they were
  (`Settings.Sets`, `Strategy.Sets`).

  A marker drops the marking it kept. Whatever happens to it, as long as it is not read, it
  counts no pass and no marked element, and the read that comes next runs a pass (`Due`),
  unless the mesh is at a version below the stamp of nothing.

  Objects are followed from the making of the first. Markers are made with settings that have
  been admitted, or are a caller's own; controls as the library makes them, or a caller's own.
  Whatever is done to them, all settings stay in their ranges (`Configured`), but for one: a
  norm exponent is looked at as it is given, and stored as it is converted. A long number above
  zero is admitted, and where it vanishes, and only there, an exponent is zero
  (`setter_keeps_zero`). Only setters change settings: updates, resets and reads leave the
  sources of the markers (`Bench.sources`) and the plan of the controls alone.
-/

import Regrid.Proofs.Queries
import Regrid.Proofs.Freshness
import Regrid.Proofs.Verdicts

namespace Regrid

variable {R W α : Type}

/-! ## One field at a time -/

/-- What is kept of a value that is a number. -/
def Value.Stands (v : Value) (x : Float) : Prop := ∃ g, v.given? = some g ∧ g.toReal = .ok x

/-- The second settings are the first with the named one changed to the number given. -/
inductive Settings.Sets (s : Settings Float) : MarkerSetting → Settings Float → Prop
  | exponent {v x} : v.Stands x → Sets s (.exponent v) { s with exponent := Binary64.exponent x }
  | totalGoal {v x} : v.Stands x → Sets s (.totalGoal v) { s with totalGoal := x }
  | fraction {v x} : v.Stands x → Sets s (.fraction v) { s with fraction := x }
  | localGoal {v x} : v.Stands x → Sets s (.localGoal v) { s with localGoal := x }
  | maxElements {v k} : v.integer? = some k → Sets s (.maxElements v) { s with maxElements := k }

inductive Coarsening.Sets (c : Coarsening Float) : ControlSetting → Coarsening Float → Prop
  | threshold {v x} : v.Stands x → Sets c (.threshold v) { c with threshold := x }
  | combine {v way} : v.equalsInt way.code = true → Sets c (.combine v) { c with combine := way }
  | limit {v k} : v.integer? = some k → Sets c (.limit v) { c with limit := k }

/-- The mode and its limit are set together. -/
inductive Strategy.Sets : Strategy Float → ControlSetting → Strategy Float → Prop
  | refine {marker mode limit mode' v k} : v.integer? = some k →
      Sets (.refine marker mode limit) (.mode mode' v) (.refine marker mode' k)
  | coarsen {how change how'} : how.Sets change how' → Sets (.coarsen how) change (.coarsen how')
  | coarsenLimited {how stage change how'} : how.Sets change how' →
      Sets (.coarsenLimited how stage) change (.coarsenLimited how' stage)

/-! ## Ranges -/

structure Coarsening.Sane (c : Coarsening Float) : Prop where
  threshold : ∃ q, Binary64.Worth c.threshold q
  limit : 0 ≤ c.limit
  combine : c.combine ∈ Combine.all

def Strategy.Sane : Strategy Float → Prop
  | .refine _ _ limit => 0 ≤ limit
  | .coarsen how | .coarsenLimited how _ => how.Sane
  | .rebalance | .rotation _ _ | .foreign _ _ => True

/-- Where the markings of all markers come from, with their settings. -/
def Bench.sources (b : Bench R W) : List (Source R) := b.markers.map Marker.source

namespace Setters

/-- Threshold markers have settings like these. -/
def Sourced (P : Settings Float → Prop) (b : Bench Float W) : Prop :=
  ∀ m ∈ b.markers, ∀ estimator settings, m.source = .threshold estimator settings → P settings

/-- All settings are in the ranges that computations rely on, but that an exponent may be zero. -/
structure Configured (b : Bench Float W) : Prop where
  markers : Sourced Settings.Admitted b
  controls : ∀ c ∈ b.controls, c.strategy.Sane

/-! ## Runs -/

/-- What a marker is made with: settings that were admitted one after another, or a caller's pass. -/
def Offered (given : MarkerSetting → Prop) (source : Source Float) : Prop :=
  ∀ estimator settings, source = .threshold estimator settings → settings.From given

/-- A marker is set to nothing but what may be given. -/
def Allowed (given : MarkerSetting → Prop) (op : Handover.Op) : Prop := ∀ k change, op = .tuneMarker k change → given change

/-- What a control is made with. -/
inductive Built : Strategy Float → Prop
  | plain {s} : Queries.Plain s → Built s
  | foreign (f : Nat) (label : String) : Built (.foreign f label)

/-- From before the first object is made, with the settings of markers that may be given. Whatever is done to
    an object may fail; meanwhile anything may happen that leaves them all alone. -/
inductive Run (site : Site Float W) (given : MarkerSetting → Prop) : Bench Float W → Prop
  | start {b : Bench Float W} : b.markers = [] → b.controls = [] → Run site given b
  | marks {b : Bench Float W} {mesh source} : Run site given b → Offered given source →
      Run site given { b with markers := b.markers ++ [Marker.new mesh source] }
  | makes {b : Bench Float W} {s} : Run site given b → Built s →
      Run site given { b with controls := b.controls ++ [Control.new s] }
  | operate {b : Bench Float W} (op : Handover.Op) : Run site given b → Allowed given op →
      Run site given (stateAfter (op.act site) b)
  | append {b : Bench Float W} {k m} : Run site given b → Run site given (stateAfter (Rotation.append k m) b)
  | clear {b : Bench Float W} {k} : Run site given b → Run site given (stateAfter (Rotation.clear k) b)
  | meanwhile {b t : Bench Float W} : Run site given b → t.objects = b.objects → Run site given t

/-! ## What leaves the sources alone -/

theorem sources_setMarker {b : Bench R W} {k : MarkerId} {m m' : Marker R} (hk : b.markers[k]? = some m)
    (same : m'.source = m.source) : (b.setMarker k m').sources = b.sources := by
  obtain ⟨inside, rfl⟩ := List.getElem?_eq_some_iff.mp hk
  have held : b.sources[k]? = some (b.markers[k]).source := by
    rw [Bench.sources, List.getElem?_map, hk, Option.map_some]
  obtain ⟨inside', same'⟩ := List.getElem?_eq_some_iff.mp held
  show (b.markers.set k m').map Marker.source = b.sources
  rw [List.map_set, same, ← same']
  exact List.set_getElem_self inside'

theorem sources_noteFault (b : Bench R W) (f : Fault) : (b.noteFault f).sources = b.sources :=
  b.noteFault_of_record (I := fun t => t.sources = b.sources) f rfl fun _ => rfl

theorem sources_ask (q : EStateM Fault W α) : Keeps (Unseen Bench.sources) (Act.ask q : Act R W α) := by
  intro b
  rw [Act.ends_ask]
  exact ends_true.mono (fun _ _ _ => rfl) fun f _ _ => sources_noteFault _ f

theorem silent_sources (site : Site R W) : Silent site (Unseen Bench.sources) where
  record _ _ _ := rfl
  errors _ := sources_ask _
  flags _ := sources_ask _
  allreduce _ _ _ := sources_ask _

/-- A pass is counted, and its marking kept, by the marker that ran it. -/
theorem run_sources [Arith R] (site : Site R W) (k : MarkerId) :
    Keeps (Unseen Bench.sources) (Marking.run site k) := by
  have counted (v : Marking R) : Keeps (Unseen Bench.sources) (do
      let old ← Act.marker k
      Act.putMarker k { old with tally := old.tally + v.marked }
      return v : Act R W (Marking R)) := by
    intro b
    rw [ends_bind]
    cases hk : b.markers[k]? with
    | none => exact (Act.ends_marker_none hk).mpr rfl
    | some m => exact (Act.ends_marker_some hk).mpr (sources_setMarker hk rfl)
  refine (Silent.marker k).bind fun m => ?_
  cases m.source with
  | threshold e s => exact ((silent_sources site).pass _ _ _).bind counted
  | foreign f l => exact (sources_ask _).bind counted

theorem read_sources [Arith R] (site : Site R W) (k : MarkerId) :
    Keeps (Unseen Bench.sources) (Marking.read site k) := by
  intro b
  rw [Marking.read, ends_bind]
  cases hk : b.markers[k]? with
  | none => exact (Act.ends_marker_none hk).mpr rfl
  | some m =>
    rw [Act.ends_marker_some hk]
    simp only [Stamped.read, ends_bind, ends_get, Marking.keeper]
    split
    · rfl
    · exact sources_noteFault b _
    · rw [ends_bind]
      refine (run_sources site k b).mono (fun v t ht => ?_) fun _ _ ht => ht
      rw [ends_bind, ends_modify, ends_pure]
      cases ht' : t.markers[k]? with
      | none =>
        refine Eq.trans ?_ ht
        show List.map _ (t.markers.set k _) = _
        rw [List.set_eq_of_length_le (List.getElem?_eq_none_iff.mp ht')]
        rfl
      | some m' =>
        refine (sources_setMarker ht' ?_).trans ht
        rfl

theorem aloof_sources [Arith R] (site : Site R W) : Aloof site (Unseen Bench.sources) where
  toSilent := silent_sources site
  read := read_sources site
  violations _ _ := sources_ask _
  refineMesh mesh marks mode limit :=
    have called : Keeps (Unseen Bench.sources) (Act.call mesh (.refine marks mode limit) : Act R W Unit) :=
      fun _ => rfl
    called.bind fun _ => sources_ask _
  derefine _ _ _ _ := sources_ask _
  rebalance _ := sources_ask _
  visit _ _ _ _ := rfl
  setControl _ _ _ := rfl
  decide _ := sources_ask _
  reset _ := sources_ask _

/-! ## One setting -/

section

variable {v : Value} {g : Given} {name : String}

theorem stands_of_nonNegative {x : Float} (h : Admission.nonNegative name v = .ok g) (hx : g.toReal = .ok x) :
    v.Stands x :=
  ⟨g, (((Admission.nonNegative_verdict name v).admits g).mp h).1, hx⟩

theorem tune_settings {s s' : Settings Float} {change : MarkerSetting} (h : s.tune change = .ok s') :
    s.Sets change s' := by
  cases change with
  | exponent v =>
    obtain ⟨n, hn, h⟩ := ok_of_bind h
    obtain ⟨x, hx, h⟩ := ok_of_bind h
    cases h
    exact .exponent ⟨n, (((Admission.exponent_verdict _ v).admits n).mp hn).1, hx⟩
  | totalGoal v =>
    obtain ⟨n, hn, h⟩ := ok_of_bind h
    obtain ⟨x, hx, h⟩ := ok_of_bind h
    cases h
    exact .totalGoal (stands_of_nonNegative hn hx)
  | fraction v =>
    obtain ⟨n, hn, h⟩ := ok_of_bind h
    obtain ⟨x, hx, h⟩ := ok_of_bind h
    cases h
    exact .fraction ⟨n, (((Admission.fraction_verdict _ v).admits n).mp hn).1, hx⟩
  | localGoal v =>
    obtain ⟨n, hn, h⟩ := ok_of_bind h
    obtain ⟨x, hx, h⟩ := ok_of_bind h
    cases h
    exact .localGoal (stands_of_nonNegative hn hx)
  | maxElements v =>
    obtain ⟨k, hk, h⟩ := ok_of_bind h
    cases h
    exact .maxElements (Admission.integer_ok.mp hk).1

/-- A marker that takes a setting drops what it kept, and nothing else. -/
theorem tune_marker {m m' : Marker Float} {change : MarkerSetting} (h : m.tune change = .ok m') :
    ∃ estimator s s', m.source = .threshold estimator s ∧ s.tune change = .ok s' ∧
      m' = { m with source := .threshold estimator s', cache := m.cache.forget } := by
  unfold Marker.tune at h
  split at h
  · cases h
  · rename_i estimator s hs
    obtain ⟨s', hs', h⟩ := ok_of_bind h
    cases h
    exact ⟨estimator, s, s', hs, hs', rfl⟩

theorem tuneMarker_ok {b : Bench Float W} {k : MarkerId} {m : Marker Float} {estimator : EstimatorId}
    {s s' : Settings Float} {change : MarkerSetting} (hk : b.markers[k]? = some m)
    (hs : m.source = .threshold estimator s) (changed : s.tune change = .ok s') :
    Act.changeMarker k (fun m => m.tune change) b =
      .ok ⟨⟩ (b.setMarker k { m with source := .threshold estimator s', cache := m.cache.forget }) := by
  have tuned : m.tune change = .ok { m with source := .threshold estimator s', cache := m.cache.forget } := by
    rw [Marker.tune, hs]
    simp only [changed]
    rfl
  rw [Act.changeMarker, bind_of_ok (Act.marker_apply hk), tuned]
  rfl

theorem tune_coarsening {c c' : Coarsening Float} {change : ControlSetting} (h : c.tune change = .ok c') :
    c.Sets change c' ∧ (c.Sane → c'.Sane) := by
  cases change with
  | threshold v =>
    obtain ⟨n, hn, h⟩ := ok_of_bind h
    obtain ⟨x, hx, h⟩ := ok_of_bind h
    cases h
    exact ⟨.threshold (stands_of_nonNegative hn hx),
      fun sane => { sane with threshold := Admission.nonNegative_worth hn hx }⟩
  | combine v =>
    obtain ⟨way, hway, h⟩ := ok_of_bind h
    cases h
    unfold Combine.ofValue at hway
    split at hway
    · rename_i found
      cases hway
      have equal := List.find?_some found
      exact ⟨.combine equal, fun sane => { sane with combine := List.mem_of_find?_eq_some found }⟩
    · cases hway
  | limit v =>
    obtain ⟨k, hk, h⟩ := ok_of_bind h
    cases h
    obtain ⟨whole, least⟩ := Admission.integer_ok.mp hk
    exact ⟨.limit whole, fun sane => { sane with limit := least }⟩
  | mode _ _ => cases h

/-- A control that takes a setting keeps its decision and its progress. -/
theorem tune_control {c c' : Control Float} {change : ControlSetting} (h : c.tune change = .ok c') :
    (∃ s', c.strategy.Sets change s' ∧ c' = { c with strategy := s' }) ∧ (c.strategy.Sane → c'.strategy.Sane) := by
  obtain ⟨last, strategy⟩ := c
  cases strategy with
  | refine marker mode limit =>
    cases change with
    | mode mode' v =>
      obtain ⟨k, hk, h⟩ := ok_of_bind h
      cases h
      obtain ⟨whole, least⟩ := Admission.integer_ok.mp hk
      exact ⟨⟨_, .refine whole, rfl⟩, fun _ => least⟩
    | threshold _ | combine _ | limit _ => cases h
  | coarsen how =>
    obtain ⟨how', hhow, h⟩ := ok_of_bind h
    cases h
    obtain ⟨sets, sane⟩ := tune_coarsening hhow
    exact ⟨⟨_, .coarsen sets, rfl⟩, sane⟩
  | coarsenLimited how stage =>
    obtain ⟨how', hhow, h⟩ := ok_of_bind h
    cases h
    obtain ⟨sets, sane⟩ := tune_coarsening hhow
    exact ⟨⟨_, .coarsenLimited sets, rfl⟩, sane⟩
  | rebalance | rotation _ _ | foreign _ _ => cases h

end

/-! ## Ranges over a run -/

/-- Markers have come by their settings from what may be given, and controls have theirs in range. -/
structure Kept (given : MarkerSetting → Prop) (b : Bench Float W) : Prop where
  markers : Sourced (Settings.From given) b
  controls : ∀ c ∈ b.controls, c.strategy.Sane

section

variable {site : Site Float W} {given : MarkerSetting → Prop} {b t : Bench Float W}

theorem sane_restart (s : Strategy Float) : s.restart.Sane ↔ s.Sane := by
  cases s <;> rfl

theorem Kept.of_same (h : Kept given b) (sources : t.sources = b.sources) (plan : t.plan = b.plan) :
    Kept given t where
  markers m hm estimator settings hs := by
    have mem : m.source ∈ t.sources := List.mem_map_of_mem hm
    obtain ⟨m', hm', same⟩ := List.mem_map.mp (sources ▸ mem)
    exact h.markers m' hm' estimator settings (same.trans hs)
  controls c hc := by
    have mem : c.strategy.restart ∈ t.plan := List.mem_map_of_mem hc
    obtain ⟨c', hc', same⟩ := List.mem_map.mp (plan ▸ mem)
    rw [← sane_restart, ← same, sane_restart]
    exact h.controls c' hc'

theorem Kept.noteFault (h : Kept given b) (f : Fault) : Kept given (b.noteFault f) :=
  h.of_same (sources_noteFault b f) (plan_noteFault b f)

theorem Kept.setMarker (h : Kept given b) {k : MarkerId} {m : Marker Float}
    (offered : Offered given m.source) : Kept given (b.setMarker k m) where
  markers m' hm' := by
    rcases List.mem_or_eq_of_mem_set hm' with old | rfl
    · exact h.markers m' old
    · exact offered
  controls := h.controls

theorem Kept.setControl (h : Kept given b) {k : ControlId} {c : Control Float} (sane : c.strategy.Sane) :
    Kept given (b.setControl k c) where
  markers := h.markers
  controls c' hc' := by
    rcases List.mem_or_eq_of_mem_set hc' with old | rfl
    · exact h.controls c' old
    · exact sane

theorem kept_operate (h : Kept given b) (op : Handover.Op) (allowed : Allowed given op) :
    Kept given (stateAfter (op.act site) b) := by
  have aloof := aloof_sources site
  have mild := mild_rounds site
  have kept {α : Type} {x : Act Float W α} (hx : Keeps (Unseen Bench.sources) x) (hr : Keeps (Unseen Bench.rounds) x) :
      Kept given (stateAfter x b) := h.of_same (hx.after b) (plan_of_rounds hr b)
  cases op with
  | update depth c m =>
    refine h.of_same ((aloof.update depth c m).discard.after b) ?_
    rw [Handover.Op.act, stateAfter_discard, plan_update]
  | reset depth c => exact h.of_same ((aloof.resets depth c).after b) (plan_reset depth c b)
  | tuneControl k change =>
    refine Act.changeControl_leaves (fun _ => h) (fun _ f _ _ => h.noteFault f) fun c c' hc tuned => ?_
    exact h.setControl ((tune_control tuned).2 (h.controls c (List.mem_of_getElem? hc)))
  | read k => exact kept (aloof.read k).discard (mild.read k).discard
  | stops k => exact kept (aloof.stops (aloof.read k)).discard (mild.stops (mild.read k)).discard
  | tuneMarker k change =>
    refine Act.changeMarker_leaves (fun _ => h) (fun _ f _ _ => h.noteFault f) fun m m' hm tuned => ?_
    obtain ⟨estimator, s, s', hs, changed, rfl⟩ := tune_marker tuned
    refine h.setMarker fun _ settings same => ?_
    cases same
    exact .tune change (h.markers m (List.mem_of_getElem? hm) estimator s hs) (allowed k change rfl) changed
  | forget k =>
    refine Act.changeMarker_leaves (fun _ => h) (fun _ f _ _ => h.noteFault f) fun m m' hm forgotten => ?_
    cases forgotten
    exact h.setMarker (h.markers m (List.mem_of_getElem? hm))
  | refine m marks mode limit => exact kept (aloof.refineMesh m marks mode limit) (mild.refineMesh m marks mode limit)

theorem configured_new (estimator : EstimatorId) : (Coarsening.new estimator).Sane where
  threshold := ⟨0, Binary64.worth_zero⟩
  limit := le_rfl
  combine := .tail _ (.head _)

theorem Built.sane {s : Strategy Float} (h : Built s) : s.Sane := by
  cases h with
  | plain plain =>
    cases plain with
    | refine _ => exact le_rfl
    | coarsen estimator | coarsenLimited estimator => exact configured_new estimator
    | rebalance | rotation => trivial
  | foreign _ _ => trivial

theorem run_kept (run : Run site given b) : Kept given b := by
  induction run with
  | start markers controls =>
    refine ⟨fun m hm => ?_, fun c hc => ?_⟩
    · rw [markers] at hm
      cases hm
    · rw [controls] at hc
      cases hc
  | marks _ offered ih =>
    refine ⟨fun m hm estimator settings hs => ?_, ih.controls⟩
    rcases List.mem_append.mp hm with old | new
    · exact ih.markers m old estimator settings hs
    · obtain rfl := List.mem_singleton.mp new
      exact offered estimator settings hs
  | makes _ built ih =>
    refine ⟨ih.markers, fun c hc => ?_⟩
    rcases List.mem_append.mp hc with old | new
    · exact ih.controls c old
    · obtain rfl := List.mem_singleton.mp new
      exact built.sane
  | operate op _ allowed ih => exact kept_operate ih op allowed
  | @append b k m _ ih =>
    refine ends_stateAfter.mp ((Rotation.append_ends k m).mono ?_ ?_)
    · rintro _ t ⟨-, last, cursor, members, -, -, rfl⟩
      exact ih.setControl trivial
    · rintro _ _ rfl
      exact ih
  | @clear b k _ ih =>
    refine ends_stateAfter.mp ((Rotation.clear_ends k).mono ?_ ?_)
    · rintro _ t ⟨last, cursor, members, -, rfl⟩
      exact ih.setControl trivial
    · rintro _ _ rfl
      exact ih
  | @meanwhile b t _ same ih =>
    have markers : t.markers = b.markers := congrArg Prod.fst same
    have controls : t.controls = b.controls := congrArg Prod.snd same
    refine ⟨fun m hm => ih.markers m (markers ▸ hm), controls ▸ ih.controls⟩

theorem Kept.configured (h : Kept given b) : Configured b where
  markers m hm estimator settings hs := (h.markers m hm estimator settings hs).admitted
  controls := h.controls

/-- Where nothing vanishes all exponents are above zero. -/
theorem Kept.positive (h : Kept given b) (stay : ∀ change, given change → ¬change.Vanishes) :
    Sourced Settings.Positive b :=
  fun m hm estimator settings hs => (h.markers m hm estimator settings hs).positive stay

end

/-! ## Until the next read -/

section

variable (site : Site Float W) (k : MarkerId)

/-- What happened from `b` on is no read of marker `k`. -/
inductive Unread (b : Bench Float W) : Bench Float W → Prop
  | refl : Unread b b
  | step {t u op} : Unread b t → op.isRead = false → Freshness.Goes site k op t u → Unread b u

/-- A read of marker `k` runs a pass, and keeps and counts its marking if it returns; no mesh is older than
    a stamp of nothing. -/
def Due (u : Bench Float W) : Prop :=
  ∃ m estimator settings, u.markers[k]? = some m ∧ m.source = .threshold estimator settings ∧
    (Stamped.unset ≤ site.version m.mesh u.world → Marking.read site k u =
      match Marking.pass site m.mesh estimator settings u with
      | .ok v w => .ok v (w.passed k m (site.version m.mesh u.world) v)
      | .error f w => .error f w)

end

/-- How many passes marker `k` has run, and how many elements they marked. -/
def counted (k : MarkerId) (b : Bench Float W) : Option (ℕ × ℤ) :=
  b.markers[k]?.map fun m => (m.cache.builds, m.tally)

/-- Marker `k` is as `m` was, but for its settings, and keeps no marking. -/
def Emptied (k : MarkerId) (m : Marker Float) (estimator : EstimatorId) (b : Bench Float W) : Prop :=
  ∃ settings, b.markers[k]? = some { m with source := .threshold estimator settings, cache := m.cache.forget }

section

variable {site : Site Float W} {given : MarkerSetting → Prop} {k : MarkerId} {b t u : Bench Float W}
  {m : Marker Float} {estimator : EstimatorId}

/-- A change that touches no more than the settings leaves the marker empty, be it refused or made. -/
theorem Emptied.change (h : Emptied k m estimator t) {f : Marker Float → Except Fault (Marker Float)}
    (mild : ∀ m₁ s₁ m', m₁.source = .threshold estimator s₁ → f m₁ = .ok m' → ∃ s,
      m' = { m₁ with source := .threshold estimator s, cache := m₁.cache.forget }) :
    Emptied k m estimator (stateAfter (Act.changeMarker k f : Act Float W Unit) t) := by
  obtain ⟨s₁, hk⟩ := h
  refine Act.changeMarker_leaves (I := Emptied k m estimator) (fun _ => ⟨s₁, hk⟩) (fun _ e _ _ => ?_) ?_
  · have same : (t.noteFault e).markers = t.markers := congrArg Prod.fst (Bench.noteFault_objects t e)
    exact ⟨s₁, same ▸ hk⟩
  · intro m₁ m' hm₁ changed
    obtain rfl := Option.some.inj (hk.symm.trans hm₁)
    obtain ⟨s, rfl⟩ := mild _ s₁ m' rfl changed
    exact ⟨s, Bench.setMarker_get hk⟩

theorem Emptied.unread (h : Emptied k m estimator t) (unread : Unread site k t u) : Emptied k m estimator u := by
  induction unread with
  | refl => exact h
  | step _ silent goes ih =>
    cases goes with
    | read | stops => cases silent
    | tune change =>
      refine ih.change fun m₁ s₁ m' hs tuned => ?_
      obtain ⟨_, _, s, hs', -, rfl⟩ := tune_marker tuned
      obtain ⟨rfl, -⟩ := Source.threshold.inj (hs.symm.trans hs')
      exact ⟨s, rfl⟩
    | forget =>
      refine ih.change fun m₁ s₁ m' hs forgotten => ?_
      cases forgotten
      exact ⟨s₁, by rw [← hs]; rfl⟩
    | other same =>
      obtain ⟨s, hk⟩ := ih
      exact ⟨s, same.trans hk⟩

theorem Emptied.due (h : Emptied k m estimator u) : Due site k u := by
  obtain ⟨settings, hk⟩ := h
  refine ⟨_, estimator, settings, hk, rfl, fun started => ?_⟩
  refine (Marking.read_build hk rfl (Stamped.probe_build.mpr ⟨started, .inl rfl⟩)).trans ?_
  cases Marking.pass site m.mesh estimator settings u <;> rfl

theorem Emptied.counted (h : Emptied k m estimator u) : counted k u = some (m.cache.builds, m.tally) := by
  obtain ⟨settings, hk⟩ := h
  rw [Setters.counted, hk]
  rfl

/-! ## All or nothing -/

/-- In any state that can be reached all settings are in range, if nothing was given for an exponent that
    vanishes, and else all but exponents that are zero. A setter that fails leaves all objects and the
    surroundings as they were. One that returns changes what it was told to change and nothing else, but for the
    marking that a marker keeps: the next read runs a pass, and none is counted until then. -/
theorem all_or_nothing (run : Run site given b) :
    (Configured b ∧ ((∀ change, given change → ¬change.Vanishes) → Sourced Settings.Positive b)) ∧
      (∀ k change, Ends (Act.changeMarker k (fun m => m.tune change) : Act Float W Unit) b
        (fun _ t => ∃ m estimator s s', b.markers[k]? = some m ∧ m.source = .threshold estimator s ∧
          s.Sets change s' ∧
          t = b.setMarker k { m with source := .threshold estimator s', cache := m.cache.forget } ∧
          ∀ u, Unread site k t u → Due site k u ∧ counted k u = counted k b)
        (fun _ t => t.objects = b.objects ∧ t.world = b.world)) ∧
      ∀ k change, Ends (Act.changeControl k (fun c => c.tune change) : Act Float W Unit) b
        (fun _ t => ∃ c s', b.controls[k]? = some c ∧ c.strategy.Sets change s' ∧
          t = b.setControl k { c with strategy := s' })
        (fun _ t => t.objects = b.objects ∧ t.world = b.world) := by
  refine ⟨⟨(run_kept run).configured, (run_kept run).positive⟩, fun k change => ?_, fun k change => ?_⟩
  · rw [Act.changeMarker, ends_bind]
    cases hk : b.markers[k]? with
    | none => exact (Act.ends_marker_none hk).mpr ⟨rfl, rfl⟩
    | some m =>
      rw [Act.ends_marker_some hk, ends_bind]
      cases tuned : m.tune change with
      | error f => exact ⟨Bench.noteFault_objects b f, Bench.noteFault_world b f⟩
      | ok m' =>
        obtain ⟨estimator, s, s', hs, changed, rfl⟩ := tune_marker tuned
        refine ⟨m, estimator, s, s', rfl, hs, tune_settings changed, rfl, fun u unread => ?_⟩
        have emptied : Emptied k m estimator u := Emptied.unread ⟨s', Bench.setMarker_get hk⟩ unread
        refine ⟨emptied.due, emptied.counted.trans ?_⟩
        rw [Setters.counted, hk]
        rfl
  · rw [Act.changeControl, ends_bind]
    cases hk : b.controls[k]? with
    | none => exact (Act.ends_control_none hk).mpr ⟨rfl, rfl⟩
    | some c =>
      rw [Act.ends_control_some hk, ends_bind]
      cases tuned : c.tune change with
      | error f => exact ⟨Bench.noteFault_objects b f, Bench.noteFault_world b f⟩
      | ok c' =>
        obtain ⟨⟨s', sets, rfl⟩, -⟩ := tune_control tuned
        exact ⟨c, s', rfl, sets, rfl⟩

end

/-- Surroundings with a mesh of two elements that starts at a version of its own. -/
def startingAt (version : Int) : Rig :=
  { Freshness.delivering 0 3 with
    meshes := [⟨.scripted ⟨2, version, [], [], [], []⟩, true, false, none⟩] }

/-- A marker and a limited control that were just made, on a mesh of two elements. -/
def furnished (version : Int) : Bench Float Rig where
  world := startingAt version
  markers := [Marker.new 0 (.threshold 0 Settings.default)]
  controls := [Control.new (.coarsenLimited (Coarsening.new 0) .coarsen)]
  trace := []

theorem run_furnished (given : MarkerSetting → Prop) (version : Int) : Run Rig.site given (furnished version) := by
  have started : Run Rig.site given (⟨startingAt version, [], [], []⟩ : Bench Float Rig) := .start rfl rfl
  have offered : Offered given (.threshold 0 Settings.default) := by
    rintro _ _ ⟨⟩
    exact .default
  exact (started.marks offered).makes (.plain (.coarsenLimited 0))

/-- The marker takes a goal, and its next read is due to run a pass; the control takes no text for a threshold. -/
theorem all_or_nothing_furnished :
    Run Rig.site (fun _ => True) (furnished 0) ∧
      (∃ t, Act.changeMarker 0 (fun m => m.tune (.localGoal (.int 2))) (furnished 0) = .ok ⟨⟩ t ∧
        Due Rig.site 0 t ∧ counted 0 t = some (0, 0)) ∧
      (∃ f t, Act.changeControl 0 (fun c => c.tune (.threshold (.text "low"))) (furnished 0) = .error f t ∧
        t.controls = (furnished 0).controls) ∧
      Sourced Settings.Positive (furnished 0) := by
  obtain ⟨-, markers, controls⟩ := all_or_nothing (run_furnished (fun _ => True) 0)
  obtain ⟨⟨-, positive⟩, -⟩ := all_or_nothing (run_furnished (fun _ => False) 0)
  have accepted : Act.changeMarker 0 (fun m => m.tune (.localGoal (.int 2))) (furnished 0) = .ok ⟨⟩
      (stateAfter (Act.changeMarker 0 fun m => m.tune (.localGoal (.int 2))) (furnished 0)) := outcome_ok rfl
  obtain ⟨_, _, _, _, -, -, -, -, later⟩ := (markers 0 (.localGoal (.int 2))).of_ok accepted
  obtain ⟨due, kept⟩ := later _ .refl
  obtain ⟨f, t, refused⟩ : ∃ f t, Act.changeControl 0 (fun c => c.tune (.threshold (.text "low"))) (furnished 0) =
      .error f t := ⟨_, _, rfl⟩
  obtain ⟨objects, -⟩ := (controls 0 (.threshold (.text "low"))).of_error refused
  exact ⟨run_furnished _ 0, ⟨_, accepted, due, kept⟩, ⟨f, t, refused, congrArg Prod.snd objects⟩,
    positive fun _ => False.elim⟩

/-- The long number 2^-1076. -/
def tiny : Value := .sized (.long (.finite false ⟨1, -1076⟩))

/-- The long number is accepted as an exponent, and zero is what is stored; and where a mesh starts below the
    stamp of nothing, the read after a setter runs no pass and is refused. -/
theorem setter_keeps_zero :
    (∃ t, Act.changeMarker 0 (fun m => m.tune (.exponent tiny)) (furnished 0) = .ok ⟨⟩ t ∧
      Run Rig.site (fun _ => True) t ∧ ¬Sourced Settings.Positive t) ∧
    Run Rig.site (fun _ => True) (furnished (-2)) ∧
      ∃ t u, Act.changeMarker 0 (fun m => m.tune (.localGoal (.int 2))) (furnished (-2)) = .ok ⟨⟩ t ∧
        Marking.read Rig.site 0 t = .error (.stale (-2) (-1) "ThresholdMarker") u := by
  have stored : Settings.default.tune (.exponent tiny) = .ok { Settings.default with exponent := .finite 0.0 } :=
    ok_of_toOption (by decide +kernel)
  have accepted := tuneMarker_ok (b := furnished 0) (k := 0) rfl rfl stored
  have reached := (run_furnished (fun _ => True) 0).operate (.tuneMarker 0 (.exponent tiny)) fun _ _ _ => trivial
  refine ⟨⟨_, accepted, ?_, fun positive => ?_⟩, run_furnished _ (-2), _, _, outcome_ok rfl, rfl⟩
  · rwa [Handover.Op.act, stateAfter, accepted] at reached
  · obtain ⟨q, worth, above⟩ := positive _ (.head _) 0 _ rfl 0.0 rfl
    exact above.ne' (worth.unique Binary64.worth_zero)

end Setters

end Regrid
