/-
  Regrid.Proofs.Freshness — what a threshold marker answers, over any history.

  A history of a marker begins when it is made and goes on by reads, by settings that are
  accepted or refused, by forgetting, and by anything else that leaves the marker alone:
  estimators may deliver something else, controls may work, and the mesh may change, which
  raises its version. The version never goes down, and starts at zero or above.

  An event is a raise of the version, an accepted setting, or a forgetting. What counts is
  the first read since the last event that got a marking (`since`). It got it from a pass,
  under the settings that are still in force, over the errors, flags and elements of that
  moment. Every read after it, up to the next event, answers from that marking without a
  pass. While there is no such read, each read runs a pass of its own; if the pass fails,
  so does the read, in the same way, and nothing is kept.

  Four of the five reads hand out a part of the marking (`Marking.read`); the fifth judges
  it (`Marking.stops`), which fails once more where the total is no real number.

  `Kept` is the invariant: it ties what the marker keeps to the pass of that first read, and
  its two counters to the passes that have returned.
-/

import Mathlib
import Regrid.Proofs.Passes
import Regrid.Rig

namespace Regrid.Freshness

variable {W : Type}

/-! ## Histories -/

inductive Op where
  | read
  | stops
  | tune (s : MarkerSetting)
  | forget
  | other

def Op.isRead : Op → Bool
  | .read | .stops => true
  | .tune _ | .forget | .other => false

/-- One thing that happened. -/
structure Entry (W : Type) where
  op : Op
  before : Bench Float W
  after : Bench Float W

section

variable (site : Site Float W) (k : MarkerId) (mesh : MeshId)

/-- How an operation on marker `k` may go; what is not one leaves the marker alone. -/
inductive Goes : Op → Bench Float W → Bench Float W → Prop
  | read (b) : Goes .read b (stateAfter (Marking.read site k) b)
  | stops (b) : Goes .stops b (stateAfter (Marking.stops site k) b)
  | tune (s b) : Goes (.tune s) b (stateAfter (Act.changeMarker k fun m => m.tune s) b)
  | forget (b) : Goes .forget b (stateAfter (Act.changeMarker k fun m => .ok m.forget) b)
  | other {b t} : t.markers[k]? = b.markers[k]? → Goes .other b t

/-- The history of marker `k` of a mesh, the latest first, and the bench it leads to. -/
inductive Run : List (Entry W) → Bench Float W → Prop
  | made {b estimator settings} : b.markers[k]? = some (Marker.new mesh (.threshold estimator settings)) →
      0 ≤ site.version mesh b.world → Run [] b
  | step {log b op t} : Run log b → Goes site k op b t →
      site.version mesh b.world ≤ site.version mesh t.world → Run (⟨op, b, t⟩ :: log) t

/-- The mesh changed, or what is kept was dropped. -/
def Entry.isEvent (e : Entry W) : Bool :=
  decide (site.version mesh e.before.world < site.version mesh e.after.world) ||
    match e.op with
    | .forget => true
    | .tune s => (outcome (Act.changeMarker k fun m => m.tune s) e.before).isOk
    | .read | .stops | .other => false

/-- The entry is a read that got a marking. -/
def Entry.obtains (e : Entry W) : Bool := e.op.isRead && (outcome (Marking.read site k) e.before).isOk

/-- The bench before the first read since the last event that got a marking. -/
def since : List (Entry W) → Option (Bench Float W)
  | [] => none
  | e :: log =>
    if e.isEvent site k mesh then none
    else match since log with
      | some b => some b
      | none => if e.obtains site k then some e.before else none

/-! ## Passes, as they can be observed -/

def isRequest : Event Float → Bool
  | .estimate _ => true
  | _ => false

/-- How often an estimator was asked. -/
def requests (b : Bench Float W) : Nat := b.trace.countP isRequest

/-- What a pass under the marker's settings comes to. -/
def passFrom (b : Bench Float W) : Option (Marking Float) :=
  match b.markers[k]?.map Marker.source with
  | some (.threshold estimator settings) => (outcome (Marking.pass site mesh estimator settings) b).toOption
  | _ => none

/-- The marking of the pass that a read ran: it asked the estimator, and the pass returned. -/
def Entry.pass? (e : Entry W) : Option (Marking Float) :=
  if e.op.isRead && decide (requests e.before < requests e.after) then passFrom site k mesh e.before else none

/-- The markings of the passes of a history, the latest first. -/
def passes (log : List (Entry W)) : List (Marking Float) := log.filterMap (Entry.pass? site k mesh)

/-- What the marker keeps, and how often it made it, given the history. -/
structure Kept (log : List (Entry W)) (m : Marker Float) (estimator : EstimatorId) (settings : Settings Float)
    (b : Bench Float W) : Prop where
  marker : b.markers[k]? = some m
  ofMesh : m.mesh = mesh
  source : m.source = .threshold estimator settings
  started : 0 ≤ site.version mesh b.world
  stamp : m.cache.stamp ≤ site.version mesh b.world
  builds : m.cache.builds = (passes site k mesh log).length
  tally : m.tally = ((passes site k mesh log).map Marking.marked).sum
  kept : ∀ b₀, since site k mesh log = some b₀ → ∃ v t₀, m.cache.value = some v ∧
    m.cache.stamp = site.version mesh b.world ∧ Marking.pass site mesh estimator settings b₀ = .ok v t₀
  unkept : since site k mesh log = none → m.cache.value = none ∨ m.cache.stamp < site.version mesh b.world

end

/-! ## Reads -/

section

variable {site : Site Float W} {k : MarkerId} {mesh : MeshId} {log : List (Entry W)} {m : Marker Float}
    {estimator : EstimatorId} {settings : Settings Float} {b : Bench Float W}

/-- A criterion is judged by what is read. -/
theorem stops_of_read {v : Marking Float} {u : Bench Float W}
    (h : Kept site k mesh log m estimator settings b) (hread : Marking.read site k b = .ok v u) :
    Marking.stops site k b = Act.check (settings.stops v) u := by
  rw [Marking.stops_apply h.marker h.source, bind_of_ok hread]

theorem stops_of_failure {f : Fault} {u : Bench Float W} (h : Kept site k mesh log m estimator settings b)
    (hread : Marking.read site k b = .error f u) : Marking.stops site k b = .error f u := by
  rw [Marking.stops_apply h.marker h.source, bind_of_error hread]

theorem read_kept {v : Marking Float} (h : Kept site k mesh log m estimator settings b)
    (hv : m.cache.value = some v) (hstamp : m.cache.stamp = site.version mesh b.world) :
    Marking.read site k b = .ok v b := by
  refine Marking.read_answer h.marker ?_
  rw [h.ofMesh]
  exact Stamped.probe_answer.mpr ⟨hv, hstamp⟩

theorem read_unkept (h : Kept site k mesh log m estimator settings b)
    (hsince : since site k mesh log = none) :
    Marking.read site k b =
      match Marking.pass site mesh estimator settings b with
      | .ok v t => .ok v (t.passed k m (site.version mesh b.world) v)
      | .error f t => .error f t := by
  have hp : m.cache.probe (site.version m.mesh b.world) = .build := by
    rw [h.ofMesh]
    exact Stamped.probe_build.mpr ⟨h.stamp, h.unkept hsince⟩
  rw [Marking.read_build h.marker h.source hp, h.ofMesh]
  cases Marking.pass site mesh estimator settings b <;> rfl

/-- Judging what was read adds a note at most. -/
theorem check_after (v : Except Fault Bool) (b : Bench Float W) :
    (stateAfter (Act.check v : Act Float W Bool) b).objects = b.objects ∧
      (stateAfter (Act.check v : Act Float W Bool) b).world = b.world ∧
      requests (stateAfter (Act.check v : Act Float W Bool) b) = requests b := by
  cases v with
  | ok a => exact ⟨rfl, rfl, rfl⟩
  | error f =>
    refine ⟨b.noteFault_objects f, b.noteFault_world f, ?_⟩
    exact b.noteFault_of_record (I := fun t => requests t = requests b) f rfl fun _ => rfl

/-- Both kinds of read do the same to the marker, the surroundings and the estimator. -/
theorem reads_alike {op : Op} {t : Bench Float W} (h : Kept site k mesh log m estimator settings b)
    (hop : op.isRead = true) (hgoes : Goes site k op b t) :
    t.objects = (stateAfter (Marking.read site k) b).objects ∧
      t.world = (stateAfter (Marking.read site k) b).world ∧
      requests t = requests (stateAfter (Marking.read site k) b) := by
  cases hgoes with
  | read => exact ⟨rfl, rfl, rfl⟩
  | stops =>
    unfold stateAfter
    cases hread : Marking.read site k b with
    | ok v u =>
      rw [stops_of_read h hread]
      exact check_after (settings.stops v) u
    | error f u =>
      rw [stops_of_failure h hread]
      exact ⟨rfl, rfl, rfl⟩
  | tune _ | forget | other _ => cases hop

theorem requests_pass (site : Site Float W) (mesh : MeshId) (estimator : EstimatorId)
    (settings : Settings Float) (b : Bench Float W) :
    requests b < requests (stateAfter (Marking.pass site mesh estimator settings) b) := by
  have asked : requests (b.record (.estimate estimator)) ≤
      requests (stateAfter (Marking.pass site mesh estimator settings) b) :=
    (Marking.pass_asks mesh estimator settings b).sublist.countP_le
  have more : requests (b.record (.estimate estimator)) = requests b + 1 := List.countP_cons_of_pos rfl
  omega

/-! ## One step of a history -/

theorem isEvent_of_raise {op : Op} {t : Bench Float W}
    (h : site.version mesh b.world < site.version mesh t.world) :
    Entry.isEvent site k mesh ⟨op, b, t⟩ = true := by
  unfold Entry.isEvent
  rw [decide_eq_true h]
  rfl

theorem raise_of_isEvent {op : Op} {t : Bench Float W} (hop : op.isRead = true)
    (h : Entry.isEvent site k mesh ⟨op, b, t⟩ = true) :
    site.version mesh b.world < site.version mesh t.world := by
  unfold Entry.isEvent at h
  cases op with
  | read | stops => simpa using h
  | tune _ | forget | other => cases hop

theorem pass?_of_not_read {op : Op} {t : Bench Float W} (hop : op.isRead = false) :
    Entry.pass? site k mesh ⟨op, b, t⟩ = none := by
  unfold Entry.pass?
  simp [hop]

/-- What leaves the marker alone is an event only as a change of the mesh; without one, what was
    kept is kept. -/
theorem Kept.frame {op : Op} {t : Bench Float W} (h : Kept site k mesh log m estimator settings b)
    (hk : t.markers[k]? = b.markers[k]?) (hle : site.version mesh b.world ≤ site.version mesh t.world)
    (hpass : Entry.pass? site k mesh ⟨op, b, t⟩ = none)
    (hevent : Entry.isEvent site k mesh ⟨op, b, t⟩ = true →
      site.version mesh b.world < site.version mesh t.world)
    (hcalm : since site k mesh log = none → Entry.obtains site k ⟨op, b, t⟩ = false) :
    Kept site k mesh (⟨op, b, t⟩ :: log) m estimator settings t := by
  have hpasses : passes site k mesh (⟨op, b, t⟩ :: log) = passes site k mesh log := by
    simp only [passes, List.filterMap_cons, hpass]
  refine ⟨hk.trans h.marker, h.ofMesh, h.source, Int.le_trans h.started hle, Int.le_trans h.stamp hle,
    hpasses ▸ h.builds, hpasses ▸ h.tally, fun b₀ hb₀ => ?_, fun hnone => ?_⟩
  · by_cases hev : Entry.isEvent site k mesh ⟨op, b, t⟩ = true
    · rw [since, if_pos hev] at hb₀
      cases hb₀
    · have same : site.version mesh t.world = site.version mesh b.world := by
        have := mt isEvent_of_raise hev
        omega
      rw [since, if_neg hev] at hb₀
      cases hsince : since site k mesh log with
      | none => simp [hsince, hcalm hsince] at hb₀
      | some b₁ =>
        rw [hsince] at hb₀
        obtain rfl : b₁ = b₀ := Option.some.inj hb₀
        obtain ⟨v, t₀, hv, hstamp, hpassed⟩ := h.kept b₁ hsince
        exact ⟨v, t₀, hv, hstamp.trans same.symm, hpassed⟩
  · by_cases hev : Entry.isEvent site k mesh ⟨op, b, t⟩ = true
    · have := h.stamp
      have := hevent hev
      right
      omega
    · rw [since, if_neg hev] at hnone
      cases hsince : since site k mesh log with
      | none =>
        rcases h.unkept hsince with hvalue | hlt
        · exact .inl hvalue
        · right
          omega
      | some b₁ => simp [hsince] at hnone

/-- What drops the kept marking is an event. -/
theorem Kept.drop {op : Op} {t : Bench Float W} {m' : Marker Float} {settings' : Settings Float}
    (h : Kept site k mesh log m estimator settings b) (hk : t.markers[k]? = some m')
    (hmesh : m'.mesh = m.mesh) (hsource : m'.source = .threshold estimator settings')
    (hcache : m'.cache = m.cache.forget) (htally : m'.tally = m.tally) (hworld : t.world = b.world)
    (hop : op.isRead = false) (hevent : Entry.isEvent site k mesh ⟨op, b, t⟩ = true) :
    Kept site k mesh (⟨op, b, t⟩ :: log) m' estimator settings' t := by
  have hpasses : passes site k mesh (⟨op, b, t⟩ :: log) = passes site k mesh log := by
    simp only [passes, List.filterMap_cons, pass?_of_not_read hop]
  have hstarted := h.started
  refine ⟨hk, hmesh.trans h.ofMesh, hsource, hworld ▸ h.started, ?_, ?_, ?_, fun b₀ hb₀ => ?_, fun _ => ?_⟩
  · rw [hcache, hworld]
    show (-1 : Int) ≤ _
    omega
  · rw [hcache, hpasses]
    exact h.builds
  · rw [htally, hpasses]
    exact h.tally
  · rw [since, if_pos hevent] at hb₀
    cases hb₀
  · left
    rw [hcache]
    rfl

/-- A read whose pass returns keeps its marking, and counts it. -/
theorem Kept.build {op : Op} {t t' : Bench Float W} {v : Marking Float}
    (h : Kept site k mesh log m estimator settings b) (hsince : since site k mesh log = none)
    (hop : op.isRead = true) (hgoes : Goes site k op b t)
    (hle : site.version mesh b.world ≤ site.version mesh t.world)
    (hpass : Marking.pass site mesh estimator settings b = .ok v t') :
    Kept site k mesh (⟨op, b, t⟩ :: log) (m.passed (site.version mesh b.world) v) estimator settings t := by
  have hread := read_unkept h hsince
  rw [hpass] at hread
  obtain ⟨hobjects, -, hrequests⟩ := reads_alike h hop hgoes
  simp only [stateAfter, hread] at hobjects hrequests
  have hk : t.markers[k]? = some (m.passed (site.version mesh b.world) v) := by
    have alone := ((silent_objects site).pass mesh estimator settings).after b
    simp only [stateAfter, hpass] at alone
    have ht' : t'.markers[k]? = some m := (congrArg (·.1[k]?) alone).trans h.marker
    exact (congrArg (·.1[k]?) hobjects).trans (Bench.setMarker_get ht')
  have hpassed : Entry.pass? site k mesh ⟨op, b, t⟩ = some v := by
    have asked := requests_pass site mesh estimator settings b
    simp only [stateAfter, hpass] at asked
    have grown : requests b < requests t := by
      rw [hrequests]
      exact asked
    simp only [Entry.pass?, hop, decide_eq_true grown, Bool.and_self, if_true, passFrom, h.marker,
      Option.map_some, h.source, outcome, hpass]
    rfl
  have hpasses : passes site k mesh (⟨op, b, t⟩ :: log) = v :: passes site k mesh log := by
    simp only [passes, List.filterMap_cons, hpassed]
  have hobtains : Entry.obtains site k ⟨op, b, t⟩ = true := by
    simp only [Entry.obtains, hop, outcome, hread]
    rfl
  refine ⟨hk, h.ofMesh, h.source, Int.le_trans h.started hle, hle, ?_, ?_, fun b₀ hb₀ => ?_, fun hnone => ?_⟩
  · rw [hpasses, List.length_cons, ← h.builds]
    rfl
  · rw [hpasses, List.map_cons, List.sum_cons, ← h.tally]
    exact Int.add_comm _ _
  · by_cases hev : Entry.isEvent site k mesh ⟨op, b, t⟩ = true
    · rw [since, if_pos hev] at hb₀
      cases hb₀
    · have same : site.version mesh t.world = site.version mesh b.world := by
        have := mt isEvent_of_raise hev
        omega
      rw [since, if_neg hev, hsince] at hb₀
      simp only [hobtains, if_true, Option.some.injEq] at hb₀
      subst hb₀
      exact ⟨v, t', rfl, same.symm, hpass⟩
  · by_cases hev : Entry.isEvent site k mesh ⟨op, b, t⟩ = true
    · exact .inr (raise_of_isEvent hop hev)
    · rw [since, if_neg hev, hsince] at hnone
      simp [hobtains] at hnone

theorem Kept.read {op : Op} {t : Bench Float W} (h : Kept site k mesh log m estimator settings b)
    (hop : op.isRead = true) (hgoes : Goes site k op b t)
    (hle : site.version mesh b.world ≤ site.version mesh t.world) :
    ∃ m', Kept site k mesh (⟨op, b, t⟩ :: log) m' estimator settings t := by
  obtain ⟨hobjects, -, hrequests⟩ := reads_alike h hop hgoes
  cases hsince : since site k mesh log with
  | some b₀ =>
    obtain ⟨v, t₀, hv, hstamp, -⟩ := h.kept b₀ hsince
    simp only [stateAfter, read_kept h hv hstamp] at hobjects hrequests
    refine ⟨m, h.frame (congrArg (·.1[k]?) hobjects) hle ?_ (raise_of_isEvent hop) ?_⟩
    · simp [Entry.pass?, hrequests]
    · rw [hsince]
      intro hnone
      cases hnone
  | none =>
    have hread := read_unkept h hsince
    cases hpass : Marking.pass site mesh estimator settings b with
    | ok v t' => exact ⟨_, h.build hsince hop hgoes hle hpass⟩
    | error f t' =>
      rw [hpass] at hread
      have alone := ((silent_objects site).pass mesh estimator settings).after b
      simp only [stateAfter, hpass] at alone
      simp only [stateAfter, hread] at hobjects
      refine ⟨m, h.frame (congrArg (·.1[k]?) (hobjects.trans alone)) hle ?_ (raise_of_isEvent hop) fun _ => ?_⟩
      · simp only [Entry.pass?, passFrom, h.marker, Option.map_some, h.source, outcome, hpass]
        exact ite_self none
      · simp only [Entry.obtains, outcome, hread]
        exact Bool.and_false _

theorem Kept.tune {t : Bench Float W} {change : MarkerSetting}
    (h : Kept site k mesh log m estimator settings b)
    (ht : t = stateAfter (Act.changeMarker k fun m => m.tune change) b) :
    ∃ m' settings', Kept site k mesh (⟨.tune change, b, t⟩ :: log) m' estimator settings' t := by
  have hchange : Act.changeMarker k (fun m => m.tune change) b =
      (Act.check (m.tune change) >>= fun m' => Act.putMarker k m' : Act Float W Unit) b := by
    rw [Act.changeMarker, bind_of_ok (Act.marker_apply h.marker)]
  cases htune : m.tune change with
  | error f =>
    have hfails : Act.changeMarker k (fun m => m.tune change) b = .error f (b.noteFault f) := by
      rw [hchange, htune]
      rfl
    have hsame : t = b.noteFault f := by
      rw [ht, stateAfter, hfails]
    subst hsame
    have hworld := b.noteFault_world f
    refine ⟨m, settings, h.frame (congrArg (·.1[k]?) (b.noteFault_objects f))
      (Int.le_of_eq (congrArg (site.version mesh) hworld.symm)) (pass?_of_not_read rfl) (fun hev => ?_)
      fun _ => rfl⟩
    simp only [Entry.isEvent, outcome, hfails, hworld, Bool.or_eq_true, decide_eq_true_eq] at hev
    rcases hev with hlt | hok
    · omega
    · cases hok
  | ok m' =>
    have hpasses : Act.changeMarker k (fun m => m.tune change) b = .ok ⟨⟩ (b.setMarker k m') := by
      rw [hchange, htune]
      rfl
    have hput : t = b.setMarker k m' := by
      rw [ht, stateAfter, hpasses]
    subst hput
    obtain ⟨settings', rfl⟩ : ∃ settings',
        { m with source := .threshold estimator settings' : Marker Float }.forget = m' := by
      simp only [Marker.tune, h.source] at htune
      cases hs : settings.tune change with
      | error f => rw [hs] at htune; cases htune
      | ok settings' => rw [hs] at htune; exact ⟨settings', Except.ok.inj htune⟩
    refine ⟨_, settings', h.drop (Bench.setMarker_get h.marker) rfl rfl rfl rfl rfl rfl ?_⟩
    simp only [Entry.isEvent, outcome, hpasses]
    exact Bool.or_true _

theorem run_kept (h : Run site k mesh log b) :
    ∃ m estimator settings, Kept site k mesh log m estimator settings b := by
  induction h with
  | made hk hstarted =>
    refine ⟨_, _, _, hk, rfl, rfl, hstarted, ?_, rfl, rfl, nofun, fun _ => .inl rfl⟩
    show (-1 : Int) ≤ _
    omega
  | @step log b op t _ hgoes hle ih =>
    obtain ⟨m, estimator, settings, h⟩ := ih
    cases hop : op with
    | read | stops =>
      subst hop
      obtain ⟨m', h'⟩ := h.read rfl hgoes hle
      exact ⟨m', estimator, settings, h'⟩
    | tune change =>
      subst hop
      cases hgoes
      obtain ⟨m', settings', h'⟩ := h.tune rfl
      exact ⟨m', estimator, settings', h'⟩
    | forget =>
      subst hop
      cases hgoes
      have hforget : (Act.changeMarker k (fun m => .ok m.forget) : Act Float W Unit) b =
          .ok ⟨⟩ (b.setMarker k m.forget) := by
        rw [Act.changeMarker, bind_of_ok (Act.marker_apply h.marker)]
        rfl
      simp only [stateAfter, hforget]
      refine ⟨_, estimator, settings, h.drop (Bench.setMarker_get h.marker) rfl h.source rfl rfl rfl rfl ?_⟩
      exact Bool.or_true _
    | other =>
      subst hop
      cases hgoes with
      | other hk =>
        refine ⟨m, estimator, settings, h.frame hk hle (pass?_of_not_read rfl) (fun hev => ?_) fun _ => rfl⟩
        simpa [Entry.isEvent] using hev

/-- Over any history, a read answers from the pass of the first read since the last event that
    got a marking, and runs a pass of its own where there is no such read. The marker counts the
    passes that have returned and the elements they marked. -/
theorem reads_are_fresh (h : Run site k mesh log b) :
    ∃ m estimator settings, b.markers[k]? = some m ∧ m.mesh = mesh ∧ m.source = .threshold estimator settings ∧
      m.cache.builds = (passes site k mesh log).length ∧
      m.tally = ((passes site k mesh log).map Marking.marked).sum ∧
      (∀ b₀, since site k mesh log = some b₀ → ∃ v t₀,
        Marking.pass site mesh estimator settings b₀ = .ok v t₀ ∧
        Marking.read site k b = .ok v b ∧ Marking.stops site k b = Act.check (settings.stops v) b) ∧
      (since site k mesh log = none →
        (∀ v t, Marking.pass site mesh estimator settings b = .ok v t → ∃ u, u.world = t.world ∧
          Marking.read site k b = .ok v u ∧ Marking.stops site k b = Act.check (settings.stops v) u) ∧
        (∀ f t, Marking.pass site mesh estimator settings b = .error f t → t.markers = b.markers ∧
          Marking.read site k b = .error f t ∧ Marking.stops site k b = .error f t)) := by
  obtain ⟨m, estimator, settings, kept⟩ := run_kept h
  refine ⟨m, estimator, settings, kept.marker, kept.ofMesh, kept.source, kept.builds, kept.tally,
    fun b₀ hb₀ => ?_, fun hnone => ⟨fun v t hpass => ?_, fun f t hpass => ?_⟩⟩
  · obtain ⟨v, t₀, hv, hstamp, hpass⟩ := kept.kept b₀ hb₀
    have hread := read_kept kept hv hstamp
    exact ⟨v, t₀, hpass, hread, stops_of_read kept hread⟩
  · have hread := read_unkept kept hnone
    rw [hpass] at hread
    exact ⟨t.passed k m (site.version mesh b.world) v, rfl, hread, stops_of_read kept hread⟩
  · have hread := read_unkept kept hnone
    rw [hpass] at hread
    have alone := ((silent_objects site).pass mesh estimator settings).after b
    simp only [stateAfter, hpass] at alone
    exact ⟨congrArg Prod.fst alone, hread, stops_of_failure kept hread⟩

end

/-- A rig with a mesh of two elements and an estimator that delivers two errors. -/
def delivering (x y : Float) : Rig where
  meshes := [⟨.forest (Forest.ofRoots 2 0), true, false, none⟩]
  estimators := [⟨.vector (.list [.real x, .real y]), 0⟩]
  controls := []
  markers := []

/-- A bench with a marker of that mesh that was just made. -/
def start : Bench Float Rig := ⟨delivering 0 3, [Marker.new 0 (.threshold 0 Settings.default)], [], []⟩

/-- The marking of the first read, whatever the estimator delivers afterwards. -/
theorem reads_are_fresh_delivered :
    ∃ log t v, Run Rig.site 0 0 log t ∧ t.world = delivering 7 7 ∧ Marking.read Rig.site 0 t = .ok v t ∧
      v.marks = [⟨1, Directions.xyz⟩] := by
  have made : Run Rig.site 0 0 [] start := .made rfl (by decide)
  have first : Run Rig.site 0 0 [_] _ := made.step (.read start) (by decide)
  have changed : Run Rig.site 0 0 [_, _]
      { stateAfter (Marking.read Rig.site 0) start with world := delivering 7 7 } :=
    first.step (.other rfl) (by decide)
  obtain ⟨m, estimator, settings, -, -, -, -, -, hfresh, -⟩ := reads_are_fresh changed
  obtain ⟨v, t₀, -, hread, -⟩ := hfresh start rfl
  have marks : (outcome (Marking.read Rig.site 0)
      { stateAfter (Marking.read Rig.site 0) start with world := delivering 7 7 }).toOption.map Marking.marks =
        some [⟨1, Directions.xyz⟩] := rfl
  simp only [outcome, hread, Except.toOption, Option.map_some, Option.some.injEq] at marks
  exact ⟨_, _, v, changed, rfl, hread, marks⟩

end Regrid.Freshness
