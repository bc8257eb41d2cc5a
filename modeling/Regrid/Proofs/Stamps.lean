/-
  Regrid.Proofs.Stamps — a kept value, told from the calls that were made.

  What a read of a stamped cache does is told by its value, its stamp and the live version
  (`probe_answer`, `probe_refuse`, `probe_build`, `read_apply`). Here the same is told
  without the cache. A run is made of reads and invalidations in any order, and between
  them the rest of the state changes in any way, the live version among it, up or down; a
  builder may fail, and may change the version too. From the calls of a run alone one
  knows which value is kept (`kept`): the latest that was built since the last
  invalidation, with the version its read had found before it was built.

  A cache that starts empty and is changed by these calls only says just that, and counts
  the builds of the whole run (`Told`). So a read answers to its history (`Answers`): it
  is refused where the live version is below that of the kept value, gives that value
  where the two are equal, and otherwise runs the builder, once; what the builder returns
  is kept with the version from before it ran, and if it fails nothing changes.

  The stamp of an empty cache is a number too, and a version may be equal to it. Then
  nothing is refused, for no version is below it, and nothing is answered, for there is no
  value.
-/

import Regrid.Rig.Cache
import Regrid.Proofs.Outcome

namespace Regrid.Stamped

variable {α S : Type} {c : Stamped α} {live : Int}

/-! ## What a read does -/

theorem probe_answer {v : α} : c.probe live = .answer v ↔ c.value = some v ∧ c.stamp = live := by
  unfold probe
  by_cases back : live < c.stamp
  · rw [if_pos back]
    exact ⟨nofun, fun h => by omega⟩
  · rw [if_neg back]
    cases c.value with
    | none => exact ⟨nofun, fun h => nomatch h.1⟩
    | some w =>
      by_cases old : c.stamp < live
      · simp only [old, if_true]
        exact ⟨nofun, fun h => by omega⟩
      · simp only [old, if_false, Probe.answer.injEq, Option.some.injEq]
        exact ⟨fun h => ⟨h, by omega⟩, fun h => h.1⟩

theorem probe_build : c.probe live = .build ↔ c.stamp ≤ live ∧ (c.value = none ∨ c.stamp < live) := by
  unfold probe
  by_cases back : live < c.stamp
  · rw [if_pos back]
    exact ⟨nofun, fun h => by omega⟩
  · rw [if_neg back]
    cases c.value with
    | none => exact ⟨fun _ => ⟨by omega, .inl rfl⟩, fun _ => rfl⟩
    | some w =>
      by_cases old : c.stamp < live
      · simp only [old, if_true]
        exact ⟨fun _ => ⟨by omega, .inr trivial⟩, fun _ => trivial⟩
      · simp only [old, if_false]
        exact ⟨nofun, fun h => h.2.elim nofun False.elim⟩

theorem probe_refuse : c.probe live = .refuse ↔ live < c.stamp := by
  unfold probe
  by_cases back : live < c.stamp
  · rw [if_pos back]
    exact ⟨fun _ => back, fun _ => rfl⟩
  · rw [if_neg back]
    refine ⟨fun h => ?_, fun h => absurd h back⟩
    cases hv : c.value with
    | none => rw [hv] at h; cases h
    | some v =>
      rw [hv] at h
      simp only at h
      split at h <;> cases h

/-- The builder is run, and what it returns is kept with the version from before. -/
def anew (k : Keeper S α) (live : Int) : EStateM Fault S α := do
  let v ← k.build
  modify fun t => k.onBuild live (k.put ((k.cache t).store live v) t)
  return v

theorem read_apply (k : Keeper S α) (s : S) :
    read k s =
      match (k.cache s).probe (k.live s) with
      | .answer v => .ok v s
      | .refuse =>
        .error (.stale (k.live s) (k.cache s).stamp k.owner)
          (k.onRefuse (.stale (k.live s) (k.cache s).stamp k.owner) s)
      | .build => anew k (k.live s) s := by
  rw [read, bind_of_ok (get_apply s)]
  cases (k.cache s).probe (k.live s) <;> rfl

/-! ## Runs of calls -/

inductive Call where
  | get
  | invalidate
  deriving DecidableEq, Repr

/-- A call, and the state it was made in. -/
structure Entry (S : Type) where
  call : Call
  state : S

/-- The cache was empty at first, and then the calls, the latest first, were all that changed it. No read
    finds a version below the stamp of nothing. -/
inductive Run (k : Keeper S α) : List (Entry S) → S → Prop
  | made {s : S} : k.cache s = empty → Run k [] s
  | elsewhere {log : List (Entry S)} {s t : S} : Run k log s → k.cache t = k.cache s → Run k log t
  | get {log : List (Entry S)} {s : S} :
      Run k log s → unset ≤ k.live s → Run k (⟨.get, s⟩ :: log) (stateAfter (read k) s)
  | invalidate {log : List (Entry S)} {s : S} :
      Run k log s → Run k (⟨.invalidate, s⟩ :: log) (k.put (k.cache s).forget s)

/-- The cache is where it is put, reads are all that asks the builder, and a read changes the cache only to
    keep what was built. `asked` tells how often the builder was run. -/
structure Keeper.Sound (k : Keeper S α) (asked : S → Int) : Prop where
  cache_put : ∀ c s, k.cache (k.put c s) = c
  asked_put : ∀ c s, asked (k.put c s) = asked s
  cache_onRefuse : ∀ f s, k.cache (k.onRefuse f s) = k.cache s
  asked_onRefuse : ∀ f s, asked (k.onRefuse f s) = asked s
  cache_onBuild : ∀ live s, k.cache (k.onBuild live s) = k.cache s
  asked_onBuild : ∀ live s, asked (k.onBuild live s) = asked s
  build : ∀ s, Ends k.build s (fun _ t => k.cache t = k.cache s ∧ asked t = asked s + 1)
    (fun _ t => k.cache t = k.cache s ∧ asked t = asked s + 1)

/-- What was built in a call, with the version that the call found. -/
def Entry.built? (k : Keeper S α) (asked : S → Int) (e : Entry S) : Option (α × Int) :=
  match e.call, read k e.state with
  | .get, .ok v t => if asked t = asked e.state then none else some (v, k.live e.state)
  | _, _ => none

/-- What was built in these calls. -/
def built (k : Keeper S α) (asked : S → Int) (log : List (Entry S)) : List (α × Int) :=
  log.filterMap (Entry.built? k asked)

/-- The calls since the last invalidation. -/
def current (log : List (Entry S)) : List (Entry S) := log.takeWhile fun e => e.call = .get

/-- The value that a cache should hold after these calls, and its stamp. -/
def kept (k : Keeper S α) (asked : S → Int) (log : List (Entry S)) : Option (α × Int) :=
  (built k asked (current log)).head?

/-- What the cache says is what the calls tell. -/
structure Told (k : Keeper S α) (asked : S → Int) (log : List (Entry S)) (c : Stamped α) : Prop where
  value : c.value = (kept k asked log).map (·.1)
  stamp : c.stamp = ((kept k asked log).map (·.2)).getD unset
  builds : c.builds = (built k asked log).length
  increasing : ((built k asked (current log)).map (·.2)).Pairwise (· > ·)

/-- The live version is below that of the value that should be kept. -/
def Behind (k : Keeper S α) (asked : S → Int) (log : List (Entry S)) (s : S) : Prop :=
  ∃ v stamp, kept k asked log = some (v, stamp) ∧ k.live s < stamp

/-- A read after these calls does what the value that should be kept and the live version ask for. -/
structure Answers (k : Keeper S α) (asked : S → Int) (log : List (Entry S)) (s : S) : Prop where
  refuses : (∃ f t, read k s = .error f t ∧ asked t = asked s) ↔ Behind k asked log s
  refusal : ∀ v stamp, kept k asked log = some (v, stamp) → k.live s < stamp →
    outcome (read k) s = .error (.stale (k.live s) stamp k.owner)
  answers : (∃ v t, read k s = .ok v t ∧ asked t = asked s) ↔ ∃ v, kept k asked log = some (v, k.live s)
  answer : ∀ v, kept k asked log = some (v, k.live s) → read k s = .ok v s
  otherwise : ¬ Behind k asked log s → (¬ ∃ v, kept k asked log = some (v, k.live s)) →
    asked (stateAfter (read k) s) = asked s + 1 ∧ outcome (read k) s = outcome k.build s
  keeps : ∀ v t, read k s = .ok v t → asked t ≠ asked s →
    k.cache t = ⟨some v, k.live s, (k.cache s).builds + 1⟩
  fails : ∀ f t, read k s = .error f t → k.cache t = k.cache s

section

variable {k : Keeper S α} {asked : S → Int} {log : List (Entry S)} {s : S}

/-- Whether the builder is run, and what becomes of the cache. -/
theorem Keeper.Sound.probed (sound : k.Sound asked) (s : S) :
    match (k.cache s).probe (k.live s) with
    | .answer v => read k s = .ok v s
    | .refuse => Ends (read k) s (fun _ _ => False)
        (fun f t => f = .stale (k.live s) (k.cache s).stamp k.owner ∧ k.cache t = k.cache s ∧ asked t = asked s)
    | .build => outcome (read k) s = outcome k.build s ∧ Ends (read k) s
        (fun v t => k.cache t = (k.cache s).store (k.live s) v ∧ asked t = asked s + 1)
        (fun _ t => k.cache t = k.cache s ∧ asked t = asked s + 1) := by
  cases hp : (k.cache s).probe (k.live s) with
  | answer v => rw [read_apply, hp]
  | refuse =>
    have refused : read k s = _ := (read_apply k s).trans (by rw [hp])
    exact (ends_of_error refused).mpr ⟨rfl, sound.cache_onRefuse _ s, sound.asked_onRefuse _ s⟩
  | build =>
    have run : read k s = anew k (k.live s) s := (read_apply k s).trans (by rw [hp])
    have ends := sound.build s
    simp only [outcome, Ends, run]
    cases hb : k.build s with
    | error f t =>
      rw [anew, bind_of_error hb]
      exact ⟨rfl, ends.of_error hb⟩
    | ok v t =>
      obtain ⟨hcache, hasked⟩ := ends.of_ok hb
      rw [anew, bind_of_ok hb]
      refine ⟨rfl, ?_, ?_⟩
      · rw [sound.cache_onBuild, sound.cache_put, hcache]
      · rw [sound.asked_onBuild, sound.asked_put, hasked]

/-- A read builds nothing and leaves the cache, or it keeps what it built. -/
theorem Keeper.Sound.tells (sound : k.Sound asked) (s : S) :
    (Entry.built? k asked ⟨.get, s⟩ = none ∧ k.cache (stateAfter (read k) s) = k.cache s) ∨
      ∃ v, Entry.built? k asked ⟨.get, s⟩ = some (v, k.live s) ∧ (k.cache s).probe (k.live s) = .build ∧
        k.cache (stateAfter (read k) s) = (k.cache s).store (k.live s) v := by
  have probed := sound.probed s
  simp only [Entry.built?, stateAfter]
  cases hp : (k.cache s).probe (k.live s) with
  | answer v =>
    simp only [hp] at probed
    simp [probed]
  | refuse =>
    simp only [hp, Ends] at probed
    cases hr : read k s with
    | ok v t => rw [hr] at probed; exact probed.elim
    | error f t =>
      rw [hr] at probed
      exact .inl ⟨rfl, probed.2.1⟩
  | build =>
    simp only [hp, Ends] at probed
    cases hr : read k s with
    | error f t =>
      rw [hr] at probed
      exact .inl ⟨rfl, probed.2.1⟩
    | ok v t =>
      rw [hr] at probed
      obtain ⟨-, hcache, hasked⟩ := probed
      exact .inr ⟨v, if_neg (by omega), rfl, hcache⟩

/-! ## The calls tell what is kept -/

theorem built_nothing {e : Entry S} (h : e.built? k asked = none) : built k asked (e :: log) = built k asked log :=
  List.filterMap_cons_none h

theorem built_something {e : Entry S} {x : α × Int} (h : e.built? k asked = some x) :
    built k asked (e :: log) = x :: built k asked log :=
  List.filterMap_cons_some h

namespace Told

theorem nothing (k : Keeper S α) (asked : S → Int) : Told k asked [] empty := ⟨rfl, rfl, rfl, .nil⟩

/-- A read that builds nothing changes neither the cache nor what the calls tell. -/
theorem idle (h : Told k asked log c) (hb : Entry.built? k asked ⟨.get, s⟩ = none) :
    Told k asked (⟨.get, s⟩ :: log) c := by
  have recent : built k asked (current (⟨.get, s⟩ :: log)) = built k asked (current log) := built_nothing hb
  obtain ⟨value, stamp, builds, increasing⟩ := h
  rw [kept, ← recent] at value stamp
  rw [← recent] at increasing
  exact ⟨value, stamp, by rw [built_nothing hb, builds], increasing⟩

/-- What is built is kept, and no version it was built for since the last invalidation is as high. -/
theorem stored (h : Told k asked log c) {v : α} (hb : Entry.built? k asked ⟨.get, s⟩ = some (v, k.live s))
    (hp : c.probe (k.live s) = .build) : Told k asked (⟨.get, s⟩ :: log) (c.store (k.live s) v) := by
  have recent : built k asked (current (⟨.get, s⟩ :: log)) = (v, k.live s) :: built k asked (current log) :=
    built_something hb
  refine ⟨by rw [kept, recent]; rfl, by rw [kept, recent]; rfl, ?_, ?_⟩
  · rw [built_something hb, List.length_cons, ← h.builds]
    rfl
  · rw [recent]
    have increasing := h.increasing
    have value := h.value
    have stamp := h.stamp
    have older := (probe_build.mp hp).2
    unfold kept at value stamp
    cases hlist : built k asked (current log) with
    | nil => exact List.pairwise_singleton _ _
    | cons latest earlier =>
      rw [hlist] at increasing value stamp
      have below : latest.2 < k.live s := by
        rcases older with nothing | lower
        · rw [nothing] at value
          cases value
        · rw [stamp] at lower
          exact lower
      refine List.pairwise_cons.mpr ⟨fun stamp' hmem => ?_, increasing⟩
      rcases List.mem_cons.mp hmem with rfl | hearlier
      · exact below
      · have earlier_lt : stamp' < latest.2 := (List.pairwise_cons.mp increasing).1 stamp' hearlier
        show stamp' < k.live s
        omega

theorem forgotten (h : Told k asked log c) : Told k asked (⟨.invalidate, s⟩ :: log) c.forget :=
  ⟨rfl, rfl, h.builds, .nil⟩

/-- A cache without a value has the stamp of nothing. -/
theorem unset_of_none (h : Told k asked log c) (hv : c.value = none) : c.stamp = unset := by
  rw [h.stamp]
  have value := h.value
  rw [hv] at value
  cases hk : kept k asked log with
  | none => rfl
  | some x => rw [hk] at value; cases value

theorem eq_some (h : Told k asked log c) {v : α} {stamp : Int} :
    kept k asked log = some (v, stamp) ↔ c.value = some v ∧ c.stamp = stamp := by
  rw [h.value, h.stamp]
  cases kept k asked log with
  | none => exact ⟨nofun, fun h => nomatch h.1⟩
  | some x => simp [Prod.ext_iff]

theorem answer_iff (h : Told k asked log (k.cache s)) {v : α} :
    (k.cache s).probe (k.live s) = .answer v ↔ kept k asked log = some (v, k.live s) := by
  rw [probe_answer, h.eq_some]

theorem refuse_iff (h : Told k asked log (k.cache s)) (hlive : unset ≤ k.live s) :
    (k.cache s).probe (k.live s) = .refuse ↔ Behind k asked log s := by
  rw [probe_refuse]
  constructor
  · intro below
    cases hv : (k.cache s).value with
    | none => rw [h.unset_of_none hv] at below; omega
    | some v => exact ⟨v, (k.cache s).stamp, h.eq_some.mpr ⟨hv, rfl⟩, below⟩
  · rintro ⟨v, stamp, hkept, below⟩
    rwa [(h.eq_some.mp hkept).2]

/-- One read, whatever comes of it, leaves what the calls tell. -/
theorem get (sound : k.Sound asked) (h : Told k asked log (k.cache s)) :
    Told k asked (⟨.get, s⟩ :: log) (k.cache (stateAfter (read k) s)) := by
  rcases sound.tells s with ⟨unbuilt, same⟩ | ⟨v, fresh, hp, stored⟩
  · rw [same]
    exact h.idle unbuilt
  · rw [stored]
    exact h.stored fresh hp

end Told

theorem Run.told (sound : k.Sound asked) (run : Run k log s) : Told k asked log (k.cache s) := by
  induction run with
  | made hs => rw [hs]; exact .nothing k asked
  | elsewhere _ ht ih => rw [ht]; exact ih
  | get _ _ ih => exact ih.get sound
  | invalidate _ ih => rw [sound.cache_put]; exact ih.forgotten

/-! ## A read answers to the calls -/

namespace Told

variable (sound : k.Sound asked) (h : Told k asked log (k.cache s)) (hlive : unset ≤ k.live s)

include sound h hlive

/-- The value that is kept is of this version. -/
theorem answers_level {v : α} (hp : (k.cache s).probe (k.live s) = .answer v) : Answers k asked log s := by
  have hkept := h.answer_iff.mp hp
  have behind : ¬ Behind k asked log s := fun hb => nomatch hp.symm.trans ((h.refuse_iff hlive).mpr hb)
  have probed := sound.probed s
  simp only [hp] at probed
  constructor
  · refine ⟨?_, fun hb => absurd hb behind⟩
    rintro ⟨f, t, hr, -⟩
    cases probed.symm.trans hr
  · intro v' stamp hstamp below
    exact absurd ⟨v', stamp, hstamp, below⟩ behind
  · exact ⟨fun _ => ⟨v, hkept⟩, fun _ => ⟨v, s, probed, rfl⟩⟩
  · intro v' hv'
    cases hkept.symm.trans hv'
    exact probed
  · intro _ hnone
    exact absurd ⟨v, hkept⟩ hnone
  · intro v' t hr moved
    cases probed.symm.trans hr
    exact absurd rfl moved
  · intro f t hr
    cases probed.symm.trans hr

/-- The value that is kept is of a later version. -/
theorem answers_behind (hp : (k.cache s).probe (k.live s) = .refuse) : Answers k asked log s := by
  have behind := (h.refuse_iff hlive).mp hp
  have level {v : α} : kept k asked log ≠ some (v, k.live s) := fun hv => nomatch hp.symm.trans (h.answer_iff.mpr hv)
  have probed := sound.probed s
  simp only [hp] at probed
  obtain ⟨v, stamp, hkept, below⟩ := id behind
  have hstamp : (k.cache s).stamp = stamp := (h.eq_some.mp hkept).2
  constructor
  · refine ⟨fun _ => behind, fun _ => ?_⟩
    cases hr : read k s with
    | ok v t => exact (probed.of_ok hr).elim
    | error f t => exact ⟨f, t, rfl, (probed.of_error hr).2.2⟩
  · intro v' stamp' hkept' _
    cases hkept.symm.trans hkept'
    exact Ends.fails (probed.mono (fun _ _ h => h) fun f t h => by rw [h.1, hstamp])
  · refine ⟨?_, fun ⟨v', hv'⟩ => absurd hv' level⟩
    rintro ⟨v', t, hr, -⟩
    exact (probed.of_ok hr).elim
  · intro v' hv'
    exact absurd hv' level
  · intro hnot
    exact absurd behind hnot
  · intro v' t hr
    exact (probed.of_ok hr).elim
  · intro f t hr
    exact (probed.of_error hr).2.1

/-- No value is kept, or one of an earlier version. -/
theorem answers_anew (hp : (k.cache s).probe (k.live s) = .build) : Answers k asked log s := by
  have behind : ¬ Behind k asked log s := fun hb => nomatch hp.symm.trans ((h.refuse_iff hlive).mpr hb)
  have level {v : α} : kept k asked log ≠ some (v, k.live s) := fun hv => nomatch hp.symm.trans (h.answer_iff.mpr hv)
  have probed := sound.probed s
  simp only [hp] at probed
  obtain ⟨same, ends⟩ := probed
  have ran : asked (stateAfter (read k) s) = asked s + 1 :=
    ends_stateAfter.mp (ends.mono (fun _ _ h => h.2) fun _ _ h => h.2)
  constructor
  · refine ⟨?_, fun hb => absurd hb behind⟩
    rintro ⟨f, t, hr, unasked⟩
    have := (ends.of_error hr).2
    omega
  · intro v stamp hstamp below
    exact absurd ⟨v, stamp, hstamp, below⟩ behind
  · refine ⟨?_, fun ⟨v, hv⟩ => absurd hv level⟩
    rintro ⟨v, t, hr, unasked⟩
    have := (ends.of_ok hr).2
    omega
  · intro v hv
    exact absurd hv level
  · intro _ _
    exact ⟨ran, same⟩
  · intro v t hr _
    exact (ends.of_ok hr).1
  · intro f t hr
    exact (ends.of_error hr).1

theorem answers : Answers k asked log s := by
  cases hp : (k.cache s).probe (k.live s) with
  | answer v => exact answers_level sound h hlive hp
  | refuse => exact answers_behind sound h hlive hp
  | build => exact answers_anew sound h hlive hp

end Told

/-- After any calls, whatever happened between them, the cache holds the value that the calls tell, with its
    stamp and the number of builds, and a read does what its history asks for. -/
theorem answers_by_history (k : Keeper S α) (asked : S → Int) (sound : k.Sound asked) {log : List (Entry S)}
    {s : S} (run : Run k log s) :
    Told k asked log (k.cache s) ∧ ((k.cache s).value = none → (k.cache s).stamp = unset) ∧
      (unset ≤ k.live s → Answers k asked log s) := by
  have told := run.told sound
  exact ⟨told, told.unset_of_none, Told.answers sound told⟩

end

end Regrid.Stamped

namespace Regrid.RigCache

open Stamped

theorem keeper_sound (owner : String) : (keeper owner).Sound builds where
  cache_put _ _ := rfl
  asked_put _ _ := rfl
  cache_onRefuse _ _ := rfl
  asked_onRefuse _ _ := rfl
  cache_onBuild _ _ := rfl
  asked_onBuild _ _ := rfl
  build c := by
    show Ends build c _ _
    simp only [build, ends_bind, ends_modify, ends_get]
    by_cases fails : c.fails = true
    · rw [if_pos fails]
      exact ⟨rfl, rfl⟩
    · rw [if_neg fails]
      exact ⟨rfl, rfl⟩

/-- A value was built at version 0, and the version is 3 by then. The next build raises it to 5. -/
def ahead : RigCache := { stateAfter (read defaultOwner) (start 0) with version := 3, bump := 2 }

/-- The source of versions went back below the stamp of the second value. -/
def rolledBack : RigCache := { stateAfter (read defaultOwner) ahead with version := 1 }

/-- The stamp is the version from before the build, and the version is above it after the build. What is
    below the stamp is refused, and nothing is lost by it. -/
theorem answers_by_history_rolledBack :
    kept (keeper defaultOwner) builds [⟨.get, ahead⟩, ⟨.get, start 0⟩] = some ((5, 2), 3) ∧
      rolledBack.cache = ⟨some (5, 2), 3, 2⟩ ∧
      outcome (read defaultOwner) rolledBack = .error (.stale 1 3 defaultOwner) := by
  have first : Run (keeper defaultOwner) [⟨.get, start 0⟩] ahead := .elsewhere (.get (.made rfl) (by decide)) rfl
  have run : Run (keeper defaultOwner) [⟨.get, ahead⟩, ⟨.get, start 0⟩] rolledBack :=
    .elsewhere (.get first (by decide)) rfl
  obtain ⟨told, -, answers⟩ := answers_by_history (keeper defaultOwner) builds (keeper_sound _) run
  have hkept : kept (keeper defaultOwner) builds [⟨.get, ahead⟩, ⟨.get, start 0⟩] = some ((5, 2), 3) := rfl
  refine ⟨hkept, ?_, (answers (by decide)).refusal (5, 2) 3 hkept (by decide)⟩
  have hvalue : rolledBack.cache.value = some (5, 2) := (told.eq_some.mp hkept).1
  have hstamp : rolledBack.cache.stamp = 3 := (told.eq_some.mp hkept).2
  have hbuilds : rolledBack.cache.builds = 2 := told.builds
  show Stamped.mk rolledBack.cache.value rolledBack.cache.stamp rolledBack.cache.builds = _
  rw [hvalue, hstamp, hbuilds]

end Regrid.RigCache
