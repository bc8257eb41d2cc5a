/-
  Regrid.Proofs.Limiting — merging and then restoring the limit on levels, call by call.

  A limited control on nonconforming meshes, whatever the meshes answer. `Step` lists the
  ways in which one update can go: the stage and the calls of the mesh it takes, the
  decision and the stage it leaves. Every update that returns is such a step
  (`applyLimited_steps`).

  Along a run of updates and resets:
  (1) the decisions since the last reset are a prefix of a word of `protocol`;
  (2) the stage is `limit` exactly when the last decision asks to be applied again;
  (3) it becomes `limit` only after a merge without a limit that changed some worker's mesh;
  (4) in stage `limit` an update refines once, nonconforming, what the mesh has just named,
      and in stage `coarsen` never;
  (5) an update that lets computations go on under a limit has asked for violations after the
      last change of the mesh, and over all workers there was none.
-/

import Mathlib.Computability.Language
import Regrid.Control.Update
import Regrid.Forest.Site
import Regrid.Proofs.Outcome

namespace Regrid

open scoped Computability

variable {R W : Type}

/-! ## Decisions as words -/

namespace Limiting

def word (d : Decision) : Language Decision := {[d]}

/-- What is decided from one idle moment to the next: nothing, a merge, or a merge that breaks
    the limit with the refinements that restore it. -/
def round : Language Decision :=
  word .idle + word (.proceed (some .derefine)) +
    word (.again (some .derefine)) * (word (.again (some .refine)))∗ * word (.proceed (some .derefine))

def protocol : Language Decision := round∗

/-- The decisions since the last reset, with the stage they leave. -/
def Emitted : Stage → List Decision → Prop
  | .coarsen, ds => ds ∈ protocol
  | .limit, ds => ∃ us n, us ∈ protocol ∧
      ds = us ++ .again (some .derefine) :: List.replicate n (.again (some .refine))

theorem mem_word (d : Decision) : [d] ∈ word d := rfl

theorem protocol_append {ds us : List Decision} (hds : ds ∈ protocol) (hus : us ∈ round) :
    ds ++ us ∈ protocol :=
  Set.mem_of_mem_of_subset (Language.append_mem_mul hds hus) (kstar_mul_le_kstar (a := round))

theorem replicate_mem (d : Decision) (n : Nat) : List.replicate n d ∈ (word d)∗ := by
  refine Language.mem_kstar.mpr ⟨List.replicate n [d], by simp, fun y hy => ?_⟩
  rw [List.eq_of_mem_replicate hy]
  exact mem_word d

/-- The decision that ends the stage `limit` completes a word. -/
theorem Emitted.complete {ds : List Decision} (h : Emitted .limit ds) :
    ds ++ [.proceed (some .derefine)] ∈ protocol := by
  obtain ⟨us, n, hus, rfl⟩ := h
  have hround :
      .again (some .derefine) :: List.replicate n (.again (some .refine)) ++
        [.proceed (some .derefine)] ∈ round :=
    .inr (Language.append_mem_mul (Language.append_mem_mul (mem_word _) (replicate_mem _ n)) (mem_word _))
  rw [List.append_assoc]
  exact protocol_append hus hround

theorem Emitted.isPrefix {stage : Stage} {ds : List Decision} (h : Emitted stage ds) :
    ∃ w ∈ protocol, ds <+: w := by
  cases stage with
  | coarsen => exact ⟨ds, h, List.prefix_rfl⟩
  | limit => exact ⟨_, h.complete, List.prefix_append _ _⟩

theorem emitted_nil : Emitted .coarsen [] := Language.nil_mem_kstar _

end Limiting

/-! ## What the meshes are asked -/

def Call.isReduce : Call R → Bool
  | .reduce _ _ => true
  | _ => false

def Call.isRefine : Call R → Bool
  | .refine _ _ _ => true
  | _ => false

/-- The call may change the mesh. -/
def Call.isChange : Call R → Bool
  | .refine _ _ _ | .derefine _ _ _ | .rebalance => true
  | .violations _ _ | .reduce _ _ => false

/-- The calls a mesh received, the latest first; reductions go to its communicator. -/
def Bench.calls (b : Bench R W) (mesh : MeshId) : List (Call R) :=
  b.trace.filterMap fun e => match e with
    | .call m c => if m = mesh ∧ c.isReduce = false then some c else none
    | _ => none

/-- The controls, and the calls of a mesh. -/
def Bench.asked (mesh : MeshId) (b : Bench R W) : List (Control R) × List (Call R) :=
  (b.controls, b.calls mesh)

theorem Bench.calls_record {b : Bench R W} {mesh : MeshId} {c : Call R} (hc : c.isReduce = false) :
    (b.record (.call mesh c)).calls mesh = c :: b.calls mesh := by simp [Bench.calls, hc]

theorem Bench.asked_cons {b t u : Bench R W} {mesh : MeshId} {c : Call R} {cs : List (Call R)}
    (h : t.asked mesh = (b.controls, cs)) (h' : u.asked mesh = (t.controls, c :: t.calls mesh)) :
    u.asked mesh = (b.controls, c :: cs) := by
  simp only [Bench.asked, Prod.mk.injEq] at h h'
  simp only [Bench.asked, h'.1, h'.2, h.1, h.2]

/-- The worker gets `whole` for its own contribution, from the communicator if there is one. -/
def Collective.Gives (site : Site R W) (mesh : MeshId) (op : Reduction) (own : Quantity R) (w : W)
    (whole : Quantity R) (w' : W) : Prop :=
  if site.isConnected mesh w then site.allreduce mesh op own w = .ok whole w' else whole = own ∧ w' = w

section

variable {site : Site R W} {mesh : MeshId} {b : Bench R W} {α : Type} {P : α → Bench R W → Prop}

/-- Where faults do not matter, the surroundings answer. -/
theorem ends_ask_true {q : EStateM Fault W α} (h : ∀ a w, q b.world = .ok a w → P a { b with world := w }) :
    Ends (Act.ask q) b P (fun _ _ => True) := by
  rw [Act.ends_ask]
  unfold Ends
  split
  · exact h _ _ ‹_›
  · trivial

theorem reduce_gives (op : Reduction) (own : Quantity R) :
    Ends (Collective.reduce site mesh op own) b
      (fun whole t => Collective.Gives site mesh op own b.world whole t.world ∧ t.asked mesh = b.asked mesh)
      (fun _ _ => True) := by
  simp only [Collective.reduce, ends_bind, Act.ends_look]
  split
  · rename_i hc
    simp only [ends_bind, Act.ends_call, Act.ends_note, ends_pure]
    refine ends_ask_true fun whole w hw => ⟨by rw [Collective.Gives, if_pos hc]; exact hw, ?_⟩
    simp [Bench.asked, Bench.calls, Call.isReduce]
  · rename_i hc
    exact ⟨by rw [Collective.Gives, if_neg hc]; exact ⟨rfl, rfl⟩, rfl⟩

variable [Narrow R]

theorem count_gives (own : Nat) :
    Ends (Collective.count site mesh own) b
      (fun n t => ∃ whole, Collective.Gives site mesh .sum (.number (.int own)) b.world whole t.world ∧
        whole.value = n ∧ t.asked mesh = b.asked mesh)
      (fun _ _ => True) := by
  simp only [Collective.count, Collective.sum, ends_bind, ends_pure]
  exact (reduce_gives .sum _).mono (fun whole _ h => ⟨whole, h.1, rfl, h.2⟩) fun _ _ h => h

theorem max_gives (own : Number R) :
    Ends (Collective.max site mesh own) b
      (fun n t => ∃ whole, Collective.Gives site mesh .max (.number own) b.world whole t.world ∧
        whole.value = n ∧ t.asked mesh = b.asked mesh)
      (fun _ _ => True) := by
  simp only [Collective.max, ends_bind, ends_pure]
  exact (reduce_gives .max _).mono (fun whole _ h => ⟨whole, h.1, rfl, h.2⟩) fun _ _ h => h

end

/-! ## One update -/

namespace Limiting

/-- Some group is under the threshold over all workers, and the mesh merges without a limit; over
    all workers its answers come to `n`. -/
def Merges [Arith R] (site : Site R W) (how : Coarsening R) (mesh : MeshId) (errors : List R)
    (w : W) (n : Number R) (w' : W) : Prop :=
  ∃ delivered t under u changed v whole, site.errors how.estimator w = .ok delivered t ∧
    Collective.Gives site mesh .sum (.number (.int (Coarsen.countUnder how.threshold errors))) t under u ∧
    under.value.isZero = false ∧ site.derefine mesh errors how.threshold 0 u = .ok changed v ∧
    Collective.Gives site mesh .max (.number (.int (if changed then 1 else 0))) v whole w' ∧ whole.value = n

/-- The mesh names its violations of the limit; over all workers there are `n`. -/
def Counts [Narrow R] (site : Site R W) (mesh : MeshId) (limit : Int) (found : List Mark) (w : W)
    (n : Number R) (w' : W) : Prop :=
  ∃ v whole, site.violations mesh limit w = .ok found v ∧
    Collective.Gives site mesh .sum (.number (.int found.length)) v whole w' ∧ whole.value = n

/-- The mesh names its violations of the limit and is refined there. -/
def Restores (site : Site R W) (mesh : MeshId) (limit : Int) (found : List Mark) (w w' : W) : Prop :=
  ∃ v, site.violations mesh limit w = .ok found v ∧ site.refine mesh found .nonconforming 0 v = .ok ⟨⟩ w'

variable [Arith R]

/-- What a limited control may do in one update: from a stage and a state of the surroundings to a
    decision, a stage and a state, with the calls of its mesh, the latest first. -/
inductive Step (site : Site R W) (how : Coarsening R) (mesh : MeshId) :
    Stage → W → Decision → Stage → W → List (Call R) → Prop
  | nothing {w w'} : Step site how mesh .coarsen w .idle .coarsen w' []
  | unchanged {w n w' errors} : Merges site how mesh errors w n w' → n.isZero = true →
      Step site how mesh .coarsen w .idle .coarsen w' [.derefine errors how.threshold 0]
  | unlimited {w n w' errors} : Merges site how mesh errors w n w' → n.isZero = false → how.limit ≤ 0 →
      Step site how mesh .coarsen w (.proceed (some .derefine)) .coarsen w'
        [.derefine errors how.threshold 0]
  | within {w n v m w' errors found} : Merges site how mesh errors w n v → n.isZero = false →
      0 < how.limit → Counts site mesh how.limit found v m w' → m.isPositive = false →
      Step site how mesh .coarsen w (.proceed (some .derefine)) .coarsen w'
        [.violations how.limit (found.map (·.index)), .derefine errors how.threshold 0]
  | broken {w n v m w' errors found} : Merges site how mesh errors w n v → n.isZero = false →
      0 < how.limit → Counts site mesh how.limit found v m w' → m.isPositive = true →
      Step site how mesh .coarsen w (.again (some .derefine)) .limit w'
        [.violations how.limit (found.map (·.index)), .derefine errors how.threshold 0]
  | stillBroken {w v m w' named found} : Restores site mesh how.limit named w v → 0 < how.limit →
      Counts site mesh how.limit found v m w' → m.isPositive = true →
      Step site how mesh .limit w (.again (some .refine)) .limit w'
        [.violations how.limit (found.map (·.index)), .refine named .nonconforming 0,
          .violations how.limit (named.map (·.index))]
  | restored {w v m w' named found} : Restores site mesh how.limit named w v → 0 < how.limit →
      Counts site mesh how.limit found v m w' → m.isPositive = false →
      Step site how mesh .limit w (.proceed (some .derefine)) .coarsen w'
        [.violations how.limit (found.map (·.index)), .refine named .nonconforming 0,
          .violations how.limit (named.map (·.index))]
  | relieved {w w' named} : Restores site mesh how.limit named w w' → how.limit ≤ 0 →
      Step site how mesh .limit w (.proceed (some .derefine)) .coarsen w'
        [.refine named .nonconforming 0, .violations how.limit (named.map (·.index))]

section

variable {site : Site R W} {how : Coarsening R} {mesh : MeshId} {b : Bench R W}

omit [Arith R] in
theorem askErrors_asked (mesh : MeshId) (estimator : EstimatorId) :
    Ends (Marking.askErrors site estimator) b
      (fun delivered t => site.errors estimator b.world = .ok delivered t.world ∧
        t.asked mesh = b.asked mesh)
      (fun _ _ => True) := by
  simp only [Marking.askErrors, ends_bind, Act.ends_record]
  exact ends_ask_true fun _ _ hw => ⟨hw, rfl⟩

/-- A merge without a limit: nothing is under the threshold, or the mesh is asked once. -/
theorem pass_merges (label : String) :
    Ends (Coarsen.pass site how label mesh 0) b
      (fun merged t => (merged = false ∧ t.asked mesh = b.asked mesh) ∨
        ∃ errors n, Merges site how mesh errors b.world n t.world ∧ merged = !n.isZero ∧
          t.asked mesh = (b.controls, .derefine errors how.threshold 0 :: b.calls mesh))
      (fun _ _ => True) := by
  simp only [Coarsen.pass, ends_bind, Act.ends_look]
  refine (askErrors_asked mesh how.estimator).mono (fun delivered t₁ h₁ => ?_) fun _ _ h => h
  refine Act.ends_check_of fun errors _ => Act.ends_check_of fun combined _ => ?_
  refine (count_gives _).mono (fun under t₂ h₂ => ?_) fun _ _ h => h
  obtain ⟨counted, hcounted, rfl, h₂⟩ := h₂
  have before : t₂.asked mesh = b.asked mesh := h₂.trans h₁.2
  split
  · exact .inl ⟨rfl, before⟩
  rename_i hunder
  simp only [ends_bind, Act.ends_call]
  refine ends_ask_true fun changed w hd => (max_gives _).mono (fun n t₃ h₃ => ?_) fun _ _ h => h
  obtain ⟨whole, hgives, rfl, h₃⟩ := h₃
  have merges : Merges site how mesh combined b.world whole.value t₃.world :=
    ⟨delivered, _, counted, _, changed, w, whole, h₁.1, hcounted, by simpa using hunder, hd, hgives, rfl⟩
  have after : t₃.asked mesh = (b.controls, .derefine combined how.threshold 0 :: b.calls mesh) :=
    Bench.asked_cons before (h₃.trans (congrArg (Prod.mk _) (Bench.calls_record rfl)))
  split
  · rename_i hzero
    exact .inr ⟨_, _, merges, by simp [hzero], after⟩
  · rename_i hzero
    exact .inr ⟨_, _, merges, by simp [hzero], after⟩

omit [Arith R] in
theorem violations_named (limit : Int) :
    Ends (Coarsen.violations site mesh limit) b
      (fun found t => site.violations mesh limit b.world = .ok found t.world ∧
        t.asked mesh = (b.controls, .violations limit (found.map (·.index)) :: b.calls mesh))
      (fun _ _ => True) := by
  simp only [Coarsen.violations, ends_bind, Act.ends_call, ends_pure]
  exact ends_ask_true fun found w hw => ⟨hw, congrArg (Prod.mk _) (Bench.calls_record rfl)⟩

/-- Whether the limit is broken is counted, unless there is no limit. -/
theorem isBroken_counts (limit : Int) :
    Ends (Coarsen.isBroken site mesh limit) b
      (fun broken t =>
        (limit ≤ 0 ∧ broken = false ∧ t.world = b.world ∧ t.asked mesh = b.asked mesh) ∨
        (0 < limit ∧ ∃ found n, Counts site mesh limit found b.world n t.world ∧ broken = n.isPositive ∧
          t.asked mesh = (b.controls, .violations limit (found.map (·.index)) :: b.calls mesh)))
      (fun _ _ => True) := by
  simp only [Coarsen.isBroken]
  split
  · exact .inl ⟨‹_›, rfl, rfl, rfl⟩
  · simp only [ends_bind, ends_pure]
    refine (violations_named limit).mono (fun found t₁ h₁ => ?_) fun _ _ h => h
    refine (count_gives _).mono (fun n t₂ h₂ => ?_) fun _ _ h => h
    obtain ⟨whole, hgives, rfl, h₂⟩ := h₂
    exact .inr ⟨by omega, found, _, ⟨_, whole, h₁.1, hgives, rfl⟩, rfl, h₂.trans h₁.2⟩

/-- An update of a limited control that returns is a step. -/
theorem applyLimited_steps (stage : Stage) (label : String)
    (hmesh : site.isNonconforming mesh b.world = true) :
    Ends (Coarsen.applyLimited site how stage label mesh) b
      (fun r t => ∃ cs, Step site how mesh stage b.world r.1 r.2 t.world cs ∧
        t.asked mesh = (b.controls, cs ++ b.calls mesh))
      (fun _ _ => True) := by
  simp only [Coarsen.applyLimited, ends_bind, Act.ends_look, hmesh]
  simp only [Bool.not_true, Bool.false_eq_true, if_false]
  cases stage with
  | coarsen =>
    simp only [ends_bind]
    refine (pass_merges label).mono (fun merged t₁ h₁ => ?_) fun _ _ h => h
    rcases h₁ with ⟨rfl, h₁⟩ | ⟨errors, n, hmerges, rfl, h₁⟩
    · exact ⟨[], .nothing, h₁⟩
    cases hzero : n.isZero with
    | true => exact ⟨_, .unchanged hmerges hzero, h₁⟩
    | false =>
      simp only [Bool.not_false, Bool.not_true, Bool.false_eq_true, if_false, ends_bind]
      refine (isBroken_counts how.limit).mono (fun broken t₂ h₂ => ?_) fun _ _ h => h
      rcases h₂ with ⟨hlimit, rfl, hworld, h₂⟩ | ⟨hlimit, found, m, hcounts, rfl, h₂⟩
      · exact ⟨_, .unlimited (hworld ▸ hmerges) hzero hlimit, h₂.trans h₁⟩
      · cases hpos : m.isPositive with
        | true => exact ⟨_, .broken hmerges hzero hlimit hcounts hpos, Bench.asked_cons h₁ h₂⟩
        | false => exact ⟨_, .within hmerges hzero hlimit hcounts hpos, Bench.asked_cons h₁ h₂⟩
  | limit =>
    simp only [ends_bind]
    refine (violations_named how.limit).mono (fun named t₁ h₁ => ?_) fun _ _ h => h
    simp only [Coarsen.refine, ends_bind, Act.ends_call, Act.ends_note]
    refine ends_ask_true fun _ w hw => ?_
    have restores : Restores site mesh how.limit named b.world w := ⟨_, h₁.1, hw⟩
    have refined : ({ t₁.record (.call mesh (.refine named .nonconforming 0)) with world := w }.record
        (.note (.limitRestored named.length))).asked mesh =
          (b.controls, .refine named .nonconforming 0 ::
            .violations how.limit (named.map (·.index)) :: b.calls mesh) :=
      Bench.asked_cons h₁.2 (congrArg (Prod.mk _) (Bench.calls_record rfl))
    refine (isBroken_counts how.limit).mono (fun broken t₂ h₂ => ?_) fun _ _ h => h
    rcases h₂ with ⟨hlimit, rfl, hworld, h₂⟩ | ⟨hlimit, found, m, hcounts, rfl, h₂⟩
    · exact ⟨_, .relieved (hworld ▸ restores) hlimit, h₂.trans refined⟩
    · cases hpos : m.isPositive with
      | true => exact ⟨_, .stillBroken restores hlimit hcounts hpos, Bench.asked_cons refined h₂⟩
      | false => exact ⟨_, .restored restores hlimit hcounts hpos, Bench.asked_cons refined h₂⟩

/-- What an update promises of its calls, the latest first. -/
structure Obeys (site : Site R W) (how : Coarsening R) (mesh : MeshId) (stage : Stage) (w : W)
    (d : Decision) (stage' : Stage) (w' : W) (cs : List (Call R)) : Prop where
  /-- The limit is restored only after a merge without a limit that changed some worker's mesh. -/
  entered : stage = .coarsen → stage' = .limit → ∃ errors n v found m, Merges site how mesh errors w n v ∧
    n.isZero = false ∧ Counts site mesh how.limit found v m w' ∧
    cs = [.violations how.limit (found.map (·.index)), .derefine errors how.threshold 0]
  unrefined : stage = .coarsen → cs.filter Call.isRefine = []
  /-- What the mesh has just named is refined, once. -/
  refined : stage = .limit → ∃ named v rest, Restores site mesh how.limit named w v ∧
    cs = rest ++ [.refine named .nonconforming 0, .violations how.limit (named.map (·.index))] ∧
    rest.filter Call.isRefine = []
  /-- Nothing broke the limit after the last change of the mesh. -/
  within : d.isProceed = true → 0 < how.limit →
    ∃ found v n change rest, Counts site mesh how.limit found v n w' ∧
    n.isPositive = false ∧ (∀ i : Nat, n = .int i → i = 0) ∧
    cs = .violations how.limit (found.map (·.index)) :: change :: rest ∧ change.isChange = true

theorem zero_of_not_positive {n : Number R} (h : n.isPositive = false) (i : Nat) (hi : n = .int i) :
    i = 0 := by
  subst hi
  simp only [Number.isPositive, Number.lt, decide_eq_false_iff_not] at h
  omega

theorem Step.obeys {stage stage' : Stage} {w w' : W} {d : Decision} {cs : List (Call R)}
    (h : Step site how mesh stage w d stage' w' cs) : Obeys site how mesh stage w d stage' w' cs := by
  cases h with
  | nothing | unchanged _ _ => exact ⟨fun _ => nofun, fun _ => rfl, nofun, nofun⟩
  | unlimited _ _ hlimit => exact ⟨fun _ => nofun, fun _ => rfl, nofun, fun _ _ => by omega⟩
  | within _ _ _ hcounts hpos =>
    exact ⟨fun _ => nofun, fun _ => rfl, nofun,
      fun _ _ => ⟨_, _, _, _, _, hcounts, hpos, zero_of_not_positive hpos, rfl, rfl⟩⟩
  | broken hmerges hzero _ hcounts _ =>
    exact ⟨fun _ _ => ⟨_, _, _, _, _, hmerges, hzero, hcounts, rfl⟩, fun _ => rfl, nofun, nofun⟩
  | stillBroken hrestores _ _ _ =>
    exact ⟨nofun, nofun, fun _ => ⟨_, _, [_], hrestores, rfl, rfl⟩, nofun⟩
  | restored hrestores _ hcounts hpos =>
    exact ⟨nofun, nofun, fun _ => ⟨_, _, [_], hrestores, rfl, rfl⟩,
      fun _ _ => ⟨_, _, _, _, _, hcounts, hpos, zero_of_not_positive hpos, rfl, rfl⟩⟩
  | relieved hrestores hlimit =>
    exact ⟨nofun, nofun, fun _ => ⟨_, _, [], hrestores, rfl, rfl⟩, fun _ _ => by omega⟩

/-- The decision of a step goes on from the decisions before it. -/
theorem Step.emitted {stage stage' : Stage} {w w' : W} {d : Decision} {cs : List (Call R)}
    {ds : List Decision} (h : Step site how mesh stage w d stage' w' cs) (hds : Emitted stage ds) :
    Emitted stage' (ds ++ [d]) := by
  cases h with
  | nothing | unchanged _ _ => exact protocol_append hds (.inl (.inl rfl))
  | unlimited _ _ _ | within _ _ _ _ _ => exact protocol_append hds (.inl (.inr rfl))
  | broken _ _ _ _ _ => exact ⟨ds, 0, hds, rfl⟩
  | stillBroken _ _ _ _ =>
    obtain ⟨us, n, hus, rfl⟩ := hds
    exact ⟨us, n + 1, hus, by simp [List.replicate_succ']⟩
  | restored _ _ _ _ | relieved _ _ => exact hds.complete

theorem Step.again_iff {stage stage' : Stage} {w w' : W} {d : Decision} {cs : List (Call R)}
    (h : Step site how mesh stage w d stage' w' cs) : stage' = .limit ↔ d.isAgain = true := by
  cases h <;> simp [Decision.isAgain, Decision.action]

end

/-! ## Runs -/

/-- A run of updates of the limited control `k` on nonconforming meshes, from its making on, with
    its decisions since the last reset. Meanwhile anything may happen that leaves `k` alone. -/
inductive Run (site : Site R W) (how : Coarsening R) (k : ControlId) : List Decision → Bench R W → Prop
  | made {b} : b.controls[k]? = some (Control.new (.coarsenLimited how .coarsen)) → Run site how k [] b
  | update {ds b depth mesh needs t c} : Run site how k ds b → site.isNonconforming mesh b.world = true →
      Update.update site depth k mesh b = .ok needs t → t.controls[k]? = some c →
        Run site how k (ds ++ [c.last]) t
  | reset {ds b depth t} : Run site how k ds b → Update.reset site depth k b = .ok ⟨⟩ t →
    Run site how k [] t
  | meanwhile {ds b t} : Run site how k ds b → t.controls[k]? = b.controls[k]? → Run site how k ds t

section

variable {site : Site R W} {how : Coarsening R} {k : ControlId} {mesh : MeshId} {ds : List Decision}
    {b : Bench R W}

theorem update_steps {last : Decision} {stage : Stage}
    (h : b.controls[k]? = some ⟨last, .coarsenLimited how stage⟩)
    (hmesh : site.isNonconforming mesh b.world = true) (depth : Nat) :
    Ends (Update.update site depth k mesh) b
      (fun needs t => ∃ d stage' cs, needs = d.needsUpdate ∧
        t.controls[k]? = some ⟨d, .coarsenLimited how stage'⟩ ∧
        Step site how mesh stage b.world d stage' t.world cs ∧ t.calls mesh = cs ++ b.calls mesh)
      (fun _ _ => True) := by
  cases depth with
  | zero => trivial
  | succ depth =>
    simp only [Update.update, Update.apply, Update.remember, bind_assoc, ends_bind,
      Act.ends_control_some h, ends_pure]
    refine (applyLimited_steps stage _ hmesh).mono (fun r t ht => ?_) fun _ _ h => h
    obtain ⟨cs, step, ht⟩ := ht
    simp only [Bench.asked, Prod.mk.injEq] at ht
    have hk : t.controls[k]? = some ⟨last, .coarsenLimited how stage⟩ := ht.1 ▸ h
    have hput := Bench.setControl_get (d := ⟨last, .coarsenLimited how r.2⟩) hk
    simp only [Act.ends_putControl, Act.ends_control_some hput]
    exact ⟨r.1, r.2, cs, rfl, Bench.setControl_get hput, step, ht.2⟩

omit [Arith R] in
theorem reset_restarts {last : Decision} {stage : Stage}
    (h : b.controls[k]? = some ⟨last, .coarsenLimited how stage⟩)
    (depth : Nat) :
    Ends (Update.reset site depth k) b
      (fun _ t => t.controls[k]? = some ⟨.idle, .coarsenLimited how .coarsen⟩) (fun _ _ => True) := by
  cases depth with
  | zero => trivial
  | succ depth =>
    have hput := Bench.setControl_get (d := ⟨.idle, .coarsenLimited how stage⟩) h
    simp only [Update.reset, Update.remember, bind_assoc, ends_bind, Act.ends_control_some h,
      Act.ends_putControl, Act.ends_control_some hput]
    exact Bench.setControl_get hput

/-- The invariant of runs ties the stage to the last decision and to all of them. -/
structure Kept (how : Coarsening R) (k : ControlId) (ds : List Decision) (last : Decision) (stage : Stage)
    (b : Bench R W) : Prop where
  control : b.controls[k]? = some ⟨last, .coarsenLimited how stage⟩
  emitted : Emitted stage ds
  again : stage = .limit ↔ last.isAgain = true
  last : last = ds.getLast?.getD .idle

theorem run_kept (h : Run site how k ds b) : ∃ last stage, Kept how k ds last stage b := by
  induction h with
  | made hb => exact ⟨_, _, hb, emitted_nil, by simp [Decision.isAgain, Decision.action], rfl⟩
  | update _ hmesh hu hc ih =>
    obtain ⟨last, stage, kept⟩ := ih
    obtain ⟨d, stage', cs, -, hd, step, -⟩ := (update_steps kept.control hmesh _).of_ok hu
    obtain rfl := Option.some.inj (hd.symm.trans hc)
    exact ⟨d, stage', hd, step.emitted kept.emitted, step.again_iff, by simp⟩
  | reset _ hr ih =>
    obtain ⟨last, stage, kept⟩ := ih
    have hb := (reset_restarts kept.control _).of_ok hr
    exact ⟨_, _, hb, emitted_nil, by simp [Decision.isAgain, Decision.action], rfl⟩
  | meanwhile _ ht ih =>
    obtain ⟨last, stage, kept⟩ := ih
    exact ⟨last, stage, ht.trans kept.control, kept.emitted, kept.again, kept.last⟩

/-- Along every run the decisions since the last reset keep to the protocol, the stage shows
    whether the last of them asks to be applied again, and an update obeys its promises. -/
theorem limits_in_stages (h : Run site how k ds b) :
    ∃ last stage, b.controls[k]? = some ⟨last, .coarsenLimited how stage⟩ ∧ last = ds.getLast?.getD .idle ∧
      (∃ w ∈ protocol, ds <+: w) ∧ (stage = .limit ↔ last.isAgain = true) ∧
      ∀ depth mesh, site.isNonconforming mesh b.world = true →
        Ends (Update.update site depth k mesh) b
          (fun needs t => ∃ d stage' cs, needs = d.needsUpdate ∧
            t.controls[k]? = some ⟨d, .coarsenLimited how stage'⟩ ∧ t.calls mesh = cs ++ b.calls mesh ∧
            Obeys site how mesh stage b.world d stage' t.world cs)
          (fun _ _ => True) := by
  obtain ⟨last, stage, kept⟩ := run_kept h
  refine ⟨last, stage, kept.control, kept.last, kept.emitted.isPrefix, kept.again,
    fun depth mesh hmesh => ?_⟩
  refine (update_steps kept.control hmesh depth).mono (fun needs t ht => ?_) fun _ _ h => h
  obtain ⟨d, stage', cs, hneeds, hd, step, hcalls⟩ := ht
  exact ⟨d, stage', cs, hneeds, hd, hcalls, step.obeys⟩

/-- Two trees: merging the first pair puts a leaf beside one that is two levels finer. -/
def uneven : Bench Float (Stand Unit) where
  world := ⟨⟨[⟨0, 1, 0⟩, ⟨0, 1, 1⟩, ⟨1, 2, 0⟩, ⟨1, 2, 1⟩, ⟨1, 1, 1⟩], 0⟩, true, false, ⟨⟩⟩
  markers := []
  controls := [Control.new (.coarsenLimited ⟨0, 1, 1, .sum⟩ .coarsen)]
  trace := []

/-- The first two elements have no error, the others a great one. -/
def smallPair : Stand.Company Float Unit where
  errors _ _ := pure [0, 0, 5, 5, 5]
  flags _ _ := pure none
  marking _ _ := throw .missing
  decide _ _ := pure .idle
  reset _ _ := pure ⟨⟩

theorem limits_in_stages_uneven :
    ∃ t, Run (Stand.site smallPair) ⟨0, 1, 1, .sum⟩ 0 [.again (some .derefine)] t ∧
      (∃ w ∈ protocol, [.again (some .derefine)] <+: w) ∧
      ∃ last, t.controls[0]? = some ⟨last, .coarsenLimited ⟨0, 1, 1, .sum⟩ .limit⟩ ∧
        last.isAgain = true := by
  obtain ⟨t, hu, hc⟩ : ∃ t, Update.update (Stand.site smallPair) 1 0 0 uneven = .ok true t ∧
      t.controls[0]? = some ⟨.again (some .derefine), .coarsenLimited ⟨0, 1, 1, .sum⟩ .limit⟩ :=
        ⟨_, rfl, rfl⟩
  have made : Run (Stand.site smallPair) ⟨0, 1, 1, .sum⟩ 0 [] uneven := .made rfl
  have updated : Run (Stand.site smallPair) ⟨0, 1, 1, .sum⟩ 0 [.again (some .derefine)] t :=
    made.update rfl hu hc
  obtain ⟨last, stage, hlast, -, hword, hstage, -⟩ := limits_in_stages updated
  obtain ⟨rfl, rfl⟩ : .again (some .derefine) = last ∧ .limit = stage := by
    simpa using hc.symm.trans hlast
  exact ⟨t, updated, hword, _, hlast, hstage.mp rfl⟩

end

end Limiting

end Regrid
