/-
  Regrid.Proofs.Sharing — sharing a mesh does not change what is marked.

  Workers hold a mesh in consecutive parts and reduce over an honest communicator; a marker
  that has the whole mesh to itself has none. Any pass follows the talk `Talk.pass` of what
  it is given, and the talks of the parts amount to the talk of the whole: elements and
  marks are counted together, all scale by the one peak, and the sum of powers is one where
  addition is exact. So each worker has the total, the threshold and the counts of the
  marker that is alone, and its marks on the elements it holds.
-/

import Regrid.Proofs.Parts

namespace Regrid

variable {R W V : Type} {n : Nat} [Arith R]

/-! ## The talk of a pass -/

namespace Talk

variable {α : Type}

def check (v : Except Fault α) : Talk R α := ends v

def agree (op : Reduction) (own : Number R) : Talk R (Number R) := do
  return (← enters op (.number own) pure).value

def commonPeak (errors : List R) : Talk R R := do
  check (← agree .max (.real (Norm.peak errors))).toReal

def scaled (errors : List R) (m p : R) : Talk R (Option R) := do
  if Arith.eq m Arith.zero then return some m
  let whole ← check (← agree .sum (.real (Norm.powerSum errors m p))).toReal
  check (Norm.root m p whole)

def total (errors : List R) (exponent : Exponent R) : Talk R (Option R) := do
  let m ← commonPeak errors
  match exponent with
  | .infinite => return some m
  | .finite p => scaled errors m p

/-- What is left of a pass over a part for those who share the mesh. -/
def pass (part : Part R) (s : Settings R) : Talk R (Marking R) := do
  let elements ← check (← agree .sum (.int part.errors.length)).toInt
  let error ← total part.errors s.exponent
  let threshold ← check (s.threshold error elements)
  let marks := Marking.marksOf (Marking.above part.errors threshold) part.flags
  let marked ← check (← agree .sum (.int marks.length)).toInt
  return ⟨marks, threshold, error, elements, marked⟩

omit [Arith R] in
theorem check_alone (v : Except Fault α) : (check v : Talk R α).alone = v := rfl

theorem agree_alone (op : Reduction) (own : Number R) : (agree op own).alone = .ok own := rfl

/-- With the maximum norm there is nothing a pass can fail at. -/
theorem pass_returns (part : Part R) {s : Settings R} (h : s.exponent = .infinite) :
    ∃ v, (pass part s).alone = .ok v := by
  have threshold (total : R) (elements : Int) : ∃ t, s.threshold (some total) elements = .ok t := by
    unfold Settings.threshold
    by_cases hf : Arith.eq s.fraction Arith.zero = true
    · exact ⟨_, if_pos hf⟩
    · rw [if_neg hf, Settings.scaling, h]
      exact ⟨_, rfl⟩
  obtain ⟨t, ht⟩ := threshold (Norm.peak part.errors) part.errors.length
  have total : (Talk.total part.errors s.exponent).alone = .ok (some (Norm.peak part.errors)) := by
    rw [Talk.total, h]
    rfl
  simp only [pass, alone_bind, agree_alone, check_alone, total]
  simp only [Bind.bind, Except.bind, Number.toInt, ht]
  exact ⟨_, rfl⟩

end Talk

/-! ## Passes follow it -/

/-- In these worlds a marker is given the part whenever it asks. -/
structure Supplies (site : Site R W) (mesh : MeshId) (estimator : EstimatorId) (part : Part R)
    (here : W → Prop) : Prop where
  elements : ∀ w, here w → site.elements mesh w = part.errors.length
  errors : ∀ w, here w → ∃ w', site.errors estimator w = .ok part.errors w' ∧ here w'
  flags : ∀ w, here w → ∃ w', site.flags estimator w = .ok part.flags w' ∧ here w'

section

variable {o : Observer R W} {site : Site R W} {mesh : MeshId}
  (reduces : ∀ op own, o.Follows (Collective.reduce site mesh op own) (.enters op own pure))
include reduces

theorem follows_sum (own : Number R) : o.Follows (Collective.sum site mesh own) (.agree .sum own) :=
  (reduces .sum _).bind fun _ => .pure _

theorem follows_max (own : Number R) : o.Follows (Collective.max site mesh own) (.agree .max own) :=
  (reduces .max _).bind fun _ => .pure _

theorem follows_scaled (errors : List R) (m p : R) :
    o.Follows (Norm.scaled site mesh errors m p (Norm.root m p)) (.scaled errors m p) := by
  unfold Norm.scaled Talk.scaled
  split
  · exact .pure _
  · exact (follows_sum reduces _).bind fun _ => (Observer.Follows.check _).bind fun _ => .check _

theorem follows_total (errors : List R) (exponent : Exponent R) :
    o.Follows (Norm.total site mesh errors exponent) (.total errors exponent) := by
  refine ((follows_max reduces _).bind fun _ => .check _).bind fun m => ?_
  cases exponent with
  | infinite => exact .pure _
  | finite p => exact follows_scaled reduces errors m p

theorem follows_pass {estimator : EstimatorId} {part : Part R}
    (supplied : Supplies site mesh estimator part o.here) (valid : part.Valid) (s : Settings R) :
    o.Follows (Marking.pass site mesh estimator s) (.pass part s) := by
  refine (Observer.Follows.look supplied.elements).after ?_
  have errors : o.Follows (Marking.askErrors site estimator) (.ends (.ok part.errors)) :=
    (Observer.Follows.record rfl).after (.ask supplied.errors)
  refine errors.after ?_
  refine (Observer.Follows.check_ok (Admission.errorVector_ok _ valid.errors)).after ?_
  refine (follows_sum reduces _).bind fun _ => (Observer.Follows.check _).bind fun elements => ?_
  refine (follows_total reduces _ _).bind fun error => (Observer.Follows.check _).bind fun threshold => ?_
  have flags : o.Follows (Marking.readFlags site estimator part.errors.length Marking.context)
      (.ends (.ok part.flags)) := by
    refine (Observer.Follows.ask supplied.flags).after ?_
    cases hf : part.flags with
    | none => exact .pure _
    | some fs =>
      exact (Observer.Follows.check_ok (Admission.flagVector_ok _ (valid.flags fs hf))).after (.pure _)
  refine flags.after ?_
  refine (follows_sum reduces _).bind fun _ => (Observer.Follows.check _).bind fun marked => ?_
  cases error with
  | none => exact .pure _
  | some x => exact (Observer.Follows.record rfl).after (.pure _)

end

/-- A pass of a marker that has the mesh to itself comes to what its talk comes to. -/
theorem Marking.pass_alone {site : Site R W} {mesh : MeshId} {estimator : EstimatorId} {part : Part R}
    {here : W → Prop} {b : Bench R W} (supplied : Supplies site mesh estimator part here) (valid : part.Valid)
    (unconnected : ∀ w, here w → site.isConnected mesh w = false) (there : here b.world) (s : Settings R) :
    outcome (Marking.pass site mesh estimator s) b = (Talk.pass part s).alone := by
  obtain ⟨log, own, went, -⟩ :=
    follows_pass (fun op own => .reduce_alone unconnected op own) supplied valid s b there
  exact went.eq_alone own

/-! ## Parts amount to the whole -/

/-- The markings of the parts beside that of the whole: they differ in the marks only, and each has the
    marks of its part. -/
structure Cut.Beside (parts : Fin n → Part R) (whole : Part R) (vs : Fin n → Marking R) (v : Marking R) :
    Prop where
  bare : ∀ i, (vs i).bare = v.bare
  each : ∀ i, (vs i).marks = Marking.marksOf (Marking.above (parts i).errors v.threshold) (parts i).flags
  all : v.marks = Marking.marksOf (Marking.above whole.errors v.threshold) whole.flags

namespace Cut.Beside

variable {parts : Fin n → Part R} {whole : Part R} {vs : Fin n → Marking R} {v : Marking R}

theorem joined (h : Beside parts whole vs v) (cut : Cut parts whole) :
    joined (fun i => (vs i).marks.map (Mark.shift (offset (fun j => (parts j).errors) i))) = v.marks := by
  rw [h.all, ← Marking.marks_joined cut v.threshold]
  simp only [h.each]

theorem length (h : Beside parts whole vs v) (cut : Cut parts whole) :
    ∑ i, (vs i).marks.length = v.marks.length := by
  rw [← h.joined cut, length_joined]
  simp

end Cut.Beside

namespace Amounts

theorem agree {op : Reduction} {own : Fin n → Number R} {one : Number R}
    (h : ∀ q, op.Comes (fun i => .number (own i)) Finset.univ q → Fin n → q = .number one) :
    Amounts Common (fun i => Talk.agree op (own i)) (Talk.agree op one) := by
  refine .enters fun whole comes => .returns fun i => ?_
  exact congrArg Quantity.value (h (whole i) (comes i) i)

variable {parts : Fin n → Part R} {whole : Part R} (cut : Cut parts whole)
include cut

theorem scaled (exact : Arith.Exact R) (m p : R) :
    Amounts Common (fun i => Talk.scaled (parts i).errors m p) (Talk.scaled whole.errors m p) := by
  unfold Talk.scaled
  by_cases hm : Arith.eq m Arith.zero = true
  · simp only [hm, if_true]
    exact .returns fun _ => rfl
  · simp only [hm]
    have sums := exact.sum_joined fun i =>
      (parts i).errors.map fun e => Arith.power (Arith.div (Arith.abs e) m) p
    rw [← map_joined, cut.errors] at sums
    refine bind_common (agree fun q h _ => ?_) fun _ => bind_common (.check _) fun _ => .check _
    rw [h.sum_real exact]
    exact congrArg Quantity.real sums.symm

theorem total (finite : whole.errors.all Arith.isFinite = true) [Magnitudes R] (exponent : Exponent R)
    (exact : ∀ p, exponent = .finite p → Arith.Exact R) :
    Amounts Common (fun i => Talk.total (parts i).errors exponent) (Talk.total whole.errors exponent) := by
  have peaks : Amounts Common (fun i => Talk.commonPeak (parts i).errors) (Talk.commonPeak whole.errors) :=
    bind_common (agree fun q h i => cut.peak finite h i) fun _ => .check _
  refine peaks.bind_common fun m => ?_
  cases exponent with
  | infinite => exact .returns fun _ => rfl
  | finite p => exact scaled cut (exact p rfl) m p

/-- The passes over the parts take the course of the pass over the whole. -/
theorem pass_beside (finite : whole.errors.all Arith.isFinite = true) [Magnitudes R] (s : Settings R)
    (exact : ∀ p, s.exponent = .finite p → Arith.Exact R) :
    Amounts (Cut.Beside parts whole) (fun i => Talk.pass (parts i) s) (Talk.pass whole s) := by
  unfold Talk.pass
  have counted : Amounts Common (fun i => Talk.agree .sum (.int (parts i).errors.length))
      (Talk.agree .sum (.int whole.errors.length) : Talk R (Number R)) := by
    refine agree fun q h _ => ?_
    rw [h.sum_int, ← cut.elements]
    simp
  refine counted.bind_common fun count => bind_common (.check _) fun elements => ?_
  refine (total cut finite _ exact).bind_common fun error => bind_common (.check _) fun threshold => ?_
  have marks := Marking.marks_joined cut threshold
  have marked : Amounts Common
      (fun i => Talk.agree .sum (.int (Marking.marksOf (Marking.above (parts i).errors threshold)
        (parts i).flags).length))
      (Talk.agree .sum (.int (Marking.marksOf (Marking.above whole.errors threshold)
        whole.flags).length) : Talk R (Number R)) := by
    refine agree fun q h _ => ?_
    rw [h.sum_int, ← marks, length_joined]
    simp
  refine marked.bind_common fun count => bind_common (.check _) fun marked => ?_
  exact .returns ⟨fun _ => rfl, fun _ => rfl, rfl⟩

theorem pass (finite : whole.errors.all Arith.isFinite = true) [Magnitudes R] (s : Settings R)
    (exact : ∀ p, s.exponent = .finite p → Arith.Exact R) :
    Amounts (fun vs v => (∀ i, (vs i).bare = v.bare) ∧
        joined (fun i => (vs i).marks.map (Mark.shift (offset (fun j => (parts j).errors) i))) = v.marks)
      (fun i => Talk.pass (parts i) s) (Talk.pass whole s) :=
  (pass_beside cut finite s exact).mono fun _ _ h => ⟨h.bare, h.joined cut⟩

end Amounts

/-! ## Shared meshes -/

/-- A mesh that is shared by workers, and the same mesh in one piece. -/
structure Shared (n : Nat) (R W V : Type) where
  mesh : MeshId
  estimator : EstimatorId
  parts : Fin n → Part R
  whole : Part R
  site : Fin n → Site R W
  /-- Where each worker's surroundings may be while it makes a pass. -/
  here : Fin n → W → Prop
  alone : Site R V
  there : V → Prop

namespace Shared

/-- The parts are the whole and each worker is given its own. The workers have a communicator that
    answers, and who has the whole has none. -/
structure Served (shared : Shared n R W V) : Prop where
  cut : Cut shared.parts shared.whole
  finite : shared.whole.errors.all Arith.isFinite = true
  worker : ∀ i, Supplies (shared.site i) shared.mesh shared.estimator (shared.parts i) (shared.here i)
  connected : ∀ i w, shared.here i w → (shared.site i).isConnected shared.mesh w = true
  allreduce : ∀ i op own w, shared.here i w →
    ∃ whole w', (shared.site i).allreduce shared.mesh op own w = .ok whole w' ∧ shared.here i w'
  alone : Supplies shared.alone shared.mesh shared.estimator shared.whole shared.there
  unconnected : ∀ w, shared.there w → shared.alone.isConnected shared.mesh w = false

/-- Each worker's pass comes to what the pass of the marker alone comes to. All have its total, its
    threshold and its counts, and their marks, moved to where their elements begin, are its marks with
    the same directions. With the maximum norm no pass fails. -/
theorem marks_as_one [Magnitudes R] {shared : Shared n R W V} (served : shared.Served) (s : Settings R)
    (exact : ∀ p, s.exponent = .finite p → Arith.Exact R) {b : Fin n → Bench R W} {c : Bench R V}
    (here : ∀ i, shared.here i (b i).world) (there : shared.there c.world)
    (level : ∀ i j, (b i).reductions.length = (b j).reductions.length)
    (honest : Honest fun i =>
      (stateAfter (Marking.pass (shared.site i) shared.mesh shared.estimator s) (b i)).reductions) :
    (∀ v, outcome (Marking.pass shared.alone shared.mesh shared.estimator s) c = .ok v →
      ∃ vs : Fin n → Marking R,
        (∀ i, outcome (Marking.pass (shared.site i) shared.mesh shared.estimator s) (b i) = .ok (vs i) ∧
          (vs i).bare = v.bare) ∧
        joined (fun i => (vs i).marks.map
          (Mark.shift (offset (fun j => (shared.parts j).errors) i))) = v.marks) ∧
    (∀ f, outcome (Marking.pass shared.alone shared.mesh shared.estimator s) c = .error f →
      s.exponent ≠ .infinite ∧
        ∀ i, outcome (Marking.pass (shared.site i) shared.mesh shared.estimator s) (b i) = .error f) := by
  have valid := served.cut.valid served.finite
  have workers (i : Fin n) := follows_pass
    (fun op own => .reduce (served.connected i) op own (served.allreduce i op own))
    (served.worker i) (valid i) s (b i) (here i)
  choose log shown went _ using workers
  have alone := Marking.pass_alone served.alone (served.cut.valid_whole served.finite) served.unconnected there s
  have added (i : Fin n) : (stateAfter (Marking.pass (shared.site i) shared.mesh shared.estimator s)
      (b i)).reductions = (b i).reductions ++ log i := shown i
  simp only [added] at honest
  have alike := (Amounts.pass served.cut served.finite s exact).result went (honest.of_append level)
  rw [alone]
  refine ⟨fun v hv => ?_, fun f hf => ?_⟩
  · rw [hv] at alike
    obtain ⟨vs, returned, bare, marks⟩ := alike
    exact ⟨vs, fun i => ⟨returned i, bare i⟩, marks⟩
  · rw [hf] at alike
    refine ⟨fun hinfinite => ?_, alike⟩
    obtain ⟨v, hv⟩ := Talk.pass_returns shared.whole hinfinite
    rw [hf] at hv
    cases hv

/-! ## Three workers, one without elements -/

/-- A reduction that all workers entered. -/
structure Round (n : Nat) (R : Type) where
  op : Reduction
  own : Fin n → Quantity R
  whole : Quantity R

theorem honest_of_rounds {rounds : List (Round n R)}
    (comes : ∀ r ∈ rounds, r.op.Comes r.own Finset.univ r.whole) :
    Honest fun i => rounds.map fun r => ⟨r.op, r.own i, r.whole⟩ := by
  intro k op own whole hk i
  simp only [List.getElem?_map, Option.map_eq_some_iff] at hk
  obtain ⟨r, hr, hi⟩ := hk i
  have same (j : Fin n) : r.own j = own j := by
    obtain ⟨r', hr', hj⟩ := hk j
    obtain rfl : r = r' := Option.some.inj (hr.symm.trans hr')
    exact congrArg Reduced.own hj
  obtain ⟨rfl, -, hwhole⟩ := Reduced.mk.inj hi
  rw [← funext same, ← hwhole]
  exact comes r (List.mem_of_getElem? hr)

theorem comes_three {op : Reduction} {own : Fin 3 → Quantity R} {a b : Quantity R}
    (first : op.combine (own 0) (own 1) = .ok a) (second : op.combine a (own 2) = .ok b) :
    op.Comes own Finset.univ b :=
  .join (.join (.one 0) (.one 1) (by decide) first) (.one 2) (by decide) second

/-- Surroundings that give a part to whoever asks, and know what comes of each reduction. -/
def giving (part : Part R) (connected : Bool) : Site R (List (Quantity R)) where
  version _ _ := 0
  elements _ _ := part.errors.length
  isNonconforming _ _ := true
  isDistributed _ _ := connected
  isConnected _ _ := connected
  allreduce _ _ own w :=
    match w with
    | [] => .ok own []
    | q :: qs => .ok q qs
  refine _ _ _ _ := pure ⟨⟩
  groups _ _ := []
  derefine _ _ _ _ := pure false
  violations _ _ := pure []
  rebalance _ := pure ⟨⟩
  errors _ := pure part.errors
  flags _ := pure part.flags
  marking _ := throw .missing
  decide _ := throw .missing
  reset _ := throw .missing

def threeParts (x y z : R) : Fin 3 → Part R
  | 0 => ⟨[x, y], some [1, 2]⟩
  | 1 => ⟨[], none⟩
  | 2 => ⟨[z], some [4]⟩

def three (x y z : R) : Shared 3 R (List (Quantity R)) (List (Quantity R)) where
  mesh := 0
  estimator := 0
  parts := threeParts x y z
  whole := ⟨[x, y, z], some [1, 2, 4]⟩
  site i := giving (threeParts x y z i) true
  here _ _ := True
  alone := giving ⟨[x, y, z], some [1, 2, 4]⟩ false
  there _ := True

theorem three_served {x y z : R} (finite : [x, y, z].all Arith.isFinite = true) : (three x y z).Served where
  cut := by
    refine ⟨rfl, nofun, fun fs hfs => ?_⟩
    obtain rfl : [1, 2, 4] = fs := Option.some.inj hfs
    refine ⟨rfl, fun i => ?_⟩
    match i with
    | 0 | 1 | 2 => rfl
  finite := finite
  worker i := ⟨fun _ _ => rfl, fun w _ => ⟨w, rfl, trivial⟩, fun w _ => ⟨w, rfl, trivial⟩⟩
  connected _ _ _ := rfl
  allreduce _ _ own w _ :=
    match w with
    | [] => ⟨own, [], rfl, trivial⟩
    | q :: qs => ⟨q, qs, rfl, trivial⟩
  alone := ⟨fun _ _ => rfl, fun w _ => ⟨w, rfl, trivial⟩, fun w _ => ⟨w, rfl, trivial⟩⟩
  unconnected _ _ := rfl

def start (rounds : List (Round 3 R)) : Bench R (List (Quantity R)) := ⟨rounds.map Round.whole, [], [], []⟩

theorem three_honest (x y z : R) (s : Settings R) {rounds : List (Round 3 R)}
    (comes : ∀ r ∈ rounds, r.op.Comes r.own Finset.univ r.whole)
    (logs : ∀ i, (stateAfter (Marking.pass ((three x y z).site i) 0 0 s) (start rounds)).reductions =
      rounds.map fun r => ⟨r.op, r.own i, r.whole⟩) :
    Honest fun i => (stateAfter (Marking.pass ((three x y z).site i) 0 0 s) (start rounds)).reductions := by
  simp only [logs]
  exact honest_of_rounds comes

/-- The passes of three workers come to one marking, but for the marks, which it has one after another. -/
def Agreed (x y z : R) (s : Settings R) (rounds : List (Round 3 R)) (v : Marking R) : Prop :=
  ∃ vs : Fin 3 → Marking R,
    (∀ i, outcome (Marking.pass ((three x y z).site i) 0 0 s) (start rounds) = .ok (vs i) ∧
      (vs i).bare = v.bare) ∧
    joined (fun i => (vs i).marks.map
      (Mark.shift (offset (fun j => (threeParts x y z j).errors) i))) = v.marks

/-- What is reduced for the maximum norm, and what for the sum of magnitudes. -/
def maximumRounds : List (Round 3 Float) :=
  [⟨.sum, ![.int 2, .int 0, .int 1], .int 3⟩, ⟨.max, ![.real 1.5, .real 0, .real 1], .real 1.5⟩,
    ⟨.sum, ![.int 1, .int 0, .int 1], .int 2⟩]

def sumRounds : List (Round 3 ℚ) :=
  [⟨.sum, ![.int 2, .int 0, .int 1], .int 3⟩, ⟨.max, ![.real 3, .real 0, .real 2], .real 3⟩,
    ⟨.sum, ![.real (4 / 3), .real 0, .real (2 / 3)], .real 2⟩, ⟨.sum, ![.int 1, .int 0, .int 1], .int 2⟩]

theorem maximumRounds_come : ∀ r ∈ maximumRounds, r.op.Comes r.own Finset.univ r.whole := by
  simp only [maximumRounds, List.forall_mem_cons]
  exact ⟨comes_three rfl rfl, comes_three rfl rfl, comes_three rfl rfl, List.forall_mem_nil _⟩

theorem sumRounds_come : ∀ r ∈ sumRounds, r.op.Comes r.own Finset.univ r.whole := by
  have greater (a b : ℚ) (h : b < a) : Reduction.max.combine (.real a) (.real b) = .ok (.real a) := by
    rw [Reduction.combine_max, Arith.max, if_neg]
    exact Bool.eq_false_iff.mp (decide_eq_false h.le.not_gt)
  have added (a b c : ℚ) (h : a + b = c) : Reduction.sum.combine (.real a) (.real b) = .ok (.real c) :=
    h ▸ rfl
  simp only [sumRounds, List.forall_mem_cons]
  refine ⟨comes_three rfl rfl, comes_three (greater 3 0 (by norm_num)) (greater 3 2 (by norm_num)),
    comes_three (added (4 / 3) 0 (4 / 3) (by norm_num)) (added (4 / 3) (2 / 3) 2 (by norm_num)),
    comes_three rfl rfl, List.forall_mem_nil _⟩

set_option maxRecDepth 20000 in
theorem marks_as_one_of_three :
    Agreed (0.25 : Float) 1.5 1 ⟨.infinite, 0, 0.5, 0, 100⟩ maximumRounds
        ⟨[⟨1, .y⟩, ⟨2, .z⟩], 0.75, some 1.5, 3, 2⟩ ∧
      Agreed (1 : ℚ) 3 2 ⟨.finite 1, 0, 1 / 2, 0, 100⟩ sumRounds
        ⟨[⟨1, .y⟩, ⟨2, .z⟩], 1, some 6, 3, 2⟩ := by
  constructor
  · have honest := three_honest (0.25 : Float) 1.5 1 ⟨.infinite, 0, 0.5, 0, 100⟩ maximumRounds_come
      fun i => match i with | 0 | 1 | 2 => rfl
    have alone : outcome (Marking.pass (three (0.25 : Float) 1.5 1).alone 0 0 ⟨.infinite, 0, 0.5, 0, 100⟩)
        (start []) = .ok ⟨[⟨1, .y⟩, ⟨2, .z⟩], 0.75, some 1.5, 3, 2⟩ := rfl
    exact (marks_as_one (three_served rfl) _ nofun (fun _ => trivial) trivial
      (fun _ _ => rfl) honest).1 _ alone
  · have honest := three_honest (1 : ℚ) 3 2 ⟨.finite 1, 0, 1 / 2, 0, 100⟩ sumRounds_come (by decide +kernel)
    have alone : outcome (Marking.pass (three (1 : ℚ) 3 2).alone 0 0 ⟨.finite 1, 0, 1 / 2, 0, 100⟩)
        (start []) = .ok ⟨[⟨1, .y⟩, ⟨2, .z⟩], 1, some 6, 3, 2⟩ := ok_of_toOption (by decide +kernel)
    exact (marks_as_one (three_served rfl) _ (fun _ _ => Arith.exact_rational) (fun _ => trivial) trivial
      (fun _ _ => rfl) honest).1 _ alone

end Shared

end Regrid
