/-
  Regrid.Proofs.Crew — workers that share a mesh, and what is assumed of their surroundings.

  Each worker has surroundings, markers and controls of its own. What is a worker's own (its
  elements, errors, marks and sibling groups) differs from worker to worker; a marking, a
  marker or a call without that is bare. Workers are abreast when all they have is alike but
  for what is their own (`Abreast`).

  Of the surroundings of one worker it is assumed that they deliver what they are asked for,
  that it is valid, and that reading leaves the mesh alone (`Worker`). What the workers are
  promised together is said of the end of their runs (`Concord`): a reduction that all of
  them entered as their n-th, with the same operation, gave all of them the same, and after
  their n-th change they all saw the mesh alike.
-/

import Mathlib.Logic.Nontrivial.Basic
import Regrid.Control.Update
import Regrid.Proofs.Outcome

namespace Regrid

variable {ι R W α β : Type}

/-! ## What is alike -/

/-- The marking without the marks. -/
def Marking.bare (m : Marking R) : Marking R := { m with marks := [] }

/-- The marker without the marks it keeps. -/
def Marker.bare (m : Marker R) : Marker R :=
  { m with cache := ⟨m.cache.value.map Marking.bare, m.cache.stamp, m.cache.builds⟩ }

theorem Marker.mesh_of_bare {m m' : Marker R} (h : m.bare = m'.bare) : m.mesh = m'.mesh :=
  (congrArg Marker.mesh h :)

theorem Marker.source_of_bare {m m' : Marker R} (h : m.bare = m'.bare) : m.source = m'.source :=
  (congrArg Marker.source h :)

theorem Marker.stamp_of_bare {m m' : Marker R} (h : m.bare = m'.bare) : m.cache.stamp = m'.cache.stamp :=
  (congrArg (·.cache.stamp) h :)

theorem Marker.value_of_bare {m m' : Marker R} (h : m.bare = m'.bare) :
    m.cache.value.map Marking.bare = m'.cache.value.map Marking.bare := (congrArg (·.cache.value) h :)

/-- The call without what a worker put in or found. -/
def Call.bare : Call R → Call R
  | .refine _ mode limit => .refine [] mode limit
  | .derefine _ threshold limit => .derefine [] threshold limit
  | .violations limit _ => .violations limit []
  | .rebalance => .rebalance
  | .reduce op _ => .reduce op (.int 0)

/-- What all workers see of a mesh. -/
structure View where
  version : Int
  isNonconforming : Bool
  isDistributed : Bool
  deriving DecidableEq, Repr

def Site.view (site : Site R W) (mesh : MeshId) (w : W) : View :=
  ⟨site.version mesh w, site.isNonconforming mesh w, site.isDistributed mesh w⟩

def Event.entered? : Event R → Option (MeshId × Call R)
  | .call mesh c => some (mesh, c.bare)
  | _ => none

def Event.agreed? : Event R → Option (Reduction × Quantity R)
  | .note (.reduced op _ whole) => some (op, whole)
  | _ => none

namespace Bench

/-- The calls so far, bare and in order, reductions among them. -/
def entered (b : Bench R W) : List (MeshId × Call R) := (b.trace.filterMap Event.entered?).reverse

/-- The reductions so far, in order, with what came of them. -/
def agreed (b : Bench R W) : List (Reduction × Quantity R) := (b.trace.filterMap Event.agreed?).reverse

variable (b : Bench R W)

@[simp] theorem entered_record (e : Event R) : (b.record e).entered = b.entered ++ e.entered?.toList := by
  cases he : e.entered? <;> simp [entered, he]

@[simp] theorem agreed_record (e : Event R) : (b.record e).agreed = b.agreed ++ e.agreed?.toList := by
  cases he : e.agreed? <;> simp [agreed, he]

end Bench

/-! ## What is assumed -/

/-- The group names elements, of which there are `n`. -/
def Group.Names (n : Int) : Group → Prop
  | .positions is => is ≠ [] ∧ ∀ i ∈ is, -n ≤ i ∧ i < n
  | .mask _ | .unusable _ => False

/-- One finite error for each of `n` elements. -/
def ValidErrors [Arith R] (n : Int) (errors : List R) : Prop :=
  (errors.length : Int) = n ∧ errors.all Arith.isFinite = true

/-- One flag for each of `n` elements, or none at all. -/
def ValidFlags (n : Int) (flags : Option (List Int)) : Prop := ∀ fs, flags = some fs → (fs.length : Int) = n

section

variable (site : Site R W) (mesh : MeshId) (past : W → List View)

/-- What is asked for is delivered and suits the number of elements; the mesh is left alone. -/
def Delivers (q : EStateM Fault W α) (valid : Int → α → Prop) : Prop :=
  ∀ w, ∃ a w', q w = .ok a w' ∧ past w' = past w ∧ site.elements mesh w' = site.elements mesh w ∧
    valid (site.elements mesh w) a

/-- The mesh is changed, and looks anew. -/
def Changes (q : EStateM Fault W α) : Prop :=
  ∀ w, ∃ v a w', q w = .ok a w' ∧ past w' = past w ++ [v]

/-- The surroundings of one worker do what they are asked to. Nothing but a change of the mesh
    touches it, and `past` records how it looked after each change, the present look last. -/
structure Worker [Arith R] : Prop where
  present : ∀ w, (past w).getLast? = some (site.view mesh w)
  refine : ∀ marks mode limit, Changes past (site.refine mesh marks mode limit)
  derefine : ∀ errors threshold limit, Changes past (site.derefine mesh errors threshold limit)
  rebalance : Changes past (site.rebalance mesh)
  groups : ∀ w, ∀ g ∈ site.groups mesh w, g.Names (site.elements mesh w)
  errors : ∀ estimator, Delivers site mesh past (site.errors estimator) ValidErrors
  flags : ∀ estimator, Delivers site mesh past (site.flags estimator) ValidFlags
  violations : ∀ limit, Delivers site mesh past (site.violations mesh limit) fun _ _ => True
  allreduce : ∀ op own, Delivers site mesh past (site.allreduce mesh op own) fun _ _ => True

end

/-- Workers that share a mesh, each in surroundings of its own. -/
structure Crew (ι R W : Type) where
  site : ι → Site R W
  mesh : MeshId
  /-- How the mesh looked to a worker after each change, the present look last. -/
  past : ι → W → List View

/-- Each worker is served, and one among others has a communicator. -/
structure Crew.Served [Arith R] (crew : Crew ι R W) : Prop where
  worker : ∀ i, Worker (crew.site i) crew.mesh (crew.past i)
  connected : Nontrivial ι → ∀ i w, (crew.site i).isConnected crew.mesh w = true

/-- What all have as their n-th, of the same kind, is the same for all. -/
def Consent (kind : α → β) (logs : ι → List α) : Prop :=
  ∀ (n : Nat) (k : β), (∀ i, (logs i)[n]?.map kind = some k) → ∀ i j, (logs i)[n]? = (logs j)[n]?

/-- The reductions that all workers entered came out alike, and so did the looks of the mesh. -/
structure Crew.Concord (crew : Crew ι R W) (b : ι → Bench R W) : Prop where
  reductions : Consent Prod.fst fun i => (b i).agreed
  views : Consent (fun _ => ()) fun i => crew.past i (b i).world

/-- Every marker is a threshold marker of the mesh, and no control is of a caller's own making. -/
structure Fit (mesh : MeshId) (b : Bench R W) : Prop where
  markers : ∀ m ∈ b.markers, m.mesh = mesh ∧ ∃ estimator settings, m.source = .threshold estimator settings
  controls : ∀ c ∈ b.controls, ∀ f label, c.strategy ≠ .foreign f label

/-- All workers have the same but for what is their own. -/
structure Crew.Abreast (crew : Crew ι R W) (b : ι → Bench R W) : Prop where
  controls : ∀ i j, (b i).controls = (b j).controls
  markers : ∀ i j, (b i).markers.map Marker.bare = (b j).markers.map Marker.bare
  entered : ∀ i j, (b i).entered = (b j).entered
  agreed : ∀ i j, (b i).agreed = (b j).agreed
  views : ∀ i j, crew.past i (b i).world = crew.past j (b j).world

/-! ## Promises kept so far -/

section

variable {kind : α → β} {logs logs' : ι → List α}

theorem Consent.of_eq (h : ∀ i j, logs i = logs j) : Consent kind logs := fun _ _ _ i j => by rw [h i j]

/-- What was promised of longer logs was promised of their beginnings. -/
theorem Consent.of_isPrefix (h : Consent kind logs') (hl : ∀ i, logs i <+: logs' i) :
    Consent kind logs := by
  intro n k hk i j
  have reached (i : ι) : (logs' i)[n]? = (logs i)[n]? := by
    obtain ⟨a, ha, -⟩ := Option.map_eq_some_iff.mp (hk i)
    obtain ⟨hlt, -⟩ := List.getElem?_eq_some_iff.mp ha
    obtain ⟨rest, hrest⟩ := hl i
    rw [← hrest, List.getElem?_append_left hlt]
  have hk' : ∀ i, (logs' i)[n]?.map kind = some k := fun i => by rw [reached, hk i]
  rw [← reached i, ← reached j]
  exact h n k hk' i j

/-- Where logs were the same so far, what comes next and is of the same kind is the same. -/
theorem Consent.next {news : ι → List α} (h : Consent kind fun i => logs i ++ news i)
    (hl : ∀ i j, logs i = logs j)
    (hk : ∀ i j, (news i).map kind = (news j).map kind) (i j : ι) : news i = news j := by
  apply List.ext_getElem?
  intro n
  have later (i' : ι) : (logs i' ++ news i')[(logs i).length + n]? = (news i')[n]? := by
    rw [hl i i', List.getElem?_append_right (by omega), Nat.add_sub_cancel_left]
  have kinds (i' : ι) : (news i')[n]?.map kind = (news i)[n]?.map kind := by
    simpa only [List.getElem?_map] using congrArg (·[n]?) (hk i' i)
  cases hn : (news i)[n]? with
  | none =>
    have none_j : (news j)[n]?.map kind = none := by rw [kinds, hn]; rfl
    exact (Option.map_eq_none_iff.mp none_j).symm
  | some a =>
    have all : ∀ i', (logs i' ++ news i')[(logs i).length + n]?.map kind = some (kind a) :=
      fun i' => by rw [later, kinds, hn]; rfl
    have same := h _ _ all i j
    rw [later, later] at same
    rw [← hn, same]

end

/-! ## What passes where everything is valid -/

theorem Value.equals_int (n m : Int) : (Value.int n).equals (.int m) = .ok (n == m) := by
  have compared :
      Quantity.compared (.int n) (.int m) = .ok ((.int n, .int m) : Number Float × Number Float) := rfl
  simp only [Value.equals, Quantity.equals, compared, bind, Except.bind, Number.equals]
  rfl

theorem Admission.checkSize_ok (what : Delivery) (context : String) (n : Nat) :
    checkSize what context (.int n) n = .ok ⟨⟩ := by
  simp only [checkSize, Value.equals_int, beq_self_eq_true]
  rfl

theorem Admission.checkSize_length {what : Delivery} {context : String} {n : Int} {length : Nat}
    (h : checkSize what context (.int n) length = .ok ⟨⟩) : (length : Int) = n := by
  simp only [checkSize, Value.equals_int] at h
  by_cases heq : n = length
  · exact heq.symm
  · rw [beq_false_of_ne heq] at h
    cases h

theorem Admission.errorVector_ok [Arith R] (context : String) {n : Int} {errors : List R}
    (h : ValidErrors n errors) : errorVector context (.int n) errors = .ok errors := by
  simp only [errorVector, ← h.1, checkSize_ok, h.2]
  rfl

/-- What passes is valid, and is what was delivered. -/
theorem Admission.errorVector_valid [Arith R] {context : String} {n : Int} {errors es : List R}
    (h : errorVector context (.int n) errors = .ok es) : es = errors ∧ ValidErrors n errors := by
  unfold errorVector at h
  cases hsize : checkSize .errors context (.int n) errors.length with
  | error f => rw [hsize] at h; cases h
  | ok _ =>
    rw [hsize] at h
    by_cases hfinite : errors.all Arith.isFinite = true
    · simp only [hfinite, if_true] at h
      exact ⟨(Except.ok.inj h).symm, checkSize_length hsize, hfinite⟩
    · simp only [hfinite] at h
      cases h

theorem Admission.flagVector_ok (context : String) {n : Int} {flags : List Int}
    (hlen : (flags.length : Int) = n) :
    flagVector context (.int n) flags = .ok flags := by
  simp only [flagVector, ← hlen, checkSize_ok]
  rfl

theorem Group.pick_ok {xs : List α} {i : Int} (lower : -(xs.length : Int) ≤ i) (upper : i < xs.length) :
    ∃ x, Group.pick xs i = .ok x ∧ x ∈ xs := by
  obtain ⟨j, hj, hlt⟩ : ∃ j : Nat, (if i < 0 then i + xs.length else i) = j ∧ j < xs.length := by
    split
    · exact ⟨(i + xs.length).toNat, by omega, by omega⟩
    · exact ⟨i.toNat, by omega, by omega⟩
  refine ⟨xs[j], ?_, List.getElem_mem hlt⟩
  have hneg : ¬ (j : Int) < 0 := by omega
  simp only [Group.pick, hj, hneg, if_false, Int.toNat_natCast, List.getElem?_eq_getElem hlt]

/-- The entries of a group of existing elements are some of all entries. -/
theorem Group.Names.select_ok {g : Group} {xs : List α} (h : g.Names xs.length) :
    ∃ ys, g.select xs = .ok ys ∧ ys ≠ [] ∧ ∀ y ∈ ys, y ∈ xs := by
  cases g with
  | positions is =>
    obtain ⟨hne, hin⟩ := h
    obtain ⟨ys, hys, hall⟩ := mapM_ok fun i hi => Group.pick_ok (hin i hi).1 (hin i hi).2
    refine ⟨ys, hys, fun hnil => hne ?_, forall_of_forall₂ hall⟩
    rw [hnil] at hall
    cases hall
    rfl
  | mask | unusable => exact h.elim

theorem Coarsen.combined_ok [Arith R] (c : Combine) {errors : List R} (h : errors ≠ []) :
    ∃ e, Coarsen.combined c errors = .ok e := by
  cases errors with
  | nil => exact absurd rfl h
  | cons e es => cases c <;> exact ⟨_, rfl⟩

/-- Groups of existing elements have errors. -/
theorem Coarsen.groupErrors_ok [Arith R] (c : Combine) {errors : List R} {groups : List Group}
    (h : ∀ g ∈ groups, g.Names errors.length) :
    ∃ combined, Coarsen.groupErrors c errors groups = .ok combined := by
  have each (g : Group) (hg : g ∈ groups) : ∃ e, Coarsen.groupError c errors g = .ok e := by
    obtain ⟨ys, hys, hne, -⟩ := (h g hg).select_ok
    obtain ⟨e, he⟩ := combined_ok c hne
    exact ⟨e, by simp only [Coarsen.groupError, hys]; exact he⟩
  obtain ⟨combined, hc, -⟩ := mapM_ok fun g hg => (each g hg).imp fun _ he => And.intro he trivial
  exact ⟨combined, hc⟩

end Regrid
