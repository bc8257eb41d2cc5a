/-
  Regrid.Proofs.Course — which control the next update comes to.

  In a tree of controls no rotation holds itself. The next update of a rotation goes down to
  the member after the cursor, and on from there (`Leads`). A limited control that is about
  to restore its limit is on course when the next update of the root comes to it
  (`OnCourse`): rotations that move their cursor to a member keep to the course of that
  member, and so do those that step back from it.
-/

import Regrid.Forest.Site
import Regrid.Proofs.Plan

namespace Regrid

variable {R E : Type}

/-! ## Trees -/

def Strategy.isForeign : Strategy R → Bool
  | .foreign _ _ => true
  | _ => false

/-- A control that is none of a caller's own making and holds only such controls, down to ones
    that hold none. -/
inductive Tree (p : List (Strategy R)) : ControlId → Prop
  | node {k s} : p[k]? = some s → s.isForeign = false → (∀ m ∈ s.members, Tree p m) → Tree p k

namespace Tree

variable {p : List (Strategy R)} {k j : ControlId}

theorem of_holds (h : Tree p k) (hj : Holds p k j) : Tree p j := by
  obtain ⟨s, hs, hm⟩ := hj
  cases h with
  | node hk _ hmembers =>
    obtain rfl := Option.some.inj (hk.symm.trans hs)
    exact hmembers j hm

theorem alone (h : Tree p k) : ¬ Relation.TransGen (Holds p) k k := by
  induction h with
  | @node k s hk _ _ ih =>
    intro hloop
    obtain ⟨m, hm, hr⟩ := Relation.TransGen.head'_iff.mp hloop
    obtain ⟨s', hs', hmem⟩ := hm
    obtain rfl := Option.some.inj (hk.symm.trans hs')
    exact ih m hmem (.tail' hr ⟨s, hk, hmem⟩)

/-- No member of a control in a tree leads back to it. -/
theorem not_reaches (h : Tree p k) {m : ControlId} (hm : Holds p k m) : ¬ Reaches p m k :=
  fun hr => h.alone (Relation.TransGen.head' hm hr)

end Tree

/-! ## Strategies on a bench -/

namespace Bench

variable {W : Type} {b : Bench R W} {k : ControlId}

def strategies (b : Bench R W) : List (Strategy R) := b.controls.map (·.strategy)

/-- The control is about to restore its limit. -/
def Limiting (b : Bench R W) (j : ControlId) (how : Coarsening R) : Prop :=
  b.strategies[j]? = some (.coarsenLimited how .limit)

theorem strategies_getElem? {c : Control R} (h : b.controls[k]? = some c) :
    b.strategies[k]? = some c.strategy := by
  simp [Bench.strategies, h]

theorem strategies_setControl (b : Bench R W) (k : ControlId) (c : Control R) :
    (b.setControl k c).strategies = b.strategies.set k c.strategy := by
  simp [Bench.strategies, List.map_set]

theorem strategies_same {c d : Control R} (h : b.controls[k]? = some c) (hd : d.strategy = c.strategy) :
    (b.setControl k d).strategies = b.strategies := by
  obtain ⟨hlt, hs⟩ := List.getElem?_eq_some_iff.mp (strategies_getElem? h)
  rw [strategies_setControl, hd, ← hs]
  exact List.set_getElem_self hlt

theorem plan_eq (b : Bench R W) : b.plan = b.strategies.map Strategy.restart := by
  simp [plan, strategies]

end Bench

/-! ## The course of the next update -/

/-- The next update of `k` comes to `j`, at most `n` levels down: each rotation on the way has it as
    the next in turn. -/
inductive Leads (ss : List (Strategy R)) : Nat → ControlId → ControlId → Prop
  | here {n k} : Leads ss (n + 1) k k
  | next {n k m j cursor members} : ss[k]? = some (.rotation cursor members) →
      members[((cursor + 1) % members.length).toNat]? = some m → Leads ss n m j → Leads ss (n + 1) k j

namespace Leads

variable {ss ss' : List (Strategy R)} {n : Nat} {k j : ControlId}

/-- Where the strategies on the way are the same, the way is. -/
theorem frame {S : ControlId → Prop} (hS : Closed (ss.map Strategy.restart) S)
    (agree : ∀ i, S i → ss'[i]? = ss[i]?) (hk : S k) (h : Leads ss n k j) : Leads ss' n k j := by
  induction h with
  | here => exact .here
  | @next n k m j cursor members hs hm _ ih =>
    have held : Holds (ss.map Strategy.restart) k m :=
      ⟨.rotation (-1) members, by simp [hs, Strategy.restart], List.mem_of_getElem? hm⟩
    exact .next ((agree k hk).trans hs) hm (ih (hS k m hk held))

/-- A control off the way may change. -/
theorem set {x : ControlId} {s : Strategy R} (off : ∀ n, ¬ Leads ss n x j) (h : Leads ss n k j) :
    Leads (ss.set x s) n k j := by
  induction h with
  | here => exact .here
  | @next n k m j cursor members hs hm hl ih =>
    have hne : x ≠ k := fun e => off (n + 1) (e ▸ .next hs hm hl)
    exact .next (by simpa [hne] using hs) hm (ih off)

theorem reaches (h : Leads ss n k j) : Reaches (ss.map Strategy.restart) k j := by
  induction h with
  | here => exact .refl
  | @next n k m j cursor members hs hm _ ih =>
    exact .head ⟨.rotation (-1) members, by simp [hs, Strategy.restart], List.mem_of_getElem? hm⟩ ih

end Leads

/-! ## The invariant -/

/-- There is something to restore. -/
def Stand.Breaks (w : Stand E) (how : Coarsening R) : Prop :=
  w.isNonconforming = true ∧ 0 < how.limit ∧ w.forest.violations how.limit ≠ []

section

variable {p : List (Strategy R)} {n : Nat} {k m : ControlId} {b t : Bench R (Stand E)}

/-- No control that `k` reaches is about to restore its limit. -/
def Calm (p : List (Strategy R)) (k : ControlId) (b : Bench R (Stand E)) : Prop :=
  ∀ j how, Reaches p k j → ¬ b.Limiting j how

/-- A control that is about to restore its limit comes next, and has something to restore. -/
def OnCourse (p : List (Strategy R)) (n : Nat) (k : ControlId) (b : Bench R (Stand E)) : Prop :=
  ∀ j how, Reaches p k j → b.Limiting j how → Leads b.strategies n k j ∧ b.world.Breaks how

/-- Of what `k` reaches only what `m` reaches may be about to restore its limit. -/
def CalmBut (p : List (Strategy R)) (k m : ControlId) (b : Bench R (Stand E)) : Prop :=
  ∀ j how, Reaches p k j → b.Limiting j how → Reaches p m j

theorem Calm.onCourse (h : Calm p k b) : OnCourse p n k b := fun j how hj hl => absurd hl (h j how hj)

/-- Where there is no level left to go down, nothing is about to be restored. -/
theorem OnCourse.calm_zero (h : OnCourse p 0 k b) : Calm p k b :=
  fun j how hj hl => nomatch (h j how hj hl).1

theorem CalmBut.calm (h : CalmBut p k m b) (hm : Calm p m b) : Calm p k b :=
  fun j how hj hl => hm j how (h j how hj hl) hl

theorem reaches_self {s : Strategy R} {j : ControlId} (hk : p[k]? = some s) (hs : s.members = [])
    (h : Reaches p k j) : j = k := by
  rcases Relation.ReflTransGen.cases_head h with rfl | ⟨m, ⟨s', hs', hm⟩, -⟩
  · rfl
  · obtain rfl := Option.some.inj (hk.symm.trans hs')
    rw [hs] at hm
    cases hm

/-- A rotation is not about to restore a limit. -/
theorem ne_of_limiting {last : Decision} {cursor : Int} {members : List ControlId} {j : ControlId}
    {how : Coarsening R} (hk : b.controls[k]? = some ⟨last, .rotation cursor members⟩)
    (h : b.Limiting j how) : k ≠ j := by
  rintro rfl
  simp [Bench.Limiting, Bench.strategies_getElem? hk] at h

/-- When a rotation moves its cursor, the course goes on from the member it moves to. -/
theorem OnCourse.member (h : OnCourse p (n + 1) k b) (hb : b.plan = p) (tree : Tree p k) {last : Decision}
    {cursor i : Int} {members : List ControlId}
    (hk : b.controls[k]? = some ⟨last, .rotation cursor members⟩)
    (hm : members[((cursor + 1) % members.length).toNat]? = some m) :
    OnCourse p n m (b.setControl k ⟨last, .rotation i members⟩) ∧
      CalmBut p k m (b.setControl k ⟨last, .rotation i members⟩) := by
  have held : Holds p k m := ⟨.rotation (-1) members, hb ▸ Bench.plan_getElem? hk, List.mem_of_getElem? hm⟩
  have apart : ¬ Reaches p m k := tree.not_reaches held
  have leads (j : ControlId) (how : Coarsening R) (hj : Reaches p k j)
      (hl : (b.setControl k ⟨last, .rotation i members⟩).Limiting j how) :
      Leads b.strategies n m j ∧ b.world.Breaks how := by
    have hne : k ≠ j := ne_of_limiting (Bench.setControl_get hk) hl
    have hlb : b.Limiting j how := by
      simpa [Bench.Limiting, Bench.strategies_setControl, List.getElem?_set, hne] using hl
    obtain ⟨hleads, hbreaks⟩ := h j how hj hlb
    cases hleads with
    | here => exact absurd rfl hne
    | next hs hm' hleads =>
      obtain ⟨rfl, rfl⟩ : cursor = _ ∧ members = _ := by
        simpa using (Bench.strategies_getElem? hk).symm.trans hs
      obtain rfl := Option.some.inj (hm.symm.trans hm')
      exact ⟨hleads, hbreaks⟩
  refine ⟨fun j how hj hl => ?_, fun j how hj hl => ?_⟩
  · obtain ⟨hleads, hbreaks⟩ := leads j how (.head held hj) hl
    refine ⟨hleads.frame (S := Reaches p m) ?_ (fun x hx => ?_) .refl, hbreaks⟩
    · rw [← Bench.plan_eq, hb]
      exact closed_reaches p m
    · have hne : k ≠ x := fun e => apart (e ▸ hx)
      simp [Bench.strategies_setControl, hne]
  · obtain ⟨hleads, -⟩ := leads j how hj hl
    have hr := hleads.reaches
    rwa [← Bench.plan_eq, hb] at hr

/-- What `m` does not reach is left as it was by whoever touches only what `m` reaches. -/
theorem CalmBut.of_touches (h : CalmBut p k m b) (ht : Touches (Reaches p m) b t) : CalmBut p k m t := by
  intro j how hj hl
  by_cases hr : Reaches p m j
  · exact hr
  · refine h j how hj ?_
    simpa [Bench.Limiting, Bench.strategies, ht.control j hr] using hl

/-- A rotation that steps back keeps to the course of the member it was at. -/
theorem OnCourse.back (h : OnCourse p n m t) (hbut : CalmBut p k m t) (ht : t.plan = p) (tree : Tree p k)
    {last : Decision} {i : Nat} {members : List ControlId}
    (hk : t.controls[k]? = some ⟨last, .rotation i members⟩)
    (hm : members[i]? = some m) :
    OnCourse p (n + 1) k (t.setControl k ⟨last, .rotation (i - 1) members⟩) := by
  have held : Holds p k m := ⟨.rotation (-1) members, ht ▸ Bench.plan_getElem? hk, List.mem_of_getElem? hm⟩
  have apart : ¬ Reaches p m k := tree.not_reaches held
  intro j how hj hl
  have hne : k ≠ j := ne_of_limiting (Bench.setControl_get hk) hl
  have hlt : t.Limiting j how := by
    simpa [Bench.Limiting, Bench.strategies_setControl, List.getElem?_set, hne] using hl
  obtain ⟨hleads, hbreaks⟩ := h j how (hbut j how hj hlt) hlt
  have hnext : members[(((i : Int) - 1 + 1) % members.length).toNat]? = some m := by
    obtain ⟨hlt, -⟩ := List.getElem?_eq_some_iff.mp hm
    rw [Int.sub_add_cancel, Int.emod_eq_of_lt (by omega) (by omega)]
    exact hm
  refine ⟨.next (Bench.strategies_getElem? (Bench.setControl_get hk)) hnext ?_, hbreaks⟩
  refine hleads.frame (S := Reaches p m) ?_ (fun x hx => ?_) .refl
  · rw [← Bench.plan_eq, ht]
    exact closed_reaches p m
  · have hne : k ≠ x := fun e => apart (e ▸ hx)
    simp [Bench.strategies_setControl, hne]

end

end Regrid
