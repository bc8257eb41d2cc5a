/-
  Regrid.Proofs.Totals — the total error is a norm.

  A total is found in steps: the common maximum is agreed on, errors are divided by it, their
  powers are summed and summed again over the workers, the root is taken and multiplied by
  the maximum; and where the maximum is zero nothing of this is done. With real numbers all
  of it comes to the norm as it is written (`Norm.exact`), for whoever has the mesh to itself
  and for workers that share it (`Norm.Totals`).

  What is known of norms is then known of totals: the order of the elements does not count,
  a factor may be drawn out, and the total is at least the greatest magnitude and at most
  n^(1/p) times that.
-/

import Regrid.Proofs.Criterion

namespace Regrid

variable {W : Type} {n : Nat}

namespace Norm

/-! ## Norms -/

variable {errors errors' : List ℝ} {exponent : Exponent ℝ} {p c : ℝ}

/-- The maximum norm is the greatest magnitude, or zero without errors. -/
theorem exact_infinite (errors : List ℝ) :
    IsGreatest {a | a = 0 ∨ ∃ e ∈ errors, a = |e|} (exact errors .infinite) := by
  have same : {a | a = 0 ∨ ∃ e ∈ errors, a = |e|} = {a | a = 0 ∨ a ∈ errors.map fun e => |e|} := by
    ext a
    simp only [Set.mem_ofPred_eq, List.mem_map, eq_comm]
  rw [same, ← peak_exact]
  exact isGreatest_peak errors

theorem exact_nonneg (errors : List ℝ) (exponent : Exponent ℝ) : 0 ≤ exact errors exponent := by
  cases exponent with
  | infinite => exact (exact_infinite errors).2 (.inl rfl)
  | finite p => exact Real.rpow_nonneg (sum_nonneg fun e => by positivity) _

theorem exact_perm (h : errors.Perm errors') (exponent : Exponent ℝ) :
    exact errors exponent = exact errors' exponent := by
  cases exponent with
  | infinite =>
    have same : {a | a = 0 ∨ ∃ e ∈ errors, a = |e|} = {a | a = 0 ∨ ∃ e ∈ errors', a = |e|} := by
      simp only [h.mem_iff]
    exact (exact_infinite errors).unique (same ▸ exact_infinite errors')
  | finite p => exact congrArg (· ^ (1 / p)) (h.map _).sum_eq

theorem exact_scale (positive : ∀ p, exponent = .finite p → 0 < p) (hc : 0 ≤ c) (errors : List ℝ) :
    exact (errors.map fun e => c * e) exponent = c * exact errors exponent := by
  cases exponent with
  | infinite =>
    obtain ⟨attained, bound⟩ := exact_infinite errors
    refine (exact_infinite _).unique ⟨?_, ?_⟩
    · rcases attained with none | ⟨e, he, some⟩
      · left
        rw [none, mul_zero]
      · right
        refine ⟨c * e, List.mem_map_of_mem he, ?_⟩
        rw [some, abs_mul, abs_of_nonneg hc]
    · rintro a (rfl | ⟨_, h, rfl⟩)
      · exact mul_nonneg hc (exact_nonneg _ _)
      · obtain ⟨e, he, rfl⟩ := List.mem_map.mp h
        rw [abs_mul, abs_of_nonneg hc]
        exact mul_le_mul_of_nonneg_left (bound (.inr ⟨e, he, rfl⟩)) hc
  | finite p =>
    have hp := positive p rfl
    have powers : ((errors.map fun e => c * e).map fun e => |e| ^ p).sum =
        c ^ p * (errors.map fun e => |e| ^ p).sum := by
      rw [List.map_map, ← List.sum_map_mul_left]
      congr 1
      refine List.map_congr_left fun e _ => ?_
      rw [Function.comp_apply, abs_mul, abs_of_nonneg hc, Real.mul_rpow hc (abs_nonneg e)]
    have nonneg : 0 ≤ (errors.map fun e => |e| ^ p).sum := sum_nonneg fun e => by positivity
    rw [exact, exact, powers, Real.mul_rpow (by positivity) nonneg, one_div, Real.rpow_rpow_inv hc hp.ne']

/-- No error is greater than the norm of all. -/
theorem le_exact (hp : 0 < p) : exact errors .infinite ≤ exact errors (.finite p) := by
  rcases (exact_infinite errors).1 with none | ⟨e, he, some⟩
  · rw [none]
    exact exact_nonneg errors _
  · have one : |e| ^ p ≤ (errors.map fun e => |e| ^ p).sum := by
      refine List.single_le_sum (fun x hx => ?_) _ (List.mem_map_of_mem he)
      obtain ⟨e', -, rfl⟩ := List.mem_map.mp hx
      positivity
    calc exact errors .infinite = (|e| ^ p) ^ (1 / p) := by
          rw [some, one_div, Real.rpow_rpow_inv (abs_nonneg e) hp.ne']
      _ ≤ exact errors (.finite p) := Real.rpow_le_rpow (by positivity) one (by positivity)

/-! ## Totals -/

/-- Workers share these errors, and all take the total over an honest communicator. -/
structure Gathered (mesh : MeshId) (exponent : Exponent ℝ) (errors : List ℝ) (parts : Fin n → List ℝ)
    (site : Fin n → Site ℝ W) (here : Fin n → W → Prop) (b : Fin n → Bench ℝ W) : Prop where
  joined : joined parts = errors
  connected : ∀ i w, here i w → (site i).isConnected mesh w = true
  allreduce : ∀ i op own w, here i w → ∃ whole w', (site i).allreduce mesh op own w = .ok whole w' ∧ here i w'
  here : ∀ i, here i (b i).world
  level : ∀ i j, (b i).reductions.length = (b j).reductions.length
  honest : Honest fun i => (stateAfter (Norm.total (site i) mesh (parts i) exponent) (b i)).reductions

/-- What all totals of these errors come to: where the mesh is not shared, and for each of its workers
    where it is. -/
structure Totals (errors : List ℝ) (exponent : Exponent ℝ) (t : ℝ) : Prop where
  alone : ∀ (W : Type) (site : Site ℝ W) (mesh : MeshId) (b : Bench ℝ W),
    (∀ w, site.isConnected mesh w = false) → outcome (Norm.total site mesh errors exponent) b = .ok (some t)
  shared : ∀ (W : Type) (n : Nat) (site : Fin n → Site ℝ W) (mesh : MeshId) (parts : Fin n → List ℝ)
    (here : Fin n → W → Prop) (b : Fin n → Bench ℝ W), Gathered mesh exponent errors parts site here b →
    ∀ i, outcome (Norm.total (site i) mesh (parts i) exponent) (b i) = .ok (some t)

theorem totals_exact (positive : ∀ p, exponent = .finite p → 0 < p) (errors : List ℝ) :
    Totals errors exponent (exact errors exponent) where
  alone W site mesh b serial := by
    obtain ⟨log, own, went, -⟩ := follows_total (o := .alone fun _ => True)
      (fun op own => .reduce_alone (fun w _ => serial w) op own) errors exponent b trivial
    rw [went.eq_alone own, Talk.total_exact errors positive]
  shared W n site mesh parts here b gathered := by
    have workers (i : Fin n) := follows_total (o := .notes (here i))
      (fun op own => .reduce (gathered.connected i) op own (gathered.allreduce i op own)) (parts i) exponent (b i)
      (gathered.here i)
    choose log shown went _ using workers
    have added (i : Fin n) : (stateAfter (Norm.total (site i) mesh (parts i) exponent) (b i)).reductions =
        (b i).reductions ++ log i := shown i
    have honest := gathered.honest
    simp only [added] at honest
    have cut : Cut (fun i => (⟨parts i, none⟩ : Part ℝ)) ⟨errors, none⟩ := ⟨gathered.joined, fun _ _ => rfl, nofun⟩
    have alike := (Amounts.total cut (Arith.finite_real errors) exponent fun _ _ => Arith.exact_real).result went
      (honest.of_append gathered.level)
    rw [Talk.total_exact errors positive] at alike
    obtain ⟨totals, returned, common⟩ := alike
    exact fun i => (returned i).trans (congrArg Except.ok (common i))

/-- Totals are norms. So their order does not count, factors are drawn out, and a total is between the
    greatest magnitude and n^(1/p) times that. -/
theorem total_is_norm (positive : ∀ p, exponent = .finite p → 0 < p) (errors : List ℝ) :
    Totals errors exponent (exact errors exponent) ∧
      (∀ errors', errors.Perm errors' → Totals errors' exponent (exact errors exponent)) ∧
      (∀ c, 0 ≤ c → Totals (errors.map fun e => c * e) exponent (c * exact errors exponent)) ∧
      ∃ m, IsGreatest {a | a = 0 ∨ ∃ e ∈ errors, a = |e|} m ∧
        (exponent = .infinite → exact errors exponent = m) ∧
        ∀ p, exponent = .finite p →
          m ≤ exact errors exponent ∧ exact errors exponent ≤ (errors.length : ℝ) ^ (1 / p) * m := by
  refine ⟨totals_exact positive errors, fun errors' h => ?_, fun c hc => ?_, _, exact_infinite errors, ?_, ?_⟩
  · rw [exact_perm h exponent]
    exact totals_exact positive errors'
  · rw [← exact_scale positive hc]
    exact totals_exact positive _
  · rintro rfl
    rfl
  · rintro p rfl
    have hp := positive p rfl
    refine ⟨le_exact hp, exact_le hp (exact_nonneg errors .infinite) fun e he => ?_⟩
    exact (exact_infinite errors).2 (.inr ⟨e, he, rfl⟩)

end Norm

/-! ## Three workers, one without elements -/

namespace Shared

/-- What is reduced for a total, of all that is reduced for an update. -/
noncomputable def normRounds : List (Round 3 ℝ) := (realRounds.drop 1).take 2

theorem normRounds_eq : normRounds = [⟨.max, ![.real 3, .real 0, .real 2], .real 3⟩,
    ⟨.sum, ![.real (4 / 3), .real 0, .real (2 / 3)], .real 2⟩] := rfl

/-- What a worker reduces for the sum of magnitudes. -/
theorem totals_of_three {part : Part ℝ} {m whole : ℝ} (peak : Norm.peak part.errors = m)
    (sum : Norm.powerSum part.errors 3 1 = whole) :
    (stateAfter (Norm.total (giving part true) 0 part.errors (.finite 1)) (start normRounds)).reductions =
      [⟨.max, .real m, .real 3⟩, ⟨.sum, .real whole, .real 2⟩] := by
  have root : Norm.root (3 : ℝ) 1 2 = .ok (some 6) := by
    rw [Norm.root_real one_pos two_pos.le]
    norm_num
  have went : Ends (Norm.total (giving part true) 0 part.errors (.finite 1)) (start normRounds)
      (fun _ t => t.reductions = [⟨.max, .real m, .real 3⟩, ⟨.sum, .real whole, .real 2⟩]) (fun _ _ => False) := by
    simp [Norm.total, Norm.commonPeak, Norm.scaled, Collective.sum, Collective.max, ends_reduce_giving, start,
      normRounds_eq, peak, sum, root, Quantity.value, Number.toReal, Bench.reductions]
    rfl
  obtain ⟨_, t, run, reductions⟩ := went.returns
  simp only [stateAfter, run, reductions]

theorem total_is_norm_of_three :
    outcome (Norm.total (three (1 : ℝ) 3 2).alone 0 [1, 3, 2] (.finite 1)) (start []) = .ok (some 6) ∧
      ∀ i, outcome (Norm.total ((three (1 : ℝ) 3 2).site i) 0 (threeParts 1 3 2 i).errors (.finite 1))
        (start normRounds) = .ok (some 6) := by
  have positive (p : ℝ) (h : Exponent.finite 1 = .finite p) : 0 < p := by
    cases h
    exact one_pos
  obtain ⟨totals, -⟩ := Norm.total_is_norm positive [1, 3, 2]
  have norm : Norm.exact [1, 3, 2] (.finite 1) = 6 := by norm_num [Norm.exact]
  rw [norm] at totals
  have logs (i : Fin 3) : (stateAfter (Norm.total ((three (1 : ℝ) 3 2).site i) 0 (threeParts 1 3 2 i).errors
      (.finite 1)) (start normRounds)).reductions = normRounds.map fun r => ⟨r.op, r.own i, r.whole⟩ := by
    fin_cases i
    · exact totals_of_three (by norm_num [threeParts, Norm.peak, Arith.peakOf, Arith.abs, Arith.lt, Arith.eq])
        (by norm_num [threeParts, Norm.powerSum, Arith.sum, Arith.power, Arith.div, Arith.abs, Arith.add])
    · exact totals_of_three rfl rfl
    · exact totals_of_three (by norm_num [threeParts, Norm.peak, Arith.peakOf, Arith.abs, Arith.lt, Arith.eq])
        (by norm_num [threeParts, Norm.powerSum, Arith.sum, Arith.power, Arith.div, Arith.abs, Arith.add])
  have served : (three (1 : ℝ) 3 2).Served := three_served rfl
  refine ⟨totals.alone _ _ 0 _ fun _ => rfl, totals.shared _ _ _ 0 _ (fun _ _ => True) _
    ⟨rfl, served.connected, served.allreduce, fun _ => trivial, fun _ _ => rfl, ?_⟩⟩
  simp only [logs]
  refine honest_of_rounds ?_
  have added : Reduction.sum.combine (.real (4 / 3 : ℝ)) (.real 0) = .ok (.real (4 / 3)) :=
    congrArg (fun x => Except.ok (Quantity.real x)) (add_zero (4 / 3 : ℝ))
  have whole : Reduction.sum.combine (.real (4 / 3 : ℝ)) (.real (2 / 3)) = .ok (.real 2) :=
    congrArg (fun x => Except.ok (Quantity.real x)) (by norm_num : (4 / 3 : ℝ) + 2 / 3 = 2)
  have greater (x y : ℝ) (h : y ≤ x) : Reduction.max.combine (.real x) (.real y) = .ok (.real x) := by
    rw [Reduction.combine_max, Arith.max_real, max_eq_left h]
  simp only [normRounds_eq, List.forall_mem_cons]
  exact ⟨comes_three (greater 3 0 (by norm_num)) (greater 3 2 (by norm_num)), comes_three added whole,
    List.forall_mem_nil _⟩

end Shared

end Regrid
