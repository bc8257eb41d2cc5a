/-
  Regrid.Proofs.Codes — numbers that stand for decisions.

  A number is taken apart by two masks over its bits in two's complement, however large or
  negative it is: `3` leaves the low two, which give the action, and the complement of `3`
  leaves the others, which give the change (`unpack_masks`).

  A number is the code of one decision, and unpacks to that one, or of none. Then it is
  refused as inconsistent data, because its high bits are no change or because its action
  leaves no room for the change (`unpack_ok_iff`, `unpack_refuses`). But the report shows the
  high bits and the number: where there is a limit to the digits that are written, and one of
  them is longer (`Unwritten`), a fault is raised that is no report. By default 10^4300 is
  such a number (`too_long_to_report`).

  So the columns of a history tell it in full. Where the numbers of its records fit in 64
  bits there are such columns, with one entry for each record in each of them. Row by row
  they give the records again, and a change was made as often as its number stands above
  the low two bits of an entry of the last column (`columns_lossless`).
-/

import Mathlib.Data.Int.Bitwise
import Regrid.History
import Regrid.Proofs.Outcome

namespace Regrid

theorem Decimal.isWritten_iff {most : ℕ} (positive : 0 < most) (n : Int) :
    isWritten (some most) n = true ↔ n.natAbs < 10 ^ most := by
  rw [isWritten, Option.all_some, decide_eq_true_eq]
  exact Nat.length_toDigits_le_iff (by decide) positive

/-! ## Masks -/

/-- A number is its quarter, rounded down, with two bits behind it. -/
theorem two_bits (n : Int) : ∃ q high low, n = Int.bit low (Int.bit high q) := by
  refine ⟨n.div2.div2, n.div2.bodd, n.bodd, ?_⟩
  rw [Int.bit_decomp, Int.bit_decomp]

theorem land_zero (q : Int) : Int.land q 0 = 0 := by
  cases q with
  | ofNat m => simp [Int.land]
  | negSucc m => simp [Int.land, Nat.ldiff]

theorem land_ones (q : Int) : Int.land q (-1) = q := by
  cases q with
  | ofNat m =>
    show ((Nat.ldiff m 0 : Nat) : Int) = m
    simp [Nat.ldiff]
  | negSucc m =>
    show Int.negSucc (m ||| 0) = Int.negSucc m
    simp

theorem land_three (n : Int) : Int.land n 3 = n % 4 := by
  obtain ⟨q, high, low, rfl⟩ := two_bits n
  have mask : (3 : Int) = Int.bit true (Int.bit true 0) := rfl
  rw [mask, Int.land_bit, Int.land_bit, land_zero]
  simp only [Int.bit_val, Bool.and_true]
  cases low <;> cases high <;> simp <;> omega

theorem land_lnot_three (n : Int) : Int.land n (Int.lnot 3) = n - n % 4 := by
  obtain ⟨q, high, low, rfl⟩ := two_bits n
  have mask : Int.lnot 3 = Int.bit false (Int.bit false (-1)) := rfl
  rw [mask, Int.land_bit, Int.land_bit, land_ones]
  simp only [Int.bit_val, Bool.and_false]
  cases low <;> cases high <;> simp <;> omega

/-! ## Decisions and their codes -/

/-- The fault tells of inconsistent data, and of no stale marking. -/
def Fault.Inconsistent (f : Fault) : Prop := ∃ r, f.report? = some r ∧ r.rank = .integrity

theorem Change.ofCode?_eq_some {n : Int} {c : Change} : Change.ofCode? n = some c ↔ c.code = n := by
  unfold Change.ofCode?
  constructor
  · intro h
    split at h
    · cases h; simp [code, *]
    · split at h
      · cases h; simp [code, *]
      · split at h
        · cases h; simp [code, *]
        · cases h
  · intro h
    subst h
    cases c <;> rfl

namespace Decision

theorem code_actionOfBits (n : Int) : (actionOfBits n).code = Int.land n 3 := by
  rw [land_three]
  simp only [actionOfBits]
  by_cases h0 : n % 4 = 0
  · rw [if_pos h0, h0]; rfl
  · by_cases h1 : n % 4 = 1
    · rw [if_neg h0, if_pos h1, h1]; rfl
    · by_cases h2 : n % 4 = 2
      · rw [if_neg h0, if_neg h1, if_pos h2, h2]; rfl
      · rw [if_neg h0, if_neg h1, if_neg h2]
        show (3 : Int) = n % 4
        omega

theorem changeBits_eq (n : Int) : changeBits n = Int.land n (Int.lnot 3) := (land_lnot_three n).symm

theorem ofParts_ok_iff {a : Action} {c : Option Change} {d : Decision} :
    ofParts a c = .ok d ↔ d.action = a ∧ d.change? = c := by
  constructor
  · intro h
    cases a <;> cases c <;> cases h <;> exact ⟨rfl, rfl⟩
  · rintro ⟨rfl, rfl⟩
    cases d <;> rfl

theorem ofParts_refuses {a : Action} {c : Option Change} {f : Fault} (h : ofParts a c = .error f) :
    f.Inconsistent := by
  cases a <;> cases c <;> cases h <;> exact ⟨_, rfl, rfl⟩

theorem unpack_code (limit : Option ℕ) (d : Decision) : unpack limit d.code = .ok d := by
  cases d with
  | idle | stop => rfl
  | proceed c | again c =>
    cases c with
    | none => rfl
    | some c => cases c <;> rfl

/-- A number that unpacks holds the action in its low two bits and the change in the others. -/
theorem unpack_masks {limit : Option ℕ} {n : Int} {d : Decision} (h : unpack limit n = .ok d) :
    d.action.code = Int.land n 3 ∧ changeCode d.change? = Int.land n (Int.lnot 3) := by
  rw [← code_actionOfBits, ← changeBits_eq]
  simp only [unpack] at h
  by_cases hbits : changeBits n = 0
  · rw [if_pos hbits, ofParts_ok_iff] at h
    exact ⟨congrArg Action.code h.1, by rw [h.2, hbits]; rfl⟩
  · rw [if_neg hbits] at h
    cases hc : Change.ofCode? (changeBits n) with
    | none => rw [hc] at h; cases h
    | some c =>
      rw [hc] at h
      obtain ⟨haction, hchange⟩ := ofParts_ok_iff.mp h
      exact ⟨congrArg Action.code haction, by rw [hchange]; exact Change.ofCode?_eq_some.mp hc⟩

theorem unpack_ok_iff {limit : Option ℕ} {n : Int} {d : Decision} : unpack limit n = .ok d ↔ d.code = n := by
  constructor
  · intro h
    obtain ⟨low, high⟩ := unpack_masks h
    rw [code, low, high, land_three, land_lnot_three]
    omega
  · rintro rfl
    exact unpack_code limit d

theorem raised_unknownChange (limit : Option ℕ) (bits n : Int) : (Fault.unknownChange bits n).raised limit =
    if Decimal.isWritten limit bits && Decimal.isWritten limit n then .unknownChange bits n else .tooLong := by
  unfold Fault.raised
  congr 1
  simp [Fault.shown, Value.wholes, Quantity.number?, Quantity.value]

/-- The number has too many digits to be written, or its high bits have. -/
def Unwritten (limit : Option ℕ) (n : Int) : Prop :=
  ¬(Decimal.isWritten limit (Int.land n (Int.lnot 3)) && Decimal.isWritten limit n) = true

/-- What is refused is inconsistent, unless it has too many digits for a report. -/
theorem unpack_refuses {limit : Option ℕ} {n : Int} {f : Fault} (h : unpack limit n = .error f) :
    f.Inconsistent ∨ f = .tooLong ∧ Unwritten limit n := by
  rw [Unwritten, ← changeBits_eq]
  simp only [unpack] at h
  split at h
  · exact .inl (ofParts_refuses h)
  · split at h
    · exact .inl (ofParts_refuses h)
    · cases h
      rw [raised_unknownChange]
      split
      · exact .inl ⟨_, rfl, rfl⟩
      · exact .inr ⟨rfl, ‹_›⟩

/-- No code is as far from zero as 16, and what is too long there is not reported. -/
theorem unpack_too_long {limit : Option ℕ} {n : Int} (far : 16 ≤ n.natAbs) (long : Unwritten limit n) :
    unpack limit n = .error .tooLong := by
  have bits : changeBits n = n - n % 4 := rfl
  have unknown : Change.ofCode? (changeBits n) = none := by
    unfold Change.ofCode?
    rw [if_neg (by omega), if_neg (by omega), if_neg (by omega)]
  rw [Unwritten, ← changeBits_eq] at long
  simp only [unpack]
  rw [if_neg (by omega), unknown, raised_unknownChange, if_neg long]

section

variable {most : ℕ}

theorem unwritten_iff (positive : 0 < most) (n : Int) :
    Unwritten (some most) n ↔ 10 ^ most ≤ n.natAbs ∨ 10 ^ most ≤ (changeBits n).natAbs := by
  rw [Unwritten, ← changeBits_eq, Bool.and_eq_true, Decimal.isWritten_iff positive, Decimal.isWritten_iff positive]
  omega

/-- The least number with too many digits, and one whose high bits have one more digit than itself. -/
theorem unpack_least (two : 2 ≤ most) :
    unpack (some most) (10 ^ most) = .error .tooLong ∧ unpack (some most) (-(10 ^ most - 1)) = .error .tooLong := by
  have positive : 0 < most := by omega
  obtain ⟨d, rfl⟩ := Nat.exists_eq_add_of_le two
  obtain ⟨m, hm⟩ : ∃ m : ℕ, m = 10 ^ (2 + d) := ⟨_, rfl⟩
  have hundred : m = 100 * 10 ^ d := hm.trans (pow_add 10 2 d)
  have one : 1 ≤ 10 ^ d := Nat.one_le_pow d 10 (by decide)
  have whole : (10 : Int) ^ (2 + d) = m := by
    rw [hm]
    norm_cast
  have bits : changeBits (-((m : Int) - 1)) = -(m - 1) - -((m : Int) - 1) % 4 := rfl
  rw [whole]
  constructor
  · exact unpack_too_long (by omega) ((unwritten_iff positive _).mpr (.inl (by omega)))
  · exact unpack_too_long (by omega) ((unwritten_iff positive _).mpr (.inr (by omega)))

end

/-- The bits of a code above the low two are the number of the change. -/
theorem highBits_code (d : Decision) (c : Change) :
    Int.land d.code (Int.lnot 3) = c.code ↔ d.change? = some c := by
  rw [← (unpack_masks (unpack_code none d)).2]
  cases d.change? with
  | none => cases c <;> simp [changeCode, Change.code]
  | some c' => cases c' <;> cases c <;> simp [changeCode, Change.code]

end Decision

/-! ## Columns -/

/-- The numbers of the record fit in 64 bits. -/
structure Record.Fits (r : Record) : Prop where
  iteration : Value.fits64 r.iteration = true
  version : Value.fits64 r.version = true
  elements : Value.fits64 r.elements = true

/-- The records that the columns make up row by row, with the decisions unpacked. -/
def Columns.records (c : Columns) : Except Fault (List Record) :=
  ((c.iteration.zip c.version).zip (c.elements.zip c.code)).mapM fun ((iteration, version), (elements, code)) => do
    return ⟨iteration, version, elements, ← Decision.ofCode code⟩

theorem mapM_map {α β : Type} {f : α → Except Fault β} {g : α → β} {xs : List α}
    (h : ∀ x ∈ xs, f x = .ok (g x)) : xs.mapM f = .ok (xs.map g) := by
  obtain ⟨ys, hys, hall⟩ := mapM_ok (P := fun x y => g x = y) fun x hx => ⟨g x, h x hx, rfl⟩
  have same : List.Forall₂ (· = ·) (xs.map g) ys := List.forall₂_map_left_iff.mpr hall
  rw [List.forall₂_eq_eq_eq] at same
  rw [hys, same]

theorem Decision.code_fits (d : Decision) : Value.fits64 d.code = true := by
  cases d with
  | idle | stop => rfl
  | proceed c | again c =>
    cases c with
    | none => rfl
    | some c => cases c <;> rfl

/-- What the columns of a history tell of it. -/
structure Columns.Tell (c : Columns) (h : History) : Prop where
  iteration : c.iteration.length = h.length
  version : c.version.length = h.length
  elements : c.elements.length = h.length
  code : c.code.length = h.length
  records : c.records = .ok h.records
  refinements : h.count .refine = c.code.countP fun n => Int.land n (Int.lnot 3) == 4
  derefinements : h.count .derefine = c.code.countP fun n => Int.land n (Int.lnot 3) == 8
  rebalances : h.count .rebalance = c.code.countP fun n => Int.land n (Int.lnot 3) == 12

namespace History

variable {h : History}

theorem columns_of_fits (fits : ∀ r ∈ h.records, r.Fits) :
    h.columns = .ok ⟨h.records.map (·.iteration), h.records.map (·.version), h.records.map (·.elements),
      h.records.map (·.decision.code)⟩ := by
  have word {f : Record → Int} (hf : ∀ r ∈ h.records, Value.fits64 (f r) = true) :
      h.records.mapM (fun r => Value.word (f r)) = .ok (h.records.map f) :=
    mapM_map fun r hr => if_pos (hf r hr)
  simp only [columns, word fun r hr => (fits r hr).iteration, word fun r hr => (fits r hr).version,
    word fun r hr => (fits r hr).elements, word fun r _ => r.decision.code_fits]
  rfl

theorem records_of_columns (records : List Record) :
    Columns.records ⟨records.map (·.iteration), records.map (·.version), records.map (·.elements),
      records.map (·.decision.code)⟩ = .ok records := by
  induction records with
  | nil => rfl
  | cons r records ih =>
    simp only [Columns.records, List.map_cons, List.zip_cons_cons, List.mapM_cons, Decision.ofCode, Decision.unpack_code] at ih ⊢
    rw [ih]
    rfl

theorem count_eq (h : History) (c : Change) :
    h.count c = (h.records.map (·.decision.code)).countP fun n => Int.land n (Int.lnot 3) == c.code := by
  rw [count, List.countP_map]
  refine List.countP_congr fun r _ => ?_
  simp only [Function.comp, beq_iff_eq]
  exact (r.decision.highBits_code c).symm

/-- Numbers stand for decisions one to one: whatever the limit to what is written, a number is unpacked to the
    decision whose code it is, and refused if there is none, as inconsistent unless it has too many digits for
    the report, or its high bits have; and no such number from 16 on, of either sign, is reported. The columns of
    a history, which it has where its numbers fit in 64 bits, tell it in full. -/
theorem columns_lossless (limit : Option ℕ) (h : History) :
    (∀ n d, Decision.unpack limit n = .ok d ↔ d.code = n) ∧
      (∀ n f, Decision.unpack limit n = .error f → f.Inconsistent ∨ f = .tooLong ∧ Decision.Unwritten limit n) ∧
      (∀ n, 16 ≤ n.natAbs → Decision.Unwritten limit n → Decision.unpack limit n = .error .tooLong) ∧
      ((∀ r ∈ h.records, r.Fits) → ∃ c, h.columns = .ok c ∧ c.Tell h) := by
  refine ⟨fun n d => Decision.unpack_ok_iff, fun n f => Decision.unpack_refuses,
    fun n => Decision.unpack_too_long, fun fits => ?_⟩
  refine ⟨_, columns_of_fits fits, ?_⟩
  constructor
  · simp [length]
  · simp [length]
  · simp [length]
  · simp [length]
  · exact records_of_columns h.records
  · exact h.count_eq .refine
  · exact h.count_eq .derefine
  · exact h.count_eq .rebalance

/-- Two iterations: a refinement, a merge that is not done with, and a stop. -/
def three : History :=
  ⟨[⟨0, 1, 5, .proceed (some .refine)⟩, ⟨0, 2, 4, .again (some .derefine)⟩, ⟨1, 2, 4, .stop⟩], 1⟩

theorem columns_lossless_of_three :
    ∃ c, three.columns = .ok c ∧ c.code = [5, 11, 2] ∧ c.records = .ok three.records ∧
      c.code.countP (fun n => Int.land n (Int.lnot 3) == 8) = 1 := by
  have fits : ∀ r ∈ three.records, r.Fits := by
    intro r hr
    simp only [three, List.mem_cons, List.not_mem_nil, or_false] at hr
    rcases hr with rfl | rfl | rfl <;> exact ⟨rfl, rfl, rfl⟩
  obtain ⟨c, hc, tell⟩ := (columns_lossless (some Decimal.mostDigits) three).2.2.2 fits
  have codes : three.columns = .ok ⟨[0, 0, 1], [1, 2, 2], [5, 4, 4], [5, 11, 2]⟩ := rfl
  refine ⟨c, hc, ?_, tell.records, tell.derefinements.symm⟩
  rw [codes] at hc
  cases hc
  rfl

/-- Of two numbers that are no code one has too many digits, and of the other the high bits have; both are
    refused with a fault that is no report. -/
theorem too_long_to_report :
    Decision.ofCode (10 ^ 4300) = .error .tooLong ∧ Decision.ofCode (-(10 ^ 4300 - 1)) = .error .tooLong ∧
      ¬Fault.Inconsistent .tooLong :=
  have least := Decision.unpack_least (show 2 ≤ 4300 by decide)
  ⟨least.1, least.2, nofun⟩

end History

end Regrid
