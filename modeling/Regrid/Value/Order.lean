/-
  Regrid.Value.Order — values compared with each other.

  Quantities are compared by their numbers, texts by their characters, lists by the first
  entries that differ and then by length. A sized quantity is compared with the only entry
  of rows. Other values can be told to be equal but have no order; a sized quantity and a
  text have nothing in common by which they could be ordered.
-/

import Regrid.Value.Rows

namespace Regrid.Value

mutual

def equals : Value → Value → Except Fault Bool
  | .null, .null => .ok true
  | .quantity a, .quantity b => a.equals b
  | .quantity (.sized s), .list rows | .list rows, .quantity (.sized s) => Rows.relate Rows.equal s rows
  | .text s, .text t => .ok (s == t)
  | .list xs, .list ys => if xs.length = ys.length then equalsItems xs ys else .ok false
  | .record xs, .record ys => if xs.length = ys.length then equalsFields xs ys else .ok false
  | _, _ => .ok false

def equalsItems : List Value → List Value → Except Fault Bool
  | x :: xs, y :: ys => do if ← equals x y then equalsItems xs ys else return false
  | _, _ => .ok true

/-- Every field of the first record is in the second one, with an equal value. -/
def equalsFields : List (String × Value) → List (String × Value) → Except Fault Bool
  | [], _ => .ok true
  | (k, x) :: xs, ys =>
    match ys.find? fun y => y.1 == k with
    | some y => do if ← equals x y.2 then equalsFields xs ys else return false
    | none => .ok false

end

mutual

def lt : Value → Value → Except Fault Bool
  | .quantity a, .quantity b => a.lt b
  | .quantity (.sized s), .list rows => Rows.relate Rows.less s rows
  | .list rows, .quantity (.sized s) => Rows.relate Rows.greater s rows
  | .sized _, .text _ | .text _, .sized _ => .error .noCommonKind
  | .text s, .text t => .ok (decide (s < t))
  | .list xs, .list ys => ltItems xs ys
  | _, _ => .error .wrongType

def ltItems : List Value → List Value → Except Fault Bool
  | [], ys => .ok !ys.isEmpty
  | _ :: _, [] => .ok false
  | x :: xs, y :: ys => do if ← equals x y then ltItems xs ys else lt x y

end

/-- Whole numbers of any width are compared with others as the numbers they are. -/
theorem lt_of_integer {v : Value} {n : Int} (h : v.integer? = some n) (m : Int) :
    v.lt (.int m) = .ok (decide (n < m)) := by
  rcases integer?_eq_some h with rfl | ⟨w, rfl⟩
  · rfl
  · cases w <;> rfl

/-- The first value unless the second is greater. -/
def max (a b : Value) : Except Fault Value := do return if ← lt a b then b else a

/-- The first value unless the second is less. -/
def min (a b : Value) : Except Fault Value := do return if ← lt b a then b else a

end Regrid.Value
