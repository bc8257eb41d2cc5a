/-
  Regrid.Group — a group of sibling elements, as a mesh names it.

  A group lists positions, counted from the end when they are negative, or it tells of
  every element whether it belongs. A mesh may hand in anything: positions in even rows
  are read row by row, and among numbers a truth is the position zero or one; only
  truths in a row of their own are taken as one truth per element. What names no
  elements is kept with the fault that it will be refused with, so that groups in front
  of it are still looked at first.

  A position takes 64 bits. Where every number of a group, truths apart, lies from 2^63
  up to 2^64, each stands for the negative position with the same bits.
-/

import Regrid.Value.Vector

namespace Regrid

inductive Group where
  | positions (is : List Int)
  /-- One truth per element: does it belong? -/
  | mask (belongs : List Bool)
  | unusable (why : Fault)

namespace Group

/-- The position that a value is; only whole numbers and truths are any. -/
def position? (v : Value) : Option Int :=
  match v.quantity?.map Quantity.value with
  | some (.int n) => some n
  | _ => none

def truth? : Value → Option Bool
  | .bool b | .sized (.truth b) => some b
  | _ => none

/-- The number with a sign that has the same 64 bits. -/
def withSign (n : Int) : Int := if Value.isHigh n then n - 0x10000000000000000 else n

/-- The positions of whole numbers and truths, where they fit in one kind of 64 bits. -/
def ofNumbers (entries : List Value) (is : List Int) : Group :=
  let numbers := (entries.zip is).filterMap fun (v, n) => if (truth? v).isSome then none else some n
  if numbers.all Value.fits64 then .positions is
  else if numbers.all Value.isHigh then .positions (is.map withSign)
  else .unusable .noPosition

/-- A group of entries, taken from rows of rows or from a single row. -/
def ofEntries (isRow : Bool) (entries : List Value) : Group :=
  if entries.isEmpty then .positions []
  else
    match entries.mapM truth?, entries.mapM position? with
    | some bs, _ => if isRow then .mask bs else .unusable .noPosition
    | none, some is => ofNumbers entries is
    | none, none => .unusable .noPosition

/-- The group that a value stands for. -/
def ofValue (v : Value) : Group :=
  match v.items? with
  | none => .unusable .wrongType
  | some items =>
    match (Value.list items).shape, (Value.list items).vector with
    | .ok levels, .ok entries => ofEntries (levels.length == 1) entries
    | .error why, _ | _, .error why => .unusable why

/-- The groups of a table; one that cannot be gone through is refused as a whole. -/
def tableOf (v : Value) : List Group :=
  match v.items? with
  | none => [.unusable .wrongType]
  | some items => items.map ofValue

/-- The entry at a position, counted from the end when it is negative. -/
def pick {α : Type} (xs : List α) (i : Int) : Except Fault α :=
  let j := if i < 0 then i + xs.length else i
  if j < 0 then .error (.noSuchElement i)
  else
    match xs[j.toNat]? with
    | some x => .ok x
    | none => .error (.noSuchElement i)

/-- The entries of the elements in a group, in its order. -/
def select {α : Type} (g : Group) (xs : List α) : Except Fault (List α) :=
  match g with
  | .positions is => is.mapM (pick xs)
  | .mask bs =>
    if bs.length = xs.length then .ok ((xs.zip bs).filterMap fun (x, b) => if b then some x else none)
    else .error .noPosition
  | .unusable why => .error why

end Group

end Regrid
