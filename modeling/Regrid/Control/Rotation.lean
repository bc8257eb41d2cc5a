/-
  Regrid.Control.Rotation — the members of a sequence in turn.

  A rotation moves its cursor to the next member, updates that member, and goes on while
  members decide nothing, at most once around. The first decision that is not idle is the
  rotation's own; if it asks to be applied again the cursor steps back, so that the next
  update starts with the same member. The cursor has moved before a member is updated and
  stays there when the member fails. A member that contains the rotation may move it
  further; what is noted, and where it steps back from, is the cursor after the update.

  Members are appended at the end. A rotation is never appended to itself; nothing else is
  refused, neither a control that is a member already nor a rotation that contains this one.
-/

import Regrid.Bench

namespace Regrid.Rotation

variable {R W : Type}

def cursorOf : Strategy R → Int
  | .rotation cursor _ => cursor
  | _ => -1

def withCursor (cursor : Int) : Strategy R → Strategy R
  | .rotation _ members => .rotation cursor members
  | s => s

def moveCursor (k : ControlId) (f : Int → Int) : Act R W Int := do
  let c ← Act.control k
  let cursor := f (cursorOf c.strategy)
  Act.putControl k { c with strategy := withCursor cursor c.strategy }
  return cursor

/-- At most `turns` members of rotation `k` with `size` members, from the one after the cursor. -/
def turn (visit : ControlId → Act R W Unit) (k : ControlId) (size : Nat) : Nat → Act R W Decision
  | 0 => return .idle
  | turns + 1 => do
    let cursor ← moveCursor k fun i => (i + 1) % size
    match (← Act.control k).strategy.members[cursor.toNat]? with
    | none => throw .missing
    | some member =>
      Act.record (.visit k cursor.toNat member)
      visit member
      let c ← Act.control member
      if c.last = .idle then turn visit k size turns
      else
        Act.note (.answered (cursorOf (← Act.control k).strategy) c.strategy.label c.last)
        if c.last.isAgain then discard (moveCursor k (· - 1))
        return c.last

/-! ## Members -/

/-- The members of rotation `k`; no other control has any. -/
def membersOf (k : ControlId) : Act R W (List ControlId) := do
  match (← Act.control k).strategy with
  | .rotation _ members => return members
  | _ => throw .missing

/-- Appends a member, and returns how many there are now. -/
def append (k member : ControlId) : Act R W Nat := do
  let members ← membersOf k
  if k = member then throw .containsItself
  let c ← Act.control k
  Act.putControl k { c with strategy := .rotation (cursorOf c.strategy) (members ++ [member]) }
  return members.length + 1

/-- Drops all members; the decision stays. -/
def clear (k : ControlId) : Act R W Unit := do
  discard (membersOf k)
  let c ← Act.control k
  Act.putControl k { c with strategy := Control.emptyRotation }

end Regrid.Rotation
