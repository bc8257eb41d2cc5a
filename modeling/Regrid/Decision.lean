/-
  Regrid.Decision — what a control decides in one update.

  A decision is an action with, at most, a change. Only an action after which spaces
  are rebuilt can carry a change, and the type says so: `idle` and `stop` have no room
  for one. A decision packs into one whole number, its action in the low two bits and
  its change above them (`code`); `unpack` takes a number apart and refuses one whose high
  bits are no change, or whose action leaves no room for the change. The first of the two
  refusals shows the number, and is only raised as such if the number can be written.
-/

import Regrid.Fault

namespace Regrid

inductive Decision where
  | idle
  | stop
  | proceed (change : Option Change)
  | again (change : Option Change)
  deriving DecidableEq, Repr

namespace Decision

def action : Decision → Action
  | .idle => .idle
  | .stop => .stop
  | .proceed _ => .proceed
  | .again _ => .again

def change? : Decision → Option Change
  | .proceed c | .again c => c
  | .idle | .stop => none

/-- The decision of an action and a change, where the action has room for the change. -/
def ofParts : Action → Option Change → Except Fault Decision
  | .proceed, c => .ok (.proceed c)
  | .again, c => .ok (.again c)
  | .idle, none => .ok .idle
  | .stop, none => .ok .stop
  | .idle, some c => .error (.strayChange c .idle)
  | .stop, some c => .error (.strayChange c .stop)

def changeCode : Option Change → Int
  | none => 0
  | some c => c.code

def code (d : Decision) : Int := d.action.code + changeCode d.change?

/-- The action in the low two bits; every number has one. -/
def actionOfBits (n : Int) : Action :=
  let low := n % 4
  if low = 0 then .idle else if low = 1 then .proceed else if low = 2 then .stop else .again

/-- The bits above the low two, in place. -/
def changeBits (n : Int) : Int := n - n % 4

/-- Takes a number apart, where whole numbers are written with no more digits than the limit. -/
def unpack (limit : Option Nat) (n : Int) : Except Fault Decision :=
  let bits := changeBits n
  if bits = 0 then ofParts (actionOfBits n) none
  else
    match Change.ofCode? bits with
    | some c => ofParts (actionOfBits n) (some c)
    | none => .error ((Fault.unknownChange bits n).raised limit)

/-- Takes a number apart, in a program that is not set up to write longer numbers. -/
def ofCode (n : Int) : Except Fault Decision := unpack (some Decimal.mostDigits) n

/-- Takes a value apart, in a program that writes numbers of any length: a whole number of any width, or a
    truth, which counts as one bit. -/
def ofValue (v : Value) : Except Fault Decision :=
  match v.quantity?.map Quantity.value with
  | some (.int n) => unpack none n
  | _ => .error .wrongType

/-- The decision of two values that equal the numbers of an action and a change; the action
    is looked up first, and nothing in place of a change means none. -/
def ofNumbers (action change : Value) : Except Fault Decision :=
  match Action.all.find? fun a => action.equalsInt a.code with
  | none => .error .noSuchMember
  | some a =>
    match change with
    | .null => ofParts a none
    | v =>
      match Change.all.find? fun c => v.equalsInt c.code with
      | none => .error .noSuchMember
      | some c => ofParts a (some c)

def text (d : Decision) : String :=
  match d.change? with
  | none => d.action.label
  | some c => d.action.label ++ "+" ++ c.label

/-! ## Questions -/

def needsUpdate (d : Decision) : Bool := d.action.needsUpdate
def isStop (d : Decision) : Bool := d.action == .stop
def isProceed (d : Decision) : Bool := d.action == .proceed
def isAgain (d : Decision) : Bool := d.action == .again
def isRefine (d : Decision) : Bool := d.change? == some .refine
def isDerefine (d : Decision) : Bool := d.change? == some .derefine
def isRebalance (d : Decision) : Bool := d.change? == some .rebalance

end Decision

end Regrid
