/-
  Regrid.Fault — why something was refused, and what is said about it.

  A fault is a cause, not a text. Three families are this library's own and carry a
  report: a refused setting, inconsistent data (a stale marking is a special case of
  it), each with a message and mostly with a context. The others come out of reading a
  value, of arithmetic or of a collaborator, and have at most a message (`message?`).

  `Report.text` puts the context behind the message in parentheses; an empty context is
  left out. `Rank.isA` orders the families: a stale marking is inconsistent data, and all
  three belong to the base.

  A message is written when a fault is raised. Where whole numbers are written with a limit
  to their digits, a fault whose message shows a longer one is not raised: what is raised
  in its place says that a number is too long, and is none of the three (`Fault.raised`).
-/

import Regrid.Action
import Regrid.Value

namespace Regrid

open Decimal (intText)

/-- Families of reports, the base first. -/
inductive Rank where
  | base
  | configuration
  | integrity
  | stale
  deriving DecidableEq, Repr

def Rank.all : List Rank := [.base, .configuration, .integrity, .stale]

/-- The first family belongs to the second. -/
def Rank.isA : Rank → Rank → Bool
  | _, .base => true
  | .configuration, .configuration => true
  | .integrity, .integrity => true
  | .stale, .integrity | .stale, .stale => true
  | _, _ => false

structure Report where
  rank : Rank
  message : String
  context : Option String
  deriving DecidableEq, Repr

def Report.text (r : Report) : String :=
  match r.context with
  | none => r.message
  | some c => if c == "" then r.message else r.message ++ " (Context: " ++ c ++ ")"

/-- What is wrong with the value of a setting. -/
inductive Refusal where
  | notNumeric (given : Value)
  | isNaN
  | infinite (given : Value)
  | negative (given : Value)
  | outsideUnit (given : Value)
  | notPositive (given : Value)
  | notInteger (given : Value)
  | below (least : Value) (given : Value)

def Refusal.text (name : String) : Refusal → String
  | .notNumeric v => name ++ " must be numeric, got <class '" ++ v.typeName ++ "'>"
  | .isNaN => name ++ " cannot be NaN"
  | .infinite v => name ++ " cannot be infinite, got " ++ v.display
  | .negative v => name ++ " must be non-negative, got " ++ v.display
  | .outsideUnit v => name ++ " must be in [0, 1], got " ++ v.display
  | .notPositive v => name ++ " must be positive or infinity, got " ++ v.display
  | .notInteger v => name ++ " must be integer, got <class '" ++ v.typeName ++ "'>"
  | .below least v => name ++ " must be >= " ++ least.display ++ ", got " ++ v.display

/-- The values that are shown by the text. -/
def Refusal.shown : Refusal → List Value
  | .infinite v | .negative v | .outsideUnit v | .notPositive v => [v]
  | .below least v => [least, v]
  | .notNumeric _ | .isNaN | .notInteger _ => []

/-- Vectors that a collaborator delivers with one entry per element. -/
inductive Delivery where
  | errors
  | flags
  deriving DecidableEq, Repr

def Delivery.label : Delivery → String
  | .errors => "Error"
  | .flags => "Anisotropic flag"

inductive Fault where
  /-- A setting was given a value outside its range. -/
  | setting (name : String) (why : Refusal)
  /-- No way of combining sibling errors has this number. -/
  | unknownCombination (given : Value)
  /-- A vector does not have one entry per element. -/
  | wrongSize (what : Delivery) (got : Nat) (expected : Value) (context : String)
  /-- An error vector holds NaN or an infinity. -/
  | notFinite (context : String)
  /-- A change was paired with an action that leaves the mesh alone. -/
  | strayChange (change : Change) (action : Action)
  /-- The high bits of a code name no change. -/
  | unknownChange (bits code : Int)
  /-- The mesh went back behind the stamp of a cached value. -/
  | stale (live stamp : Int) (owner : String)
  /-- No reduction has this name. -/
  | unknownReduction (given : Value)
  /-- A sequence was to be appended to itself. -/
  | containsItself
  /-- A sequence was to be copied. -/
  | ownsMembers
  /-- A collaborator failed for a reason of its own. -/
  | outside (text : String)
  /-- A number stands for no member of an enumeration. -/
  | noSuchMember
  /-- Rows of different lengths, or too many levels of rows. -/
  | unevenRows
  | tooManyLevels
  /-- A text that is no numeral, or NaN where a whole number is needed. -/
  | noNumeral
  | nanToInteger
  /-- A value that has no number, no length or no bits. -/
  | wrongType
  /-- Peers of a reduction contributed something that is no number. -/
  | incomparable
  /-- A text beside a quantity that keeps to its width. -/
  | noCommonKind
  /-- The truth of no entries, or of several. -/
  | noSingleTruth
  /-- A number is too large for the type it has to go into. -/
  | tooLarge
  /-- A whole number has more digits than may be written. -/
  | tooLong
  | powerOverflow
  /-- A fractional power of a negative number, where a real number is needed. -/
  | notReal
  | divisionByZero
  /-- A sibling group names an element that is not there. -/
  | noSuchElement (index : Int)
  /-- A sibling group holds what names no element, or not one truth per element. -/
  | noPosition
  /-- The least or greatest error of no elements. -/
  | emptyGroup
  /-- Controls are nested too deeply, as they are when sequences contain each other. -/
  | tooDeep
  /-- A control asked to be applied again more often than the caller waits. -/
  | endless
  /-- A size that no chart can have. -/
  | noSize
  /-- A chart without width or height. -/
  | flatChart
  /-- A name or number that stands for no object. -/
  | missing

namespace Fault

def sizeMessage (what : Delivery) (got : Nat) (expected : Value) : String :=
  what.label ++ " vector has " ++ intText got ++ " entries, expected " ++ expected.display

/-- The report of a fault of this library's own. -/
def report? : Fault → Option Report
  | .setting name why => some ⟨.configuration, why.text name, none⟩
  | .unknownCombination v =>
    some ⟨.configuration, "Invalid de-refinement op: " ++ v.display, some "expected 0, 1 or 2"⟩
  | .wrongSize what got expected context =>
    some ⟨.integrity, sizeMessage what got expected, some ("Size mismatch in " ++ context)⟩
  | .notFinite context =>
    some ⟨.integrity, "Error vector contains NaN or Inf values", some ("Numerical corruption in " ++ context)⟩
  | .strayChange change action =>
    some ⟨.integrity, "Info " ++ change.label ++ " cannot accompany action " ++ action.label,
      some "ActionInfo construction"⟩
  | .unknownChange bits code =>
    some ⟨.integrity, "Unknown info bits " ++ intText bits ++ " in action code " ++ intText code,
      some "expected 4, 8 or 12"⟩
  | .stale live stamp owner =>
    some ⟨.stale, "Live version " ++ intText live ++ " is older than cached version " ++ intText stamp,
      some owner⟩
  | _ => none

/-- What is said about a fault, where anything is. -/
def message? (f : Fault) : Option String :=
  match f.report? with
  | some r => some r.text
  | none =>
    match f with
    | .unknownReduction v => some ("Unsupported reduction operation: " ++ v.display)
    | .containsItself => some "A control sequence cannot contain itself"
    | .ownsMembers => some "MeshControlSequence owns its controls and cannot be copied"
    | .outside text => some text
    | _ => none

/-- The values that are shown by the message. -/
def shown : Fault → List Value
  | .setting _ why => why.shown
  | .unknownCombination v | .unknownReduction v => [v]
  | .wrongSize _ got expected _ => [.int got, expected]
  | .unknownChange bits code => [.int bits, .int code]
  | .stale live stamp _ => [.int live, .int stamp]
  | _ => []

/-- What is raised where whole numbers are written with no more digits than the limit. -/
def raised (limit : Option Nat) (f : Fault) : Fault :=
  if (f.shown.flatMap Value.wholes).all (Decimal.isWritten limit) then f else .tooLong

end Fault

end Regrid
