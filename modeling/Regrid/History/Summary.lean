/-
  Regrid.History.Summary — a history as a page of text, and as a chart of the element count.

  The page tells of the decisions and of the mesh, without interpretation.

  The chart is described, not drawn: a line through the count after every update, one
  group of points per change that occurs, in the order of the changes, and a line at the
  last update when the run stopped. Points of a group are placed by binary64 numbers. An
  empty history has no chart, whatever size is asked for; otherwise the columns are made
  first and the size is looked at afterwards.

  The size of a chart comes from whatever a caller hands in (`Size`). It is a width and a
  height in inches, or in the unit that follows them: inches,
  centimetres or dots. Nothing in place of a size leaves it open, and nothing in place of
  one of its lengths leaves that one open; what is open is as wide or high as a chart is by
  default. A size of another count of parts, an unknown unit, two lengths left open, and a
  length that is negative or not finite are refused as sizes; what is no quantity at all,
  or a whole number outside 64 bits, is of the wrong type.

  A chart is drawn in dots (`check`). Its dots are counted by a whole number that has to fit
  in 32 bits, and to be less than 2^23. A chart without width or height cannot be drawn
  either. Where a line from bottom to top has to be placed on it, a chart without height is
  refused before the dots are counted; one without width is only if its height in dots is
  infinite.
-/

import Regrid.History
import Regrid.Value.Vector

namespace Regrid

namespace Defaults

def figureWidth : Float := 10.0
def figureHeight : Float := 5.0

end Defaults

namespace History

/-! ## The page -/

open Decimal (intText)

def rule : String := String.ofList (List.replicate 60 '=')

def item (name value : String) : String := "│  " ++ name ++ ": " ++ value

def span (first last : Int) : String := intText first ++ " -> " ++ intText last

def decisionLines (h : History) (last : Record) : List String :=
  ["", "┌─ DECISIONS", "│",
   item "Updates" (intText h.length),
   item "Iterations" (intText (last.iteration + 1)),
   item "Refinements" (intText (h.count .refine)),
   item "De-refinements" (intText (h.count .derefine)),
   item "Rebalances" (intText (h.count .rebalance)),
   item "Final action" h.finalDecision.text,
   item "Stopped" (truthText h.isStopped)]

def meshLines (first last : Record) : List String :=
  ["", "┌─ MESH", "│",
   item "Elements" (span first.elements last.elements),
   item "Sequence" (span first.version last.version)]

/-- The lines of the page. -/
def summary (h : History) : List String :=
  let title := ["", rule, "MESHCONTROL ADAPTATION DATA", rule]
  match h.records.head?, h.records.getLast? with
  | some first, some last =>
    title ++ decisionLines h last ++ meshLines first last ++ [rule, "END ADAPTATION DATA", rule, "", ""]
  | _, _ => title ++ ["│  No updates recorded", rule, "", ""]

/-! ## Sizes -/

structure Size where
  width : Float
  height : Float

namespace Size

/-- The size of a chart whose size is left open. -/
def unset : Size := ⟨6.4, 4.8⟩

/-- The size asked for where a caller says nothing. -/
def default : Value := .list [.real Defaults.figureWidth, .real Defaults.figureHeight]

def centimetresPerInch : Float := 2.54
def dotsPerInch : Float := 100.0

/-- How many of a unit make an inch, where that has to be known. -/
def unitsPerInch : Value → Except Fault (Option Float)
  | .text "in" => .ok none
  | .text "cm" => .ok (some centimetresPerInch)
  | .text "px" => .ok (some dotsPerInch)
  | _ => .error .noSize

/-- A length over the number of units in an inch; a sized one keeps its width. -/
def divide (perInch : Float) : Value → Except Fault Value
  | .sized (.real w x) => .ok (.sized (.real w (Arith.round w (x / Arith.round w perInch))))
  | .quantity q => do return .real ((← q.value.toReal) / perInch)
  | _ => .error .wrongType

/-- A length in inches; one that is left open needs no conversion. -/
def inches (perInch : Option Float) (unset : Float) (v : Value) : Except Fault Value :=
  match v, perInch with
  | .null, _ => .ok (.real unset)
  | v, none => .ok v
  | v, some u => divide u v

def lengths (perInch : Option Float) (w h : Value) : Except Fault (Value × Value) :=
  match w, h with
  | .null, .null => .error .noSize
  | _, _ => do return (← inches perInch unset.width w, ← inches perInch unset.height h)

/-- Width and height in inches, before they are looked at. -/
def parts : List Value → Except Fault (Value × Value)
  | [w, h] => lengths none w h
  | [w, h, unit] => do lengths (← unitsPerInch unit) w h
  | _ => .error .noSize

/-- A number that can be told to be finite or not. -/
def extent (v : Value) : Except Fault (Number Float) :=
  match v.quantity?.map Quantity.value with
  | some (.int n) => if Value.fits64 n || Value.isHigh n then .ok (.int n) else .error .wrongType
  | some (.real x) => .ok (.real x)
  | none => .error .wrongType

def isLength : Number Float → Bool
  | .int n => decide (0 ≤ n)
  | .real x => x.isFinite && decide (0.0 ≤ x)

/-- Lengths that stand in rows are checked like others, and then refused. -/
def ofParts (w h : Value) : Except Fault Size := do
  let numbers ← (← (Value.list [w, h]).vector).mapM extent
  if !numbers.all isLength then throw .noSize
  match w.quantity?, h.quantity? with
  | some w, some h => return ⟨← w.value.toReal, ← h.value.toReal⟩
  | _, _ => throw .wrongType

def ofValue : Value → Except Fault Size
  | .null => .ok unset
  | v =>
    match v.items? with
    | none => .error .wrongType
    | some items => do
      let (w, h) ← parts items
      ofParts w h

def endOfDots : Int := 0x100000000
def endOfChart : Int := 0x800000

def dots (inches : Float) : Except Fault Int := Binary64.toInt (inches * dotsPerInch)

def checkDots (s : Size) : Except Fault Unit := do
  let sides := [← dots s.width, ← dots s.height]
  if sides.any (endOfDots ≤ ·) then throw .wrongType
  if sides.any (endOfChart ≤ ·) then throw .noSize

def isFlat (s : Size) : Bool := s.width == 0.0 || s.height == 0.0

/-- A line from bottom to top has no place on the chart. -/
def hasNoPlace (s : Size) : Bool :=
  if s.width == 0.0 then (s.height * dotsPerInch).isInf else s.height == 0.0

/-- The chart can be drawn, with a line from bottom to top or without one. -/
def check (hasLine : Bool) (s : Size) : Except Fault Unit := do
  if hasLine && s.hasNoPlace then throw .flatChart
  s.checkDots
  if s.isFlat then throw .flatChart

end Size

/-! ## The chart -/

structure Points where
  change : Change
  spots : List (Nat × Int)
  deriving DecidableEq, Repr

structure Chart where
  size : Size
  isLogarithmic : Bool
  line : List (Nat × Int)
  groups : List Points
  stop : Option Nat

def chartLabel : Change → String
  | .refine => "refine"
  | .derefine => "de-refine"
  | .rebalance => "rebalance"

def chartColor : Change → String
  | .refine => "tab:red"
  | .derefine => "tab:blue"
  | .rebalance => "tab:green"

def stopLabel : String := "stop"

/-- The nearest whole number a binary64 coordinate can hold. -/
def coordinate (n : Int) : Int :=
  match Binary64.toInt (Decimal.ofInt n) with
  | .ok k => k
  | .error _ => n

/-- The points of the updates that made the change, if any did. -/
def points (records : List Record) (c : Change) : Option Points :=
  let spots := (records.zipIdx.filter fun (r, _) => r.decision.change? == some c).map
    fun (r, i) => (i, coordinate r.elements)
  if spots.isEmpty then none else some ⟨c, spots⟩

def chart (h : History) (size : Value) (isLogarithmic : Bool) : Except Fault (Option Chart) :=
  if h.records.isEmpty then .ok none
  else do
    let columns ← h.columns
    let size ← Size.ofValue size
    size.check h.isStopped
    return some {
      size := size
      isLogarithmic := isLogarithmic
      line := columns.elements.zipIdx.map fun (n, i) => (i, n)
      groups := Change.all.filterMap (points h.records)
      stop := if h.isStopped then some (h.length - 1) else none }

/-- Labels in the order things are drawn. -/
def Chart.legend (c : Chart) : List String :=
  c.groups.map (fun g => chartLabel g.change) ++ (if c.stop.isSome then [stopLabel] else [])

end History

end Regrid
