/-
  Regrid.Journal — what is noted while decisions are taken.

  A note is an event with its quantities, a level and a channel; its text is made from
  it only where real numbers are binary64 ones. Error totals and thresholds are written
  with six places, quantities of a reduction by the shortest digits of their width.
-/

import Regrid.Decision
import Regrid.Reduction

namespace Regrid

open Decimal (intText)

inductive Level where
  | debug
  | info
  | warning
  deriving DecidableEq, Repr

inductive Channel where
  | faults
  | reductions
  | caches
  | markers
  | controls
  | rotations
  | cycle
  | charts
  deriving DecidableEq, Repr

inductive Note (R : Type) where
  | fault (report : Report)
  | reduced (op : Reduction) (own whole : Quantity R)
  | rebuilt (owner : String) (version : Int)
  | marked (count elements : Int) (error threshold : R)
  | criterionMet
  | nothingMarked
  | refined (count : Nat)
  | nothingUnder (threshold : R)
  | derefined (groups : Nat)
  | limitRestored (count : Nat)
  | rebalanced
  | answered (position : Int) (label : String) (decision : Decision)
  | iterated (iteration : Int) (decision : Decision) (elements : Int)
  | stopped (iterations : Int)
  | exhausted (iterations : Int)
  | emptyChart
  deriving DecidableEq, Repr

namespace Note

variable {R : Type}

def level : Note R → Level
  | .refined _ | .derefined _ | .limitRestored _ | .rebalanced | .stopped _ | .exhausted _ => .info
  | .emptyChart => .warning
  | _ => .debug

def channel : Note R → Channel
  | .fault _ => .faults
  | .reduced _ _ _ => .reductions
  | .rebuilt _ _ => .caches
  | .marked _ _ _ _ => .markers
  | .criterionMet | .nothingMarked | .refined _ | .nothingUnder _ | .derefined _ | .limitRestored _
  | .rebalanced => .controls
  | .answered _ _ _ => .rotations
  | .iterated _ _ _ | .stopped _ | .exhausted _ => .cycle
  | .emptyChart => .charts

def places : Nat := 6

def text : Note Float → String
  | .fault r => "meshcontrol exception: " ++ r.text
  | .reduced op own whole =>
    "global " ++ op.label ++ ": local=" ++ own.text ++ " global=" ++ whole.text
  | .rebuilt owner version => owner ++ " rebuilt at version " ++ intText version
  | .marked count elements error threshold =>
    "Marked " ++ intText count ++ " of " ++ intText elements ++ " elements: total_err="
      ++ Decimal.scientificText places error ++ " threshold=" ++ Decimal.scientificText places threshold
  | .criterionMet => "Refinement stopping criterion met"
  | .nothingMarked => "No elements marked for refinement"
  | .refined n => "Refined " ++ intText n ++ " local elements"
  | .nothingUnder t => "No groups under de-refinement threshold " ++ Decimal.scientificText places t
  | .derefined n => "De-refined up to " ++ intText n ++ " local groups"
  | .limitRestored n => "Refined " ++ intText n ++ " local elements to restore nc limit"
  | .rebalanced => "Rebalanced distributed mesh"
  | .answered i label d => "Control " ++ intText i ++ " (" ++ label ++ ") returned " ++ d.text
  | .iterated k d n =>
    "Iteration " ++ intText k ++ ": " ++ d.text ++ ", " ++ intText n ++ " elements"
  | .stopped n => "Adaptation stopped after " ++ intText n ++ " iterations"
  | .exhausted n => "Adaptation reached max_iterations=" ++ intText n
  | .emptyChart => "Cannot plot: adaptation history is empty"

end Note

end Regrid
