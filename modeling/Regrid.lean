import Regrid.Decimal.Binary
import Regrid.Decimal.Digits
import Regrid.Decimal.Numeral
import Regrid.Text
import Regrid.Quantity.Width
import Regrid.Value
import Regrid.Fault
import Regrid.Decision
import Regrid.Mark
import Regrid.Value.Vector
import Regrid.Value.Rows
import Regrid.Value.Order
import Regrid.Group
import Regrid.Reduction
import Regrid.Admission
import Regrid.Control
import Regrid.Marking
import Regrid.Control.Update
import Regrid.Cycle
import Regrid.Forest.Site
import Regrid.Rig.Cache
import Regrid.Desk.Objects
import Regrid.Desk.Operations
import Regrid.Desk.Cycles
import Regrid.History.Summary
import Regrid.Proofs.Outcome
import Regrid.Proofs.Reads
import Regrid.Proofs.Stamps
import Regrid.Proofs.Passes
import Regrid.Proofs.Plan
import Regrid.Proofs.Same
import Regrid.Proofs.RoundRobin
import Regrid.Proofs.Limiting
import Regrid.Proofs.Course
import Regrid.Proofs.OneChange
import Regrid.Proofs.Crew
import Regrid.Proofs.Together
import Regrid.Proofs.Lockstep
import Regrid.Proofs.Levels
import Regrid.Proofs.Rounds
import Regrid.Proofs.Restoring
import Regrid.Proofs.Freshness
import Regrid.Proofs.Handover
import Regrid.Proofs.Magnitude
import Regrid.Proofs.Talk
import Regrid.Proofs.Parts
import Regrid.Proofs.Sharing
import Regrid.Proofs.Exact
import Regrid.Proofs.Criterion
import Regrid.Proofs.Chronicle
import Regrid.Proofs.Nests
import Regrid.Proofs.Nesting
import Regrid.Proofs.Budget
import Regrid.Proofs.Reentry
import Regrid.Proofs.Unlimited
import Regrid.Proofs.Queries
import Regrid.Proofs.Containment
import Regrid.Proofs.Mimics
import Regrid.Proofs.Twins
import Regrid.Proofs.Intake
import Regrid.Proofs.Rounding
import Regrid.Proofs.Totals
import Regrid.Proofs.Tuned
import Regrid.Proofs.Marked
import Regrid.Proofs.Range
import Regrid.Proofs.Monotone
import Regrid.Proofs.Verdicts
import Regrid.Proofs.Tolerance
import Regrid.Proofs.Setters
import Regrid.Proofs.Restart
import Regrid.Proofs.Codes
import Regrid.Proofs.Merging
