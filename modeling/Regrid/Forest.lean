/-
  Regrid.Forest — a line of interval trees as a mesh.

  Each root is an interval of unit length; a leaf is named by its root, its level and its
  position among the 2^level intervals of that level, and has half the length of its
  parent; below level zero it is longer than its root, and can only be refined. Leaves
  stand in spatial order, so leaf i and leaf i + 1 are neighbours.

  Refining replaces a leaf by its two children; merging replaces two children that stand
  side by side by their parent. Both change the version, unless nothing was listed or
  merged. A merge is skipped when its error is above the threshold, or when there is a
  limit and a neighbour of the pair would end up more than that many levels below the
  parent; neighbours are judged as they were before any merge.

  A leaf violates a limit when a neighbour lies more than that many levels below it.
-/

import Regrid.Group
import Regrid.Mark

namespace Regrid

structure Leaf where
  root : Int
  level : Int
  pos : Int
  deriving DecidableEq, Repr

namespace Leaf

def left (l : Leaf) : Leaf := ⟨l.root, l.level + 1, 2 * l.pos⟩
def right (l : Leaf) : Leaf := ⟨l.root, l.level + 1, 2 * l.pos + 1⟩
def parent (l : Leaf) : Leaf := ⟨l.root, l.level - 1, l.pos / 2⟩

/-- The two leaves are the left and the right child of one parent. -/
def areSiblings (a b : Leaf) : Bool :=
  decide (0 < a.level) && a.pos % 2 == 0 && b == ⟨a.root, a.level, a.pos + 1⟩

end Leaf

structure Forest where
  leaves : List Leaf
  version : Int
  deriving DecidableEq, Repr

namespace Forest

/-- One leaf per root. -/
def ofRoots (n : Nat) (version : Int) : Forest := ⟨(List.range n).map fun (r : Nat) => ⟨r, 0, 0⟩, version⟩

def levels (f : Forest) : List Int := f.leaves.map (·.level)

/-! ## Refining -/

def split (marked : List Int) (leaves : List Leaf) : List Leaf :=
  (leaves.zipIdx.map fun (l, i) => if marked.contains (i : Int) then [l.left, l.right] else [l]).flatten

/-- Splits the marked leaves; marks of leaves that are not there do nothing. -/
def refine (f : Forest) (marks : List Mark) : Forest :=
  if marks.isEmpty then f else ⟨split (marks.map (·.index)) f.leaves, f.version + 1⟩

/-! ## Merging -/

/-- First positions of the sibling pairs from position `i` on, found from left to right. -/
def pairsFrom (i : Nat) : List Leaf → List Nat
  | a :: b :: rest => if a.areSiblings b then i :: pairsFrom (i + 2) rest else pairsFrom (i + 1) (b :: rest)
  | _ => []

def pairs (f : Forest) : List Nat := pairsFrom 0 f.leaves

/-- The sibling groups, as positions. -/
def groups (f : Forest) : List Group := f.pairs.map fun (i : Nat) => .positions [(i : Int), (i : Int) + 1]

/-- The leaf at a position, if it is there, is more than `limit` levels below `level`. -/
def tooFine (leaves : List Leaf) (level : Int) (limit : Int) (position : Option Nat) : Bool :=
  match position with
  | none => false
  | some i =>
    match leaves[i]? with
    | none => false
    | some l => limit < l.level - level

/-- The limit forbids merging the pair that starts at `i`. -/
def isBlocked (leaves : List Leaf) (limit : Int) (i : Nat) : Bool :=
  match leaves[i]? with
  | none => false
  | some l =>
    let level : Int := l.level - 1
    decide (0 < limit) &&
      (tooFine leaves level limit (if 0 < i then some (i - 1) else none) || tooFine leaves level limit (some (i + 2)))

variable {R : Type} [Arith R]

/-- The pairs that are merged. -/
def merged (f : Forest) (errors : List R) (threshold : R) (limit : Int) : List Nat :=
  ((f.pairs.zip errors).filter fun (i, e) => !Arith.lt threshold e && !isBlocked f.leaves limit i).map (·.1)

/-- Replaces each pair that starts at a listed position by its parent. -/
def join (starts : List Nat) (i : Nat) : List Leaf → List Leaf
  | a :: b :: rest =>
    if starts.contains i then a.parent :: join starts (i + 2) rest else a :: join starts (i + 1) (b :: rest)
  | leaves => leaves

/-- Merges by error; tells whether anything was merged. -/
def derefine (f : Forest) (errors : List R) (threshold : R) (limit : Int) : Bool × Forest :=
  let starts := f.merged errors threshold limit
  if starts.isEmpty then (false, f) else (true, ⟨join starts 0 f.leaves, f.version + 1⟩)

/-! ## The limit on levels -/

/-- The leaf left of its neighbour, or the right one, that is too coarse for the other. -/
def coarser (limit : Int) (i : Nat) (a b : Leaf) : Option Nat :=
  if limit < b.level - a.level then some i
  else if limit < a.level - b.level then some (i + 1)
  else none

def violatorsFrom (limit : Int) (i : Nat) : List Leaf → List Nat
  | a :: b :: rest => (coarser limit i a b).toList ++ violatorsFrom limit (i + 1) (b :: rest)
  | _ => []

/-- Positions of the leaves that violate the limit, in order and once each. -/
def violators (f : Forest) (limit : Int) : List Nat := (violatorsFrom limit 0 f.leaves).eraseDups

def violations (f : Forest) (limit : Int) : List Mark :=
  (f.violators limit).map fun (i : Nat) => ⟨i, Directions.xyz⟩

/-- Rebalancing moves no leaf of this worker. -/
def rebalance (f : Forest) : Forest := { f with version := f.version + 1 }

end Forest

end Regrid
