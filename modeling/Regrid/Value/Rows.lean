/-
  Regrid.Value.Rows — a sized quantity beside rows of values.

  A sized quantity meets rows entry by entry. All entries and the quantity take part as
  one content (`Content`), the least that has room for each of them:
  - numbers of a kind, where a number without a limit counts as one of 64 bits;
  - `high`, whole numbers of 64 bits without a sign, with no number beside them that has
    one; otherwise they are added up as real numbers of double width;
  - `texts`, as soon as one entry is a text, with which a quantity has nothing in common;
  - `loose`, as soon as one entry is nothing, a record or a whole number outside 64 bits:
    then each entry is taken for itself, and the quantity without its width.

  (1) `add`: rows of the same shape with the quantity added to every entry.
  (2) `relate`: a relation holds between a quantity and rows with one entry if it holds
      for that entry; rows with several entries or none give no single truth. Whole
      numbers, with a sign or without one, are compared exactly.
-/

import Regrid.Quantity.Width
import Regrid.Value.Vector

namespace Regrid.Rows

inductive Content where
  | numbers (k : Kind)
  | high
  | texts
  | loose
  deriving DecidableEq, Repr

namespace Content

/-- The content with room for two. -/
def join : Content → Content → Content
  | .loose, _ | _, .loose => .loose
  | .texts, _ | _, .texts => .texts
  | .high, .high | .high, .numbers .truth | .numbers .truth, .high => .high
  | .high, .numbers _ | .numbers _, .high => .numbers (.real .double)
  | .numbers a, .numbers b => .numbers (a.join b)

def ofEntry : Value → Content
  | .quantity (.truth _) => .numbers .truth
  | .quantity (.int n) =>
    if Value.fits64 n then .numbers (.int .w64) else if Value.isHigh n then .high else .loose
  | .quantity (.real _) => .numbers (.real .double)
  | .quantity (.sized s) => .numbers s.kind
  | .text _ => .texts
  | .null | .list _ | .record _ => .loose

/-- The content with room for a first one and all entries. -/
def ofEntries (first : Content) (entries : List Value) : Content :=
  entries.foldl (fun c v => c.join (ofEntry v)) first

/-- The content with room for a quantity and all entries. -/
def beside (own : Sized Float) (entries : List Value) : Content := ofEntries (.numbers own.kind) entries

/-- Every entry is a whole number past those with a sign, or a truth beside one. -/
def isHigh (entries : List Value) : Bool := ofEntries (.numbers .truth) entries == .high

end Content

/-! ## (1) Sums -/

/-- The sum of whole numbers of 64 bits without a sign. -/
def highSum (a b : Quantity Float) : Except Fault (Quantity Float) := do
  return .int (((← a.value.toInt) + (← b.value.toInt)) % 0x10000000000000000)

def addEntry (c : Content) (own : Sized Float) (entry : Value) : Except Fault Value :=
  match c, entry with
  | .texts, _ => .error .noCommonKind
  | .numbers k, .quantity q => (Quantity.addAs k (.sized own) q).map .quantity
  | .high, .quantity q => (highSum (.sized own) q).map .quantity
  | .loose, .quantity q => (own.unlimited.add q).map .quantity
  | _, _ => .error .wrongType

mutual

/-- Rows of the same shape, with a function applied to every entry. -/
def mapEntries (f : Value → Except Fault Value) : Value → Except Fault Value
  | .list items => do return .list (← mapRows f items)
  | v => f v

def mapRows (f : Value → Except Fault Value) : List Value → Except Fault (List Value)
  | [] => .ok []
  | v :: rest => do return (← mapEntries f v) :: (← mapRows f rest)

end

def add (own : Sized Float) (rows : List Value) : Except Fault Value := do
  let entries ← (Value.list rows).vector
  return .list (← mapRows (addEntry (Content.beside own entries) own) rows)

/-! ## (2) Relations -/

/-- What the entries are compared as. A whole number leaves those without a sign what they are. -/
def comparedContent (own : Sized Float) (entries : List Value) : Content :=
  match own with
  | .int _ _ => if Content.isHigh entries then .high else Content.beside own entries
  | .truth _ | .real _ _ | .long _ => Content.beside own entries

/-- The numbers that the quantity and an entry are compared as. -/
def compared (c : Content) (own : Sized Float) (q : Quantity Float) :
    Except Fault (Number Float × Number Float) :=
  match c with
  | .numbers (.real w) => do return (.real (← Quantity.toWidth w (.sized own)), .real (← q.toWidth w))
  | .loose => own.unlimited.compared q
  | _ => .ok (own.value, q.value)

/-- A relation of numbers, and what it says of an entry that is none. -/
structure Relation where
  holds : Number Float → Number Float → Bool
  unlike : Fault → Except Fault Bool

def relateEntry (r : Relation) (c : Content) (own : Sized Float) (entry : Value) : Except Fault Bool :=
  match c, entry with
  | .texts, _ => r.unlike .noCommonKind
  | _, .quantity q => do
    let (x, y) ← compared c own q
    return r.holds x y
  | _, _ => r.unlike .wrongType

def relate (r : Relation) (own : Sized Float) (rows : List Value) : Except Fault Bool := do
  let entries ← (Value.list rows).vector
  match ← entries.mapM (relateEntry r (comparedContent own entries) own) with
  | [b] => return b
  | _ => throw .noSingleTruth

/-- What is no number has no order. -/
def less : Relation := ⟨Number.lt, .error⟩
def greater : Relation := ⟨fun x y => y.lt x, .error⟩
/-- What is no number equals none. -/
def equal : Relation := ⟨Number.equals, fun _ => .ok false⟩

end Regrid.Rows
