/-
  Regrid.Value — whatever a caller may hand in.

  Settings, estimator answers and mesh flags arrive unchecked: quantities of any kind,
  text, nothing, lists, records. `Value` is the type of all of them; the modules that
  admit a value decide which of them they take.

  Each value has a name for its type (`typeName`), a truth (`isTrue`), a length or none
  (`length?`), and three texts: `display` as a message shows it alone, `noted` as a journal
  does, and `inner` as it stands inside a list or record, with texts in quotes.
-/

import Regrid.Quantity.Text
import Regrid.Text

namespace Regrid

inductive Value where
  | null
  | quantity (q : Quantity Float)
  | text (s : String)
  | list (items : List Value)
  | record (fields : List (String × Value))
  deriving Inhabited

namespace Value

@[match_pattern] abbrev bool (b : Bool) : Value := .quantity (.truth b)
@[match_pattern] abbrev int (n : Int) : Value := .quantity (.int n)
@[match_pattern] abbrev real (x : Float) : Value := .quantity (.real x)
@[match_pattern] abbrev sized (s : Sized Float) : Value := .quantity (.sized s)

/-- A real number of the given width, rounded to it. -/
def ofSized (w : RealWidth) (x : Float) : Value := .sized (.real w (w.format.round x))

def typeName : Value → String
  | .null => "NoneType"
  | .quantity q => q.typeName
  | .text _ => "str"
  | .list _ => "list"
  | .record _ => "dict"

/-- Quantities other than zero, texts and collections that hold something. -/
def isTrue : Value → Bool
  | .null => false
  | .sized (.long x) => !x.isZero
  | .quantity q =>
    match q.value with
    | .int n => n != 0
    | .real x => x != 0.0
  | .text s => s != ""
  | .list items => !items.isEmpty
  | .record fields => !fields.isEmpty

def length? : Value → Option Nat
  | .text s => some s.length
  | .list items => some items.length
  | .record fields => some fields.length
  | .null | .quantity _ => none

/-- What a collection holds when it is gone through: characters, items, names of fields. -/
def items? : Value → Option (List Value)
  | .text s => some (s.toList.map fun c => .text (String.singleton c))
  | .list items => some items
  | .record fields => some (fields.map fun (k, _) => .text k)
  | .null | .quantity _ => none

def quantity? : Value → Option (Quantity Float)
  | .quantity q => some q
  | _ => none

/-- The number a value is, of any width, and of a long one the nearest; a truth is no number. -/
def number? : Value → Option (Number Float)
  | .quantity q => q.number?
  | _ => none

/-- The number a caller gives with a value: a long one is not yet converted. -/
def given? : Value → Option Given
  | .sized (.long x) => some (.long x)
  | v => v.number?.map .number

/-- The whole number a value is, of any width; a truth is none. -/
def integer? (v : Value) : Option Int :=
  match v.number? with
  | some (.int n) => some n
  | _ => none

theorem integer?_eq_some {v : Value} {n : Int} (h : v.integer? = some n) :
    v = .int n ∨ ∃ w, v = .sized (.int w n) := by
  cases v with
  | quantity q =>
    cases q with
    | truth _ => cases h
    | number m =>
      cases m with
      | int _ =>
        cases h
        exact .inl rfl
      | real _ => cases h
    | sized s =>
      cases s with
      | int w _ =>
        cases h
        exact .inr ⟨w, rfl⟩
      | truth _ | real _ _ | long _ => cases h
  | null | text _ | list _ | record _ => cases h

/-- Equality with a whole number, where yes counts as one and no as zero. -/
def equalsInt : Value → Int → Bool
  | .sized (.long x), k => x.equalsInt k
  | .quantity q, k =>
    match q.value with
    | .int n => n == k
    | .real x => (Decimal.Shape.ofFloat x).equalsInt k
  | _, _ => false

mutual

/-- The text of a value that stands inside another one. -/
def inner : Value → String
  | .null => "None"
  | .quantity q => q.inner
  | .text s => Text.quoted s
  | .list items => "[" ++ String.intercalate ", " (innerItems items) ++ "]"
  | .record fields => "\x7b" ++ String.intercalate ", " (innerFields fields) ++ "\x7d"

def innerItems : List Value → List String
  | [] => []
  | v :: rest => inner v :: innerItems rest

def innerFields : List (String × Value) → List String
  | [] => []
  | (k, v) :: rest => (Text.quoted k ++ ": " ++ inner v) :: innerFields rest

end

mutual

/-- The whole numbers that are written out in the text of a value. -/
def wholes : Value → List Int
  | .quantity q =>
    match q.number? with
    | some (.int n) => [n]
    | _ => []
  | .list items => wholesOfItems items
  | .record fields => wholesOfFields fields
  | .null | .text _ => []

def wholesOfItems : List Value → List Int
  | [] => []
  | v :: rest => wholes v ++ wholesOfItems rest

def wholesOfFields : List (String × Value) → List Int
  | [] => []
  | (_, v) :: rest => wholes v ++ wholesOfFields rest

end

/-- The text of a value that stands alone in a message. -/
def display : Value → String
  | .text s => s
  | .quantity q => q.display
  | v => inner v

/-- The text of a value that stands alone in a journal. -/
def noted : Value → String
  | .text s => s
  | .quantity q => q.text
  | v => inner v

end Value

end Regrid
