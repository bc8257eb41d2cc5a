/-
  Regrid.Quantity.Text — how quantities are written.

  Three forms: `text` by the shortest digits of a quantity's own width, as a journal
  writes it; `display`, as a message shows it, where a real number of any width is
  written as the binary64 number it equals, or, if it is long, is nearest to; and `inner`,
  as it stands inside a list or a record, where a sized quantity also names its width.
-/

import Regrid.Quantity
import Regrid.Decimal.Digits

namespace Regrid

open Decimal (Format intText shortestText)

def truthText (b : Bool) : String := if b then "True" else "False"

def Number.text : Number Float → String
  | .int n => intText n
  | .real x => shortestText .double x

namespace Sized

def text : Sized Float → String
  | .truth b => truthText b
  | .int _ n => intText n
  | .real w x => shortestText w.format x
  | .long x => Format.extended.shapeText x

def inner : Sized Float → String
  | .truth b => "np." ++ truthText b ++ "_"
  | .int .w32 n => "np.int32(" ++ intText n ++ ")"
  | .int .w64 n => "np.int64(" ++ intText n ++ ")"
  | .real .half x => "np.float16(" ++ shortestText .half x ++ ")"
  | .real .single x => "np.float32(" ++ shortestText .single x ++ ")"
  | .real .double x => "np.float64(" ++ shortestText .double x ++ ")"
  | .long x => "np.longdouble('" ++ Format.extended.shapeText x ++ "')"

def typeName : Sized Float → String
  | .truth _ => "numpy.bool"
  | .int .w32 _ => "numpy.int32"
  | .int .w64 _ => "numpy.int64"
  | .real .half _ => "numpy.float16"
  | .real .single _ => "numpy.float32"
  | .real .double _ => "numpy.float64"
  | .long _ => "numpy.longdouble"

end Sized

namespace Quantity

def text : Quantity Float → String
  | .truth b => truthText b
  | .number n => n.text
  | .sized s => s.text

def display : Quantity Float → String
  | .truth b | .sized (.truth b) => truthText b
  | q => q.value.text

def inner : Quantity Float → String
  | .truth b => truthText b
  | .number n => n.text
  | .sized s => s.inner

def typeName : Quantity Float → String
  | .truth _ => "bool"
  | .int _ => "int"
  | .real _ => "float"
  | .sized s => s.typeName

end Quantity

end Regrid
