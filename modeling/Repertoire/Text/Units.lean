import Repertoire.Surrogate
import Repertoire.Text

/-!
# UTF-16 units of a text

The units of a text, and the code points that the units spell. Unit by unit the two views differ
only where a text holds a high surrogate directly before a low one: the units cannot tell this
from the code point above `0xFFFF` that the pair stands for, so decoding yields that code point.
-/

namespace Repertoire

/-- The UTF-16 units of a text. A surrogate that stands in the text is a unit like any other. -/
def Text.units (t : Text) : List Int :=
  t.flatMap fun c => utf16 (c.val : Int)

/-- The code points that units spell. A high surrogate takes the low surrogate after it; any other
unit stands for itself, and so does a surrogate without its partner. -/
def decodeUnits : List Int → List Int
  | [] => []
  | [u] => [u]
  | u :: v :: rest =>
    if Surrogate.isHigh u && Surrogate.isLow v then
      Surrogate.combine u v :: decodeUnits rest
    else
      u :: decodeUnits (v :: rest)

/-- The code points of a text, with each adjacent surrogate pair merged. -/
def Text.decode (t : Text) : List Int :=
  decodeUnits t.units

end Repertoire
