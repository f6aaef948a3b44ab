import Repertoire.Double
import Repertoire.Text

/-!
# Values offered as the source of a set

Whoever asks for a set offers a value, and it may be of any kind: an integer, a text or a range
list gives a set, the other kinds are refused or passed over. A `Value` is such an offer before it
has been looked at. A list and a tuple are read alike and only written differently, and a truth
value is never taken for an integer.
-/

namespace Repertoire

/-- A value of any kind. -/
inductive Value where
  | null
  | bool (b : Bool)
  | int (n : Int)
  | float (x : Double)
  | text (t : Text)
  | list (items : List Value)
  | tuple (items : List Value)
  | dict (entries : List (Value × Value))
  | bytes (octets : List UInt8)

namespace Value

instance : Inhabited Value := ⟨null⟩

def kind : Value → Text
  | null => Text.ofString "NoneType"
  | bool _ => Text.ofString "bool"
  | int _ => Text.ofString "int"
  | float _ => Text.ofString "float"
  | text _ => Text.ofString "str"
  | list _ => Text.ofString "list"
  | tuple _ => Text.ofString "tuple"
  | dict _ => Text.ofString "dict"
  | bytes _ => Text.ofString "bytes"

def elements? : Value → Option (List Value)
  | list items => some items
  | tuple items => some items
  | _ => none

/-- The integer that a value is. A truth value is none. -/
def integer? : Value → Option Int
  | int n => some n
  | _ => none

/-- The integer that a value can be counted with: a truth value counts as zero or one. -/
def count? : Value → Option Int
  | int n => some n
  | bool b => some b.toNat
  | _ => none

end Value

end Repertoire
