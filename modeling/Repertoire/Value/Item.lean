import Repertoire.RangeList.Capacity
import Repertoire.Value

/-!
# Values as elements of a range list

Inside a range list a list or tuple of two values is a pair, and every other value stands for
itself. An element is well formed if all its ends are integers; a truth value is not one.
Expanding is more generous than that: it takes any pair whose ends can be counted with, and lets
every element that is not a pair pass, whatever it is. The first pair that it cannot list makes it
fail, be it for its ends or for its length.
-/

namespace Repertoire.Value

/-- The value as an element of a range list. -/
def asItem (v : Value) : Item Value :=
  match v.elements? with
  | some [first, last] => .pair first last
  | _ => .single v

def isPair (v : Value) : Bool :=
  match v.asItem with
  | .pair _ _ => true
  | .single _ => false

def isInteger (v : Value) : Bool :=
  v.integer?.isSome

/-- The element of an integer range list that a value describes. -/
def item? (v : Value) : Option (Item Int) :=
  v.asItem.traverse? integer?

/-- Is this an integer, or a pair of integers? -/
def isWellFormed (v : Value) : Bool :=
  v.item?.isSome

inductive ExpandError where
  /-- An end of a pair cannot be counted with. -/
  | uncountable
  | capacity (error : CapacityError)
  deriving DecidableEq, Repr

/-- The integers from one end to the other, both of which must be there. -/
def range (first last : Option Int) : Except ExpandError (List Int) :=
  match first, last with
  | some a, some b =>
    if (Item.pair a b).length ≤ lengthLimit then .ok (interval a b)
    else .error (.capacity .tooLong)
  | _, _ => .error .uncountable

/-- What one element of a range list mentions: the integers of a pair, or the element itself. -/
def mentioned (v : Value) : Except ExpandError (List Value) :=
  match v.asItem with
  | .single a => .ok [a]
  | .pair first last => (range first.count? last.count?).map fun points => points.map .int

/-- Everything that the elements of a range list mention, in order. -/
def expand (elements : List Value) : Except ExpandError (List Value) :=
  (elements.mapM mentioned).map List.flatten

end Repertoire.Value
