import Repertoire.CodeSet
import Repertoire.Value.Item
import Repertoire.Value.Written

/-!
# The set that a value describes

A text describes the set of its code points, an integer the set of itself, and a list or tuple is a
range list. `CodeSet.ofValue` is generous: any other value describes the empty set, and what is
not well formed in a range list is passed over; it fails only at a range whose length cannot be
counted. `CodeSet.strict` refuses instead. It looks at the shape of all elements first, and at the
bounds of their ends only when every shape is right, so an ill-formed element is reported even if
an end before it is out of bounds. What is within the bounds is never too long.
-/

namespace Repertoire

/-- Why a value was refused as the source of a set. -/
inductive SourceError where
  /-- The value is not a code point, nor an element of a range list of code points. -/
  | invalid (value : Value)
  /-- The value is of a kind that describes no set. -/
  | unsupported (value : Value)

/-- The text of a refusal: the value that is not a code point, or the name of the kind that
describes no set. -/
def SourceError.message : SourceError → Text
  | invalid v => v.described
  | unsupported v => v.kind

def inBounds (c : Int) : Bool :=
  0 ≤ c && c ≤ 0x10FFFF

namespace CodeSet

def ofRanges (items : RangeList) : Except CapacityError CodeSet :=
  if ∀ item ∈ items, item.length ≤ lengthLimit then .ok (ofItems items) else .error .tooLong

/-- The set that a value describes, with what describes nothing passed over. -/
def ofValue : Value → Except CapacityError CodeSet
  | .text t => .ok (ofText t)
  | .int n => .ok (ofList [n])
  | v => ofRanges ((v.elements?.getD []).filterMap Value.item?)

/-- The elements of a range list, if all are well formed; the first that is not is refused. -/
def readItems (elements : List Value) : Except SourceError RangeList :=
  match elements.find? (!·.isWellFormed) with
  | some v => .error (.invalid v)
  | none => .ok (elements.filterMap Value.item?)

/-- Passes integers that are all code points; the first that is not is refused. -/
def checkBounds (points : List Int) : Except SourceError Unit :=
  match points.find? (!inBounds ·) with
  | some c => .error (.invalid (.int c))
  | none => .ok ()

/-- The set that a value describes, if nothing in the value has to be passed over. -/
def strict : Value → Except SourceError CodeSet
  | .text t => return ofText t
  | .int n => do
    checkBounds [n]
    return ofList [n]
  | v =>
    match v.elements? with
    | none => .error (.unsupported v)
    | some elements => do
      let items ← readItems elements
      checkBounds (items.flatMap fun item => [item.ends.1, item.ends.2])
      return ofItems items

end CodeSet

end Repertoire
