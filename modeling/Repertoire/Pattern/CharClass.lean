import Repertoire.Extent
import Repertoire.Token

/-!
# Character classes

The text of a character class: nothing for no element, the bare token for a single code point, and
else the tokens and ranges of its range list between brackets. A code point above `0xFFFF` is
written as the tokens of its surrogates, which means that code point only outside of brackets; the
pattern of a set therefore keeps such code points out of its classes.
-/

namespace Repertoire.Pattern

def itemText : Item Int → Text
  | .single c => Token.encode c
  | .pair first last => Token.encode first ++ ('-' : CodePoint) :: Token.encode last

def classText : RangeList → Text
  | [] => []
  | [.single c] => Token.encode c
  | items => ('[' : CodePoint) :: items.flatMap itemText ++ [(']' : CodePoint)]

def classOf (s : Extent) : Text :=
  classText (RangeList.compress s.toList)

/-- The class of integers in any order. They are sorted first, and one that is given more than once
is written as often. -/
def rangeString (points : List Int) : Text :=
  classText (RangeList.compress (points.mergeSort fun a b => a ≤ b))

/-! ## Under a limit -/

def itemText? (limit : Nat) : Item Int → Option Text
  | .single c => Token.encode? limit c
  | .pair first last => do
    let front ← Token.encode? limit first
    let back ← Token.encode? limit last
    return front ++ ('-' : CodePoint) :: back

def classText? (limit : Nat) : RangeList → Option Text
  | [] => some []
  | [.single c] => Token.encode? limit c
  | items => do
    let texts ← items.mapM (itemText? limit)
    return ('[' : CodePoint) :: texts.flatten ++ [(']' : CodePoint)]

def classOf? (limit : Nat) (s : Extent) : Option Text :=
  classText? limit (RangeList.compress s.toList)

def rangeString? (limit : Nat) (points : List Int) : Option Text :=
  classText? limit (RangeList.compress (points.mergeSort fun a b => a ≤ b))

end Repertoire.Pattern
