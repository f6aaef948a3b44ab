import Repertoire.Text

/-!
# Blanks

The white space of Unicode: the code points with the property White_Space, and the four information
separators `0x1C` to `0x1F`. The zero-width characters are not blank.
-/

namespace Repertoire

/-- The ranges of the blank code points, in ascending order. -/
def CodePoint.blankRanges : List (Nat × Nat) := [
    (0x9, 0xD), (0x1C, 0x20), (0x85, 0x85), (0xA0, 0xA0), (0x1680, 0x1680), (0x2000, 0x200A),
    (0x2028, 0x2029), (0x202F, 0x202F), (0x205F, 0x205F), (0x3000, 0x3000)]

def CodePoint.isBlank (c : CodePoint) : Bool :=
  CodePoint.blankRanges.any fun range => range.1 ≤ c.val && c.val ≤ range.2

def Text.trimStart (t : Text) : Text :=
  t.dropWhile CodePoint.isBlank

def Text.trimEnd (t : Text) : Text :=
  (t.reverse.dropWhile CodePoint.isBlank).reverse

def Text.trim (t : Text) : Text :=
  t.trimStart.trimEnd

end Repertoire
