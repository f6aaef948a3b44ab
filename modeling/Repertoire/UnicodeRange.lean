import Repertoire.CodeSet
import Repertoire.Text.Blank
import Repertoire.UnicodeRange.Token

/-!
# The unicode-range notation of style sheets

The notation is a list of tokens like `U+26`, `U+0-7F` or `U+4??` with separators between them.
A separator is a comma with the blanks around it, and the blanks at both ends of the list do not
count. A token that is malformed, or whose range is reversed, adds nothing to the set and does not
disturb its neighbours.

A set is written in this notation either member by member or as its range list.
-/

namespace Repertoire.UnicodeRange

/-! ## Reading -/

/-- The text after a separator, if the text begins with one. -/
def afterSeparator? (t : Text) : Option Text :=
  match t.trimStart with
  | c :: rest => if c = (',' : CodePoint) then some (Text.trimStart rest) else none
  | [] => none

private theorem length_trimStart_le (t : Text) : t.trimStart.length ≤ t.length :=
  (List.dropWhile_sublist _).length_le

theorem length_afterSeparator? {t rest : Text} (h : afterSeparator? t = some rest) :
    rest.length < t.length := by
  unfold afterSeparator? at h
  split at h
  · rename_i c tail ht
    split at h
    · have h₁ := length_trimStart_le t
      have h₂ := length_trimStart_le tail
      simp only [ht, List.length_cons] at h₁
      simp only [Option.some.injEq] at h
      subst h
      omega
    · simp at h
  · simp at h

/-- The pieces of a text between separators. At each place the longest separator counts. -/
def pieces : Text → List Text
  | [] => [[]]
  | c :: rest =>
    match _h : afterSeparator? (c :: rest) with
    | some after => [] :: pieces after
    | none =>
      match pieces rest with
      | [] => [[c]]
      | piece :: others => (c :: piece) :: others
termination_by t => t.length
decreasing_by
  · exact length_afterSeparator? (by assumption)
  · simp

/-- The set that a text in the notation describes. -/
def parse (t : Text) : CodeSet :=
  CodeSet.ofItems ((pieces t.trim).filterMap fun piece =>
    (tokenBounds? piece).map fun bounds => .pair bounds.1 bounds.2)

/-! ## Writing -/

def token (c : Int) : Text :=
  Text.ofString "U+" ++ Hex.signed c

def itemToken : Item Int → Text
  | .single c => token c
  | .pair first last => token first ++ ('-' : CodePoint) :: Hex.signed last

/-- Integers in the notation, one by one in their order. -/
def hexString (points : List Int) : Text :=
  [(',' : CodePoint)].intercalate (points.map token)

/-- Integers in the notation, runs of three or more as ranges. -/
def hexRangeString (points : List Int) : Text :=
  [(',' : CodePoint)].intercalate ((RangeList.compress points).map itemToken)

end Repertoire.UnicodeRange
