import Repertoire.Hex

/-!
# Tokens of the unicode-range notation

A token is `U+` and one to six hexadecimal digits, and may go on with a hyphen and the one to six
digits of the end of a range. In the first number a question mark stands for any digit; the token
then covers everything from all zeros to all `F`s, whatever end it may name.
-/

namespace Repertoire.UnicodeRange

/-- The value of a digit or, for a question mark, the whole choice, shown by `none`. -/
def wildcard? (c : CodePoint) : Option (Option Nat) :=
  if c = ('?' : CodePoint) then some none else (Hex.value? c).map some

/-- Reads each of one to six code points by `read?`. -/
def readDigits? {δ : Type} (read? : CodePoint → Option δ) (t : Text) : Option (List δ) :=
  if 1 ≤ t.length ∧ t.length ≤ 6 then t.mapM read? else none

/-- The bounds of a token with a first number and perhaps an end. -/
def boundsOf? (start : Text) (stop : Option Text) : Option (Nat × Nat) := do
  let digits ← readDigits? wildcard? start
  let first := Hex.ofValues (digits.map (·.getD 0))
  let last ← match stop with
    | none => some first
    | some stop => (readDigits? Hex.value? stop).map Hex.ofValues
  if digits.contains none then
    return (first, Hex.ofValues (digits.map (·.getD 15)))
  else
    return (first, last)

/-- The first and the last code point that a token covers; the last may be the smaller. -/
def tokenBounds? : Text → Option (Nat × Nat)
  | u :: plus :: rest =>
    if (u = ('u' : CodePoint) ∨ u = ('U' : CodePoint)) ∧ plus = ('+' : CodePoint) then
      match rest.splitOn ('-' : CodePoint) with
      | [start] => boundsOf? start none
      | [start, stop] => boundsOf? start (some stop)
      | _ => none
    else none
  | _ => none

end Repertoire.UnicodeRange
