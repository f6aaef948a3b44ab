import Repertoire.Hex
import Repertoire.Text.Printable

/-!
# Quoted text

A text is quoted so that it fits on one line and shows what it holds: printable code points stand
for themselves, the backslash and the quote get a backslash, and everything else is named by an
escape. The quote is an apostrophe; only a text that holds an apostrophe and no double quote is put
between double quotes.
-/

namespace Repertoire

/-- The lower-case hexadecimal digits of a number, exactly `width` of them. -/
def Hex.padded : (width n : Nat) → Text
  | 0, _ => []
  | width + 1, n =>
    let d := Hex.digit (Fin.ofNat 16 n)
    Hex.padded width (n / 16) ++ [if 0x41 ≤ d.val then Fin.ofNat _ (d.val + 0x20) else d]

namespace Text

def quoteFor (t : Text) : CodePoint :=
  let apostrophe : CodePoint := '\''
  let double : CodePoint := '"'
  if t.contains apostrophe && !t.contains double then double else apostrophe

/-- How a code point is written between quotes, if `shown` says which ones stand for themselves. -/
def escaped (shown : CodePoint → Bool) (quote c : CodePoint) : Text :=
  if c = quote ∨ c = ('\\' : CodePoint) then ['\\', c]
  else if c = ('\n' : CodePoint) then ['\\', 'n']
  else if c = ('\r' : CodePoint) then ['\\', 'r']
  else if c = ('\t' : CodePoint) then ['\\', 't']
  else if shown c then [c]
  else if c.val ≤ 0xFF then Text.ofString "\\x" ++ Hex.padded 2 c.val
  else if c.val ≤ 0xFFFF then Text.ofString "\\u" ++ Hex.padded 4 c.val
  else Text.ofString "\\U" ++ Hex.padded 8 c.val

/-- The text between quotes, with only the code points that `shown` allows as they are. -/
def quotedShowing (shown : CodePoint → Bool) (t : Text) : Text :=
  let quote := t.quoteFor
  quote :: t.flatMap (escaped shown quote) ++ [quote]

def quoted (t : Text) : Text :=
  t.quotedShowing CodePoint.isPrintable

end Text

end Repertoire
