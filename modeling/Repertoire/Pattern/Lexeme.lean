import Repertoire.Hex
import Repertoire.Token

/-!
# The lexemes of a pattern

A pattern is written in few signs: the tokens of units, the brackets of a class, the hyphen of a
range and the bar between alternatives. `Lexeme.read?` finds them again in the text, and
`unescape?` reads a text that consists of tokens alone.
-/

namespace Repertoire.Pattern

inductive Lexeme where
  | unit (u : Int)
  | opening
  | closing
  | hyphen
  | bar
  deriving DecidableEq, Repr

namespace Lexeme

def fourDigits? (a b c d : CodePoint) : Option Int := do
  return (Hex.ofValues [← Hex.value? a, ← Hex.value? b, ← Hex.value? c, ← Hex.value? d] : Nat)

/-- The lexemes of a text. There is no answer if a code point belongs to none. -/
def read? : Text → Option (List Lexeme)
  | [] => some []
  | c :: rest =>
    if c = ('[' : CodePoint) then (read? rest).map (opening :: ·)
    else if c = (']' : CodePoint) then (read? rest).map (closing :: ·)
    else if c = ('-' : CodePoint) then (read? rest).map (hyphen :: ·)
    else if c = ('|' : CodePoint) then (read? rest).map (bar :: ·)
    else if Token.isSafe (c.val : Int) then (read? rest).map (unit (c.val : Int) :: ·)
    else if c = ('\\' : CodePoint) then
      match rest with
      | mark :: d₁ :: d₂ :: d₃ :: d₄ :: rest' =>
        if mark = ('u' : CodePoint) then do
          let u ← fourDigits? d₁ d₂ d₃ d₄
          (read? rest').map (unit u :: ·)
        else none
      | _ => none
    else none

def unit? : Lexeme → Option Int
  | unit u => some u
  | _ => none

end Lexeme

/-- The units whose tokens a text consists of. -/
def unescape? (t : Text) : Option (List Int) := do
  (← Lexeme.read? t).mapM Lexeme.unit?

end Repertoire.Pattern
