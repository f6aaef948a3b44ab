import Repertoire.Surrogate
import Repertoire.Hex

/-!
# Tokens

The token of a code point is its printable form inside a pattern, good both on its own and inside
brackets. An ASCII letter or digit is its own token, every other unit is written as `\uXXXX`, and
a code point above `0xFFFF` as the tokens of its two surrogates.

An integer that is split again and again takes one call inside another, and how many calls may be
nested is limited wherever a program runs. `encode` is the token as such, and `encode?` what comes
out under a limit: the token, or nothing at all for an integer that is too large. Whatever is written
with tokens has these two forms (`CodeSet.export?_eq` says when both are the same).
-/

namespace Repertoire.Token

/-- Is this an ASCII digit or letter, which has no meaning of its own in a pattern? -/
def isSafe (c : Int) : Bool :=
  (0x30 ≤ c && c ≤ 0x39) || (0x41 ≤ c && c ≤ 0x5A) || (0x61 ≤ c && c ≤ 0x7A)

/-- The escape of a unit: the last four characters of the hexadecimal text of its sum with
`0x10000`. For a unit these are its four digits, leading zeros included. -/
def escape (u : Int) : Text :=
  let text := Hex.signed (u + 0x10000)
  ('\\' : CodePoint) :: ('u' : CodePoint) :: text.drop (text.length - 4)

/-- The token of a code point. The high surrogate of an integer beyond `0x10FFFF` may itself lie
above `0xFFFF` and is split once more. -/
def encode (c : Int) : Text :=
  if isSafe c then [Fin.ofNat _ c.toNat]
  else if c ≤ 0xFFFF then escape c
  else encode (Surrogate.high c) ++ escape (Surrogate.low c)
termination_by c.toNat
decreasing_by
  have := Surrogate.high_lt (c := c) (by omega)
  omega

/-- The token of a code point, if no more than `limit` calls have to be nested for it. -/
def encode? : Nat → Int → Option Text
  | 0, _ => none
  | limit + 1, c =>
    if isSafe c then some [Fin.ofNat _ c.toNat]
    else if c ≤ 0xFFFF then some (escape c)
    else do
      let front ← encode? limit (Surrogate.high c)
      let back ← encode? limit (Surrogate.low c)
      return front ++ back

end Repertoire.Token
