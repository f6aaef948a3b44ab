import Repertoire.Double.Shortest

/-!
# Floating-point numbers in writing

A number is written with the digits of its shortest decimal: positionally from `0.0001` up to below
`10 ^ 16`, and then always with a digit on both sides of the point, and with an exponent of a sign
and at least two digits outside of that. Reading is more generous. It takes any decimal, with or
without point and exponent, letters in either case, and gives the number that is nearest.
-/

namespace Repertoire.Double

/-! ## Writing -/

def zeros (n : Nat) : Text :=
  List.replicate n ('0' : CodePoint)

/-- Digits with a point after so many of them. -/
def positional (digits : Text) (point : Int) : Text :=
  if point ≤ 0 then Text.ofString "0." ++ zeros (-point).toNat ++ digits
  else if digits.length ≤ point then
    digits ++ zeros (point - digits.length).toNat ++ Text.ofString ".0"
  else digits.take point.toNat ++ Text.ofString "." ++ digits.drop point.toNat

/-- Digits with a point after the first, and the exponent that this asks for. -/
def scientific (digits : Text) (exponent : Int) : Text :=
  let fraction := digits.drop 1
  let magnitude := Text.ofNat exponent.natAbs
  digits.take 1 ++ (if fraction.isEmpty then [] else Text.ofString "." ++ fraction)
    ++ Text.ofString (if exponent < 0 then "e-" else "e+")
    ++ zeros (2 - magnitude.length) ++ magnitude

/-- A decimal in writing. Zeros at the end of its digits are left out. -/
def writtenDecimal (d : Decimal) : Text :=
  let digits := Text.ofNat d.digits
  let point := digits.length + d.exponent
  let shown := (digits.reverse.dropWhile (· = ('0' : CodePoint))).reverse
  if -4 < point ∧ point ≤ 16 then positional shown point else scientific shown (point - 1)

def writtenSign (negative : Bool) : Text :=
  if negative then Text.ofString "-" else []

def written : Double → Text
  | nan => Text.ofString "nan"
  | infinite negative => writtenSign negative ++ Text.ofString "inf"
  | finite negative rank =>
    writtenSign negative ++
      if rank.val = 0 then Text.ofString "0.0" else writtenDecimal (shortest rank)

/-! ## Reading -/

def appendDigit? (n : Nat) (c : CodePoint) : Option Nat :=
  if 0x30 ≤ c.val ∧ c.val ≤ 0x39 then some (10 * n + (c.val - 0x30)) else none

/-- The number that decimal digits spell, at least one of them. -/
def digits? (t : Text) : Option Nat :=
  if t.isEmpty then none else t.foldlM appendDigit? 0

/-- A sign at the beginning of a text, `true` for a hyphen, and what follows it. -/
def sign (t : Text) : Bool × Text :=
  match t with
  | c :: rest =>
    if c = ('-' : CodePoint) then (true, rest)
    else if c = ('+' : CodePoint) then (false, rest)
    else (false, t)
  | [] => (false, [])

def integer? (t : Text) : Option Int :=
  let (negative, digits) := sign t
  (digits? digits).map fun n => if negative then -(n : Int) else n

/-- The decimal that digits spell, with a point and an exponent or without. -/
def decimal? (t : Text) : Option Decimal := do
  let (significand, exponent) := t.span (· ≠ ('e' : CodePoint))
  let (whole, fraction) := significand.span (· ≠ ('.' : CodePoint))
  let n ← digits? (whole ++ fraction.drop 1)
  let e ← if exponent.isEmpty then some 0 else integer? (exponent.drop 1)
  return ⟨n, e - (fraction.length - 1 : Nat)⟩

/-- The small letter of a capital letter of ASCII; any other code point stays as it is. -/
def smallLetter (c : CodePoint) : CodePoint :=
  if 0x41 ≤ c.val ∧ c.val ≤ 0x5A then Fin.ofNat _ (c.val + 0x20) else c

def ofText? (t : Text) : Option Double :=
  let (negative, rest) := sign (t.map smallLetter)
  if rest = Text.ofString "nan" then some nan
  else if rest = Text.ofString "inf" ∨ rest = Text.ofString "infinity" then
    some (infinite negative)
  else (decimal? rest).map (ofDecimal negative)

end Repertoire.Double
