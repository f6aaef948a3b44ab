import Repertoire.Text

/-!
# Hexadecimal numbers

Numbers are written in upper-case digits without leading zeros, a negative one as a minus and its
magnitude. Digits are read in either case.
-/

namespace Repertoire.Hex

def digit (n : Fin 16) : CodePoint :=
  if n < 10 then ⟨0x30 + n.val, by omega⟩ else ⟨0x37 + n.val, by omega⟩

/-- The digits of a natural number; zero has one digit. -/
def digits (n : Nat) : Text :=
  if n < 16 then [digit (Fin.ofNat 16 n)]
  else digits (n / 16) ++ [digit (Fin.ofNat 16 n)]

/-- The digits of an integer, after a minus if it is negative. -/
def signed (n : Int) : Text :=
  if n < 0 then ('-' : CodePoint) :: digits n.natAbs else digits n.toNat

def value? (c : CodePoint) : Option Nat :=
  if 0x30 ≤ c.val ∧ c.val ≤ 0x39 then some (c.val - 0x30)
  else if 0x41 ≤ c.val ∧ c.val ≤ 0x46 then some (c.val - 0x37)
  else if 0x61 ≤ c.val ∧ c.val ≤ 0x66 then some (c.val - 0x57)
  else none

/-- The number that digit values spell, the most significant first. -/
def ofValues (ds : List Nat) : Nat :=
  ds.foldl (fun n d => 16 * n + d) 0

end Repertoire.Hex
