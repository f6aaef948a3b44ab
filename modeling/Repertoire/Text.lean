/-!
# Text as a sequence of code points

A text is held as its code points, and the surrogates are code points here. So a text may hold
half of a surrogate pair, which `String` cannot, and two texts that differ only in an unpaired
surrogate stay different. Text that is written by the library itself is held in the same way,
so that what one part writes another part can read without a conversion.
-/

namespace Repertoire

/-- A code point: `0` to `0x10FFFF`, the surrogates `0xD800` to `0xDFFF` included. -/
abbrev CodePoint := Fin 0x110000

/-- A text: its code points in order. It need not be well-formed UTF-16. -/
abbrev Text := List CodePoint

def CodePoint.ofChar (c : Char) : CodePoint :=
  ⟨c.toNat, by
    have := c.valid
    simp only [UInt32.isValidChar, Nat.isValidChar] at this
    simp only [Char.toNat]
    omega⟩

/-- A character stands for its code point wherever a code point is expected. -/
instance : Coe Char CodePoint := ⟨CodePoint.ofChar⟩

@[simp] theorem CodePoint.val_ofChar (c : Char) : (CodePoint.ofChar c).val = c.toNat := rfl

/-- The character of a code point, unless the code point is a surrogate. -/
def CodePoint.char? (c : CodePoint) : Option Char :=
  if h : c.val.isValidChar then some (Char.ofNatAux c.val h) else none

def Text.ofString (s : String) : Text :=
  s.toList.map CodePoint.ofChar

def Text.ofInt (n : Int) : Text :=
  Text.ofString (toString n)

def Text.ofNat (n : Nat) : Text :=
  Text.ofString (toString n)

/-- A text as a string. A surrogate has no place in a string and becomes U+FFFD. -/
def Text.toString (t : Text) : String :=
  String.ofList (t.map fun c => c.char?.getD '\uFFFD')

end Repertoire
