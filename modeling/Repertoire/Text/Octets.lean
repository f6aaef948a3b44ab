import Repertoire.Text

/-!
# The octets of a text

A text that has to become octets is written in UTF-8. UTF-8 has no place for a surrogate, and not
every sequence of octets is UTF-8; the two gaps are made to fit. The low surrogates U+DC80 to
U+DCFF stand for the single octets `0x80` to `0xFF`, so that every sequence of octets is that of
some text, while a text with any other surrogate has no octets.
-/

namespace Repertoire

def CodePoint.octets? (c : CodePoint) : Option (List UInt8) :=
  match c.char? with
  | some char => some (String.utf8EncodeChar char)
  | none => if 0xDC80 ≤ c.val ∧ c.val ≤ 0xDCFF then some [UInt8.ofNat (c.val - 0xDC00)] else none

def Text.octets? (t : Text) : Option (List UInt8) :=
  (t.mapM CodePoint.octets?).map List.flatten

end Repertoire
