/-!
# Surrogate arithmetic

UTF-16 writes a code point above `0xFFFF` as two units: a high surrogate for the upper ten bits of
its offset from `0x10000`, a low surrogate for the lower ten. The functions here take every
integer, so that what lies below `0x10000` or above `0x10FFFF` has a definite answer too: splitting
divides with rounding to the floor, and combining and recognising look at the bits of two's
complement.
-/

namespace Repertoire

namespace Surrogate

/-- The high surrogate of a code point. Above `0x10FFFF` it leaves the block of the high surrogates,
and keeps growing with the code point. -/
def high (c : Int) : Int :=
  (c - 0x10000) / 0x400 + 0xD800

/-- The low surrogate of a code point, always between `0xDC00` and `0xDFFF`. -/
def low (c : Int) : Int :=
  (c - 0x10000) % 0x400 + 0xDC00

/-- The code point of two surrogates, of which only the low ten bits count. -/
def combine (h l : Int) : Int :=
  (BitVec.ofInt 10 h ++ BitVec.ofInt 10 l).toNat + 0x10000

/-- Do the upper six of the low sixteen bits mark a high surrogate? -/
def isHigh (u : Int) : Bool :=
  BitVec.ofInt 16 u &&& 0xFC00#16 == 0xD800#16

/-- Do the upper six of the low sixteen bits mark a low surrogate? -/
def isLow (u : Int) : Bool :=
  BitVec.ofInt 16 u &&& 0xFC00#16 == 0xDC00#16

theorem low_bounds (c : Int) : 0xDC00 ≤ low c ∧ low c ≤ 0xDFFF := by
  unfold low
  omega

theorem high_lt {c : Int} (h : 0xFFFF < c) : high c < c := by
  unfold high
  omega

theorem high_bounds {c : Int} (h : 0xFFFF < c) (h' : c ≤ 0x10FFFF) :
    0xD800 ≤ high c ∧ high c ≤ 0xDBFF := by
  unfold high
  omega

end Surrogate

/-- The UTF-16 units of one code point: itself, or its two surrogates. -/
def utf16 (c : Int) : List Int :=
  if c ≤ 0xFFFF then [c] else [Surrogate.high c, Surrogate.low c]

end Repertoire
