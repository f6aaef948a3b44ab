import Repertoire.RangeList

/-!
# How long a range may be

Whoever writes a range down needs only its two ends, so a short range list can mention more
integers than could ever be listed. Before a range is listed its length is counted, in a signed word
of 64 bits, and a range that is longer is refused. A pair whose ends are in the wrong order mentions
nothing and is never too long.

Memory is left out of account. With too little of it less can be listed than is said here, but
nothing else comes out.
-/

namespace Repertoire

/-- Why a range is not listed. -/
inductive CapacityError where
  /-- Its length cannot be counted. -/
  | tooLong
  deriving DecidableEq, Repr

/-- The greatest length that can be counted. -/
def lengthLimit : Nat := Nat.pow 2 63 - 1

namespace Item

def length : Item Int → Nat
  | single _ => 1
  | pair first last => (last - first + 1).toNat

theorem length_points (item : Item Int) : item.points.length = item.length := by
  cases item with
  | single a => rfl
  | pair first last => exact length_interval first last

end Item

end Repertoire
