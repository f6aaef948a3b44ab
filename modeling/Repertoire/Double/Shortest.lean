import Repertoire.Double
import Repertoire.Text

/-!
# The shortest decimal of a number

Many decimal numbers are taken for the same number of the double format. The shortest has the
fewest digits that single the number out, and among those it is the nearest. For one digit after
another the number lies between two neighbours on the grid of decimals with so many digits. The
first grid on which one of them is taken for the number gives the decimal; if both are, the nearer
one, and of two that are equally near the even one. Seventeen digits are enough.
-/

namespace Repertoire.Double

/-- How many digits the magnitude of a rank has before its decimal point: the least `k` such that
it is below `10 ^ k`. It is negative for small magnitudes, and the rank must not be zero. -/
def scale (rank : Nat) : Int :=
  (Text.ofNat (units rank * Nat.pow 10 342 / Nat.pow 2 1074)).length - 342

/-- The two multiples of a power of ten between which the magnitude of a rank lies, the nearer one
in front. -/
def neighbours (rank : Nat) (exponent : Int) : List Decimal :=
  let num := units rank * Nat.pow 10 (-exponent).toNat
  let den := Nat.pow 2 1074 * Nat.pow 10 exponent.toNat
  let near := roundedDiv num den
  let far := if near = num / den then near + 1 else num / den
  [⟨near, exponent⟩, ⟨far, exponent⟩]

/-- The decimal with so many digits that is taken for the magnitude of a rank, if there is one. -/
def withDigits? (rank count : Nat) : Option Decimal :=
  (neighbours rank (scale rank - count)).find? fun d => decimalRank d == rank

def exactDecimal (rank : Nat) : Decimal :=
  ⟨units rank * Nat.pow 5 1074, -1074⟩

/-- The shortest decimal of the magnitude of a rank other than zero. -/
def shortest (rank : Nat) : Decimal :=
  ((List.range 17).findSome? fun n => withDigits? rank (n + 1)).getD (exactDecimal rank)

end Repertoire.Double
