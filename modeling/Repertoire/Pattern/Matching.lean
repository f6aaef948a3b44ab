import Repertoire.Pattern.Fragment

/-!
# Matching units against a fragment

A fragment is matched against UTF-16 units: as a whole (`accepts`), or from left to right over a
longer row of units (`scan`). The scan takes, at each place, the first alternative that matches
there and goes on behind the match, and moves on by one unit where none matches.
-/

namespace Repertoire.Pattern

def Atom.accepts : Atom → Int → Bool
  | unit v, u => u == v
  | cls items, u => items.any fun item => item.ends.1 ≤ u && u ≤ item.ends.2

/-- Does an alternative match these units and no more? -/
def Alternative.accepts : Alternative → List Int → Bool
  | [], [] => true
  | atom :: atoms, u :: us => atom.accepts u && accepts atoms us
  | _, _ => false

/-- Does an alternative match the first of these units? -/
def Alternative.startsOn (alternative : Alternative) (us : List Int) : Bool :=
  alternative.accepts (us.take alternative.length)

namespace Fragment

/-- Does some alternative match these units and no more? -/
def accepts (fragment : Fragment) (us : List Int) : Bool :=
  fragment.any fun alternative => Alternative.accepts alternative us

/-- The matches in a row of units, from left to right. -/
def scan (fragment : Fragment) : List Int → List (List Int)
  | [] => []
  | u :: us =>
    match fragment.find? fun alternative => Alternative.startsOn alternative (u :: us) with
    | some alternative =>
      (u :: us).take alternative.length :: scan fragment (us.drop (alternative.length - 1))
    | none => scan fragment us
termination_by us => us.length
decreasing_by
  · simp only [List.length_drop, List.length_cons]; omega
  · simp

end Fragment

end Repertoire.Pattern
