import Repertoire.Pattern.Lexeme
import Repertoire.RangeList

/-!
# Pattern fragments

What the text of a pattern says: a row of alternatives, each a sequence of atoms, each of which
matches one unit. `Fragment.read?` takes the text apart. An alternative without atoms, a class
without elements and a range that runs backwards are not read.
-/

namespace Repertoire.Pattern

/-- What matches one unit: a unit by itself, or a class. -/
inductive Atom where
  | unit (u : Int)
  | cls (items : RangeList)
  deriving DecidableEq, Repr

/-- The atoms that a string of units has to match one by one. -/
abbrev Alternative := List Atom

abbrev Fragment := List Alternative

namespace Fragment

def prepend (atom : Atom) : Fragment → Fragment
  | [] => [[atom]]
  | alternative :: others => (atom :: alternative) :: others

mutual

/-- The alternatives that lexemes spell, the first of them perhaps without atoms. -/
def ofLexemes? : List Lexeme → Option Fragment
  | [] => some [[]]
  | .unit u :: rest => (ofLexemes? rest).map (prepend (.unit u))
  | .opening :: rest => ofClass? [] rest
  | .bar :: rest => (ofLexemes? rest).map ([] :: ·)
  | .closing :: _ => none
  | .hyphen :: _ => none

/-- The same inside the brackets of a class, of which `items` have been read, the last in front. -/
def ofClass? (items : RangeList) : List Lexeme → Option Fragment
  | .unit first :: .hyphen :: .unit last :: rest =>
    if first ≤ last then ofClass? (.pair first last :: items) rest else none
  | .unit u :: rest => ofClass? (.single u :: items) rest
  | .closing :: rest =>
    if items.isEmpty then none else (ofLexemes? rest).map (prepend (.cls items.reverse))
  | _ => none

end

def read? (t : Text) : Option Fragment := do
  let fragment ← ofLexemes? (← Lexeme.read? t)
  if fragment.any List.isEmpty then none else some fragment

end Fragment

end Repertoire.Pattern
