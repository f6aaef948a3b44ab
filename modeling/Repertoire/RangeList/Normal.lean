import Repertoire.RangeList

/-!
# Normal range lists

A range list is normal if compressing leaves it as it is: its pairs hold at least three integers,
no item goes on where the one before it ends unless both are single, and no three singles in a row
could have been a pair. Among all range lists of a set the normal one in ascending order is the
shortest to write, where a single code point counts one and a pair counts two.
-/

namespace Repertoire

def Item.writtenSize {α : Type} : Item α → Nat
  | single _ => 1
  | pair _ _ => 2

namespace RangeList

def writtenSize (items : RangeList) : Nat :=
  items.foldr (fun item n => item.writtenSize + n) 0

/-- Is nothing left to compress? -/
structure IsNormal (items : RangeList) : Prop where
  /-- A pair holds at least three integers. -/
  long : ∀ first last, Item.pair first last ∈ items → first + 2 ≤ last
  /-- Where an item goes on after the one before it, both are single. -/
  touching : ∀ a b, [a, b] <:+: items → b.ends.1 = a.ends.2 + 1 →
    (∃ x, a = .single x) ∧ ∃ y, b = .single y
  /-- No three successive singles hold successive integers. -/
  short : ∀ x : Int, ¬ [.single x, .single (x + 1), .single (x + 2)] <:+: items

end RangeList

end Repertoire
