import Repertoire.Gather
import Repertoire.Pattern.CharClass

/-!
# The pattern of a set

The pattern is a fragment of a regular expression that matches one member of a set in UTF-16 text.
It is a row of alternatives without flags, anchors or groups.

All members up to `0xFFFF` are a single unit each and share one character class. A member above is
two units, and an alternative for each would be far too many. So the low surrogates are gathered
under their high surrogate, and then the high surrogates that go with the same low ones: an
alternative is then a class of high surrogates and the class of low surrogates that may follow
each of them. The second gathering goes by the text of the class of low surrogates, which is the
text that ends up in the pattern.

A surrogate that is itself a member counts as a unit like any other. A third bucket is there for lone
surrogates, with an alternative of its own at the end, but its range holds no integer.
-/

namespace Repertoire.Pattern

/-- Is this in the range of lone surrogates? The first bound has five digits and the last one four. -/
def isLone (c : Int) : Bool :=
  0xD8000 ≤ c && c ≤ 0xDBFF

/-- The bounds are the wrong way round, so no integer is between them. -/
@[simp] theorem isLone_eq_false (c : Int) : isLone c = false := by
  rw [Bool.eq_false_iff]
  intro h
  simp only [isLone, Bool.and_eq_true, decide_eq_true_eq] at h
  omega

/-- A set taken apart for its pattern: the members up to `0xFFFF`, the lone surrogates, and for each
high surrogate of another member the low surrogates that follow it. -/
structure Partition where
  bmp : Extent
  lone : Extent
  byHigh : List (Int × Extent)

/-- Takes integers apart, the high surrogates in the order in which they are first seen. An integer
in the range of lone surrogates goes nowhere else. -/
def partition (points : List Int) : Partition :=
  let others := points.filter fun c => !isLone c
  { bmp := Extent.ofList (others.filter (· ≤ 0xFFFF))
    lone := Extent.ofList (points.filter isLone)
    byHigh :=
      (gather ((others.filter (0xFFFF < ·)).map fun c => (Surrogate.high c, Surrogate.low c))).map
        fun group => (group.1, Extent.ofList group.2) }

/-- The high surrogates that go with the same class of low surrogates, the classes in the order in
which they are first seen. -/
def groupByLows (byHigh : List (Int × Extent)) : List (Text × Extent) :=
  (gather (byHigh.map fun entry => (classOf entry.2, entry.1))).map
    fun group => (group.1, Extent.ofList group.2)

/-- The alternatives of a pattern: the class of the single units, if there is any, then one
alternative for each class of low surrogates, and the class of the lone surrogates at the end. -/
def alternatives (parts : Partition) : List Text :=
  (if parts.bmp.isEmpty then [] else [classOf parts.bmp]) ++
    ((groupByLows parts.byHigh).map fun group => classOf group.2 ++ group.1) ++
    (if parts.lone.isEmpty then [] else [classOf parts.lone])

/-- The pattern of integers that are given in the order in which their high surrogates are to be
seen. -/
def ofPoints (points : List Int) : Text :=
  [('|' : CodePoint)].intercalate (alternatives (partition points))

/-! ## Under a limit

The classes of low surrogates are made one call further in than the others. As their tokens take a
single call each, it is enough that one is left, and they are given the same limit. -/

def groupByLows? (limit : Nat) (byHigh : List (Int × Extent)) : Option (List (Text × Extent)) := do
  let entries ← byHigh.mapM fun entry => do
    let lows ← classOf? limit entry.2
    return (lows, entry.1)
  return (gather entries).map fun group => (group.1, Extent.ofList group.2)

/-- The class of a set as the alternatives of a pattern, none if nothing is in the set. -/
def unitAlternatives? (limit : Nat) (s : Extent) : Option (List Text) :=
  if s.isEmpty then some [] else (classOf? limit s).map fun t => [t]

def alternatives? (limit : Nat) (parts : Partition) : Option (List Text) := do
  let groups ← groupByLows? limit parts.byHigh
  let bmp ← unitAlternatives? limit parts.bmp
  let pairs ← groups.mapM fun group => do
    let highs ← classOf? limit group.2
    return highs ++ group.1
  let lone ← unitAlternatives? limit parts.lone
  return bmp ++ pairs ++ lone

def ofPoints? (limit : Nat) (points : List Int) : Option Text :=
  (alternatives? limit (partition points)).map [('|' : CodePoint)].intercalate

/-! ## Statistics -/

/-- How many of each kind went into a pattern. -/
structure Statistics where
  bmp : Nat
  lone : Nat
  highs : Nat
  groups : Nat
  deriving DecidableEq

def statistics (points : List Int) : Statistics :=
  let parts := partition points
  { bmp := parts.bmp.size
    lone := parts.lone.size
    highs := parts.byHigh.length
    groups := (groupByLows parts.byHigh).length }

def Statistics.line (counts : Statistics) : Text :=
  Text.ofString "Pattern synthesis: " ++ Text.ofNat counts.bmp ++
    Text.ofString " BMP, " ++ Text.ofNat counts.lone ++
    Text.ofString " lone surrogates, " ++ Text.ofNat counts.highs ++
    Text.ofString " high surrogates in " ++ Text.ofNat counts.groups ++
    Text.ofString " groups.\n"

end Repertoire.Pattern
