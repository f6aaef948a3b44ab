import Repertoire.Extent
import Repertoire.Text.Units

/-!
# Sets of code points that remember withdrawals

A `CodeSet` is a finite set of integers, meant as code points, together with the integers that were
members once and have been removed since. What was withdrawn plays no part in membership, size,
algebra or comparison; it shows only in `record`, which lists everything ever held with a flag.
The two parts are disjoint, so no integer has two flags.

Sets made from other sets, by copying or by the algebra, start with nothing withdrawn.
-/

namespace Repertoire

/-- A set of code points, with the ones that were removed from it. -/
structure CodeSet where
  members : Extent
  withdrawn : Extent
  apart : members ∩ withdrawn = ∅
  deriving DecidableEq

namespace CodeSet

/-- The set of the members of an extent, with nothing withdrawn. -/
def ofExtent (members : Extent) : CodeSet where
  members := members
  withdrawn := ∅
  apart := Extent.ext_contains fun x => by simp

/-- The set that never held anything. -/
def empty : CodeSet := ofExtent ∅

instance : Inhabited CodeSet := ⟨empty⟩

def ofList (points : List Int) : CodeSet := ofExtent (Extent.ofList points)

/-- The set of all integers that a range list mentions. -/
def ofItems (items : RangeList) : CodeSet := ofExtent (Extent.ofItems items)

/-- The set of the code points of a text, surrogate pairs merged. -/
def ofText (t : Text) : CodeSet := ofList t.decode

/-- Takes in integers. One that had been withdrawn is a member again. -/
def add (s : CodeSet) (points : List Int) : CodeSet where
  members := s.members ∪ Extent.ofList points
  withdrawn := s.withdrawn \ Extent.ofList points
  apart := Extent.ext_contains fun x => by
    have := congrArg (·.contains x) s.apart
    simp at this ⊢
    grind

/-- Withdraws integers. One that is no member is left alone. -/
def remove (s : CodeSet) (points : List Int) : CodeSet where
  members := s.members \ Extent.ofList points
  withdrawn := s.withdrawn ∪ (s.members ∩ Extent.ofList points)
  apart := Extent.ext_contains fun x => by
    have := congrArg (·.contains x) s.apart
    simp at this ⊢
    grind

def contains (s : CodeSet) (x : Int) : Bool := s.members.contains x

def toList (s : CodeSet) : List Int := s.members.toList

def size (s : CodeSet) : Nat := s.members.size

def isEmpty (s : CodeSet) : Bool := s.members.isEmpty

/-- Everything the set has held since it was made, in ascending order; the flag is true for what is
a member now and false for what has been withdrawn. -/
def record (s : CodeSet) : List (Int × Bool) :=
  (s.members.toList.map fun x => (x, true)).merge (s.withdrawn.toList.map fun x => (x, false))
    fun a b => a.1 ≤ b.1

/-- The same members, and nothing withdrawn. -/
def copy (s : CodeSet) : CodeSet := ofExtent s.members

def union (s t : CodeSet) : CodeSet := ofExtent (s.members ∪ t.members)

def inter (s t : CodeSet) : CodeSet := ofExtent (s.members ∩ t.members)

def diff (s t : CodeSet) : CodeSet := ofExtent (s.members \ t.members)

def subset (s t : CodeSet) : Bool := s.members.subset t.members

def equals (s t : CodeSet) : Bool := s.members == t.members

/-! ## Membership -/

@[simp] theorem contains_ofExtent (e : Extent) (x : Int) :
    (ofExtent e).contains x = e.contains x := rfl

@[simp] theorem contains_copy (s : CodeSet) (x : Int) : s.copy.contains x = s.contains x := rfl

@[simp] theorem contains_union (s t : CodeSet) (x : Int) :
    (s.union t).contains x = (s.contains x || t.contains x) := Extent.contains_union ..

@[simp] theorem contains_inter (s t : CodeSet) (x : Int) :
    (s.inter t).contains x = (s.contains x && t.contains x) := Extent.contains_inter ..

@[simp] theorem contains_diff (s t : CodeSet) (x : Int) :
    (s.diff t).contains x = (s.contains x && !t.contains x) := Extent.contains_diff ..

theorem contains_add (s : CodeSet) (points : List Int) (x : Int) :
    (s.add points).contains x = true ↔ s.contains x = true ∨ x ∈ points := by
  show (s.members ∪ Extent.ofList points).contains x = true ↔ _
  rw [Extent.contains_union, Bool.or_eq_true, Extent.contains_ofList]
  rfl

theorem contains_remove (s : CodeSet) (points : List Int) (x : Int) :
    (s.remove points).contains x = true ↔ s.contains x = true ∧ x ∉ points := by
  show (s.members \ Extent.ofList points).contains x = true ↔ _
  rw [Extent.contains_diff, Bool.and_eq_true, Bool.not_eq_true', ← Extent.contains_ofList,
    Bool.not_eq_true]
  rfl

@[simp] theorem mem_toList (s : CodeSet) (x : Int) : x ∈ s.toList ↔ s.contains x = true :=
  Extent.mem_toList s.members x

end CodeSet

end Repertoire
