/-!
# Range lists

A range list mixes single code points with inclusive pairs `[first, last]`. Expanding writes out
every code point that is mentioned, in the order of mention. Compressing goes the other way: it
cuts a list into runs of consecutive integers and writes a run as a pair once it holds three, as
a pair in place of two neighbours saves nothing.
-/

namespace Repertoire

inductive Item (α : Type) where
  | single (value : α)
  | pair (first last : α)
  deriving DecidableEq, Repr

abbrev RangeList := List (Item Int)

/-- The integers from `first` to `last`, none if `last` is smaller. -/
def interval (first last : Int) : List Int :=
  (List.range (last - first + 1).toNat).map fun i : Nat => first + i

namespace Item

/-- The two ends of an item; a single value is both. -/
def ends {α : Type} : Item α → α × α
  | single a => (a, a)
  | pair first last => (first, last)

/-- The item with both ends passed through `f`, unless `f` refuses one of them. -/
def traverse? {α β : Type} (f : α → Option β) : Item α → Option (Item β)
  | single a => (f a).map single
  | pair first last => do return pair (← f first) (← f last)

/-- Every integer that an item mentions, in order. -/
def points : Item Int → List Int
  | single a => [a]
  | pair first last => interval first last

end Item

namespace RangeList

/-- Every integer that a range list mentions, in the order of mention; repetitions stay. -/
def expand (items : RangeList) : List Int :=
  items.flatMap Item.points

/-- The items of one run of consecutive integers: a pair from three on, singles below. -/
def ofRun : List Int → RangeList
  | a :: b :: c :: rest => [.pair a ((b :: c :: rest).getLast (by simp))]
  | run => run.map .single

/-- The range list of integers in their given order, a run ending where the next integer is not
the successor of the last. -/
def compress (points : List Int) : RangeList :=
  (points.splitBy fun a b => b == a + 1).flatMap ofRun

end RangeList

/-! ## Intervals -/

theorem mem_interval {first last x : Int} :
    x ∈ interval first last ↔ first ≤ x ∧ x ≤ last := by
  simp only [interval, List.mem_map, List.mem_range]
  constructor
  · rintro ⟨i, hi, rfl⟩
    omega
  · rintro ⟨h₁, h₂⟩
    exact ⟨(x - first).toNat, by omega, by omega⟩

theorem length_interval (first last : Int) :
    (interval first last).length = (last - first + 1).toNat := by
  simp [interval]

theorem interval_ascending (first last : Int) :
    (interval first last).Pairwise (· < ·) := by
  simp only [interval, List.pairwise_map]
  exact List.pairwise_lt_range.imp fun h => by omega

end Repertoire
