import Mathlib.Data.Finset.Card
import Mathlib.Data.Int.Order.Basic
import Mathlib.Data.List.Sort
import Repertoire.Proofs.Pattern.Partition

/-!
# How many groups there are and how they stand

The groups of a pattern are found by two gatherings. Without these, one can say which high
surrogates occur (`highsOf`), which low ones go with one of them (`lowsUnder`), and how many
different sets of low ones there are (`lowSets`). There are as many groups (`length_groupsOf`); no
two share a high surrogate or have the same low ones (`groups_apart`). If the integers ascend, the
groups ascend by their least high surrogates (`groups_ascending`).
-/

namespace Repertoire

/-! ## Extents as finite sets -/

namespace Extent

def toFinset (s : Extent) : Finset Int :=
  s.toList.toFinset

@[simp] theorem mem_toFinset {s : Extent} {x : Int} : x ∈ s.toFinset ↔ s.contains x = true := by
  rw [toFinset, List.mem_toFinset, mem_toList]

theorem toFinset_injective : Function.Injective toFinset := by
  intro s t h
  refine ext_contains fun x => ?_
  rw [Bool.eq_iff_iff, ← mem_toFinset, ← mem_toFinset, h]

end Extent

namespace Pattern

/-! ## What is to be grouped -/

/-- The high surrogates that occur. -/
def highsOf (points : List Int) : Finset Int :=
  (points.filter (0xFFFF < ·)).toFinset.image Surrogate.high

/-- The low surrogates that go with a high one. -/
def lowsUnder (points : List Int) (high : Int) : Finset Int :=
  (points.filter (Surrogate.high · = high)).toFinset.image Surrogate.low

/-- The different sets of low surrogates that go with the high ones. -/
def lowSets (points : List Int) : Finset (Finset Int) :=
  (highsOf points).image (lowsUnder points)

variable {points : List Int}

theorem mem_highsOf {high : Int} :
    high ∈ highsOf points ↔ ∃ c ∈ points, 0xFFFF < c ∧ Surrogate.high c = high := by
  simp only [highsOf, Finset.mem_image, List.mem_toFinset, List.mem_filter, decide_eq_true_eq,
    and_assoc]

theorem mem_lowsUnder {high low : Int} :
    low ∈ lowsUnder points high ↔
      ∃ c ∈ points, Surrogate.high c = high ∧ Surrogate.low c = low := by
  simp only [lowsUnder, Finset.mem_image, List.mem_toFinset, List.mem_filter, decide_eq_true_eq,
    and_assoc]

theorem mem_lowSets {lows : Finset Int} :
    lows ∈ lowSets points ↔ ∃ high ∈ highsOf points, lowsUnder points high = lows :=
  Finset.mem_image

/-- Nothing up to `0xFFFF` has a high surrogate that occurs. -/
theorem lt_of_high_mem {c : Int} (h : Surrogate.high c ∈ highsOf points) : 0xFFFF < c := by
  obtain ⟨d, -, habove, hsame⟩ := mem_highsOf.1 h
  rw [← Surrogate.le_high_iff, ← hsame]
  exact Surrogate.le_high_iff.2 habove

/-! ## High surrogates -/

theorem high_mem_highsOf {entry : Int × Extent} (h : entry ∈ (partition points).byHigh) :
    entry.1 ∈ highsOf points := by
  obtain ⟨l, hl⟩ := inhabited_lows h
  obtain ⟨c, hc, habove, hhigh, -⟩ := (mem_lows_iff h).1 hl
  exact mem_highsOf.2 ⟨c, hc, habove, hhigh⟩

theorem mem_highsOf_iff_byHigh {high : Int} :
    high ∈ highsOf points ↔ ∃ entry ∈ (partition points).byHigh, entry.1 = high := by
  constructor
  · intro h
    obtain ⟨c, hc, habove, rfl⟩ := mem_highsOf.1 h
    obtain ⟨lows, hentry, -⟩ := exists_lows hc habove
    exact ⟨_, hentry, rfl⟩
  · rintro ⟨entry, hentry, rfl⟩
    exact high_mem_highsOf hentry

theorem toFinset_lows {entry : Int × Extent} (h : entry ∈ (partition points).byHigh) :
    entry.2.toFinset = lowsUnder points entry.1 := by
  ext l
  rw [Extent.mem_toFinset, mem_lows_iff h, mem_lowsUnder]
  refine exists_congr fun c => and_congr_right fun _ => and_iff_right_of_imp fun hc => ?_
  exact lt_of_high_mem (hc.1 ▸ high_mem_highsOf h)

theorem length_byHigh (points : List Int) :
    (partition points).byHigh.length = (highsOf points).card :=
  length_eq_card (nodup_byHigh points) fun _ => mem_highsOf_iff_byHigh

/-! ## Groups -/

/-- The groups of a pattern, each as its low surrogates and its high ones. -/
def groupsOf (points : List Int) : List (Extent × Extent) :=
  groupByLowSets (partition points).byHigh

theorem mem_lowSets_iff_group {lows : Finset Int} :
    lows ∈ lowSets points ↔ ∃ group ∈ groupsOf points, group.1.toFinset = lows := by
  rw [mem_lowSets]
  constructor
  · rintro ⟨high, hhigh, rfl⟩
    obtain ⟨⟨high, lows⟩, hentry, rfl⟩ := mem_highsOf_iff_byHigh.1 hhigh
    obtain ⟨highs, hgroup, -⟩ := exists_highs hentry
    exact ⟨_, hgroup, toFinset_lows hentry⟩
  · rintro ⟨⟨lows, highs⟩, hgroup, rfl⟩
    obtain ⟨high, hhigh⟩ := inhabited_gatherSets hgroup
    have hentry := (mem_highs_iff hgroup).1 hhigh
    exact ⟨high, high_mem_highsOf hentry, (toFinset_lows hentry).symm⟩

theorem nodup_lows_groupsOf (points : List Int) : ((groupsOf points).map Prod.fst).Nodup :=
  nodup_keys_gatherSets _

/-- There are as many groups as there are different sets of low surrogates. -/
theorem length_groupsOf (points : List Int) :
    (groupsOf points).length = (lowSets points).card := by
  refine length_eq_card (f := fun group => group.1.toFinset) ?_ fun _ => mem_lowSets_iff_group
  have hnodup := (nodup_lows_groupsOf points).map Extent.toFinset_injective
  rwa [List.map_map] at hnodup

/-- Two groups differ in their low surrogates and have no high one in common. -/
theorem groups_apart (points : List Int) :
    (groupsOf points).Pairwise fun group group' =>
      group.1 ≠ group'.1
        ∧ ∀ high, ¬ (group.2.contains high = true ∧ group'.2.contains high = true) := by
  refine (List.pairwise_map.1 (nodup_lows_groupsOf points)).imp_of_mem ?_
  rintro group group' hgroup hgroup' hne
  exact ⟨hne, fun high ⟨hhigh, hhigh'⟩ =>
    hne (lows_unique (nodup_byHigh points) hgroup hgroup' hhigh hhigh')⟩

/-! ## Ascending integers -/

section Ascending

variable (hascending : points.Pairwise (· < ·))

include hascending

theorem byHigh_ascending :
    (partition points).byHigh.Pairwise fun entry entry' => entry.1 < entry'.1 := by
  have hpairs : (pairsOf points).Pairwise fun pair pair' => pair.1 ≤ pair'.1 := by
    refine List.pairwise_map.2 ((hascending.filter _).imp fun {c d} hlt => ?_)
    exact Surrogate.high_mono (Int.le_of_lt hlt)
  have horder := pairwise_gatherSets hpairs
  rw [← byHigh_partition] at horder
  refine (horder.and (List.pairwise_map.1 (nodup_byHigh points))).imp_of_mem ?_
  rintro entry entry' - hentry' ⟨⟨_, -, hle⟩, hne⟩
  obtain ⟨l, hl⟩ := inhabited_lows hentry'
  exact lt_of_le_of_ne (hle l hl) hne

/-- The groups ascend by their least high surrogates. -/
theorem groups_ascending :
    (groupsOf points).Pairwise fun group group' =>
      ∃ high, group.2.contains high = true
        ∧ ∀ high', group'.2.contains high' = true → high < high' :=
  pairwise_gatherSets (R := fun entry entry' => entry.2 < entry'.2)
    (List.pairwise_map.2 (byHigh_ascending hascending))

theorem toList_bmp : (partition points).bmp.toList = points.filter (· ≤ 0xFFFF) := by
  refine List.Pairwise.eq_of_mem_iff (Extent.toList_ascending _) (hascending.filter _) fun u => ?_
  rw [Extent.mem_toList, contains_bmp, List.mem_filter, decide_eq_true_eq]

/-- What the line of statistics counts. -/
theorem statistics_eq :
    statistics points
      = { bmp := points.countP (· ≤ 0xFFFF)
          lone := 0
          highs := (highsOf points).card
          groups := (lowSets points).card } := by
  have hlows : ∀ entry ∈ (partition points).byHigh, OfUnits entry.2 := fun _ => ofUnits_lows
  have hgroups : (groupByLows (partition points).byHigh).length = (lowSets points).card := by
    rw [groupByLows_eq hlows, List.length_map]
    exact length_groupsOf points
  have hbmp : (partition points).bmp.size = points.countP (· ≤ 0xFFFF) := by
    rw [← Extent.length_toList, toList_bmp hascending, List.countP_eq_length_filter]
  rw [statistics, hgroups, hbmp, length_byHigh, lone_partition]
  rfl

end Ascending

end Pattern

end Repertoire
