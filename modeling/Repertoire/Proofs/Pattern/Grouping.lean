import Repertoire.Proofs.Pattern.Groups
import Repertoire.Proofs.Pattern.RangeString

/-!
# Grouping goes by sets

High surrogates are grouped by a text, the class of the low surrogates that go with them. A class of
units can be read in one way only, so the text decides as the set would: two sets of units have the
same range string if they are the same set (`rangeString_eq_iff_perm`), and two high surrogates are in
one group if they go with the same low ones. A group stands where the first of its high surrogates
stands (`groups_inOrder`). All of this is `groupByLows_goes_by_sets`, for any high surrogates and any
sets of units.
-/

namespace Repertoire.Pattern

/-! ## The text of a set -/

section Text

variable {points points' : List Int}

theorem mergeSort_eq_toList (h : points.Nodup) :
    points.mergeSort (fun a b => a ≤ b) = (Extent.ofList points).toList := by
  refine List.Pairwise.eq_of_mem_iff (mergeSort_ascending h) (Extent.toList_ascending _) fun x => ?_
  rw [List.mem_mergeSort, Extent.mem_toList, Extent.contains_ofList]

theorem rangeString_of_nodup (h : points.Nodup) :
    rangeString points = classOf (Extent.ofList points) := by
  rw [rangeString, mergeSort_eq_toList h, classOf]

theorem ofUnits_ofList (h : ∀ u ∈ points, 0 ≤ u ∧ u ≤ 0xFFFF) : OfUnits (Extent.ofList points) :=
  fun u hu => h u ((Extent.contains_ofList points u).1 hu)

/-- The range string of a set of units says which set it is, in whatever order it is given. -/
theorem rangeString_eq_iff_perm (hnodup : points.Nodup) (hnodup' : points'.Nodup)
    (hunits : ∀ u ∈ points, 0 ≤ u ∧ u ≤ 0xFFFF) (hunits' : ∀ u ∈ points', 0 ≤ u ∧ u ≤ 0xFFFF) :
    rangeString points = rangeString points' ↔ points.Perm points' := by
  rw [rangeString_of_nodup hnodup, rangeString_of_nodup hnodup',
    List.perm_ext_iff_of_nodup hnodup hnodup']
  constructor
  · intro h u
    have hsame := classOf_injective (ofUnits_ofList hunits) (ofUnits_ofList hunits') h
    rw [← Extent.contains_ofList, hsame, Extent.contains_ofList]
  · intro h
    refine congrArg classOf (Extent.ext_contains fun u => ?_)
    rw [Bool.eq_iff_iff, Extent.contains_ofList, Extent.contains_ofList]
    exact h u

end Text

/-- The place at which the first high surrogate of a group stands. -/
def firstPlace (byHigh : List (Int × Extent)) (highs : Extent) : Nat :=
  (byHigh.map Prod.fst).findIdx highs.contains

/-- Are these the groups of high surrogates that go with the same low ones? -/
structure IsGrouping (byHigh : List (Int × Extent)) (groups : List (Text × Extent)) : Prop where
  /-- Two high surrogates are in one group exactly if they go with the same low ones. -/
  alike : ∀ entry ∈ byHigh, ∀ entry' ∈ byHigh,
    (∃ group ∈ groups, group.2.contains entry.1 = true ∧ group.2.contains entry'.1 = true)
      ↔ entry.2 = entry'.2
  /-- Each high surrogate is in one group, and nothing else is in any. -/
  once : ∀ high, groups.countP (fun group => group.2.contains high)
    = if high ∈ byHigh.map Prod.fst then 1 else 0
  inhabited : ∀ group ∈ groups, ∃ high, group.2.contains high = true
  /-- The groups stand in the order of their first high surrogates. -/
  inOrder : groups.Pairwise fun group group' =>
    firstPlace byHigh group.2 < firstPlace byHigh group'.2
  /-- The text of a group is the class of what goes with its high surrogates, and with no others. -/
  text : ∀ group ∈ groups, ∀ entry ∈ byHigh,
    group.2.contains entry.1 = true ↔ classOf entry.2 = group.1

section Grouping

variable {byHigh : List (Int × Extent)} (hkeys : (byHigh.map Prod.fst).Nodup)

include hkeys

theorem groups_alike {entry entry' : Int × Extent} (h : entry ∈ byHigh) (h' : entry' ∈ byHigh) :
    (∃ group ∈ groupByLowSets byHigh,
        group.2.contains entry.1 = true ∧ group.2.contains entry'.1 = true)
      ↔ entry.2 = entry'.2 := by
  obtain ⟨high, lows⟩ := entry
  obtain ⟨high', lows'⟩ := entry'
  constructor
  · rintro ⟨group, hgroup, hhigh, hhigh'⟩
    have hlows : lows = group.1 := lows_eq_of_mem hkeys h ((mem_highs_iff hgroup).1 hhigh)
    have hlows' : lows' = group.1 := lows_eq_of_mem hkeys h' ((mem_highs_iff hgroup).1 hhigh')
    exact hlows.trans hlows'.symm
  · rintro rfl
    obtain ⟨highs, hgroup, hhigh⟩ := exists_highs h
    exact ⟨_, hgroup, hhigh, (mem_highs_iff hgroup).2 h'⟩

theorem groups_once (high : Int) :
    (groupByLowSets byHigh).countP (fun group => group.2.contains high)
      = if high ∈ byHigh.map Prod.fst then 1 else 0 := by
  have hapart : (groupByLowSets byHigh).Pairwise fun group group' =>
      ¬ (group.2.contains high = true ∧ group'.2.contains high = true) := by
    refine (List.pairwise_map.1 (nodup_keys_gatherSets _)).imp_of_mem ?_
    intro group group' hgroup hgroup' hne hboth
    exact hne (lows_unique hkeys hgroup hgroup' hboth.1 hboth.2)
  have hmost := countP_le_one (p := fun group : Extent × Extent => group.2.contains high) hapart
  by_cases hmem : high ∈ byHigh.map Prod.fst
  · obtain ⟨⟨first, lows⟩, hentry, rfl⟩ := List.mem_map.1 hmem
    obtain ⟨highs, hgroup, hhigh⟩ := exists_highs hentry
    have hsome : 0 < (groupByLowSets byHigh).countP fun group => group.2.contains first :=
      List.countP_pos_iff.2 ⟨_, hgroup, hhigh⟩
    rw [if_pos hmem]
    exact Nat.le_antisymm hmost hsome
  · rw [if_neg hmem]
    refine List.countP_eq_zero.2 fun group hgroup hhigh => hmem ?_
    exact List.mem_map.2 ⟨_, (mem_highs_iff hgroup).1 hhigh, rfl⟩

theorem groups_inOrder : (groupByLowSets byHigh).Pairwise fun group group' =>
    firstPlace byHigh group.2 < firstPlace byHigh group'.2 := by
  have hentries : (byHigh.map fun entry => (entry.2, entry.1)).Pairwise fun entry entry' =>
      (byHigh.map Prod.fst).idxOf entry.2 < (byHigh.map Prod.fst).idxOf entry'.2 := by
    have hplaces := List.pairwise_map.1 (pairwise_idxOf hkeys)
    exact List.pairwise_map.2 hplaces
  refine (pairwise_gatherSets hentries).imp_of_mem ?_
  rintro ⟨lows, highs⟩ ⟨lows', highs'⟩ hgroup hgroup' ⟨high, hhigh, hbefore⟩
  have hmem : high ∈ byHigh.map Prod.fst :=
    List.mem_map.2 ⟨_, (mem_highs_iff hgroup).1 hhigh, rfl⟩
  obtain ⟨other, hentry⟩ := exists_high_of_group hgroup'
  obtain ⟨first, hfirst, hplace⟩ := exists_idxOf_eq_findIdx hkeys
    (List.mem_map.2 ⟨_, hentry, rfl⟩) ((mem_highs_iff hgroup').2 hentry)
  calc firstPlace byHigh highs ≤ (byHigh.map Prod.fst).idxOf high := findIdx_le_idxOf hmem hhigh
    _ < (byHigh.map Prod.fst).idxOf first := hbefore first hfirst
    _ = firstPlace byHigh highs' := hplace

variable (hunits : ∀ entry ∈ byHigh, OfUnits entry.2)

include hunits

theorem groups_text {group : Extent × Extent} (hgroup : group ∈ groupByLowSets byHigh)
    {entry : Int × Extent} (hentry : entry ∈ byHigh) :
    group.2.contains entry.1 = true ↔ classOf entry.2 = classOf group.1 := by
  rw [mem_highs_iff hgroup]
  constructor
  · intro hmem
    rw [lows_eq_of_mem hkeys hentry hmem]
  · intro hclass
    obtain ⟨other, hother⟩ := exists_high_of_group hgroup
    have hlows : entry.2 = group.1 := classOf_injective (hunits _ hentry) (hunits _ hother) hclass
    exact hlows ▸ hentry

theorem isGrouping_groupByLows : IsGrouping byHigh (groupByLows byHigh) := by
  rw [groupByLows_eq hunits]
  constructor
  case alike =>
    intro entry hentry entry' hentry'
    simp only [List.mem_map, exists_exists_and_eq_and]
    exact groups_alike hkeys hentry hentry'
  case once =>
    intro high
    rw [List.countP_map]
    exact groups_once hkeys high
  case inhabited =>
    refine List.forall_mem_map.2 fun group hgroup => ?_
    exact inhabited_gatherSets hgroup
  case inOrder => exact List.pairwise_map.2 (groups_inOrder hkeys)
  case text =>
    refine List.forall_mem_map.2 fun group hgroup entry hentry => ?_
    exact groups_text hkeys hunits hgroup hentry

end Grouping

/-- **Grouping by the text of a class is grouping by the set.** Take different high surrogates, each
with a set of units; taking integers apart gives such sets (`nodup_byHigh`, `ofUnits_lows`). They are
grouped by these sets, the groups in the order of their first high surrogates. The reason is that the
range string of a set of units tells which set it is. -/
theorem groupByLows_goes_by_sets :
    (∀ byHigh : List (Int × Extent), (byHigh.map Prod.fst).Nodup →
        (∀ entry ∈ byHigh, OfUnits entry.2) → IsGrouping byHigh (groupByLows byHigh))
      ∧ ∀ points points' : List Int, points.Nodup → points'.Nodup →
        (∀ u ∈ points, 0 ≤ u ∧ u ≤ 0xFFFF) → (∀ u ∈ points', 0 ≤ u ∧ u ≤ 0xFFFF) →
        (rangeString points = rangeString points' ↔ points.Perm points') :=
  ⟨fun _ hkeys hunits => isGrouping_groupByLows hkeys hunits,
    fun _ _ hnodup hnodup' hunits hunits' =>
      rangeString_eq_iff_perm hnodup hnodup' hunits hunits'⟩

/-- High surrogates with sets that look alike in their classes: a range, a hyphen with the same
letters, the range backwards, and nothing. -/
def lookalikes : List (Int × Extent) :=
  [(0xD802, Extent.ofList [0x41, 0x42, 0x43]), (0xD800, Extent.ofList [0x41, 0x2D, 0x43]),
    (0xD801, Extent.ofList [0x43, 0x42, 0x41]), (0xD803, Extent.ofList [])]

theorem groupByLows_goes_by_sets_lookalikes :
    (lookalikes.map Prod.fst).Nodup
      ∧ (∀ entry ∈ lookalikes, OfUnits entry.2)
      ∧ IsGrouping lookalikes (groupByLows lookalikes)
      ∧ groupByLows lookalikes
        = [(Text.ofString "[A-C]", Extent.ofList [0xD801, 0xD802]),
            (Text.ofString "[\\u002DAC]", Extent.ofList [0xD800]), ([], Extent.ofList [0xD803])]
      ∧ rangeString [0x41, 0x43, 0x42] = rangeString [0x43, 0x42, 0x41]
      ∧ rangeString [0x41, 0x43, 0x42] ≠ rangeString [0x41, 0x43, 0x2D] := by
  have hkeys : (lookalikes.map Prod.fst).Nodup := by decide
  have hunits : ∀ entry ∈ lookalikes, OfUnits entry.2 := by
    refine List.forall_mem_cons.2 ⟨ofUnits_ofList (by decide), List.forall_mem_cons.2
      ⟨ofUnits_ofList (by decide), List.forall_mem_cons.2 ⟨ofUnits_ofList (by decide), ?_⟩⟩⟩
    exact List.forall_mem_singleton.2 (ofUnits_ofList (by decide))
  refine ⟨hkeys, hunits, groupByLows_goes_by_sets.1 _ hkeys hunits, by decide +kernel, ?_, ?_⟩
  · exact (groupByLows_goes_by_sets.2 _ _ (by decide) (by decide) (by decide) (by decide)).2
      (by decide)
  · exact mt (groupByLows_goes_by_sets.2 _ _ (by decide) (by decide) (by decide) (by decide)).1
      (by decide)

end Repertoire.Pattern
