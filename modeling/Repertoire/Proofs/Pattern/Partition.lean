import Repertoire.Pattern
import Repertoire.Proofs.Gather
import Repertoire.Proofs.Pattern.CharClass
import Repertoire.Proofs.Surrogate

/-!
# Taking a set apart and grouping it

Taking integers apart files every integer above `0xFFFF` once, as a low surrogate under a high one
(`mem_lows_iff`). The groups of high surrogates go by the text of a class; as that text tells which
low surrogates are meant, they are the groups by the sets themselves (`groupByLows_eq`). So an
integer above `0xFFFF` is a member exactly if some group has both of its surrogates
(`mem_iff_exists_group`).
-/

namespace Repertoire.Pattern

/-! ## Gathering into sets -/

section Sets

variable {κ : Type} [DecidableEq κ]

/-- The set of the values of each key. -/
def gatherSets (entries : List (κ × Int)) : List (κ × Extent) :=
  (gather entries).map fun group => (group.1, Extent.ofList group.2)

variable {entries : List (κ × Int)} {key : κ} {set : Extent}

theorem contains_gatherSets (h : (key, set) ∈ gatherSets entries) {value : Int} :
    set.contains value = true ↔ (key, value) ∈ entries := by
  obtain ⟨⟨k, values⟩, hgroup, heq⟩ := List.mem_map.1 h
  obtain ⟨rfl, rfl⟩ := Prod.mk.inj heq
  rw [Extent.contains_ofList, mem_group_iff _ hgroup]

theorem exists_gatherSets {value : Int} (h : (key, value) ∈ entries) :
    ∃ set, (key, set) ∈ gatherSets entries ∧ set.contains value = true := by
  obtain ⟨values, hgroup, hvalue⟩ := (holds_gather entries).2 h
  exact ⟨Extent.ofList values, List.mem_map.2 ⟨_, hgroup, rfl⟩,
    (Extent.contains_ofList values _).2 hvalue⟩

theorem inhabited_gatherSets (h : (key, set) ∈ gatherSets entries) :
    ∃ value, set.contains value = true := by
  obtain ⟨⟨k, values⟩, hgroup, heq⟩ := List.mem_map.1 h
  obtain ⟨value, hvalue⟩ := List.exists_mem_of_ne_nil _ (inhabited_gather _ _ hgroup)
  exact ⟨value, by rw [← (Prod.mk.inj heq).2, Extent.contains_ofList]; exact hvalue⟩

theorem nodup_keys_gatherSets (entries : List (κ × Int)) :
    ((gatherSets entries).map Prod.fst).Nodup := by
  rw [gatherSets, List.map_map]
  exact nodup_keys_gather entries

theorem keys_gatherSets (entries : List (κ × Int)) :
    (gatherSets entries).map Prod.fst = (entries.map Prod.fst).eraseDups := by
  rw [gatherSets, List.map_map]
  exact keys_gather entries

/-- A key has the set of its values, if it has a value at all. -/
theorem mem_gatherSets : (key, set) ∈ gatherSets entries ↔
    (∃ value, set.contains value = true)
      ∧ ∀ value, set.contains value = true ↔ (key, value) ∈ entries := by
  constructor
  · exact fun h => ⟨inhabited_gatherSets h, fun _ => contains_gatherSets h⟩
  · rintro ⟨⟨value, hvalue⟩, hset⟩
    obtain ⟨set', hset', -⟩ := exists_gatherSets ((hset value).1 hvalue)
    have hsame : set = set' := Extent.ext_contains fun x => by
      rw [Bool.eq_iff_iff, hset, contains_gatherSets hset']
    rwa [hsame]

/-- In whatever order the entries are given, and however often, the same sets are gathered. -/
theorem gatherSets_perm {entries' : List (κ × Int)}
    (h : ∀ entry, entry ∈ entries ↔ entry ∈ entries') :
    (gatherSets entries).Perm (gatherSets entries') := by
  have hnodup : ∀ entries : List (κ × Int), (gatherSets entries).Nodup :=
    fun entries => (nodup_keys_gatherSets entries).of_map
  rw [List.perm_ext_iff_of_nodup (hnodup entries) (hnodup entries')]
  rintro ⟨key, set⟩
  simp only [mem_gatherSets, h]

/-- The sets stand in the order in which their keys were first seen. -/
theorem pairwise_gatherSets {R : κ × Int → κ × Int → Prop} (h : entries.Pairwise R) :
    (gatherSets entries).Pairwise fun group group' =>
      ∃ v, group.2.contains v = true
        ∧ ∀ v', group'.2.contains v' = true → R (group.1, v) (group'.1, v') := by
  refine List.pairwise_map.2 ((pairwise_gather h).imp ?_)
  rintro group group' ⟨v, hv, hall⟩
  simp only [Extent.contains_ofList]
  exact ⟨v, hv, hall⟩

end Sets

/-! ## No lone surrogates -/

theorem filter_not_isLone (points : List Int) : points.filter (fun c => !isLone c) = points := by
  simp

theorem lone_partition (points : List Int) : (partition points).lone = ∅ := by
  have hnone : points.filter isLone = [] := by simp
  rw [partition, hnone, Extent.ofList_nil]

/-- The lone surrogates have no alternative. -/
theorem alternatives_partition (points : List Int) : alternatives (partition points)
    = (if (partition points).bmp.isEmpty then [] else [classOf (partition points).bmp])
      ++ (groupByLows (partition points).byHigh).map fun group => classOf group.2 ++ group.1 := by
  rw [alternatives, lone_partition]
  exact List.append_nil _

/-! ## The low surrogates of a high surrogate -/

theorem contains_bmp {points : List Int} {u : Int} :
    (partition points).bmp.contains u = true ↔ u ∈ points ∧ u ≤ 0xFFFF := by
  simp only [partition, filter_not_isLone, Extent.contains_ofList, List.mem_filter,
    decide_eq_true_eq]

def pairsOf (points : List Int) : List (Int × Int) :=
  (points.filter (0xFFFF < ·)).map fun c => (Surrogate.high c, Surrogate.low c)

theorem byHigh_partition (points : List Int) :
    (partition points).byHigh = gatherSets (pairsOf points) := by
  rw [partition, filter_not_isLone]
  rfl

theorem nodup_byHigh (points : List Int) : ((partition points).byHigh.map Prod.fst).Nodup := by
  rw [byHigh_partition]
  exact nodup_keys_gatherSets (pairsOf points)

theorem mem_pairsOf {points : List Int} {high low : Int} : (high, low) ∈ pairsOf points ↔
    ∃ c ∈ points, 0xFFFF < c ∧ Surrogate.high c = high ∧ Surrogate.low c = low := by
  simp only [pairsOf, List.mem_map, List.mem_filter, decide_eq_true_eq, Prod.mk.injEq, and_assoc]

/-- Under a high surrogate stand the low surrogates that go with it. -/
theorem mem_lows_iff {points : List Int} {high : Int} {lows : Extent}
    (h : (high, lows) ∈ (partition points).byHigh) {l : Int} :
    lows.contains l = true ↔
      ∃ c ∈ points, 0xFFFF < c ∧ Surrogate.high c = high ∧ Surrogate.low c = l := by
  rw [byHigh_partition] at h
  rw [contains_gatherSets h, mem_pairsOf]

theorem inhabited_lows {points : List Int} {high : Int} {lows : Extent}
    (h : (high, lows) ∈ (partition points).byHigh) : ∃ l, lows.contains l = true := by
  rw [byHigh_partition] at h
  exact inhabited_gatherSets h

theorem exists_lows {points : List Int} {c : Int} (hc : c ∈ points) (habove : 0xFFFF < c) :
    ∃ lows, (Surrogate.high c, lows) ∈ (partition points).byHigh
      ∧ lows.contains (Surrogate.low c) = true := by
  rw [byHigh_partition]
  exact exists_gatherSets (mem_pairsOf.2 ⟨c, hc, habove, rfl, rfl⟩)

theorem ofUnits_bmp {points : List Int} (hbounds : ∀ c ∈ points, 0 ≤ c) :
    OfUnits (partition points).bmp := by
  intro u hu
  obtain ⟨hmem, hle⟩ := contains_bmp.1 hu
  exact ⟨hbounds u hmem, hle⟩

theorem lows_bounds {points : List Int} {high : Int} {lows : Extent}
    (h : (high, lows) ∈ (partition points).byHigh) {l : Int} (hl : lows.contains l = true) :
    0xDC00 ≤ l ∧ l ≤ 0xDFFF := by
  obtain ⟨c, -, -, -, rfl⟩ := (mem_lows_iff h).1 hl
  exact Surrogate.low_bounds c

theorem ofUnits_lows {points : List Int} {high : Int} {lows : Extent}
    (h : (high, lows) ∈ (partition points).byHigh) : OfUnits lows := by
  intro l hl
  have hlow := lows_bounds h hl
  omega

/-! ## Groups of high surrogates -/

/-- The high surrogates that go with the same set of low surrogates. -/
def groupByLowSets (byHigh : List (Int × Extent)) : List (Extent × Extent) :=
  gatherSets (byHigh.map fun entry => (entry.2, entry.1))

/-- Grouping by the text of a class is grouping by the set that it is the class of. -/
theorem groupByLows_eq {byHigh : List (Int × Extent)} (h : ∀ entry ∈ byHigh, OfUnits entry.2) :
    groupByLows byHigh
      = (groupByLowSets byHigh).map fun group => (classOf group.1, group.2) := by
  have hspell : gather ((byHigh.map fun entry => (entry.2, entry.1)).map fun entry =>
        (classOf entry.1, entry.2))
      = (gather (byHigh.map fun entry => (entry.2, entry.1))).map fun group =>
        (classOf group.1, group.2) := by
    refine gather_map _ ?_
    intro e he e' he' heq
    obtain ⟨entry, hentry, rfl⟩ := List.mem_map.1 he
    obtain ⟨entry', hentry', rfl⟩ := List.mem_map.1 he'
    exact classOf_injective (h entry hentry) (h entry' hentry') heq
  rw [List.map_map] at hspell
  rw [groupByLows, groupByLowSets, gatherSets, List.map_map]
  exact (congrArg _ hspell).trans (List.map_map ..)

theorem mem_highs_iff {byHigh : List (Int × Extent)} {lows highs : Extent}
    (h : (lows, highs) ∈ groupByLowSets byHigh) {high : Int} :
    highs.contains high = true ↔ (high, lows) ∈ byHigh := by
  rw [contains_gatherSets h]
  simp

theorem exists_high_of_group {byHigh : List (Int × Extent)} {lows highs : Extent}
    (h : (lows, highs) ∈ groupByLowSets byHigh) : ∃ high, (high, lows) ∈ byHigh := by
  obtain ⟨high, hhigh⟩ := inhabited_gatherSets h
  exact ⟨high, (mem_highs_iff h).1 hhigh⟩

theorem exists_highs {byHigh : List (Int × Extent)} {high : Int} {lows : Extent}
    (h : (high, lows) ∈ byHigh) :
    ∃ highs, (lows, highs) ∈ groupByLowSets byHigh ∧ highs.contains high = true :=
  exists_gatherSets (List.mem_map.2 ⟨_, h, rfl⟩)

section Unique

variable {byHigh : List (Int × Extent)} (hkeys : (byHigh.map Prod.fst).Nodup)

include hkeys

theorem lows_eq_of_mem {high : Int} {lows lows' : Extent} (h : (high, lows) ∈ byHigh)
    (h' : (high, lows') ∈ byHigh) : lows = lows' :=
  (Prod.mk.inj (List.inj_on_of_nodup_map hkeys h h' rfl)).2

/-- A high surrogate stands in one group. -/
theorem lows_unique {lows highs lows' highs' : Extent}
    (h : (lows, highs) ∈ groupByLowSets byHigh) (h' : (lows', highs') ∈ groupByLowSets byHigh)
    {high : Int} (hhigh : highs.contains high = true) (hhigh' : highs'.contains high = true) :
    lows = lows' :=
  lows_eq_of_mem hkeys ((mem_highs_iff h).1 hhigh) ((mem_highs_iff h').1 hhigh')

end Unique

/-! ## Groups and members -/

/-- The high surrogates of a group are those of members. -/
theorem exists_mem_of_highs {points : List Int} {lows highs : Extent}
    (h : (lows, highs) ∈ groupByLowSets (partition points).byHigh) {high : Int}
    (hhigh : highs.contains high = true) :
    ∃ c ∈ points, 0xFFFF < c ∧ Surrogate.high c = high := by
  have hentry := (mem_highs_iff h).1 hhigh
  obtain ⟨l, hl⟩ := inhabited_lows hentry
  obtain ⟨c, hmem, habove, hc, -⟩ := (mem_lows_iff hentry).1 hl
  exact ⟨c, hmem, habove, hc⟩

theorem lows_bounds_of_group {points : List Int} {lows highs : Extent}
    (h : (lows, highs) ∈ groupByLowSets (partition points).byHigh) {l : Int}
    (hl : lows.contains l = true) : 0xDC00 ≤ l ∧ l ≤ 0xDFFF := by
  obtain ⟨high, hentry⟩ := exists_high_of_group h
  exact lows_bounds hentry hl

theorem ofUnits_lows_of_group {points : List Int} {lows highs : Extent}
    (h : (lows, highs) ∈ groupByLowSets (partition points).byHigh) : OfUnits lows := by
  obtain ⟨high, hentry⟩ := exists_high_of_group h
  exact ofUnits_lows hentry

/-- A member above `0xFFFF` has a group for its surrogates. -/
theorem mem_iff_exists_group {points : List Int} {c : Int} (hc : 0xFFFF < c) :
    c ∈ points ↔
      ∃ lows highs, (lows, highs) ∈ groupByLowSets (partition points).byHigh
        ∧ highs.contains (Surrogate.high c) = true ∧ lows.contains (Surrogate.low c) = true := by
  constructor
  · intro hmem
    obtain ⟨lows, hentry, hlow⟩ := exists_lows hmem hc
    obtain ⟨highs, hgroup, hhigh⟩ := exists_highs hentry
    exact ⟨lows, highs, hgroup, hhigh, hlow⟩
  · rintro ⟨lows, highs, hgroup, hhigh, hlow⟩
    obtain ⟨d, hmem, -, hsame, hsame'⟩ := (mem_lows_iff ((mem_highs_iff hgroup).1 hhigh)).1 hlow
    exact Surrogate.eq_of_high_of_low hsame hsame' ▸ hmem

theorem group_unique {points : List Int} {lows highs lows' highs' : Extent}
    (h : (lows, highs) ∈ groupByLowSets (partition points).byHigh)
    (h' : (lows', highs') ∈ groupByLowSets (partition points).byHigh) {high : Int}
    (hhigh : highs.contains high = true) (hhigh' : highs'.contains high = true) :
    highs = highs' := by
  obtain rfl := lows_unique (nodup_byHigh points) h h' hhigh hhigh'
  exact Extent.ext_contains fun u => by
    rw [Bool.eq_iff_iff, mem_highs_iff h, mem_highs_iff h']

end Repertoire.Pattern
