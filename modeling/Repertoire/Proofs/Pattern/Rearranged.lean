import Repertoire.Proofs.Pattern.Groups
import Repertoire.Proofs.Pattern.Signs

/-!
# The order in which integers are given

A pattern is made from integers in the order in which they are given, and this order shows: the
groups stand in the order in which their high surrogates are first seen. Nothing else of it shows.
Which low surrogates go with a high one, and which high ones go together, is the same in any order
(`gatherSets_perm`), through both gatherings. So the same integers in another order, or given more
than once, have the same alternatives in perhaps another order; and the class of the single units
stays in front (`ofPoints_rearranged`).
-/

namespace Repertoire.Pattern

variable {points points' : List Int} (h : ∀ c, c ∈ points ↔ c ∈ points')

include h

theorem eq_nil_congr : points = [] ↔ points' = [] := by
  simp only [List.eq_nil_iff_forall_not_mem, h]

theorem bmp_congr : (partition points).bmp = (partition points').bmp :=
  Extent.ext_contains fun u => by rw [Bool.eq_iff_iff, contains_bmp, contains_bmp, h]

theorem byHigh_perm : (partition points).byHigh.Perm (partition points').byHigh := by
  rw [byHigh_partition, byHigh_partition]
  refine gatherSets_perm fun ⟨high, low⟩ => ?_
  simp only [mem_pairsOf, h]

theorem groupsOf_perm : (groupsOf points).Perm (groupsOf points') := by
  refine gatherSets_perm fun entry => ?_
  simp only [List.mem_map, (byHigh_perm h).mem_iff]

theorem rows_perm : (rows points).Perm (rows points') := by
  rw [rows, rows, bmp_congr h]
  exact ((groupsOf_perm h).map _).append_left _

theorem alternatives_perm :
    (alternatives (partition points)).Perm (alternatives (partition points')) := by
  rw [alternatives_eq, alternatives_eq]
  exact ((rows_perm h).map _).map _

omit h

/-- The alternative of the single units stands first. -/
theorem head?_splitOn_ofPoints {u : Int} (hu : u ∈ points) (hle : u ≤ 0xFFFF) :
    ((ofPoints points).splitOn ('|' : CodePoint)).head?
      = some (classOf (partition points).bmp) := by
  have hsome : ¬ (partition points).bmp.isEmpty = true := by
    intro hempty
    have hnone := (Extent.isEmpty_iff _).1 hempty u
    rw [contains_bmp.2 ⟨hu, hle⟩] at hnone
    cases hnone
  rw [splitOn_ofPoints (List.ne_nil_of_mem hu), alternatives_partition, if_neg hsome]
  rfl

/-- **The order of the integers shows in the order of the alternatives only.** Take two lists of
integers with the same elements, in any order and with repetitions. Cut at the bars, their patterns
have the same alternatives, perhaps in another order. If an element is a single unit, both begin
with the class of all elements that are. -/
theorem ofPoints_rearranged {points points' : List Int} (h : ∀ c, c ∈ points ↔ c ∈ points') :
    ((ofPoints points).splitOn ('|' : CodePoint)).Perm
        ((ofPoints points').splitOn ('|' : CodePoint))
      ∧ ((∃ u ∈ points, u ≤ 0xFFFF) →
          ∃ units : Extent, (∀ u, units.contains u = true ↔ u ∈ points ∧ u ≤ 0xFFFF)
            ∧ ((ofPoints points).splitOn ('|' : CodePoint)).head? = some (classOf units)
            ∧ ((ofPoints points').splitOn ('|' : CodePoint)).head? = some (classOf units)) := by
  constructor
  · by_cases hnil : points = []
    · rw [hnil, (eq_nil_congr h).1 hnil]
    · rw [splitOn_ofPoints hnil, splitOn_ofPoints (mt (eq_nil_congr h).2 hnil)]
      exact alternatives_perm h
  · rintro ⟨u, hu, hle⟩
    refine ⟨(partition points).bmp, fun u => contains_bmp, head?_splitOn_ofPoints hu hle, ?_⟩
    rw [bmp_congr h]
    exact head?_splitOn_ofPoints ((h u).1 hu) hle

/-- The second group is seen first in one of the lists, and a member is repeated. -/
theorem ofPoints_rearranged_repeated :
    (∀ c, c ∈ ([0x10401, 0x41, 0x10000, 0x10401] : List Int) ↔
        c ∈ ([0x41, 0x10000, 0x10401] : List Int))
      ∧ ((ofPoints [0x10401, 0x41, 0x10000, 0x10401]).splitOn ('|' : CodePoint)).Perm
          ((ofPoints [0x41, 0x10000, 0x10401]).splitOn ('|' : CodePoint))
      ∧ ofPoints [0x10401, 0x41, 0x10000, 0x10401] ≠ ofPoints [0x41, 0x10000, 0x10401] := by
  have hsame : ∀ c, c ∈ ([0x10401, 0x41, 0x10000, 0x10401] : List Int) ↔
      c ∈ ([0x41, 0x10000, 0x10401] : List Int) := by
    intro c
    simp only [List.mem_cons, List.not_mem_nil, or_false]
    tauto
  exact ⟨hsame, (ofPoints_rearranged hsame).1, by decide +kernel⟩

end Repertoire.Pattern
