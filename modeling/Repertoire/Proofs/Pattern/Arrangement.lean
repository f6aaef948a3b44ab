import Mathlib.Order.Bounds.Defs
import Repertoire.Proofs.Pattern.Groups
import Repertoire.Proofs.Pattern.Language

/-!
# How the alternatives share out the members

The alternatives of a pattern are told apart by their kind: at most one takes a single unit, and each
of the others takes a high surrogate of its group and a low one. No two of them match the same units,
so the alternatives are a partition of the members (`once_fragmentOf`). Nothing is left to merge in
it, as the groups differ in their low surrogates and are no more than there must be.
-/

namespace Repertoire.Pattern

/-! ## Arrangements -/

/-- The alternatives of a pattern by their kind: the class of the single units, if there is one, and
for each group the class of its high surrogates and that of its low ones. -/
structure Arrangement where
  bmp? : Option Atom
  groups : List (Atom × Atom)

namespace Arrangement

/-- The class of the single units comes first. -/
def fragment (arrangement : Arrangement) : Fragment :=
  (arrangement.bmp?.toList.map fun units => [units]) ++
    arrangement.groups.map fun group => [group.1, group.2]

/-- Are the alternatives a partition of the integers, with nothing left to merge? -/
structure IsPartitionOf (arrangement : Arrangement) (points : List Int) : Prop where
  /-- The units of a member are matched by one alternative. -/
  once : ∀ c ∈ points,
    arrangement.fragment.countP (fun alternative => Alternative.accepts alternative (utf16 c)) = 1
  /-- An alternative matches the units of some member, and no units but those of members. -/
  members : ∀ alternative ∈ arrangement.fragment,
    (∃ c ∈ points, Alternative.accepts alternative (utf16 c) = true)
      ∧ ∀ us, Alternative.accepts alternative us = true → ∃ c ∈ points, us = utf16 c
  /-- There is a class of single units if some member is one. -/
  bmp : arrangement.bmp?.isSome = true ↔ ∃ c ∈ points, c ≤ 0xFFFF
  /-- No two groups have a high surrogate in common. -/
  apart : arrangement.groups.Pairwise fun group group' =>
    ∀ high, ¬ (group.1.accepts high = true ∧ group'.1.accepts high = true)
  /-- No two groups have the same low surrogates. -/
  different : arrangement.groups.Pairwise fun group group' =>
    ∃ low, group.2.accepts low ≠ group'.2.accepts low
  /-- There are no more groups than different sets of low surrogates. -/
  count : arrangement.groups.length = (lowSets points).card
  /-- The groups ascend by their least high surrogates. -/
  ascending : arrangement.groups.Pairwise fun group group' =>
    ∃ high high', IsLeast {u | group.1.accepts u = true} high
      ∧ IsLeast {u | group'.1.accepts u = true} high' ∧ high < high'

end Arrangement

def arrangementOf (points : List Int) : Arrangement where
  bmp? := if (partition points).bmp.isEmpty then none else some (atomOf (partition points).bmp)
  groups := (groupsOf points).map fun group => (atomOf group.2, atomOf group.1)

theorem fragment_arrangementOf (points : List Int) :
    (arrangementOf points).fragment = fragmentOf points := by
  rw [fragmentOf, rows, List.map_append, List.map_map, Arrangement.fragment, arrangementOf,
    List.map_map]
  refine congr (congrArg _ ?_) rfl
  cases (partition points).bmp.isEmpty <;> rfl

/-! ## Alternatives that share nothing -/

variable {points : List Int}

/-- No units belong to two rows: one unit is not two, and groups have different high surrogates. -/
theorem rows_apart (points : List Int) :
    (rows points).Pairwise fun row row' => ∀ us,
      ¬ (List.Forall₂ (fun s u => s.contains u = true) row us
        ∧ List.Forall₂ (fun s u => s.contains u = true) row' us) := by
  refine List.pairwise_append.2 ⟨?_, ?_, ?_⟩
  · split
    · exact List.Pairwise.nil
    · exact List.pairwise_singleton _ _
  · refine List.pairwise_map.2 ((groups_apart points).imp ?_)
    rintro group group' ⟨-, hhighs⟩ us ⟨hrow, hrow'⟩
    obtain ⟨high, _, hhigh, -, rfl⟩ := List.forall₂_cons_left_iff.1 hrow
    exact hhighs high ⟨hhigh, (List.forall₂_cons.1 hrow').1⟩
  · intro row hrow row' hrow' us ⟨hunits, hunits'⟩
    obtain ⟨group, -, rfl⟩ := List.mem_map.1 hrow'
    have hlength : row.length = 2 := hunits.length_eq.trans hunits'.length_eq.symm
    split at hrow
    · cases hrow
    · obtain rfl := List.mem_singleton.1 hrow
      cases hlength

theorem fragmentOf_apart (points : List Int) :
    (fragmentOf points).Pairwise fun alternative alternative' => ∀ us,
      ¬ (Alternative.accepts alternative us = true
        ∧ Alternative.accepts alternative' us = true) := by
  refine List.pairwise_map.2 ((rows_apart points).imp fun {row row'} hapart us hboth => ?_)
  rw [accepts_row, accepts_row] at hboth
  exact hapart us hboth

theorem once_fragmentOf {c : Int} (hc : c ∈ points) :
    (fragmentOf points).countP (fun alternative => Alternative.accepts alternative (utf16 c))
      = 1 := by
  have hsome : 0 < (fragmentOf points).countP fun alternative =>
      Alternative.accepts alternative (utf16 c) :=
    List.countP_pos_iff.2 (List.any_eq_true.1 (accepts_fragmentOf_iff.2 ⟨c, hc, rfl⟩))
  have hone := countP_le_one (p := fun alternative => Alternative.accepts alternative (utf16 c))
    ((fragmentOf_apart points).imp fun hapart => hapart (utf16 c))
  omega

/-- In a row of the pattern every set has a member, so some units belong to the row. -/
theorem exists_units_of_row {row : List Extent} (hrow : row ∈ rows points) :
    ∃ us, List.Forall₂ (fun s u => s.contains u = true) row us := by
  have hall : ∀ s ∈ row, ∃ u, s.contains u = true := fun s => inhabited_of_row hrow
  clear hrow
  induction row with
  | nil => exact ⟨[], .nil⟩
  | cons s row ih =>
      obtain ⟨⟨u, hu⟩, hrow⟩ := List.forall_mem_cons.1 hall
      obtain ⟨us, hus⟩ := ih hrow
      exact ⟨u :: us, .cons hu hus⟩

theorem members_fragmentOf {alternative : Alternative} (h : alternative ∈ fragmentOf points) :
    (∃ c ∈ points, Alternative.accepts alternative (utf16 c) = true)
      ∧ ∀ us, Alternative.accepts alternative us = true → ∃ c ∈ points, us = utf16 c := by
  obtain ⟨row, hrow, rfl⟩ := List.mem_map.1 h
  constructor
  · obtain ⟨us, hus⟩ := exists_units_of_row hrow
    obtain ⟨c, hc, rfl⟩ := exists_utf16_of_row hrow hus
    exact ⟨c, hc, accepts_row.2 hus⟩
  · exact fun us hus => exists_utf16_of_row hrow (accepts_row.1 hus)

/-! ## The arrangement of a pattern -/

theorem isSome_bmp?_arrangementOf :
    (arrangementOf points).bmp?.isSome = true ↔ ∃ c ∈ points, c ≤ 0xFFFF := by
  have hbmp : (∃ c ∈ points, c ≤ 0xFFFF) ↔ ∃ u, (partition points).bmp.contains u = true :=
    exists_congr fun c => contains_bmp.symm
  have hempty := Extent.isEmpty_iff (partition points).bmp
  rw [hbmp, arrangementOf]
  by_cases h : (partition points).bmp.isEmpty = true
  · simp only [h, if_true, Option.isSome_none, Bool.false_eq_true, hempty.1 h, exists_false]
  · simp only [if_neg h, Option.isSome_some, true_iff]
    by_contra hnone
    exact h (hempty.2 fun u => by simpa using fun hu => hnone ⟨u, hu⟩)

theorem isLeast_atomOf {s : Extent} {u : Int} (hu : s.contains u = true) :
    ∃ least, IsLeast {u | (atomOf s).accepts u = true} least := by
  simp only [accepts_atomOf]
  have hmem := (s.mem_toList u).2 hu
  have hascending := s.toList_ascending
  cases hlist : s.toList with
  | nil =>
      rw [hlist] at hmem
      cases hmem
  | cons least rest =>
      rw [hlist] at hascending
      refine ⟨least, (s.mem_toList least).1 (by simp [hlist]), fun v hv => ?_⟩
      have hv' := (s.mem_toList v).2 hv
      rw [hlist] at hv'
      rcases List.mem_cons.1 hv' with rfl | hrest
      · exact Int.le_refl _
      · exact Int.le_of_lt ((List.pairwise_cons.1 hascending).1 v hrest)

theorem isPartitionOf_arrangementOf (hascending : points.Pairwise (· < ·)) :
    (arrangementOf points).IsPartitionOf points where
  once c hc := by
    rw [fragment_arrangementOf]
    exact once_fragmentOf hc
  members alternative halternative := by
    rw [fragment_arrangementOf] at halternative
    exact members_fragmentOf halternative
  bmp := isSome_bmp?_arrangementOf
  apart := by
    refine List.pairwise_map.2 ((groups_apart points).imp fun hapart high => ?_)
    rw [accepts_atomOf, accepts_atomOf]
    exact hapart.2 high
  different := by
    refine List.pairwise_map.2 ((groups_apart points).imp fun {group group'} hapart => ?_)
    by_contra hsame
    refine hapart.1 (Extent.ext_contains fun low => ?_)
    rw [Bool.eq_iff_iff, ← accepts_atomOf, ← accepts_atomOf, ← Bool.eq_iff_iff]
    exact not_not.1 fun hne => hsame ⟨low, hne⟩
  count := by
    rw [arrangementOf, List.length_map, length_groupsOf]
  ascending := by
    refine List.pairwise_map.2 ((groups_ascending hascending).imp_of_mem ?_)
    rintro group group' - hgroup' ⟨u, hu, hbelow⟩
    obtain ⟨u', hu'⟩ := inhabited_gatherSets hgroup'
    obtain ⟨high, hhigh⟩ := isLeast_atomOf hu
    obtain ⟨high', hhigh'⟩ := isLeast_atomOf hu'
    have hle : high ≤ u := hhigh.2 (accepts_atomOf.2 hu)
    have hlt : u < high' := hbelow high' (accepts_atomOf.1 hhigh'.1)
    exact ⟨high, high', hhigh, hhigh', Int.lt_of_le_of_lt hle hlt⟩

example :
    ofPoints [0x41, 0x10000, 0x10401, 0x10800]
      = Text.ofString "A|[\\uD800\\uD802]\\uDC00|\\uD801\\uDC01" := by
  decide +kernel

end Repertoire.Pattern
