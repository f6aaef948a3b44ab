import Repertoire.Proofs.Pattern.Partition
import Repertoire.Proofs.Surrogate

/-!
# The language of a pattern

The pattern of a set of code points is read as a fragment that accepts the units of the members and
no other units. The sets behind the alternatives are kept apart from their text: an alternative is a
row of sets of units, one for each unit that it takes, and both the text and the fragment are made
from these rows. What such a row accepts is said by the sets alone, and the two gatherings say which
sets they are.
-/

namespace Repertoire.Pattern

/-! ## Proper fragments -/

/-- A unit is one of sixteen bits. A class has elements, all of them such units, and no range in it
runs backwards. -/
def Atom.IsProper : Atom → Prop
  | .unit u => 0 ≤ u ∧ u ≤ 0xFFFF
  | .cls items => IsClass items ∧ InUnits items

/-- No alternative is without atoms, and all atoms are proper. -/
def Fragment.IsProper (fragment : Fragment) : Prop :=
  ∀ alternative ∈ fragment, alternative ≠ [] ∧ ∀ atom ∈ alternative, atom.IsProper

theorem isProper_ofItems {items : RangeList} (hclass : IsClass items) (hunits : InUnits items) :
    (Atom.ofItems items).IsProper := by
  unfold Atom.ofItems
  split
  · exact (hunits _ List.mem_cons_self).1
  · exact ⟨hclass, hunits⟩

/-! ## Rows of sets -/

/-- The alternatives of a pattern as rows of sets of units. -/
def rows (points : List Int) : List (List Extent) :=
  (if (partition points).bmp.isEmpty then [] else [[(partition points).bmp]]) ++
    (groupByLowSets (partition points).byHigh).map fun group => [group.2, group.1]

def fragmentOf (points : List Int) : Fragment :=
  (rows points).map (List.map atomOf)

theorem mem_rows {points : List Int} {row : List Extent} : row ∈ rows points ↔
    ((partition points).bmp.isEmpty = false ∧ row = [(partition points).bmp])
    ∨ ∃ lows highs, (lows, highs) ∈ groupByLowSets (partition points).byHigh
        ∧ row = [highs, lows] := by
  rw [rows, List.mem_append]
  refine or_congr ?_ ?_
  · cases (partition points).bmp.isEmpty <;> simp
  · constructor
    · intro h
      obtain ⟨⟨lows, highs⟩, hgroup, rfl⟩ := List.mem_map.1 h
      exact ⟨lows, highs, hgroup, rfl⟩
    · rintro ⟨lows, highs, hgroup, rfl⟩
      exact List.mem_map.2 ⟨_, hgroup, rfl⟩

theorem accepts_alternative : ∀ {alternative : List RangeList} {us : List Int},
    Alternative.accepts (alternative.map Atom.ofItems) us = true ↔
      List.Forall₂ (fun items u => ∃ item ∈ items, item.ends.1 ≤ u ∧ u ≤ item.ends.2)
        alternative us
  | [], [] => by simp [Alternative.accepts]
  | [], _ :: _ => by simp [Alternative.accepts]
  | _ :: _, [] => by simp [Alternative.accepts]
  | items :: alternative, u :: us => by
      rw [List.map_cons, Alternative.accepts, Bool.and_eq_true, accepts_ofItems,
        accepts_alternative, List.forall₂_cons]

theorem accepts_row {row : List Extent} {us : List Int} :
    Alternative.accepts (row.map atomOf) us = true ↔
      List.Forall₂ (fun s u => s.contains u = true) row us := by
  have hatoms : row.map atomOf = (row.map itemsOf).map Atom.ofItems := by
    rw [List.map_map]
    rfl
  rw [hatoms, accepts_alternative, List.forall₂_map_left_iff]
  simp only [itemsOf, RangeList.mem_compress, Extent.mem_toList]

/-! ## What the fragment accepts -/

theorem accepts_fragmentOf {points : List Int} {us : List Int} :
    (fragmentOf points).accepts us = true ↔
      ∃ row ∈ rows points, List.Forall₂ (fun s u => s.contains u = true) row us := by
  simp only [Fragment.accepts, fragmentOf, List.any_map, List.any_eq_true, Function.comp,
    accepts_row]

theorem exists_utf16_of_row {points : List Int} {row : List Extent} (hrow : row ∈ rows points)
    {us : List Int} (h : List.Forall₂ (fun s u => s.contains u = true) row us) :
    ∃ c ∈ points, us = utf16 c := by
  rcases mem_rows.1 hrow with ⟨-, rfl⟩ | ⟨lows, highs, hgroup, rfl⟩
  · obtain ⟨u, _, hu, hnil, rfl⟩ := List.forall₂_cons_left_iff.1 h
    obtain rfl := List.forall₂_nil_left_iff.1 hnil
    obtain ⟨hmem, hle⟩ := contains_bmp.1 hu
    exact ⟨u, hmem, (utf16_of_le hle).symm⟩
  · obtain ⟨u, _, hu, hrest, rfl⟩ := List.forall₂_cons_left_iff.1 h
    obtain ⟨v, _, hv, hnil, rfl⟩ := List.forall₂_cons_left_iff.1 hrest
    obtain rfl := List.forall₂_nil_left_iff.1 hnil
    have hentry := (mem_highs_iff hgroup).1 hu
    obtain ⟨c, hmem, habove, rfl, rfl⟩ := (mem_lows_iff hentry).1 hv
    exact ⟨c, hmem, (utf16_of_lt habove).symm⟩

theorem bmp_mem_rows {points : List Int} {u : Int} (hu : (partition points).bmp.contains u = true) :
    [(partition points).bmp] ∈ rows points := by
  have hsome : (partition points).bmp.isEmpty = false := by
    rw [← Bool.not_eq_true, Extent.isEmpty_iff]
    intro hnone
    rw [hnone u] at hu
    cases hu
  exact mem_rows.2 (Or.inl ⟨hsome, rfl⟩)

theorem exists_row_of_mem {points : List Int} {c : Int} (hc : c ∈ points) :
    ∃ row ∈ rows points, List.Forall₂ (fun s u => s.contains u = true) row (utf16 c) := by
  by_cases hle : c ≤ 0xFFFF
  · have hbmp : (partition points).bmp.contains c = true := contains_bmp.2 ⟨hc, hle⟩
    refine ⟨_, bmp_mem_rows hbmp, ?_⟩
    rw [utf16_of_le hle]
    exact .cons hbmp .nil
  · obtain ⟨lows, hentry, hlow⟩ := exists_lows hc (by omega)
    obtain ⟨highs, hgroup, hhigh⟩ := exists_highs hentry
    refine ⟨_, mem_rows.2 (Or.inr ⟨lows, highs, hgroup, rfl⟩), ?_⟩
    rw [utf16_of_lt (by omega)]
    exact .cons hhigh (.cons hlow .nil)

/-- The fragment accepts the units of the members and nothing else. -/
theorem accepts_fragmentOf_iff {points : List Int} {us : List Int} :
    (fragmentOf points).accepts us = true ↔ ∃ c ∈ points, us = utf16 c := by
  rw [accepts_fragmentOf]
  constructor
  · rintro ⟨row, hrow, h⟩
    exact exists_utf16_of_row hrow h
  · rintro ⟨c, hc, rfl⟩
    exact exists_row_of_mem hc

/-! ## Reading the text -/

/-- In a row of a pattern no set is empty. -/
theorem inhabited_of_row {points : List Int} {row : List Extent} (hrow : row ∈ rows points)
    {s : Extent} (hs : s ∈ row) : ∃ u, s.contains u = true := by
  rcases mem_rows.1 hrow with ⟨hsome, rfl⟩ | ⟨lows, highs, hgroup, rfl⟩
  · obtain rfl := List.mem_singleton.1 hs
    by_contra hnone
    rw [← Bool.not_eq_true, Extent.isEmpty_iff] at hsome
    exact hsome fun u => by simpa using fun hu => hnone ⟨u, hu⟩
  · obtain ⟨high, hhigh⟩ := inhabited_gatherSets hgroup
    rcases List.mem_cons.1 hs with rfl | hs
    · exact ⟨high, hhigh⟩
    · obtain rfl := List.mem_singleton.1 hs
      exact inhabited_gatherSets ((mem_highs_iff hgroup).1 hhigh)

/-- In a row of the pattern of code points every set holds units. -/
theorem ofUnits_of_row {points : List Int} (hbounds : ∀ c ∈ points, 0 ≤ c ∧ c ≤ 0x10FFFF)
    {row : List Extent} (hrow : row ∈ rows points) {s : Extent} (hs : s ∈ row) : OfUnits s := by
  rcases mem_rows.1 hrow with ⟨-, rfl⟩ | ⟨lows, highs, hgroup, rfl⟩
  · obtain rfl := List.mem_singleton.1 hs
    exact ofUnits_bmp fun c hc => (hbounds c hc).1
  · rcases List.mem_cons.1 hs with rfl | hs
    · intro u hu
      obtain ⟨c, hmem, habove, rfl⟩ := exists_mem_of_highs hgroup hu
      have hhigh := Surrogate.high_bounds habove (hbounds c hmem).2
      omega
    · obtain rfl := List.mem_singleton.1 hs
      exact ofUnits_lows_of_group hgroup

theorem alternatives_eq (points : List Int) :
    alternatives (partition points)
      = ((rows points).map (List.map itemsOf)).map alternativeText := by
  have hlows : ∀ entry ∈ (partition points).byHigh, OfUnits entry.2 := by
    rintro ⟨high, lows⟩ hentry
    exact ofUnits_lows hentry
  rw [alternatives_partition, groupByLows_eq hlows, rows, List.map_append, List.map_append]
  refine congr (congrArg _ ?_) ?_
  · cases (partition points).bmp.isEmpty <;> simp [alternativeText, classOf, itemsOf]
  · rw [List.map_map, List.map_map, List.map_map]
    refine List.map_congr_left fun group _ => ?_
    simp [alternativeText, classOf, itemsOf]

theorem read?_ofPoints {points : List Int} (hne : points ≠ [])
    (hbounds : ∀ c ∈ points, 0 ≤ c ∧ c ≤ 0x10FFFF) :
    Fragment.read? (ofPoints points) = some (fragmentOf points) := by
  obtain ⟨c, hc⟩ := List.exists_mem_of_ne_nil _ hne
  obtain ⟨row, hrow, -⟩ := exists_row_of_mem hc
  rw [ofPoints, alternatives_eq, Fragment.read?_row]
  · rw [List.map_map, fragmentOf]
    refine congrArg _ (List.map_congr_left fun row _ => ?_)
    rw [Function.comp, List.map_map]
    rfl
  · exact List.ne_nil_of_mem (List.mem_map_of_mem hrow)
  · intro hnil
    obtain ⟨row, hrow, heq⟩ := List.mem_map.1 hnil
    rcases mem_rows.1 hrow with ⟨-, rfl⟩ | ⟨lows, highs, -, rfl⟩ <;> cases heq
  · intro alternative halt items hitems
    obtain ⟨row, hrow, rfl⟩ := List.mem_map.1 halt
    obtain ⟨s, hs, rfl⟩ := List.mem_map.1 hitems
    obtain ⟨u, hu⟩ := inhabited_of_row hrow hs
    exact isClass_itemsOf hu
  · intro alternative halt items hitems
    obtain ⟨row, hrow, rfl⟩ := List.mem_map.1 halt
    obtain ⟨s, hs, rfl⟩ := List.mem_map.1 hitems
    exact inUnits_itemsOf (ofUnits_of_row hbounds hrow hs)

/-- The alternatives of a text; the empty text has none. -/
def Fragment.alternatives? (t : Text) : Option Fragment :=
  if t.isEmpty then some [] else Fragment.read? t

theorem alternatives?_ofPoints {points : List Int} (hbounds : ∀ c ∈ points, 0 ≤ c ∧ c ≤ 0x10FFFF) :
    Fragment.alternatives? (ofPoints points) = some (fragmentOf points) := by
  by_cases hne : points = []
  · subst hne
    decide +kernel
  · have hread := read?_ofPoints hne hbounds
    have hsome : (ofPoints points).isEmpty = false := by
      rw [List.isEmpty_eq_false_iff]
      intro hnil
      rw [hnil] at hread
      cases hread
    rw [Fragment.alternatives?, hsome]
    exact hread

theorem isProper_fragmentOf {points : List Int} (hbounds : ∀ c ∈ points, 0 ≤ c ∧ c ≤ 0x10FFFF) :
    (fragmentOf points).IsProper := by
  intro alternative halt
  obtain ⟨row, hrow, rfl⟩ := List.mem_map.1 halt
  constructor
  · rcases mem_rows.1 hrow with ⟨-, rfl⟩ | ⟨lows, highs, -, rfl⟩ <;> exact List.cons_ne_nil _ _
  · intro atom hatom
    obtain ⟨s, hs, rfl⟩ := List.mem_map.1 hatom
    obtain ⟨u, hu⟩ := inhabited_of_row hrow hs
    exact isProper_ofItems (isClass_itemsOf hu) (inUnits_itemsOf (ofUnits_of_row hbounds hrow hs))

/-- **The pattern matches exactly the members.** Whatever code points a set holds, surrogates among
them, and in whatever order they are given: the text of the pattern is read as a proper fragment,
and the units that the fragment accepts are the units of the members. -/
theorem ofPoints_accepts_exactly (points : List Int) (hne : points ≠ [])
    (hbounds : ∀ c ∈ points, 0 ≤ c ∧ c ≤ 0x10FFFF) :
    ∃ fragment, Fragment.read? (ofPoints points) = some fragment
      ∧ fragment.IsProper
      ∧ ∀ us, fragment.accepts us = true ↔ ∃ c ∈ points, us = utf16 c :=
  ⟨fragmentOf points, read?_ofPoints hne hbounds, isProper_fragmentOf hbounds,
    fun _ => accepts_fragmentOf_iff⟩

/-- A hyphen, both kinds of surrogates, and code points on either side of `0xFFFF`. -/
theorem ofPoints_accepts_exactly_mixed :
    ([0x2D, 0xD800, 0xDC00, 0xFFFF, 0x10000, 0x10FFFF] : List Int) ≠ []
      ∧ (∀ c ∈ ([0x2D, 0xD800, 0xDC00, 0xFFFF, 0x10000, 0x10FFFF] : List Int),
          0 ≤ c ∧ c ≤ 0x10FFFF)
      ∧ ∃ fragment,
          Fragment.read? (ofPoints [0x2D, 0xD800, 0xDC00, 0xFFFF, 0x10000, 0x10FFFF])
            = some fragment
          ∧ fragment.IsProper
          ∧ ∀ us, fragment.accepts us = true ↔
              ∃ c ∈ ([0x2D, 0xD800, 0xDC00, 0xFFFF, 0x10000, 0x10FFFF] : List Int),
                us = utf16 c :=
  ⟨by decide, by decide, ofPoints_accepts_exactly _ (by decide) (by decide)⟩

end Repertoire.Pattern
