import Repertoire.Proofs.Pattern.Language
import Repertoire.Proofs.Pattern.Spelling

/-!
# Rows as they are spelled

The sets behind a pattern are known, and so are the classes that their text spells. If a set holds
units alone, its class spells itself; so only the high surrogates of a group can be spelled in
another way. The pattern is read exactly if all that is spelled runs forwards (`read?_eq_some_iff`).
It then matches a single unit that is a member (`accepts_unit`), and two units where a group reaches
the first and has the second (`accepts_pair`).

The integers here are those that the unicode-range notation has room for. A high surrogate of such
an integer may lie beyond the units, but it is spelled as two units, and the first of these is among
the least of the high surrogates.
-/

namespace Repertoire.Pattern

/-! ## What a spelled class takes -/

/-- Does an integer lie within one of the items? -/
def Spans (items : RangeList) (u : Int) : Prop :=
  ∃ item ∈ items, item.ends.1 ≤ u ∧ u ≤ item.ends.2

theorem spans_spelled_of_le {item : Item Int} (hle : item.ends.1 ≤ item.ends.2)
    (h : item.ends.2 ≤ 0xFFFF) {u : Int} :
    Spans (spelled item) u ↔ item.ends.1 ≤ u ∧ u ≤ item.ends.2 := by
  rw [Spans, spelled_of_le hle h]
  simp only [List.mem_singleton, exists_eq_left]

theorem spans_itemsOf {s : Extent} {u : Int} :
    Spans (itemsOf s) u ↔ s.contains u = true := by
  rw [Spans, itemsOf, RangeList.mem_compress, Extent.mem_toList]

/-- In an item that reaches beyond the units, only the first units of its ends are left of its high
surrogates, and these are among the least. -/
theorem le_of_spans_spelled {item : Item Int} (hle : item.ends.1 ≤ item.ends.2)
    (hbeyond : 0xFFFF < item.ends.2) (hlast : item.ends.2 ≤ 0x117BF) {u : Int} (hu : u ≤ 0xDBFF)
    (h : Spans (spelled item) u) : u ≤ 0xD805 := by
  obtain ⟨inner, hinner, hfirst, hend⟩ := h
  have hhigh : ∀ c : Int, c ≤ 0x117BF → Surrogate.high c ≤ 0xD805 :=
    fun _ hc => Surrogate.high_mono hc
  cases item with
  | single c =>
      simp only [Item.ends] at hbeyond hlast
      have hlow := Surrogate.low_bounds c
      rcases mem_spelled_single.1 hinner with ⟨-, rfl⟩ | rfl
      · exact Int.le_trans hend (hhigh c hlast)
      · simp only [Item.ends, lastUnit_of_lt hbeyond] at hfirst
        omega
  | pair first last =>
      simp only [Item.ends] at hle hbeyond hlast
      have hlow := Surrogate.low_bounds last
      rcases mem_spelled_pair.1 hinner with ⟨-, rfl⟩ | rfl | ⟨-, rfl⟩
      · exact Int.le_trans hend (hhigh first (Int.le_trans hle hlast))
      · simp only [Item.ends, firstUnit_of_lt hbeyond] at hend
        exact Int.le_trans hend (hhigh last hlast)
      · simp only [Item.ends] at hfirst
        omega

theorem spelledClasses_of_units {s : Extent} (h : OfUnits s) :
    spelledClasses (itemsOf s) = [itemsOf s] :=
  spelledClasses_of_le fun item hitem =>
    ⟨RangeList.ends_le_of_mem_compress hitem, (inUnits_itemsOf h item hitem).2.2⟩

/-- The set is spelled as one class, and this spans the unit. -/
def Reaches (s : Extent) (u : Int) : Prop :=
  ∃ items, spelledClasses (itemsOf s) = [items] ∧ Spans items u

/-- What a set reaches, it reaches by an item of its own: between brackets by any, and otherwise by
a unit. -/
theorem reaches_iff {s : Extent} {u : Int} :
    Reaches s u ↔
      ∃ item ∈ itemsOf s,
        (Bracketed (itemsOf s) ∨ item.ends.2 ≤ 0xFFFF) ∧ Spans (spelled item) u := by
  rcases single_or_bracketed (itemsOf s) with ⟨c, hc⟩ | hbrackets
  · have hnone : ¬ Bracketed (itemsOf s) := fun h => h c hc
    rw [Reaches, hc]
    by_cases hle : c ≤ 0xFFFF
    · have hspelled : spelled (.single c) = [.single c] := spelled_of_le (Int.le_refl c) hle
      rw [spelledClasses_single_of_le hle]
      constructor
      · rintro ⟨items, heq, hu⟩
        obtain rfl := (List.cons.inj heq).1
        exact ⟨.single c, List.mem_cons_self, Or.inr hle, hspelled ▸ hu⟩
      · rintro ⟨item, hitem, -, hu⟩
        obtain rfl := List.mem_singleton.1 hitem
        exact ⟨_, rfl, hspelled ▸ hu⟩
    · rw [spelledClasses_single_of_lt (Int.not_le.1 hle)]
      constructor
      · rintro ⟨items, heq, -⟩
        cases (List.cons.inj heq).2
      · rintro ⟨item, hitem, hbrackets | hunit, -⟩
        · exact absurd rfl (hbrackets c)
        · obtain rfl := List.mem_singleton.1 hitem
          exact absurd hunit hle
  · rw [Reaches, spelledClasses_of_bracketed hbrackets]
    constructor
    · rintro ⟨items, heq, inner, hinner, hu⟩
      obtain rfl := (List.cons.inj heq).1
      obtain ⟨item, hitem, hmem⟩ := List.mem_flatMap.1 hinner
      exact ⟨item, hitem, Or.inl hbrackets, inner, hmem, hu⟩
    · rintro ⟨item, hitem, -, inner, hinner, hu⟩
      exact ⟨_, rfl, inner, List.mem_flatMap.2 ⟨item, hitem, hinner⟩, hu⟩

/-! ## Rows -/

def spelledRow (row : List Extent) : List RangeList :=
  row.flatMap fun s => spelledClasses (itemsOf s)

def spelledRows (points : List Int) : List (List RangeList) :=
  (rows points).map spelledRow

/-- What the pattern is read as, if it is read. -/
def spelledFragment (points : List Int) : Fragment :=
  (spelledRows points).map (List.map Atom.ofItems)

theorem alternativeText_spelledRow {points : List Int} {row : List Extent}
    (hrow : row ∈ rows points) :
    alternativeText (spelledRow row) = alternativeText (row.map itemsOf) := by
  rw [alternativeText, spelledRow, List.flatMap_assoc, alternativeText, List.flatMap_map]
  refine List.flatMap_congr fun s hs => ?_
  obtain ⟨u, hu⟩ := inhabited_of_row hrow hs
  exact alternativeText_spelledClasses (isClass_itemsOf hu).inhabited

theorem ofPoints_eq_spelledRows (points : List Int) :
    ofPoints points
      = [('|' : CodePoint)].intercalate ((spelledRows points).map alternativeText) := by
  rw [ofPoints, alternatives_eq, spelledRows, List.map_map, List.map_map]
  refine congrArg _ (List.map_congr_left fun row hrow => ?_)
  exact (alternativeText_spelledRow hrow).symm

theorem accepts_spelledFragment {points us : List Int} :
    (spelledFragment points).accepts us = true ↔
      ∃ row ∈ rows points, List.Forall₂ (fun items u => Spans items u) (spelledRow row) us := by
  simp only [Fragment.accepts, spelledFragment, spelledRows, List.any_map, List.any_eq_true,
    Function.comp, accepts_alternative, Spans]

theorem inhabited_spelledRows (points : List Int) :
    ∀ alternative ∈ spelledRows points, [] ∉ alternative := by
  intro alternative halt hnil
  obtain ⟨row, hrow, rfl⟩ := List.mem_map.1 halt
  obtain ⟨s, hs, hmem⟩ := List.mem_flatMap.1 hnil
  obtain ⟨u, hu⟩ := inhabited_of_row hrow hs
  exact nil_not_mem_spelledClasses (isClass_itemsOf hu).inhabited hmem

theorem spelledRow_ne_nil {points : List Int} {row : List Extent} (hrow : row ∈ rows points) :
    spelledRow row ≠ [] := by
  rcases mem_rows.1 hrow with ⟨-, rfl⟩ | ⟨lows, highs, -, rfl⟩ <;>
  · rw [spelledRow, List.flatMap_cons]
    exact List.append_ne_nil_of_left_ne_nil (spelledClasses_ne_nil _) _

/-! ## What the rows take -/

section Row

variable {points : List Int} {lows highs : Extent}

theorem spelledRow_bmp (hnonneg : ∀ c ∈ points, 0 ≤ c) :
    spelledRow [(partition points).bmp] = [itemsOf (partition points).bmp] := by
  rw [spelledRow, List.flatMap_singleton, spelledClasses_of_units (ofUnits_bmp hnonneg)]

theorem spelledRow_group (h : (lows, highs) ∈ groupByLowSets (partition points).byHigh) :
    spelledRow [highs, lows] = spelledClasses (itemsOf highs) ++ [itemsOf lows] := by
  rw [spelledRow, List.flatMap_cons, List.flatMap_singleton,
    spelledClasses_of_units (ofUnits_lows_of_group h)]

theorem forall₂_group_pair {u v : Int} :
    List.Forall₂ (fun items u => Spans items u) (spelledClasses (itemsOf highs) ++ [itemsOf lows])
      [u, v] ↔ Reaches highs u ∧ lows.contains v = true := by
  constructor
  · intro h
    have hlength := h.length_eq
    simp only [List.length_append, List.length_cons, List.length_nil] at hlength
    obtain ⟨items, hitems⟩ := List.length_eq_one_iff.1 (Nat.add_right_cancel hlength)
    rw [hitems, List.singleton_append, List.forall₂_cons, List.forall₂_cons, spans_itemsOf] at h
    exact ⟨⟨items, hitems, h.1⟩, h.2.1⟩
  · rintro ⟨⟨items, hitems, hu⟩, hv⟩
    rw [hitems]
    exact .cons hu (.cons (spans_itemsOf.2 hv) .nil)

theorem accepts_unit (hnonneg : ∀ c ∈ points, 0 ≤ c) {u : Int} (hu : u ≤ 0xFFFF) :
    (spelledFragment points).accepts [u] = true ↔ u ∈ points := by
  rw [accepts_spelledFragment]
  constructor
  · rintro ⟨row, hrow, h⟩
    rcases mem_rows.1 hrow with ⟨-, rfl⟩ | ⟨lows, highs, hgroup, rfl⟩
    · rw [spelledRow_bmp hnonneg, List.forall₂_cons, spans_itemsOf] at h
      exact (contains_bmp.1 h.1).1
    · rw [spelledRow_group hgroup] at h
      have hlength := h.length_eq
      have hsome := List.length_pos_iff.2 (spelledClasses_ne_nil (itemsOf highs))
      simp only [List.length_append, List.length_singleton] at hlength
      omega
  · intro hmem
    have hbmp : (partition points).bmp.contains u = true := contains_bmp.2 ⟨hmem, hu⟩
    refine ⟨_, bmp_mem_rows hbmp, ?_⟩
    rw [spelledRow_bmp hnonneg]
    exact .cons (spans_itemsOf.2 hbmp) .nil

theorem accepts_pair (hnonneg : ∀ c ∈ points, 0 ≤ c) {u v : Int} :
    (spelledFragment points).accepts [u, v] = true ↔
      ∃ lows highs, (lows, highs) ∈ groupByLowSets (partition points).byHigh
        ∧ Reaches highs u ∧ lows.contains v = true := by
  rw [accepts_spelledFragment]
  constructor
  · rintro ⟨row, hrow, h⟩
    rcases mem_rows.1 hrow with ⟨-, rfl⟩ | ⟨lows, highs, hgroup, rfl⟩
    · rw [spelledRow_bmp hnonneg] at h
      cases h.length_eq
    · rw [spelledRow_group hgroup, forall₂_group_pair] at h
      exact ⟨lows, highs, hgroup, h⟩
  · rintro ⟨lows, highs, hgroup, h⟩
    refine ⟨_, mem_rows.2 (Or.inr ⟨lows, highs, hgroup, rfl⟩), ?_⟩
    rw [spelledRow_group hgroup, forall₂_group_pair]
    exact h

end Row

/-! ## Reading the text -/

section Text

variable {points : List Int} (hbounds : ∀ c ∈ points, 0 ≤ c ∧ c ≤ 0xFFFFFF)

include hbounds

theorem highs_bounds {lows highs : Extent}
    (h : (lows, highs) ∈ groupByLowSets (partition points).byHigh) {high : Int}
    (hhigh : highs.contains high = true) : 0xD800 ≤ high ∧ high ≤ 0x117BF := by
  obtain ⟨c, hmem, habove, rfl⟩ := exists_mem_of_highs h hhigh
  exact ⟨Surrogate.le_high_iff.2 habove, Surrogate.high_mono (hbounds c hmem).2⟩

theorem ends_bounds {lows highs : Extent}
    (h : (lows, highs) ∈ groupByLowSets (partition points).byHigh) {item : Item Int}
    (hitem : item ∈ itemsOf highs) :
    item.ends.1 ≤ item.ends.2 ∧ 0xD800 ≤ item.ends.1 ∧ item.ends.2 ≤ 0x117BF := by
  obtain ⟨hfirst, hlast⟩ := RangeList.ends_mem_of_mem_compress hitem
  have hfirst' := highs_bounds hbounds h ((Extent.mem_toList _ _).1 hfirst)
  have hlast' := highs_bounds hbounds h ((Extent.mem_toList _ _).1 hlast)
  exact ⟨RangeList.ends_le_of_mem_compress hitem, hfirst'.1, hlast'.2⟩

/-- A set in a row holds units, or it is the class of high surrogates of a group. -/
theorem ofUnits_or_highs {row : List Extent} (hrow : row ∈ rows points) {s : Extent}
    (hs : s ∈ row) :
    OfUnits s ∨ ∃ lows, (lows, s) ∈ groupByLowSets (partition points).byHigh := by
  rcases mem_rows.1 hrow with ⟨-, rfl⟩ | ⟨lows, highs, hgroup, rfl⟩
  · obtain rfl := List.mem_singleton.1 hs
    exact Or.inl (ofUnits_bmp fun c hc => (hbounds c hc).1)
  · rcases List.mem_cons.1 hs with rfl | hs
    · exact Or.inr ⟨lows, hgroup⟩
    · obtain rfl := List.mem_singleton.1 hs
      exact Or.inl (ofUnits_lows_of_group hgroup)

theorem ends_bounds_of_row {row : List Extent} (hrow : row ∈ rows points) {s : Extent}
    (hs : s ∈ row) : ∀ item ∈ itemsOf s,
      item.ends.1 ≤ item.ends.2 ∧ 0 ≤ item.ends.1 ∧ item.ends.2 ≤ 0x10FFFF := by
  intro item hitem
  rcases ofUnits_or_highs hbounds hrow hs with hunits | ⟨lows, hgroup⟩
  · have hends := inUnits_itemsOf hunits item hitem
    have hle := RangeList.ends_le_of_mem_compress hitem
    omega
  · have hends := ends_bounds hbounds hgroup hitem
    omega

theorem inUnits_spelledRows :
    ∀ alternative ∈ spelledRows points, ∀ items ∈ alternative, InUnits items := by
  intro alternative halt items hitems
  obtain ⟨row, hrow, rfl⟩ := List.mem_map.1 halt
  obtain ⟨s, hs, hmem⟩ := List.mem_flatMap.1 hitems
  exact inUnits_spelledClasses (ends_bounds_of_row hbounds hrow hs) items hmem

theorem read?_of_forwards (hne : points ≠ [])
    (hforwards : Fragment.Forwards (spelledRows points)) :
    Fragment.read? (ofPoints points) = some (spelledFragment points)
      ∧ (spelledFragment points).IsProper := by
  have hclass : ∀ alternative ∈ spelledRows points, ∀ items ∈ alternative, IsClass items :=
    fun alternative halt items hitems =>
      ⟨fun hnil => inhabited_spelledRows points alternative halt (hnil ▸ hitems),
        hforwards alternative halt items hitems⟩
  have hunits := inUnits_spelledRows hbounds
  have hsome : [] ∉ spelledRows points := by
    intro hnil
    obtain ⟨row, hrow, heq⟩ := List.mem_map.1 hnil
    exact spelledRow_ne_nil hrow heq
  obtain ⟨c, hc⟩ := List.exists_mem_of_ne_nil _ hne
  obtain ⟨row, hrow, -⟩ := exists_row_of_mem hc
  constructor
  · rw [ofPoints_eq_spelledRows]
    exact Fragment.read?_row (List.ne_nil_of_mem (List.mem_map_of_mem hrow)) hsome hclass hunits
  · intro atoms hatoms
    obtain ⟨alternative, halt, rfl⟩ := List.mem_map.1 hatoms
    refine ⟨fun hnil => hsome (List.map_eq_nil_iff.1 hnil ▸ halt), fun atom hatom => ?_⟩
    obtain ⟨items, hitems, rfl⟩ := List.mem_map.1 hatom
    exact isProper_ofItems (hclass _ halt _ hitems) (hunits _ halt _ hitems)

/-- The pattern is read exactly if all that it spells runs forwards. -/
theorem read?_eq_some_iff (hne : points ≠ []) {fragment : Fragment} :
    Fragment.read? (ofPoints points) = some fragment ↔
      Fragment.Forwards (spelledRows points) ∧ fragment = spelledFragment points := by
  constructor
  · intro h
    have hforwards : Fragment.Forwards (spelledRows points) := by
      rw [ofPoints_eq_spelledRows] at h
      exact Fragment.forwards_of_read? (inhabited_spelledRows points)
        (inUnits_spelledRows hbounds) h
    refine ⟨hforwards, ?_⟩
    rw [(read?_of_forwards hbounds hne hforwards).1] at h
    exact (Option.some.inj h).symm
  · rintro ⟨hforwards, rfl⟩
    exact (read?_of_forwards hbounds hne hforwards).1

end Text

theorem forwards_of_group {points : List Int}
    (hforwards : Fragment.Forwards (spelledRows points))
    {lows highs : Extent} (hgroup : (lows, highs) ∈ groupByLowSets (partition points).byHigh)
    (hbrackets : Bracketed (itemsOf highs)) {item : Item Int} (hitem : item ∈ itemsOf highs) :
    ∀ inner ∈ spelled item, inner.ends.1 ≤ inner.ends.2 := by
  have hrow : [highs, lows] ∈ rows points := mem_rows.2 (Or.inr ⟨lows, highs, hgroup, rfl⟩)
  have hspelled : (itemsOf highs).flatMap spelled ∈ spelledRow [highs, lows] := by
    rw [spelledRow_group hgroup, spelledClasses_of_bracketed hbrackets]
    exact List.mem_cons_self
  intro inner hinner
  exact hforwards _ (List.mem_map_of_mem hrow) _ hspelled inner
    (List.mem_flatMap.2 ⟨item, hitem, hinner⟩)

end Repertoire.Pattern
