import Repertoire.Proofs.Pattern.SpelledRows
import Repertoire.Proofs.UnicodeRange.RoundTrip

/-!
# Which patterns are exact

The unicode-range notation has room for integers beyond `0x10FFFF`. Their surrogates are computed
all the same, and the high ones may lie beyond the units, from `0xA10000` on. As long as such a high
surrogate is the only one of its group, the group matches nothing of two units. Between brackets it
is spelled as units, and these may match what is no member, or leave a range without its last high
surrogates, or turn it around. So the pattern is exact if and only if nothing of this happens
(`isExact_iff`).
-/

namespace Repertoire.Pattern

/-- Where a class of high surrogates between brackets reaches beyond the units, it does so by single
integers, and whatever their first units are matched with is a member as well. -/
def SpillsOntoMembers (points : List Int) : Prop :=
  ∀ lows highs, (lows, highs) ∈ groupByLowSets (partition points).byHigh →
    Bracketed (itemsOf highs) → ∀ item ∈ itemsOf highs, 0xFFFF < item.ends.2 →
      ∃ h, item = .single h
        ∧ ∀ l, lows.contains l = true → Surrogate.combine (Surrogate.high h) l ∈ points

/-- The pattern is well formed, and the code points that it matches are the members. -/
def IsExact (s : CodeSet) : Prop :=
  ∃ fragment, Fragment.read? s.regexp = some fragment
    ∧ fragment.IsProper
    ∧ ∀ c, 0 ≤ c → c ≤ 0x10FFFF → (fragment.accepts (utf16 c) = true ↔ s.contains c = true)

section Exact

variable {points : List Int} (hbounds : ∀ c ∈ points, 0 ≤ c ∧ c ≤ 0xFFFFFF)

include hbounds

theorem forwards_of_spills (hspills : SpillsOntoMembers points) :
    Fragment.Forwards (spelledRows points) := by
  intro alternative halt items hitems
  obtain ⟨row, hrow, rfl⟩ := List.mem_map.1 halt
  obtain ⟨s, hs, hmem⟩ := List.mem_flatMap.1 hitems
  refine forwards_spelledClasses (fun hbrackets item hitem => ?_) items hmem
  have hends := ends_bounds_of_row hbounds hrow hs item hitem
  refine forwards_spelled hends.1 ?_
  rcases ofUnits_or_highs hbounds hrow hs with hunits | ⟨lows, hgroup⟩
  · exact Or.inl (inUnits_itemsOf hunits item hitem).2.2
  · by_cases hunits : item.ends.2 ≤ 0xFFFF
    · exact Or.inl hunits
    · obtain ⟨h, hsingle, -⟩ :=
        hspills lows s hgroup hbrackets item hitem (Int.not_le.1 hunits)
      exact Or.inr ⟨h, hsingle⟩

/-- A group reaches the high surrogate of a code point if that is one of its own. -/
theorem reaches_of_contains {lows highs : Extent}
    (hgroup : (lows, highs) ∈ groupByLowSets (partition points).byHigh)
    (hspills : SpillsOntoMembers points) {u : Int} (hu : u ≤ 0xDBFF)
    (h : highs.contains u = true) : Reaches highs u := by
  obtain ⟨item, hitem, hspan⟩ := spans_itemsOf.2 h
  have hends := ends_bounds hbounds hgroup hitem
  have hunits : item.ends.2 ≤ 0xFFFF := by
    by_contra hbeyond
    have hsingle : ∃ c, item = .single c := by
      rcases single_or_bracketed (itemsOf highs) with ⟨c, hc⟩ | hbrackets
      · rw [hc] at hitem
        exact ⟨c, List.mem_singleton.1 hitem⟩
      · obtain ⟨c, hc, -⟩ := hspills lows highs hgroup hbrackets item hitem (Int.not_le.1 hbeyond)
        exact ⟨c, hc⟩
    obtain ⟨c, rfl⟩ := hsingle
    simp only [Item.ends] at hspan hbeyond
    omega
  exact reaches_iff.2 ⟨item, hitem, Or.inr hunits, (spans_spelled_of_le hends.1 hunits).2 hspan⟩

/-- What a group reaches it has itself, or it spills there. -/
theorem contains_or_spills_of_reaches {lows highs : Extent}
    (hgroup : (lows, highs) ∈ groupByLowSets (partition points).byHigh)
    (hspills : SpillsOntoMembers points) {u : Int} (hu : u ≤ 0xDBFF) (h : Reaches highs u) :
    highs.contains u = true
      ∨ ∀ l, lows.contains l = true → Surrogate.combine u l ∈ points := by
  obtain ⟨item, hitem, hunits, hspan⟩ := reaches_iff.1 h
  have hends := ends_bounds hbounds hgroup hitem
  by_cases hle : item.ends.2 ≤ 0xFFFF
  · rw [spans_spelled_of_le hends.1 hle] at hspan
    exact Or.inl (spans_itemsOf.1 ⟨item, hitem, hspan⟩)
  · have hbrackets : Bracketed (itemsOf highs) := hunits.resolve_right hle
    obtain ⟨c, rfl, hmembers⟩ := hspills lows highs hgroup hbrackets item hitem (Int.not_le.1 hle)
    have hc : 0xFFFF < c := Int.not_le.1 hle
    have hlow := Surrogate.low_bounds c
    rw [spelled_single_of_lt hc] at hspan
    obtain ⟨inner, hinner, hfirst, hlast⟩ := hspan
    rcases List.mem_cons.1 hinner with rfl | hinner
    · obtain rfl : u = Surrogate.high c := Int.le_antisymm hlast hfirst
      exact Or.inr hmembers
    · obtain rfl := List.mem_singleton.1 hinner
      simp only [Item.ends] at hfirst
      omega

theorem accepts_utf16_of_spills (hspills : SpillsOntoMembers points) {c : Int}
    (hc : c ≤ 0x10FFFF) :
    (spelledFragment points).accepts (utf16 c) = true ↔ c ∈ points := by
  have hnonneg : ∀ c ∈ points, 0 ≤ c := fun c hc => (hbounds c hc).1
  by_cases hle : c ≤ 0xFFFF
  · rw [utf16_of_le hle, accepts_unit hnonneg hle]
  · have habove : 0xFFFF < c := Int.not_le.1 hle
    have hhigh := Surrogate.high_bounds habove hc
    rw [utf16_of_lt habove, accepts_pair hnonneg]
    constructor
    · rintro ⟨lows, highs, hgroup, hreaches, hlow⟩
      rcases contains_or_spills_of_reaches hbounds hgroup hspills hhigh.2 hreaches
        with hown | hspill
      · exact (mem_iff_exists_group habove).2 ⟨lows, highs, hgroup, hown, hlow⟩
      · rw [← Surrogate.combine_high_low habove hc]
        exact hspill _ hlow
    · intro hmem
      obtain ⟨lows, highs, hgroup, hown, hlow⟩ := (mem_iff_exists_group habove).1 hmem
      exact ⟨lows, highs, hgroup, reaches_of_contains hbounds hgroup hspills hhigh.2 hown, hlow⟩

/-- If a range between brackets leads from a high surrogate beyond the units, then no group reaches
the last of the high surrogates. -/
theorem not_reaches_last {lows highs : Extent}
    (hgroup : (lows, highs) ∈ groupByLowSets (partition points).byHigh) {item : Item Int}
    (hitem : item ∈ itemsOf highs) (hfirst : item.ends.1 ≤ 0xDBFF) (hlast : 0xFFFF < item.ends.2)
    {lows' highs' : Extent}
    (hgroup' : (lows', highs') ∈ groupByLowSets (partition points).byHigh) :
    ¬ Reaches highs' 0xDBFF := by
  intro h
  obtain ⟨item', hitem', -, hspan⟩ := reaches_iff.1 h
  have hends := ends_bounds hbounds hgroup' hitem'
  have hown : item.ends.1 ≤ 0xDBFF ∧ 0xDBFF ≤ item.ends.2 := ⟨hfirst, by omega⟩
  by_cases hle : item'.ends.2 ≤ 0xFFFF
  · rw [spans_spelled_of_le hends.1 hle] at hspan
    have hsame : highs = highs' := group_unique hgroup hgroup'
      (spans_itemsOf.1 ⟨item, hitem, hown⟩) (spans_itemsOf.1 ⟨item', hitem', hspan⟩)
    subst hsame
    have hitems : item = item' := RangeList.eq_of_mem_compress highs.toList_ascending hitem hitem'
      (Item.mem_points.2 hown) (Item.mem_points.2 hspan)
    subst hitems
    omega
  · have hleast := le_of_spans_spelled hends.1 (Int.not_le.1 hle) hends.2.2 (Int.le_refl _) hspan
    omega

theorem spills_of_accepts (hforwards : Fragment.Forwards (spelledRows points))
    (haccepts : ∀ c, 0 ≤ c → c ≤ 0x10FFFF →
      ((spelledFragment points).accepts (utf16 c) = true ↔ c ∈ points)) :
    SpillsOntoMembers points := by
  have hnonneg : ∀ c ∈ points, 0 ≤ c := fun c hc => (hbounds c hc).1
  intro lows highs hgroup hbrackets item hitem hbeyond
  have hends := ends_bounds hbounds hgroup hitem
  cases item with
  | single c =>
      simp only [Item.ends] at hbeyond hends
      have hhigh := Surrogate.high_bounds hbeyond (by omega)
      refine ⟨c, rfl, fun l hl => ?_⟩
      have hunits : utf16 (Surrogate.combine (Surrogate.high c) l) = [Surrogate.high c, l] :=
        utf16_combine hhigh (lows_bounds_of_group hgroup hl)
      have hcombine := Surrogate.combine_bounds (Surrogate.high c) l
      refine (haccepts _ (by omega) hcombine.2).1 ?_
      rw [hunits, accepts_pair hnonneg]
      have hspan : Spans (spelled (.single c)) (Surrogate.high c) := by
        rw [spelled_single_of_lt hbeyond]
        exact ⟨_, List.mem_cons_self, Int.le_refl _, Int.le_refl _⟩
      exact ⟨lows, highs, hgroup, reaches_iff.2 ⟨_, hitem, Or.inl hbrackets, hspan⟩, hl⟩
  | pair first last =>
      exfalso
      have hinner : lastUnit first ≤ firstUnit last :=
        forwards_of_group hforwards hgroup hbrackets hitem _
          (mem_spelled_pair.2 (Or.inr (Or.inl rfl)))
      simp only [Item.ends] at hbeyond hends
      have hfirst : first ≤ 0xDBFF := le_of_lastUnit_le_firstUnit hbeyond (by omega) hinner
      have hlast : 0xDBFF ≤ last := by omega
      -- the last high surrogate is meant by the range, but what the range spells ends before it
      have hown : highs.contains 0xDBFF = true := spans_itemsOf.1 ⟨_, hitem, hfirst, hlast⟩
      obtain ⟨c, hmem, habove, hhigh⟩ := exists_mem_of_highs hgroup hown
      have hc : c ≤ 0x10FFFF := Surrogate.high_le_iff.1 hhigh.le
      have haccepted := (haccepts c (by omega) hc).2 hmem
      rw [utf16_of_lt habove, hhigh, accepts_pair hnonneg] at haccepted
      obtain ⟨lows', highs', hgroup', hreaches, -⟩ := haccepted
      exact not_reaches_last hbounds hgroup hitem hfirst hbeyond hgroup' hreaches

end Exact

theorem isExact_iff {s : CodeSet} (hne : s.isEmpty = false)
    (hbounds : ∀ x, s.contains x = true → 0 ≤ x ∧ x ≤ 0xFFFFFF) :
    IsExact s ↔ SpillsOntoMembers s.toList := by
  have hne' : s.toList ≠ [] := by
    rwa [ne_eq, ← CodeSet.isEmpty_iff, Bool.not_eq_true]
  have hbounds' : ∀ x ∈ s.toList, 0 ≤ x ∧ x ≤ 0xFFFFFF := fun x hx =>
    hbounds x ((CodeSet.mem_toList s x).1 hx)
  constructor
  · rintro ⟨fragment, hread, -, haccepts⟩
    obtain ⟨hforwards, rfl⟩ := (read?_eq_some_iff hbounds' hne').1 hread
    refine spills_of_accepts hbounds' hforwards fun c h₀ h₁ => ?_
    rw [haccepts c h₀ h₁, CodeSet.mem_toList]
  · intro hspills
    obtain ⟨hread, hproper⟩ := read?_of_forwards hbounds' hne' (forwards_of_spills hbounds' hspills)
    refine ⟨_, hread, hproper, fun c _ hc => ?_⟩
    rw [accepts_utf16_of_spills hbounds' hspills hc, CodeSet.mem_toList]

theorem spills_of_le {points : List Int} (hbounds : ∀ c ∈ points, c ≤ 0xA0FFFF) :
    SpillsOntoMembers points := by
  intro lows highs hgroup _ item hitem hbeyond
  obtain ⟨-, hlast⟩ := RangeList.ends_mem_of_mem_compress hitem
  obtain ⟨c, hmem, -, hhigh⟩ := exists_mem_of_highs hgroup ((Extent.mem_toList _ _).1 hlast)
  have hc : Surrogate.high c ≤ 0xFFFF := Surrogate.high_mono (hbounds c hmem)
  omega

/-- **When the pattern of a text in the unicode-range notation is exact.** The notation has room for
integers beyond `0x10FFFF`, and their high surrogates may lie beyond the units. Such a high surrogate
does no harm by itself, but in a class between brackets its units stand for themselves. The pattern
is well formed and matches, of all code points, the members alone, exactly if no range between
brackets leads there and all that is matched by the way is a member too. This is so for every set
without members above `0xA0FFFF`. -/
theorem regexp_parse_isExact_iff {t : Text} (hne : (UnicodeRange.parse t).isEmpty = false) :
    (IsExact (UnicodeRange.parse t) ↔ SpillsOntoMembers (UnicodeRange.parse t).toList)
      ∧ ((∀ x, (UnicodeRange.parse t).contains x = true → x ≤ 0xA0FFFF) →
          IsExact (UnicodeRange.parse t)) := by
  have hiff := isExact_iff hne fun x hx => UnicodeRange.parse_bounds hx
  refine ⟨hiff, fun hlimit => hiff.2 (spills_of_le fun x hx => ?_)⟩
  exact hlimit x ((CodeSet.mem_toList _ x).1 hx)

/-- A text up to the greatest members that still have units for surrogates. -/
def textToLimit : Text :=
  Text.ofString "U+41,U+1F400,U+A0FFFE-A0FFFF"

theorem regexp_parse_isExact_iff_textToLimit :
    (UnicodeRange.parse textToLimit).isEmpty = false
      ∧ (IsExact (UnicodeRange.parse textToLimit) ↔
          SpillsOntoMembers (UnicodeRange.parse textToLimit).toList)
      ∧ (∀ x, (UnicodeRange.parse textToLimit).contains x = true → x ≤ 0xA0FFFF)
      ∧ IsExact (UnicodeRange.parse textToLimit) := by
  have hne : (UnicodeRange.parse textToLimit).isEmpty = false := by decide +kernel
  have hmembers : ∀ x ∈ (UnicodeRange.parse textToLimit).toList, x ≤ 0xA0FFFF := by decide +kernel
  have hlimit : ∀ x, (UnicodeRange.parse textToLimit).contains x = true → x ≤ 0xA0FFFF :=
    fun x hx => hmembers x ((CodeSet.mem_toList _ x).2 hx)
  exact ⟨hne, (regexp_parse_isExact_iff hne).1, hlimit, (regexp_parse_isExact_iff hne).2 hlimit⟩

/-- One member too far: the high surrogate of `0xA10000` is `0x10000`, whose own high surrogate is
matched by itself. So `0x10000` is matched, which is no member. -/
theorem regexp_parse_not_isExact :
    (UnicodeRange.parse (Text.ofString "U+1F400,U+A10000")).isEmpty = false
      ∧ ¬ IsExact (UnicodeRange.parse (Text.ofString "U+1F400,U+A10000")) := by
  refine ⟨by decide +kernel, ?_⟩
  rintro ⟨fragment, hread, -, haccepts⟩
  have hfragment : Fragment.read? (UnicodeRange.parse (Text.ofString "U+1F400,U+A10000")).regexp
      = some [[.cls [.single 0xD83D, .single 0xD800, .single 0xDC00], .unit 0xDC00]] := by
    decide +kernel
  rw [hfragment] at hread
  obtain rfl := Option.some.inj hread
  have hmember := (haccepts 0x10000 (by decide) (by decide)).1 (by decide +kernel)
  revert hmember
  decide +kernel

/-- A range of high surrogates that leads beyond the units can turn around. -/
example :
    Fragment.read? (UnicodeRange.parse (Text.ofString "U+A0FC00,U+A10000,U+A10400")).regexp
      = none := by
  decide +kernel

end Repertoire.Pattern
