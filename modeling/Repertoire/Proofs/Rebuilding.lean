import Repertoire.Export
import Repertoire.Proofs.Agreement
import Repertoire.Proofs.Session.Comparison

/-!
# Making a set from what it was written out as

The array and the range list of a set are values that a set can be made from. Reading such a value
gives back the items that were written (`filterMap_item?_itemValue`), and these mention the members
and nothing else, so what is made is a copy of the set (`exports_rebuild`). The ends of the runs are
members themselves. That is why a strict reading, which looks at the ends only, objects exactly to
the sets with a member out of bounds.
-/

namespace Repertoire

namespace CodeSet

/-! ## The items that were written -/

theorem item?_itemValue (item : Item Int) : (itemValue item).item? = some item := by
  cases item <;> rfl

theorem filterMap_item?_itemValue (items : RangeList) :
    (items.map itemValue).filterMap Value.item? = items := by
  rw [List.filterMap_map, funext (f := Value.item? ∘ itemValue) item?_itemValue,
    List.filterMap_some]

theorem isElement_itemValue {items : RangeList} : ∀ e ∈ items.map itemValue, e.IsElement := by
  intro e he
  obtain ⟨item, -, rfl⟩ := List.mem_map.1 he
  exact Value.isElement_of_item? (item?_itemValue item)

theorem mem_named_itemValue {item : Item Int} {c : Int} :
    c ∈ (itemValue item).named ↔ c = item.ends.1 ∨ c = item.ends.2 := by
  cases item <;> simp [itemValue, Value.named, Item.ends]

theorem ofValue_items (items : RangeList) :
    ofValue (.list (items.map itemValue)) = ofRanges items := by
  rw [ofValue_of_elements rfl, filterMap_item?_itemValue]

theorem strict_items_eq_ok_iff {items : RangeList} {s : CodeSet} :
    strict (.list (items.map itemValue)) = .ok s ↔
      (∀ item ∈ items, item.InBounds) ∧ s = ofItems items := by
  rw [strict_elements_eq_ok_iff rfl, filterMap_item?_itemValue, and_iff_right isElement_itemValue]

/-- What the strict reading objects to in written items is an end of one of them. -/
theorem strict_items_eq_error {items : RangeList} {error : SourceError}
    (h : strict (.list (items.map itemValue)) = .error error) :
    ∃ c, error = .invalid (.int c) ∧ (∃ item ∈ items, c = item.ends.1 ∨ c = item.ends.2)
      ∧ ¬ (0 ≤ c ∧ c ≤ 0x10FFFF) := by
  rcases (strict_elements_eq_error rfl).1 h with ⟨e, -, before, after, hsplit, hill, -⟩ |
    ⟨-, c, rfl, before, after, hsplit, hout, -⟩
  · exact absurd (isElement_itemValue e (by rw [hsplit]; simp)) hill
  · have hnamed : c ∈ (items.map itemValue).flatMap Value.named := by rw [hsplit]; simp
    obtain ⟨e, he, hc⟩ := List.mem_flatMap.1 hnamed
    obtain ⟨item, hitem, rfl⟩ := List.mem_map.1 he
    exact ⟨c, rfl, ⟨item, hitem, mem_named_itemValue.1 hc⟩, hout⟩

/-! ## The runs of a set -/

section Runs

variable {s : CodeSet} {item : Item Int}

theorem mem_expand_ranges {x : Int} : x ∈ s.ranges.expand ↔ s.contains x = true :=
  RangeList.mem_expand_compress.trans (mem_toList s x)

theorem contains_ends (h : item ∈ s.ranges) :
    s.contains item.ends.1 = true ∧ s.contains item.ends.2 = true := by
  rw [← mem_toList, ← mem_toList]
  exact RangeList.ends_mem_of_mem_compress h

/-- The ends of the runs bound all members, being members themselves. -/
theorem inBounds_ranges_iff :
    (∀ item ∈ s.ranges, item.InBounds) ↔ ∀ x, s.contains x = true → 0 ≤ x ∧ x ≤ 0x10FFFF := by
  constructor
  · intro h x hx
    exact RangeList.bounds_of_mem_expand h (mem_expand_ranges.2 hx)
  · intro h item hitem
    have hends := contains_ends hitem
    exact ⟨h _ hends.1, h _ hends.2⟩

/-- A run has no more integers than the set has members. -/
theorem length_le_size (h : item ∈ s.ranges) : item.length ≤ s.size := by
  have hsize : s.toList.length = s.size := Extent.length_toList s.members
  rw [← hsize]
  exact RangeList.length_le_of_mem_compress h

theorem ofItems_ranges (s : CodeSet) : ofItems s.ranges = s.copy := by
  rw [ofItems_eq_ofList, copy_eq_ofList]
  exact ofList_congr fun x => RangeList.mem_expand_compress

end Runs

/-! ## Reading the array and the range list -/

/-- The members as a value. -/
def arrayValue (s : CodeSet) : Value := .list (s.toList.map .int)

/-- The range list of the members as a value. -/
def rangesValue (s : CodeSet) : Value := .list (s.ranges.map itemValue)

/-- Can the members be counted, run by run? -/
def IsCounted (s : CodeSet) : Prop := ∀ item ∈ s.ranges, item.length ≤ lengthLimit

variable {s t : CodeSet}

theorem isCounted_of_size_le (h : s.size ≤ lengthLimit) : s.IsCounted :=
  fun _ hitem => (length_le_size hitem).trans h

theorem equals_copy (s : CodeSet) : s.copy.equals s = true :=
  equals_of_contains (contains_copy s)

/-- In the array every member stands by itself, so none is too long. -/
theorem ofValue_arrayValue (s : CodeSet) : ofValue s.arrayValue = .ok s.copy := by
  have hitems : s.toList.map Value.int = (s.toList.map Item.single).map itemValue := by
    rw [List.map_map]
    rfl
  have hlengths : ∀ item ∈ s.toList.map Item.single, item.length ≤ lengthLimit := by
    intro item hitem
    obtain ⟨x, -, rfl⟩ := List.mem_map.1 hitem
    exact Nat.succ_le_of_lt (by decide)
  rw [arrayValue, hitems, ofValue_items]
  refine ofRanges_eq_ok_iff.2 ⟨hlengths, ?_⟩
  rw [ofItems_eq_ofList, RangeList.expand_singles, copy_eq_ofList]

theorem ofValue_rangesValue_eq_ok_iff :
    ofValue s.rangesValue = .ok t ↔ s.IsCounted ∧ t = s.copy := by
  rw [rangesValue, ofValue_items, ofRanges_eq_ok_iff, ofItems_ranges, IsCounted]

theorem strict_rangesValue_eq_ok_iff :
    strict s.rangesValue = .ok t ↔
      (∀ x, s.contains x = true → 0 ≤ x ∧ x ≤ 0x10FFFF) ∧ t = s.copy := by
  rw [rangesValue, strict_items_eq_ok_iff, inBounds_ranges_iff, ofItems_ranges]

theorem strict_rangesValue_eq_error {error : SourceError}
    (h : strict s.rangesValue = .error error) :
    ∃ c, error = .invalid (.int c) ∧ s.contains c = true ∧ ¬ (0 ≤ c ∧ c ≤ 0x10FFFF) := by
  obtain ⟨c, herror, ⟨item, hitem, hc⟩, hout⟩ := strict_items_eq_error h
  have hends := contains_ends hitem
  rcases hc with rfl | rfl
  · exact ⟨_, herror, hends.1, hout⟩
  · exact ⟨_, herror, hends.2, hout⟩

end CodeSet

/-! ## Ledgers -/

/-- A ledger that takes in the members of another, and no more, counts as many. -/
theorem Ledger.equals_ofPoints {l : Ledger} {points : List Int}
    (h : ∀ x, x ∈ points ↔ x ∈ l.toList) : (Ledger.ofPoints points).equals l = true := by
  obtain ⟨s, hs⟩ := l.exists_keeps
  rw [(Keeps.ofPoints points).equals hs]
  refine CodeSet.equals_of_contains fun x => ?_
  rw [Bool.eq_iff_iff, CodeSet.contains_ofList, h, hs.mem_toList]

open CodeSet in
/-- **A set can be made again from what it was written out as.** Take any set of integers, whatever
it has been through. Made from its array, the new set is equal to it; made from its range list, it is
equal as well, unless a run is longer than can be counted, which takes more members than can be
counted. The strict reading makes an equal set from the range list exactly if all members are code
points; else it refuses the list for a member that is none. A ledger that takes in the array or the
range list of another one finds itself equal to it by its count. -/
theorem exports_rebuild :
    (∀ s : CodeSet,
      (∃ t, ofValue s.arrayValue = .ok t ∧ t.equals s = true)
        ∧ ((∃ t, ofValue s.rangesValue = .ok t ∧ t.equals s = true) ↔ s.IsCounted)
        ∧ (s.size ≤ lengthLimit → s.IsCounted)
        ∧ ((∃ t, strict s.rangesValue = .ok t ∧ t.equals s = true) ↔
            ∀ x, s.contains x = true → 0 ≤ x ∧ x ≤ 0x10FFFF)
        ∧ ((∃ x, s.contains x = true ∧ ¬ (0 ≤ x ∧ x ≤ 0x10FFFF)) →
            ∃ c, strict s.rangesValue = .error (.invalid (.int c)) ∧ s.contains c = true
              ∧ ¬ (0 ≤ c ∧ c ≤ 0x10FFFF)))
      ∧ ∀ l : Ledger, (Ledger.ofPoints l.toList).equals l = true
          ∧ (Ledger.ofPoints (RangeList.compress l.toList).expand).equals l = true := by
  refine ⟨fun s => ⟨⟨s.copy, ofValue_arrayValue s, equals_copy s⟩, ⟨?_, fun hcounted => ?_⟩,
    isCounted_of_size_le, ⟨?_, fun hbounds => ?_⟩, ?_⟩, fun l => ⟨?_, ?_⟩⟩
  · rintro ⟨t, ht, -⟩
    exact (ofValue_rangesValue_eq_ok_iff.1 ht).1
  · exact ⟨s.copy, ofValue_rangesValue_eq_ok_iff.2 ⟨hcounted, rfl⟩, equals_copy s⟩
  · rintro ⟨t, ht, -⟩
    exact (strict_rangesValue_eq_ok_iff.1 ht).1
  · exact ⟨s.copy, strict_rangesValue_eq_ok_iff.2 ⟨hbounds, rfl⟩, equals_copy s⟩
  · rintro ⟨x, hx, hout⟩
    cases hstrict : strict s.rangesValue with
    | ok t => exact absurd ((strict_rangesValue_eq_ok_iff.1 hstrict).1 x hx) hout
    | error error =>
        obtain ⟨c, rfl, hc⟩ := strict_rangesValue_eq_error hstrict
        exact ⟨c, rfl, hc⟩
  · exact Ledger.equals_ofPoints fun x => Iff.rfl
  · exact Ledger.equals_ofPoints fun x => RangeList.mem_expand_compress

end Repertoire
