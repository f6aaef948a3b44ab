import Repertoire.Proofs.CodeSet
import Repertoire.Proofs.Lists
import Repertoire.Proofs.Refusal

/-!
# What the strict reading takes in

The strict reading looks at the shape of every element and at the bounds of its ends, but not at
their order. So an integer is always taken in, and a pair in order is taken in whole; a pair whose
ends are in the wrong order passes both looks and adds nothing. Whether all that a source names is
taken in is then a matter of the other elements (`strict_takes_all_iff`).
-/

namespace Repertoire

namespace Value

/-- Does the integer lie between the ends of the element, the first not above the last? -/
def Covers (e : Value) (x : Int) : Prop :=
  ∃ first last, e.span? = some (first, last) ∧ first ≤ x ∧ x ≤ last

/-- Does the integer lie between the ends of the element, in whichever order they stand? -/
def Encloses (e : Value) (x : Int) : Prop :=
  ∃ first last, e.span? = some (first, last)
    ∧ ((first ≤ x ∧ x ≤ last) ∨ (last ≤ x ∧ x ≤ first))

def IsReversed (e : Value) : Prop :=
  ∃ first last, e.span? = some (first, last) ∧ last < first

/-- Only in a reversed pair can an integer be enclosed without being covered. -/
theorem Encloses.covers_or_isReversed {e : Value} {x : Int} :
    e.Encloses x → e.Covers x ∨ e.IsReversed
  | ⟨first, last, hspan, Or.inl hx⟩ => Or.inl ⟨first, last, hspan, hx⟩
  | ⟨first, last, hspan, Or.inr hx⟩ => by
      by_cases hreversed : last < first
      · exact Or.inr ⟨first, last, hspan, hreversed⟩
      · exact Or.inl ⟨first, last, hspan, by omega, by omega⟩

end Value

/-- Both ends are code points. -/
def Item.InBounds (item : Item Int) : Prop :=
  (0 ≤ item.ends.1 ∧ item.ends.1 ≤ 0x10FFFF) ∧ (0 ≤ item.ends.2 ∧ item.ends.2 ≤ 0x10FFFF)

namespace CodeSet

theorem strict_int_eq_ok {n : Int} {s : CodeSet} :
    strict (.int n) = .ok s ↔ (0 ≤ n ∧ n ≤ 0x10FFFF) ∧ s = ofList [n] := by
  rw [strict_int, map_eq_ok_iff, checkBounds_eq_ok, List.forall_mem_singleton]

/-- A list or tuple is taken exactly if all its elements are well formed and their ends in bounds. -/
theorem strict_elements_eq_ok_iff {v : Value} {elements : List Value} {s : CodeSet}
    (helements : v.elements? = some elements) :
    strict v = .ok s ↔ (∀ e ∈ elements, e.IsElement)
      ∧ (∀ item ∈ elements.filterMap Value.item?, item.InBounds)
      ∧ s = ofItems (elements.filterMap Value.item?) := by
  have hends : ∀ items : RangeList,
      checkBounds (items.flatMap fun item => [item.ends.1, item.ends.2]) = .ok () ↔
        ∀ item ∈ items, item.InBounds := by
    intro items
    rw [checkBounds_eq_ok, List.forall_mem_flatMap]
    simp only [List.forall_mem_cons, List.not_mem_nil, false_imp_iff, implies_true, and_true,
      Item.InBounds]
  rw [strict_of_elements helements]
  by_cases hall : ∀ e ∈ elements, e.IsElement
  · rw [readItems_of_isElement hall, Except.bind, map_eq_ok_iff, hends, and_iff_right hall]
  · cases hread : readItems elements with
    | error error => simp [Except.bind, hall]
    | ok items => exact absurd (readItems_eq_ok hread).1 hall

theorem strict_elements_eq_ok {v : Value} {elements : List Value} {s : CodeSet}
    (helements : v.elements? = some elements) (h : strict v = .ok s) :
    (∀ e ∈ elements, e.IsElement) ∧ s = ofItems (elements.filterMap Value.item?) := by
  obtain ⟨hall, -, hs⟩ := (strict_elements_eq_ok_iff helements).1 h
  exact ⟨hall, hs⟩

theorem contains_ofItems_elements {elements : List Value} {x : Int} :
    (ofItems (elements.filterMap Value.item?)).contains x = true ↔
      ∃ e ∈ elements, e.Covers x := by
  rw [ofItems_eq_ofList, contains_ofList, Value.mem_expand_items]
  rfl

/-- **What the strict reading takes in.** The set that it makes of a list or tuple has the integers
that the elements cover, and no others. So every integer among the elements is a member, and so is
all that lies between the ends of a pair in order; everything that the elements enclose is a member
exactly if what the reversed pairs enclose is covered by other elements. -/
theorem strict_takes_all_iff {v : Value} {elements : List Value} {s : CodeSet}
    (helements : v.elements? = some elements) (h : strict v = .ok s) :
    (∀ e ∈ elements, e.IsElement)
      ∧ (∀ x, s.contains x = true ↔ ∃ e ∈ elements, e.Covers x)
      ∧ ((∀ e ∈ elements, ∀ x, e.Encloses x → s.contains x = true) ↔
          ∀ e ∈ elements, e.IsReversed → ∀ x, e.Encloses x → ∃ e' ∈ elements, e'.Covers x) := by
  obtain ⟨hall, rfl⟩ := strict_elements_eq_ok helements h
  refine ⟨hall, fun x => contains_ofItems_elements, ?_⟩
  simp only [contains_ofItems_elements]
  constructor
  · exact fun htaken e he _ => htaken e he
  · intro hreversed e he x hx
    rcases hx.covers_or_isReversed with hcovers | hback
    · exact ⟨e, he, hcovers⟩
    · exact hreversed e he hback x hx

/-- A pair in each order and a single integer, which is an end of the reversed pair. -/
def mixedElements : List Value :=
  [.int 4, .tuple [.int 1, .int 3], .list [.int 4, .int 2]]

/-- What the reversed pair encloses is covered by the others, so everything is taken in. -/
theorem strict_takes_all_iff_mixed :
    (Value.list mixedElements).elements? = some mixedElements
      ∧ ∃ s, strict (.list mixedElements) = .ok s
          ∧ (∀ e ∈ mixedElements, ∀ x, e.Encloses x → s.contains x = true)
          ∧ s.contains 0 = false := by
  have hstrict : strict (.list mixedElements) = .ok (ofItems [.single 4, .pair 1 3, .pair 4 2]) := rfl
  obtain ⟨-, -, hall⟩ := strict_takes_all_iff rfl hstrict
  refine ⟨rfl, _, hstrict, hall.2 fun e he hreversed x hx => ?_, by decide +kernel⟩
  obtain ⟨first, last, hspan, hlt⟩ := hreversed
  obtain ⟨first', last', hspan', hx⟩ := hx
  simp only [mixedElements, List.mem_cons, List.not_mem_nil, or_false] at he
  rcases he with rfl | rfl | rfl
  · cases hspan
    omega
  · cases hspan
    omega
  · cases hspan'
    by_cases hfour : x = 4
    · exact ⟨.int 4, by simp [mixedElements], 4, 4, rfl, by omega⟩
    · exact ⟨.tuple [.int 1, .int 3], by simp [mixedElements], 1, 3, rfl, by omega⟩

/-- A reversed pair by itself is not refused, and neither of its ends is taken in. -/
theorem strict_overlooks_reversed_pair :
    ∃ s, strict (.list [.list [.int 5, .int 3]]) = .ok s
      ∧ (Value.list [.int 5, .int 3]).Encloses 5 ∧ (Value.list [.int 5, .int 3]).Encloses 3
      ∧ s.contains 5 = false ∧ s.contains 3 = false := by
  refine ⟨ofItems [.pair 5 3], rfl, ⟨5, 3, rfl, ?_⟩, ⟨5, 3, rfl, ?_⟩, ?_, ?_⟩ <;> decide +kernel

end CodeSet

end Repertoire
