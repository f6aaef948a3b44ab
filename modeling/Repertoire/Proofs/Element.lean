import Repertoire.Proofs.RangeList.Runs
import Repertoire.Value.Item

/-!
# Elements of a range list

A value is an element of a range list in three shapes only: an integer, a list of two integers, a
tuple of two integers. What the value is read as, and whether it is well formed, follows from the
shape (`item?_eq_some`, `isWellFormed_iff`).
-/

namespace Repertoire.Value

/-- An integer, or a list or tuple of two integers. -/
inductive IsElement : Value → Prop where
  | integer (n : Int) : IsElement (.int n)
  | list (first last : Int) : IsElement (.list [.int first, .int last])
  | tuple (first last : Int) : IsElement (.tuple [.int first, .int last])

/-- The integers that an element of a range list names, in order. -/
def named : Value → List Int
  | .int n => [n]
  | .list [.int first, .int last] => [first, last]
  | .tuple [.int first, .int last] => [first, last]
  | _ => []

/-- The first and the last integer that an element of a range list stands for. -/
def span? : Value → Option (Int × Int)
  | .int n => some (n, n)
  | .list [.int first, .int last] => some (first, last)
  | .tuple [.int first, .int last] => some (first, last)
  | _ => none

theorem integer?_eq_some {v : Value} {n : Int} : v.integer? = some n ↔ v = .int n := by
  cases v <;> simp [integer?]

theorem elements?_eq_some {v : Value} {elements : List Value} :
    v.elements? = some elements ↔ v = .list elements ∨ v = .tuple elements := by
  cases v <;> simp [elements?]

theorem asItem_cases (v : Value) :
    (∃ first last, v.elements? = some [first, last] ∧ v.asItem = .pair first last)
      ∨ v.asItem = .single v := by
  unfold asItem
  split
  · rename_i first last helements
    exact Or.inl ⟨first, last, helements, rfl⟩
  · exact Or.inr rfl

theorem item?_eq_some {v : Value} {item : Item Int} (h : v.item? = some item) :
    (∃ n, v = .int n ∧ item = .single n)
      ∨ ∃ first last, (v = .list [.int first, .int last] ∨ v = .tuple [.int first, .int last])
          ∧ item = .pair first last := by
  rw [item?] at h
  rcases asItem_cases v with ⟨first, last, helements, hv⟩ | hv
  · rw [hv] at h
    obtain ⟨a, ha, hrest⟩ := Option.bind_eq_some_iff.1 h
    obtain ⟨b, hb, hpair⟩ := Option.bind_eq_some_iff.1 hrest
    obtain rfl := integer?_eq_some.1 ha
    obtain rfl := integer?_eq_some.1 hb
    exact Or.inr ⟨a, b, elements?_eq_some.1 helements, (Option.some.inj hpair).symm⟩
  · rw [hv] at h
    obtain ⟨n, hn, hsingle⟩ := Option.map_eq_some_iff.1 h
    exact Or.inl ⟨n, integer?_eq_some.1 hn, hsingle.symm⟩

/-- An element of a range list is read as an item that spans what the element spans, and an end of
the item fails a test where a named integer does. -/
theorem IsElement.item? {v : Value} (h : v.IsElement) :
    ∃ item, v.item? = some item ∧ v.span? = some item.ends
      ∧ ∀ test : Int → Bool, [item.ends.1, item.ends.2].find? test = v.named.find? test := by
  cases h with
  | integer n =>
      refine ⟨.single n, rfl, rfl, fun test => ?_⟩
      cases htest : test n <;> simp [Item.ends, named, htest]
  | list first last => exact ⟨.pair first last, rfl, rfl, fun _ => rfl⟩
  | tuple first last => exact ⟨.pair first last, rfl, rfl, fun _ => rfl⟩

theorem isElement_of_item? {v : Value} {item : Item Int} (h : v.item? = some item) :
    v.IsElement := by
  rcases item?_eq_some h with ⟨n, rfl, -⟩ | ⟨first, last, rfl | rfl, -⟩
  · exact .integer n
  · exact .list first last
  · exact .tuple first last

theorem isWellFormed_iff {v : Value} : v.isWellFormed = true ↔ v.IsElement := by
  constructor
  · intro h
    obtain ⟨item, hitem⟩ := Option.isSome_iff_exists.1 h
    exact isElement_of_item? hitem
  · intro h
    obtain ⟨item, hitem, -⟩ := h.item?
    rw [isWellFormed, hitem]
    rfl

theorem isElement_of_span? {v : Value} {ends : Int × Int} (h : v.span? = some ends) :
    v.IsElement := by
  unfold span? at h
  split at h
  · exact .integer _
  · exact .list _ _
  · exact .tuple _ _
  · cases h

theorem span?_eq_some {v : Value} {ends : Int × Int} :
    v.span? = some ends ↔ ∃ item, v.item? = some item ∧ item.ends = ends := by
  constructor
  · intro h
    obtain ⟨item, hitem, hspan, -⟩ := (isElement_of_span? h).item?
    exact ⟨item, hitem, Option.some.inj (hspan.symm.trans h)⟩
  · rintro ⟨item, hitem, rfl⟩
    obtain ⟨item', hitem', hspan, -⟩ := (isElement_of_item? hitem).item?
    obtain rfl := Option.some.inj (hitem.symm.trans hitem')
    exact hspan

/-- The ends of the items, in order, fail a test where the named integers do. -/
theorem find?_ends {elements : List Value} (h : ∀ e ∈ elements, e.IsElement) (test : Int → Bool) :
    ((elements.filterMap item?).flatMap fun item => [item.ends.1, item.ends.2]).find? test
      = (elements.flatMap named).find? test := by
  induction elements with
  | nil => rfl
  | cons e elements ih =>
      obtain ⟨item, hitem, -, hends⟩ := (h e List.mem_cons_self).item?
      rw [List.filterMap_cons_some hitem, List.flatMap_cons, List.flatMap_cons, List.find?_append,
        List.find?_append, hends, ih fun e he => h e (List.mem_cons_of_mem _ he)]

/-- The items of the well-formed elements mention what the elements span. -/
theorem mem_expand_items {elements : List Value} {x : Int} :
    x ∈ RangeList.expand (elements.filterMap item?) ↔
      ∃ e ∈ elements, ∃ first last, e.span? = some (first, last) ∧ first ≤ x ∧ x ≤ last := by
  rw [RangeList.mem_expand]
  constructor
  · rintro ⟨item, hitem, hx⟩
    obtain ⟨e, he, hread⟩ := List.mem_filterMap.1 hitem
    exact ⟨e, he, _, _, span?_eq_some.2 ⟨item, hread, rfl⟩, hx⟩
  · rintro ⟨e, he, first, last, hspan, hx⟩
    obtain ⟨item, hread, hends⟩ := span?_eq_some.1 hspan
    refine ⟨item, List.mem_filterMap.2 ⟨e, he, hread⟩, ?_⟩
    rw [hends]
    exact hx

end Repertoire.Value
