import Repertoire.Proofs.Strict
import Repertoire.Proofs.Text.Units

/-!
# Where the two readings agree

The strict reading looks at the two ends of every element, and the generous one goes on to expand the
elements to all that they mention. What lies between two ends in bounds is in bounds, and its length
can be counted. So the generous reading has nothing to object to where the strict one
had nothing, and both make the same set (`strict_agrees_with_ofValue`).
-/

namespace Repertoire

/-! ## Items in bounds -/

theorem Item.InBounds.length_le {item : Item Int} (h : item.InBounds) :
    item.length ≤ lengthLimit := by
  have hlimit : lengthLimit = 0x7FFFFFFFFFFFFFFF := rfl
  obtain ⟨hfirst, hlast⟩ := h
  cases item with
  | single a =>
      rw [length]
      omega
  | pair first last =>
      simp only [ends] at hfirst hlast
      rw [length]
      omega

theorem RangeList.bounds_of_mem_expand {items : RangeList} (h : ∀ item ∈ items, item.InBounds)
    {x : Int} (hx : x ∈ items.expand) : 0 ≤ x ∧ x ≤ 0x10FFFF := by
  obtain ⟨item, hitem, hfirst, hlast⟩ := mem_expand.1 hx
  have hbounds := h item hitem
  exact ⟨hbounds.1.1.trans hfirst, hlast.trans hbounds.2.2⟩

/-! ## Expanding well-formed elements -/

namespace Value

theorem mentioned_of_item? {v : Value} {item : Item Int} (h : v.item? = some item)
    (hlength : item.length ≤ lengthLimit) : v.mentioned = .ok (item.points.map .int) := by
  rcases item?_eq_some h with ⟨n, rfl, rfl⟩ | ⟨first, last, hv, rfl⟩
  · rfl
  · have hrange : range (some first) (some last) = .ok (interval first last) := by
      rw [range, if_pos hlength]
    rcases hv with rfl | rfl
    all_goals
      show (range (some first) (some last)).map _ = _
      rw [hrange]
      rfl

/-- Well-formed elements that can be counted are expanded to the integers that their items
mention. -/
theorem expand_of_isElement {elements : List Value} (hall : ∀ e ∈ elements, e.IsElement)
    (hlengths : ∀ item ∈ elements.filterMap item?, item.length ≤ lengthLimit) :
    expand elements = .ok ((RangeList.expand (elements.filterMap item?)).map .int) := by
  have hmentioned : elements.mapM mentioned
      = .ok ((elements.filterMap item?).map fun item => item.points.map .int) := by
    induction elements with
    | nil => rfl
    | cons e elements ih =>
        obtain ⟨item, hitem, -⟩ := (hall e List.mem_cons_self).item?
        rw [List.filterMap_cons_some hitem, List.forall_mem_cons] at hlengths
        rw [List.mapM_cons, mentioned_of_item? hitem hlengths.1,
          ih (fun e he => hall e (List.mem_cons_of_mem _ he)) hlengths.2,
          List.filterMap_cons_some hitem]
        rfl
  rw [expand, hmentioned, RangeList.expand, List.map_flatMap, List.flatMap_def]
  rfl

end Value

namespace CodeSet

theorem ofRanges_eq_ok_iff {items : RangeList} {s : CodeSet} :
    ofRanges items = .ok s ↔ (∀ item ∈ items, item.length ≤ lengthLimit) ∧ s = ofItems items := by
  rw [ofRanges]
  split <;> simp_all [eq_comm]

theorem ofValue_of_elements {v : Value} {elements : List Value}
    (h : v.elements? = some elements) :
    ofValue v = ofRanges (elements.filterMap Value.item?) := by
  rcases Value.elements?_eq_some.1 h with rfl | rfl <;> rfl

/-- **Where the two readings agree.** A value that the strict reading takes is taken by the generous
reading as well, which makes the same set of it, and all members are code points. In a list or tuple
only the ends of the elements were looked at; this was enough to expand the elements and to bound
all that they are expanded to. In a text nothing was looked at; whatever the text is decoded to is
in bounds. -/
theorem strict_agrees_with_ofValue {v : Value} {s : CodeSet} (h : strict v = .ok s) :
    ofValue v = .ok s
      ∧ (∀ x, s.contains x = true → 0 ≤ x ∧ x ≤ 0x10FFFF)
      ∧ (∀ elements, v.elements? = some elements → ∃ points : List Int,
          Value.expand elements = .ok (points.map .int)
            ∧ (∀ x, s.contains x = true ↔ x ∈ points)
            ∧ ∀ x ∈ points, 0 ≤ x ∧ x ≤ 0x10FFFF)
      ∧ ∀ t, v = .text t →
          (∀ x, s.contains x = true ↔ x ∈ t.decode) ∧ ∀ x ∈ t.decode, 0 ≤ x ∧ x ≤ 0x10FFFF := by
  cases helements : v.elements? with
  | some elements =>
      obtain ⟨hall, hbounds, rfl⟩ := (strict_elements_eq_ok_iff helements).1 h
      have hlengths := fun item hitem => (hbounds item hitem).length_le
      have hmember : ∀ x, (ofItems (elements.filterMap Value.item?)).contains x = true ↔
          x ∈ RangeList.expand (elements.filterMap Value.item?) :=
        Extent.contains_ofItems _
      have hexpand : ∀ x ∈ RangeList.expand (elements.filterMap Value.item?),
          0 ≤ x ∧ x ≤ 0x10FFFF := fun x => RangeList.bounds_of_mem_expand hbounds
      refine ⟨?_, fun x hx => hexpand x ((hmember x).1 hx), ?_, ?_⟩
      · rw [ofValue_of_elements helements]
        exact ofRanges_eq_ok_iff.2 ⟨hlengths, rfl⟩
      · rintro _ ⟨⟩
        exact ⟨_, Value.expand_of_isElement hall hlengths, hmember, hexpand⟩
      · rintro t rfl
        cases helements
  | none =>
      cases v with
      | text t =>
          obtain rfl := Except.ok.inj h
          have hmember : ∀ x, (ofText t).contains x = true ↔ x ∈ t.decode :=
            fun x => contains_ofList
          have hdecode := decodeUnits_bounds (units_bounds t)
          refine ⟨rfl, fun x hx => hdecode x ((hmember x).1 hx), nofun, ?_⟩
          rintro _ ⟨⟩
          exact ⟨hmember, hdecode⟩
      | int n =>
          obtain ⟨hn, rfl⟩ := strict_int_eq_ok.1 h
          refine ⟨rfl, fun x hx => ?_, nofun, nofun⟩
          rw [contains_ofList, List.mem_singleton] at hx
          rwa [hx]
      | list items => cases helements
      | tuple items => cases helements
      | _ => cases h

/-- The last two code points, a single one, and a reversed pair, which mentions nothing. -/
theorem strict_agrees_with_ofValue_extremes :
    strict (.tuple [.list [.int 0x10FFFE, .int 0x10FFFF], .int 0, .tuple [.int 9, .int 2]])
        = .ok (ofItems [.pair 0x10FFFE 0x10FFFF, .single 0, .pair 9 2])
      ∧ ofValue (.tuple [.list [.int 0x10FFFE, .int 0x10FFFF], .int 0, .tuple [.int 9, .int 2]])
        = .ok (ofItems [.pair 0x10FFFE 0x10FFFF, .single 0, .pair 9 2])
      ∧ ∀ x, (ofItems [.pair 0x10FFFE 0x10FFFF, .single 0, .pair 9 2]).contains x = true →
          0 ≤ x ∧ x ≤ 0x10FFFF := by
  have hstrict :
      strict (.tuple [.list [.int 0x10FFFE, .int 0x10FFFF], .int 0, .tuple [.int 9, .int 2]])
        = .ok (ofItems [.pair 0x10FFFE 0x10FFFF, .single 0, .pair 9 2]) := rfl
  obtain ⟨hofValue, hbounds, -⟩ := strict_agrees_with_ofValue hstrict
  exact ⟨hstrict, hofValue, hbounds⟩

end CodeSet

end Repertoire
