import Repertoire.Proofs.Rebuilding

/-!
# Expanding what was compressed

Compressing only cuts a list into runs; it neither sorts nor leaves anything out. So expanding gives
the list back, whatever its order is and however often an integer stands in it. Values are expanded
one by one, and a pair is taken only if its integers can be counted. What comes of a range list
that is written as values therefore depends on its longest pair alone (`expand_itemValues`), and no
pair of a compressed list is longer than the list.
-/

namespace Repertoire

/-! ## Range lists as values -/

namespace Value

theorem mentioned_itemValue (item : Item Int) :
    (CodeSet.itemValue item).mentioned
      = if item.length ≤ lengthLimit then .ok (item.points.map .int)
        else .error (.capacity .tooLong) := by
  cases item with
  | single c => exact (if_pos (show 1 ≤ lengthLimit by decide)).symm
  | pair first last =>
      show (range (some first) (some last)).map _ = _
      rw [range]
      split <;> rfl

theorem expand_cons (v : Value) (elements : List Value) :
    expand (v :: elements) = do
      let front ← v.mentioned
      let back ← expand elements
      return front ++ back := by
  rw [expand, expand, List.mapM_cons]
  cases v.mentioned with
  | error error => rfl
  | ok front => cases elements.mapM mentioned <;> rfl

/-- Values that write a range list are expanded to what the range list mentions, unless one of its
pairs is too long. -/
theorem expand_itemValues (items : RangeList) :
    expand (items.map CodeSet.itemValue)
      = if ∀ item ∈ items, item.length ≤ lengthLimit then .ok (items.expand.map .int)
        else .error (.capacity .tooLong) := by
  induction items with
  | nil => rfl
  | cons item items ih =>
      have hcons : (∀ i ∈ item :: items, i.length ≤ lengthLimit) ↔
          item.length ≤ lengthLimit ∧ ∀ i ∈ items, i.length ≤ lengthLimit := List.forall_mem_cons
      have hjoin : (RangeList.expand (item :: items)).map Value.int
          = item.points.map .int ++ (RangeList.expand items).map .int := List.map_append
      rw [List.map_cons, expand_cons, mentioned_itemValue, ih, hjoin]
      by_cases hitem : item.length ≤ lengthLimit
      · by_cases hitems : ∀ i ∈ items, i.length ≤ lengthLimit
        · rw [if_pos hitem, if_pos hitems, if_pos (hcons.2 ⟨hitem, hitems⟩)]
          rfl
        · rw [if_pos hitem, if_neg hitems, if_neg (mt (fun h => (hcons.1 h).2) hitems)]
          rfl
      · rw [if_neg hitem, if_neg (mt (fun h => (hcons.1 h).1) hitem)]
        rfl

theorem expand_itemValues_eq_ok_iff {items : RangeList} {values : List Value} :
    expand (items.map CodeSet.itemValue) = .ok values ↔
      (∀ item ∈ items, item.length ≤ lengthLimit) ∧ values = items.expand.map .int := by
  rw [expand_itemValues]
  split <;> simp_all [eq_comm]

end Value

/-! ## Compressed lists -/

namespace RangeList

/-- **Compressing loses nothing.** Take integers in any order, some of them more than once. Their
range list expands to the same integers in the same order. As values, too, the items are expanded to
them, exactly if each pair can be counted; and no pair is longer than the list. -/
theorem compress_is_lossless (points : List Int) :
    (compress points).expand = points
      ∧ (Value.expand ((compress points).map CodeSet.itemValue) = .ok (points.map .int) ↔
          ∀ item ∈ compress points, item.length ≤ lengthLimit)
      ∧ ∀ item ∈ compress points, item.length ≤ points.length := by
  refine ⟨expand_compress points, ?_, fun item => length_le_of_mem_compress⟩
  rw [Value.expand_itemValues_eq_ok_iff, expand_compress, and_iff_left rfl]

/-- A descent, a repetition, and a run of two, which stays as it is. -/
example :
    compress [7, 8, 3, 4, 5, 5, 9]
      = [.single 7, .single 8, .pair 3 5, .single 5, .single 9] := by
  decide

end RangeList

end Repertoire
