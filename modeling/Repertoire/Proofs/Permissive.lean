import Repertoire.Proofs.Agreement

/-!
# What the permissive reading takes in

The permissive reading keeps the well-formed elements of a list or tuple and expands them. Of such
an element only the two ends matter: they say which integers it covers, and whether these can be
counted (`isTooLong_iff`). What covers nothing is never too long. So the reading depends on nothing
but which covering elements there are, in whatever order and however often (`ofValue_list_congr`),
and two lists one after the other make the union (`ofValue_list_append`). The one thing that can go
wrong is a pair that is too long to be counted.
-/

namespace Repertoire

/-- A single integer counts one, and a pair counts what is between its ends. -/
theorem Item.length_eq (item : Item Int) : item.length = (item.ends.2 - item.ends.1 + 1).toNat := by
  cases item with
  | single a => rw [length, ends]; omega
  | pair first last => rfl

namespace Value

/-! ## Elements that are too long -/

/-- The element covers more integers than can be counted. -/
def IsTooLong (e : Value) : Prop :=
  ∃ first last : Int, e.span? = some (first, last) ∧ lengthLimit < last - first + 1

variable {e : Value}

theorem isTooLong_iff :
    e.IsTooLong ↔ ∃ item, e.item? = some item ∧ lengthLimit < item.length := by
  constructor
  · rintro ⟨first, last, hspan, hlong⟩
    obtain ⟨item, hitem, hends⟩ := span?_eq_some.1 hspan
    refine ⟨item, hitem, ?_⟩
    rw [item.length_eq, hends]
    omega
  · rintro ⟨item, hitem, hlong⟩
    rw [item.length_eq] at hlong
    exact ⟨item.ends.1, item.ends.2, span?_eq_some.2 ⟨item, hitem, rfl⟩, by omega⟩

theorem covers_iff {x : Int} : e.Covers x ↔
    e = .int x
      ∨ ∃ first last, (e = .list [.int first, .int last] ∨ e = .tuple [.int first, .int last])
          ∧ first ≤ x ∧ x ≤ last := by
  constructor
  · rintro ⟨first, last, hspan, hx⟩
    obtain ⟨item, hitem, hends⟩ := span?_eq_some.1 hspan
    rcases item?_eq_some hitem with ⟨n, rfl, rfl⟩ | ⟨first', last', hpair, rfl⟩
    · obtain ⟨rfl, rfl⟩ := Prod.mk.inj hends
      exact Or.inl (congrArg Value.int (by omega))
    · obtain ⟨rfl, rfl⟩ := Prod.mk.inj hends
      exact Or.inr ⟨_, _, hpair, hx⟩
  · rintro (rfl | ⟨first, last, rfl | rfl, hx⟩)
    · exact ⟨x, x, rfl, Int.le_refl x, Int.le_refl x⟩
    · exact ⟨first, last, rfl, hx⟩
    · exact ⟨first, last, rfl, hx⟩

/-- Only a pair in order can be too long. -/
theorem IsTooLong.exists_covers (h : e.IsTooLong) : ∃ x, e.Covers x := by
  obtain ⟨first, last, hspan, hlong⟩ := h
  exact ⟨first, first, last, hspan, Int.le_refl _, by omega⟩

end Value

namespace CodeSet

/-! ## The reading -/

variable {xs ys : List Value}

theorem length_le_iff :
    (∀ item ∈ xs.filterMap Value.item?, item.length ≤ lengthLimit) ↔ ∀ e ∈ xs, ¬ e.IsTooLong := by
  simp only [List.forall_mem_filterMap, Value.isTooLong_iff, not_exists, not_and, Nat.not_lt]

theorem ofValue_list_of_counted (h : ∀ e ∈ xs, ¬ e.IsTooLong) :
    ofValue (.list xs) = .ok (ofItems (xs.filterMap Value.item?)) := by
  rw [ofValue_of_elements rfl]
  exact if_pos (length_le_iff.2 h)

theorem ofValue_list_of_tooLong (h : ∃ e ∈ xs, e.IsTooLong) :
    ofValue (.list xs) = .error .tooLong := by
  rw [ofValue_of_elements rfl]
  refine if_neg fun hlengths => ?_
  obtain ⟨e, he, hlong⟩ := h
  exact length_le_iff.1 hlengths e he hlong

/-- Every element can be counted, or else some element is too long. -/
theorem counted_or_tooLong (xs : List Value) :
    (∀ e ∈ xs, ¬ e.IsTooLong) ∨ ∃ e ∈ xs, e.IsTooLong := by
  by_cases h : ∃ e ∈ xs, e.IsTooLong
  · exact Or.inr h
  · exact Or.inl fun e he hlong => h ⟨e, he, hlong⟩

theorem ofValue_list_eq_ok_iff {s : CodeSet} :
    ofValue (.list xs) = .ok s ↔
      (∀ e ∈ xs, ¬ e.IsTooLong) ∧ s = ofItems (xs.filterMap Value.item?) := by
  rw [ofValue_of_elements rfl, ofRanges_eq_ok_iff, length_le_iff]

theorem ofValue_list_eq_error_iff :
    ofValue (.list xs) = .error .tooLong ↔ ∃ e ∈ xs, e.IsTooLong := by
  refine ⟨fun h => (counted_or_tooLong xs).resolve_left fun hall => ?_, ofValue_list_of_tooLong⟩
  rw [ofValue_list_of_counted hall] at h
  cases h

/-- Neither the order of the elements matters nor how often they stand there, and what covers
nothing may come and go. -/
theorem ofValue_list_congr (h : ∀ e, (∃ x, e.Covers x) → (e ∈ xs ↔ e ∈ ys)) :
    ofValue (.list xs) = ofValue (.list ys) := by
  rcases counted_or_tooLong xs with hxs | ⟨e, he, hlong⟩
  · have hys : ∀ e ∈ ys, ¬ e.IsTooLong := fun e he hlong =>
      hxs e ((h e hlong.exists_covers).2 he) hlong
    rw [ofValue_list_of_counted hxs, ofValue_list_of_counted hys]
    refine congrArg Except.ok (ext_members (fun x => ?_) fun _ => rfl)
    rw [Bool.eq_iff_iff, contains_ofItems_elements, contains_ofItems_elements]
    exact exists_congr fun e => and_congr_left fun hx => h e ⟨x, hx⟩
  · rw [ofValue_list_of_tooLong ⟨e, he, hlong⟩,
      ofValue_list_of_tooLong ⟨e, (h e hlong.exists_covers).1 he, hlong⟩]

/-- Two lists one after the other make the union of the sets that they make by themselves. -/
theorem ofValue_list_append (xs ys : List Value) :
    ofValue (.list (xs ++ ys)) = do
      let s ← ofValue (.list xs)
      let t ← ofValue (.list ys)
      return s.union t := by
  rcases counted_or_tooLong xs with hxs | ⟨e, he, hlong⟩
  · rcases counted_or_tooLong ys with hys | ⟨e, he, hlong⟩
    · rw [ofValue_list_of_counted (List.forall_mem_append.2 ⟨hxs, hys⟩),
        ofValue_list_of_counted hxs, ofValue_list_of_counted hys]
      refine congrArg Except.ok (ext_members (fun x => ?_) fun _ => rfl)
      rw [Bool.eq_iff_iff, contains_union, Bool.or_eq_true, contains_ofItems_elements,
        contains_ofItems_elements, contains_ofItems_elements]
      simp only [List.mem_append, or_and_right, exists_or]
    · rw [ofValue_list_of_tooLong ⟨e, List.mem_append_right _ he, hlong⟩,
        ofValue_list_of_counted hxs, ofValue_list_of_tooLong ⟨e, he, hlong⟩]
      rfl
  · rw [ofValue_list_of_tooLong ⟨e, List.mem_append_left _ he, hlong⟩,
      ofValue_list_of_tooLong ⟨e, he, hlong⟩]
    rfl

/-- **What the permissive reading takes in.** A list and a tuple of the same elements are read the
same. They make a set unless an element covers more integers than can be counted, and then this is
what goes wrong. The members of the set are the integers that the elements cover. So the elements
may change their order, be repeated, or have others between them that cover nothing, and the result
is the same. Two lists one after the other make a set exactly if both make one by themselves, and it
is the union of the two. -/
theorem ofValue_takes_elements (xs : List Value) :
    ofValue (.tuple xs) = ofValue (.list xs)
      ∧ ((∃ s, ofValue (.list xs) = .ok s) ↔ ∀ e ∈ xs, ¬ e.IsTooLong)
      ∧ (ofValue (.list xs) = .error .tooLong ↔ ∃ e ∈ xs, e.IsTooLong)
      ∧ (∀ s, ofValue (.list xs) = .ok s →
          ∀ x, s.contains x = true ↔ ∃ e ∈ xs, e.Covers x)
      ∧ (∀ ys, (∀ e, (∃ x, e.Covers x) → (e ∈ xs ↔ e ∈ ys)) →
          ofValue (.list xs) = ofValue (.list ys))
      ∧ ∀ ys s, ofValue (.list (xs ++ ys)) = .ok s ↔
          ∃ a b, ofValue (.list xs) = .ok a ∧ ofValue (.list ys) = .ok b ∧ s = a.union b := by
  refine ⟨rfl, ?_, ofValue_list_eq_error_iff, fun s hs x => ?_, fun ys h => ofValue_list_congr h,
    fun ys s => ?_⟩
  · simp only [ofValue_list_eq_ok_iff, exists_and_left, exists_eq, and_true]
  · obtain ⟨-, rfl⟩ := ofValue_list_eq_ok_iff.1 hs
    exact contains_ofItems_elements
  · rw [ofValue_list_append]
    cases ofValue (.list xs) with
    | error error => exact ⟨nofun, nofun⟩
    | ok a =>
        cases ofValue (.list ys) with
        | error error => exact ⟨nofun, nofun⟩
        | ok b =>
            refine ⟨fun h => ⟨a, b, rfl, rfl, (Except.ok.inj h).symm⟩, ?_⟩
            rintro ⟨_, _, ⟨⟩, ⟨⟩, rfl⟩
            rfl

/-- The elements stand the other way round, one of them twice, and two others between them. -/
theorem ofValue_takes_elements_mixed :
    ∃ s, ofValue (.list [.int 4, .tuple [.int 1, .int 2]]) = .ok s
      ∧ ofValue (.list
          [.tuple [.int 1, .int 2], .bool true, .int 4, .list [.int 9, .int 2], .int 4]) = .ok s
      ∧ s.contains 1 = true ∧ s.contains 9 = false := by
  have hsame : ∀ e : Value, (∃ x, e.Covers x) →
      (e ∈ [Value.int 4, .tuple [.int 1, .int 2]] ↔
        e ∈ [Value.tuple [.int 1, .int 2], .bool true, .int 4, .list [.int 9, .int 2],
          .int 4]) := by
    rintro e ⟨x, first, last, hspan, hfirst, hlast⟩
    have hbool : e ≠ .bool true := by
      rintro rfl
      cases hspan
    have hreversed : e ≠ .list [.int 9, .int 2] := by
      rintro rfl
      cases hspan
      omega
    simp only [List.mem_cons, List.not_mem_nil, hbool, hreversed]
    tauto
  obtain ⟨-, -, -, hmembers, hcongr, -⟩ :=
    ofValue_takes_elements [.int 4, .tuple [.int 1, .int 2]]
  have hmade : ofValue (.list [.int 4, .tuple [.int 1, .int 2]])
      = .ok (ofItems [.single 4, .pair 1 2]) := rfl
  have hmembers := hmembers _ hmade
  refine ⟨_, hmade, (hcongr _ hsame).symm.trans hmade, ?_, ?_⟩
  · rw [hmembers]
    have hpair : Value.tuple [.int 1, .int 2] ∈ [Value.int 4, .tuple [.int 1, .int 2]] :=
      List.mem_cons_of_mem _ List.mem_cons_self
    exact ⟨_, hpair, 1, 2, rfl, by omega⟩
  · rw [← Bool.not_eq_true, hmembers]
    simp [Value.covers_iff]

/-- A pair of integers in order, and nothing else, need not give a set. -/
theorem ofValue_pair_tooLong :
    ofValue (.list [.list [.int 0, .int 0x7FFFFFFFFFFFFFFF]]) = .error .tooLong
      ∧ (Value.list [.int 0, .int 0x7FFFFFFFFFFFFFFF]).Covers 0 :=
  ⟨rfl, 0, 0x7FFFFFFFFFFFFFFF, rfl, by omega, by omega⟩

end CodeSet

end Repertoire
