import Repertoire.Proofs.Pattern.Language

/-!
# Where the signs of a pattern stand

The brackets of a class and the bar between alternatives are no part of a token, whatever integer it
is the token of (`not_isSign_of_mem_encode`). So the brackets of a class stand around it and nowhere
else, and there are no bars in it. A pattern is therefore cut into its alternatives at the bars
(`splitOn_ofPoints`). None of this asks for the integers to be code points.
-/

namespace Repertoire

/-- Is this a bracket or a bar? A hyphen does not count: below `-0xF000` it can be the minus of an
escape. -/
def IsSign (c : CodePoint) : Prop :=
  c = ('[' : CodePoint) ∨ c = (']' : CodePoint) ∨ c = ('|' : CodePoint)

instance : DecidablePred IsSign := fun _ => inferInstanceAs (Decidable (_ ∨ _ ∨ _))

/-! ## Tokens -/

namespace Token

theorem not_isSafe_of_isSign {c : CodePoint} (h : IsSign c) : isSafe (c.val : Int) = false := by
  rcases h with rfl | rfl | rfl <;> decide

theorem not_isSign_of_mem_escape {u : Int} {c : CodePoint} (h : c ∈ escape u) : ¬ IsSign c := by
  have hdigit : ∀ d : Fin 16, ¬ IsSign (Hex.digit d) := by decide
  rcases List.mem_cons.1 h with rfl | h
  · decide
  · rcases List.mem_cons.1 h with rfl | h
    · decide
    · rcases Hex.mem_signed (List.mem_of_mem_drop h) with rfl | ⟨d, rfl⟩
      · decide
      · exact hdigit d

theorem not_isSign_of_mem_encode {n : Int} {c : CodePoint} (h : c ∈ encode n) : ¬ IsSign c := by
  fun_induction encode n with
  | case1 n hsafe =>
      intro hsign
      have hval : ((Fin.ofNat 0x110000 n.toNat).val : Int) = n := by
        simp only [isSafe, Bool.or_eq_true, Bool.and_eq_true, decide_eq_true_eq] at hsafe
        rw [Fin.val_ofNat]
        omega
      have hnot := not_isSafe_of_isSign hsign
      rw [List.mem_singleton.1 h, hval, hsafe] at hnot
      cases hnot
  | case2 n _ _ => exact not_isSign_of_mem_escape h
  | case3 n _ _ ih =>
      rcases List.mem_append.1 h with hhigh | hlow
      · exact ih hhigh
      · exact not_isSign_of_mem_escape hlow

theorem encode_ne_nil (n : Int) : encode n ≠ [] := by
  fun_induction encode n with
  | case1 n _ => exact List.cons_ne_nil _ _
  | case2 n _ _ => exact List.cons_ne_nil _ _
  | case3 n _ _ ih => exact List.append_ne_nil_of_left_ne_nil ih _

end Token

namespace Pattern

/-! ## Classes -/

variable {items : RangeList} {c : CodePoint}

theorem not_isSign_of_mem_itemText {item : Item Int} (h : c ∈ itemText item) : ¬ IsSign c := by
  cases item with
  | single a => exact Token.not_isSign_of_mem_encode h
  | pair first last =>
      rcases List.mem_append.1 h with hfirst | hrest
      · exact Token.not_isSign_of_mem_encode hfirst
      · rcases List.mem_cons.1 hrest with rfl | hlast
        · decide
        · exact Token.not_isSign_of_mem_encode hlast

theorem not_isSign_of_mem_itemTexts (h : c ∈ items.flatMap itemText) : ¬ IsSign c := by
  obtain ⟨item, -, hc⟩ := List.mem_flatMap.1 h
  exact not_isSign_of_mem_itemText hc

theorem bar_not_mem_classText (items : RangeList) : ('|' : CodePoint) ∉ classText items := by
  have hsign : IsSign ('|' : CodePoint) := Or.inr (Or.inr rfl)
  have hne : ('|' : CodePoint) ≠ ('[' : CodePoint) ∧ ('|' : CodePoint) ≠ (']' : CodePoint) := by
    decide
  intro h
  unfold classText at h
  split at h
  · cases h
  · exact Token.not_isSign_of_mem_encode h hsign
  · rcases List.mem_append.1 h with h | hclosing
    · have hitems := List.mem_of_ne_of_mem hne.1 h
      exact not_isSign_of_mem_itemTexts hitems hsign
    · exact hne.2 (List.mem_singleton.1 hclosing)

/-! ## Alternatives -/

theorem rows_ne_nil {points : List Int} (hne : points ≠ []) : rows points ≠ [] := by
  obtain ⟨c, hc⟩ := List.exists_mem_of_ne_nil _ hne
  obtain ⟨row, hrow, -⟩ := exists_row_of_mem hc
  exact List.ne_nil_of_mem hrow

/-- The bars of a pattern stand between its alternatives. -/
theorem splitOn_ofPoints {points : List Int} (hne : points ≠ []) :
    (ofPoints points).splitOn ('|' : CodePoint) = alternatives (partition points) := by
  refine List.splitOn_intercalate _ ?_ ?_
  · intro alternative halternative hbar
    rw [alternatives_eq] at halternative
    obtain ⟨classes, -, rfl⟩ := List.mem_map.1 halternative
    obtain ⟨items, -, hbar⟩ := List.mem_flatMap.1 hbar
    exact bar_not_mem_classText items hbar
  · rw [alternatives_eq]
    simpa using rows_ne_nil hne

end Pattern

end Repertoire
