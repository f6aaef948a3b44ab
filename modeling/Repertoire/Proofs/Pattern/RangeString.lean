import Repertoire.Export
import Repertoire.Proofs.Pattern.Groups
import Repertoire.Proofs.Pattern.Signs
import Repertoire.Proofs.Pattern.Spelling

/-!
# When a pattern is one class

A set has two texts that are made of the same classes. Its range string is the class of all members;
its pattern keeps the members above `0xFFFF` apart. Without such members the pattern is that class
as well (`ofPoints_of_le`), and a single member has the same token in both (`ofPoints_singleton`).
From two members on the range string has brackets around it, and an alternative of two classes has
no such brackets: the one that closes the first class, or the token in its place, would stand inside
(`classText_append_ne`). So the two texts differ as soon as there are two alternatives, or one of
two classes (`regexp_eq_rangeString_iff`).
-/

namespace Repertoire

namespace RangeList

theorem compress_singleton (c : Int) : compress [c] = [.single c] := by
  rw [compress, List.splitBy]
  rfl

end RangeList

namespace Pattern

variable {points : List Int}

/-! ## One class -/

theorem classOf_of_toList {s : Extent} (h : s.toList = points) :
    classOf s = classText (RangeList.compress points) := by
  rw [classOf, h]

theorem classOf_of_isEmpty {s : Extent} (h : s.isEmpty = true) : classOf s = [] := by
  rw [classOf_of_toList ((Extent.isEmpty_iff_toList s).1 h)]
  rfl

theorem classOf_singleton (u : Int) : classOf (Extent.ofList [u]) = Token.encode u := by
  have htoList : (Extent.ofList [u]).toList = [u] :=
    List.Pairwise.eq_of_mem_iff (Extent.toList_ascending _) (List.pairwise_singleton _ _) fun x => by
      rw [Extent.mem_toList, Extent.contains_ofList]
  rw [classOf_of_toList htoList, RangeList.compress_singleton]
  rfl

theorem rangeString_of_ascending (h : points.Pairwise (· < ·)) :
    rangeString points = classText (RangeList.compress points) := by
  rw [rangeString, mergeSort_of_ascending h]

/-- Without integers above `0xFFFF` a pattern is the class of them all. -/
theorem ofPoints_of_le (hascending : points.Pairwise (· < ·)) (h : ∀ c ∈ points, c ≤ 0xFFFF) :
    ofPoints points = classText (RangeList.compress points) := by
  have hall : points.filter (· ≤ 0xFFFF) = points :=
    List.filter_eq_self.2 fun c hc => decide_eq_true (h c hc)
  have hnone : pairsOf points = [] := by
    rw [pairsOf, List.filter_eq_nil_iff.2 fun c hc => by simpa using h c hc, List.map_nil]
  have hbmp : (partition points).bmp.toList = points := by rw [toList_bmp hascending, hall]
  have hbyHigh : (partition points).byHigh = [] := by rw [byHigh_partition, hnone]; rfl
  rw [← classOf_of_toList hbmp, ofPoints, alternatives_partition, hbyHigh]
  by_cases hempty : (partition points).bmp.isEmpty = true
  · rw [if_pos hempty, classOf_of_isEmpty hempty]
    rfl
  · rw [if_neg hempty]
    exact List.intercalate_singleton

/-- An integer above `0xFFFF` by itself is written as its token, through both of its surrogates. -/
theorem ofPoints_singleton {c : Int} (h : 0xFFFF < c) : ofPoints [c] = Token.encode c := by
  have hbmp : [c].filter (· ≤ 0xFFFF) = [] :=
    List.filter_eq_nil_iff.2 fun d hd => by rw [List.mem_singleton.1 hd]; simpa using h
  have habove : [c].filter (0xFFFF < ·) = [c] :=
    List.filter_eq_self.2 fun d hd => by rw [List.mem_singleton.1 hd]; simpa using h
  have hbyHigh : (partition [c]).byHigh
      = [(Surrogate.high c, Extent.ofList [Surrogate.low c])] := by
    rw [byHigh_partition, pairsOf, habove]
    rfl
  have hnone : (partition [c]).bmp = ∅ := by
    rw [partition, filter_not_isLone, hbmp, Extent.ofList_nil]
  have halternatives : alternatives (partition [c])
      = [classOf (Extent.ofList [Surrogate.high c])
          ++ classOf (Extent.ofList [Surrogate.low c])] := by
    rw [alternatives_partition, hnone, hbyHigh]
    rfl
  rw [ofPoints, halternatives, List.intercalate_singleton, classOf_singleton, classOf_singleton,
    ← encode_of_lt h]

/-! ## More than one class -/

section Brackets

variable {items highs lows : RangeList}

theorem classText_ne_nil (hne : items ≠ []) : classText items ≠ [] := by
  rcases single_or_bracketed items with ⟨c, rfl⟩ | hbrackets
  · exact Token.encode_ne_nil c
  · rw [classText_of_bracketed hne hbrackets]
    exact List.append_ne_nil_of_right_ne_nil _ (List.cons_ne_nil _ _)

/-- Nothing but a class of its own stands between the brackets of a class. -/
theorem classText_append_ne (hitems : items ≠ []) (hbrackets : Bracketed items)
    (hhighs : highs ≠ []) (hlows : lows ≠ []) :
    classText highs ++ classText lows ≠ classText items := by
  have hdistinct : (']' : CodePoint) ≠ ('[' : CodePoint) := by decide
  intro h
  rw [classText_of_bracketed hitems hbrackets] at h
  rcases single_or_bracketed highs with ⟨c, rfl⟩ | hbrackets'
  · -- The token would begin with the opening bracket.
    obtain ⟨first, rest, hencode⟩ := List.exists_cons_of_ne_nil (Token.encode_ne_nil c)
    have hfirst : first = ('[' : CodePoint) := by
      rw [classText, hencode] at h
      exact (List.cons.inj h).1
    have hmem : first ∈ Token.encode c := hencode ▸ List.mem_cons_self
    exact Token.not_isSign_of_mem_encode hmem (Or.inl hfirst)
  · -- A bracket would be closed before the end.
    have hfront := congrArg List.dropLast h
    rw [List.dropLast_append_of_ne_nil (classText_ne_nil hlows), List.dropLast_concat,
      classText_of_bracketed hhighs hbrackets'] at hfront
    have hmem : (']' : CodePoint) ∈ ('[' : CodePoint) :: items.flatMap itemText := by
      rw [← hfront]
      exact List.mem_append_left _ (List.mem_append_right _ (List.mem_singleton_self _))
    have hinside := List.mem_of_ne_of_mem hdistinct hmem
    exact not_isSign_of_mem_itemTexts hinside (Or.inr (Or.inl rfl))

end Brackets

/-- An integer above `0xFFFF` has an alternative of two classes. -/
theorem exists_alternative_of_lt {c : Int} (hmem : c ∈ points) (hc : 0xFFFF < c) :
    ∃ highs lows : RangeList, highs ≠ [] ∧ lows ≠ []
      ∧ classText highs ++ classText lows ∈ alternatives (partition points) := by
  obtain ⟨lows, highs, hgroup, hhigh, hlow⟩ := (mem_iff_exists_group hc).1 hmem
  refine ⟨itemsOf highs, itemsOf lows, (isClass_itemsOf hhigh).inhabited,
    (isClass_itemsOf hlow).inhabited, ?_⟩
  rw [alternatives_eq, List.map_map]
  refine List.mem_map.2 ⟨[highs, lows], mem_rows.2 (Or.inr ⟨lows, highs, hgroup, rfl⟩), ?_⟩
  simp [alternativeText]

theorem ofPoints_ne_classText {c : Int} (hmem : c ∈ points) (hc : 0xFFFF < c)
    (hlength : 1 < points.length) : ofPoints points ≠ classText (RangeList.compress points) := by
  have hexpand := RangeList.expand_compress points
  have hitems : RangeList.compress points ≠ [] := fun hnil => by
    rw [hnil] at hexpand
    exact List.ne_nil_of_mem hmem hexpand.symm
  have hbrackets : Bracketed (RangeList.compress points) := fun d hsingle => by
    rw [hsingle] at hexpand
    rw [← hexpand] at hlength
    exact Nat.lt_irrefl 1 hlength
  intro h
  have hsplit := congrArg (List.splitOn ('|' : CodePoint)) h
  rw [splitOn_ofPoints (List.ne_nil_of_mem hmem),
    List.splitOn_eq_singleton (bar_not_mem_classText _)] at hsplit
  obtain ⟨highs, lows, hhighs, hlows, halternative⟩ := exists_alternative_of_lt hmem hc
  rw [hsplit] at halternative
  exact classText_append_ne hitems hbrackets hhighs hlows (List.mem_singleton.1 halternative)

end Pattern

namespace CodeSet

/-- **When the pattern of a set is its range string.** It is so for the sets without members above
`0xFFFF` and for the sets with one member at most, and for no other set. -/
theorem regexp_eq_rangeString_iff (s : CodeSet) :
    s.regexp = s.rangeString ↔ (∀ c, s.contains c = true → c ≤ 0xFFFF) ∨ s.size ≤ 1 := by
  have hascending : s.toList.Pairwise (· < ·) := s.members.toList_ascending
  have hsize : s.toList.length = s.size := s.members.length_toList
  rw [regexp, rangeString, Pattern.rangeString_of_ascending hascending]
  constructor
  · intro h
    by_contra hnot
    push Not at hnot
    obtain ⟨⟨c, hc, habove⟩, hmany⟩ := hnot
    rw [← hsize] at hmany
    exact Pattern.ofPoints_ne_classText ((s.mem_toList c).2 hc) habove hmany h
  · intro h
    by_cases hunits : ∀ c, s.contains c = true → c ≤ 0xFFFF
    · exact Pattern.ofPoints_of_le hascending fun c hc => hunits c ((s.mem_toList c).1 hc)
    · obtain ⟨c, hc, habove⟩ : ∃ c, s.contains c = true ∧ 0xFFFF < c := by
        simpa using hunits
      have hone : s.toList.length ≤ 1 := hsize.le.trans (h.resolve_left hunits)
      have hsingle : s.toList = [c] := by
        obtain ⟨d, hd⟩ := List.length_eq_one_iff.1
          (Nat.le_antisymm hone (List.length_pos_of_mem ((s.mem_toList c).2 hc)))
        have hmem := (s.mem_toList c).2 hc
        rw [hd, List.mem_singleton] at hmem
        rw [hd, hmem]
      rw [hsingle, Pattern.ofPoints_singleton habove, RangeList.compress_singleton]
      rfl

end CodeSet

end Repertoire
