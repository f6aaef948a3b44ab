import Mathlib.Data.Int.LeastGreatest
import Mathlib.Order.Bounds.Defs
import Repertoire.Export
import Repertoire.Proofs.CodeSet
import Repertoire.Proofs.Lists
import Repertoire.Proofs.Pattern.Spelling
import Repertoire.Proofs.Text.Units

/-!
# Tokens in a row

Written out as its tokens, a set is a row of units without anything in between, and the units can be
read again (`unescape?_encode`). Code points can not always: a high surrogate directly before a low
one is merged with it. In ascending order this happens in one place at most, between the greatest of
the high surrogates and the least of the low ones, and nothing is in between if both are there. What
decoding yields has nothing left to merge, so it is found by taking the merged code point for the two
(`decodeUnits_of_isPair`).
-/

namespace Repertoire

/-! ## Reading tokens -/

namespace Pattern

theorem read?_encodes : ∀ {us : List Int}, (∀ u ∈ us, 0 ≤ u ∧ u ≤ 0xFFFF) →
    Lexeme.read? (us.flatMap Token.encode) = some (us.map Lexeme.unit)
  | [], _ => rfl
  | u :: us, h => by
      obtain ⟨hu, hus⟩ := List.forall_mem_cons.1 h
      rw [List.flatMap_cons, Lexeme.read?_encode hu.1 hu.2, read?_encodes hus]
      rfl

theorem mapM_unit? (us : List Int) : (us.map Lexeme.unit).mapM Lexeme.unit? = some us := by
  induction us with
  | nil => rfl
  | cons u us ih =>
      rw [List.map_cons, List.mapM_cons, ih]
      rfl

/-- The tokens of code points are read as the units of the code points. -/
theorem unescape?_encode {points : List Int} (hbounds : ∀ c ∈ points, 0 ≤ c ∧ c ≤ 0x10FFFF) :
    unescape? (points.flatMap Token.encode) = some (points.flatMap utf16) := by
  have htokens : points.flatMap Token.encode = (points.flatMap utf16).flatMap Token.encode := by
    rw [List.flatMap_assoc]
    exact List.flatMap_congr fun c _ => (flatMap_encode_utf16 c).symm
  have hunits : ∀ u ∈ points.flatMap utf16, 0 ≤ u ∧ u ≤ 0xFFFF := by
    intro u hu
    obtain ⟨c, hc, hu⟩ := List.mem_flatMap.1 hu
    exact utf16_bounds (hbounds c hc).1 (hbounds c hc).2 u hu
  rw [htokens, unescape?, read?_encodes hunits]
  exact mapM_unit? _

end Pattern

/-! ## Ascending code points -/

theorem isMerged_of_forall {points : List Int}
    (h : ∀ c ∈ points, ∀ d ∈ points, ¬ IsPair c d) : IsMerged points :=
  (List.pairwise_of_forall_mem_list h).isChain

section Pair

variable {before after : List Int} {high low : Int}
  (hascending : (before ++ high :: low :: after).Pairwise (· < ·)) (hpair : IsPair high low)

include hascending hpair

/-- Before the pair there are no low surrogates and behind it no high ones. -/
theorem isMerged_of_isPair : IsMerged (before ++ Surrogate.combine high low :: after) := by
  obtain ⟨hhigh, hlow⟩ := hpair
  have hcombine := Surrogate.combine_bounds high low
  obtain ⟨-, hrest, hcross⟩ := List.pairwise_append.1 hascending
  have hbefore : ∀ c ∈ before, c < 0xDC00 := by
    intro c hc
    have hlt := hcross c hc high List.mem_cons_self
    omega
  have hafter : ∀ c ∈ after, 0xDC00 < c := by
    intro c hc
    have hlt := (List.pairwise_cons.1 (List.pairwise_cons.1 hrest).2).1 c hc
    omega
  refine List.isChain_append.2
    ⟨isMerged_of_forall ?_, isMerged_cons.2 ⟨?_, isMerged_of_forall ?_⟩, ?_⟩
  · intro c _ d hd hcd
    have hlt := hbefore d hd
    have hlow' := hcd.2
    omega
  · intro d _ hcd
    have hhigh' := hcd.1
    omega
  · intro c hc d _ hcd
    have hlt := hafter c hc
    have hhigh' := hcd.1
    omega
  · intro c _ d hd hcd
    obtain rfl := Option.some.inj hd
    have hlow' := hcd.2
    omega

/-- Decoding merges the pair and leaves all else as it is. -/
theorem decodeUnits_of_isPair
    (hbounds : ∀ c ∈ before ++ high :: low :: after, 0 ≤ c ∧ c ≤ 0x10FFFF) :
    decodeUnits ((before ++ high :: low :: after).flatMap utf16)
      = before ++ Surrogate.combine high low :: after := by
  have hcombine := Surrogate.combine_bounds high low
  have hunits : (before ++ high :: low :: after).flatMap utf16
      = (before ++ Surrogate.combine high low :: after).flatMap utf16 := by
    obtain ⟨hhigh, hlow⟩ := hpair
    simp only [List.flatMap_append, List.flatMap_cons]
    rw [utf16_combine hhigh hlow, utf16_of_le (c := high) (by omega),
      utf16_of_le (c := low) (by omega)]
    rfl
  rw [hunits]
  refine decodeUnits_flatMap_utf16 ?_ (isMerged_of_isPair hascending hpair)
  intro c hc
  rcases List.mem_append.1 hc with hfront | hback
  · exact hbounds c (by simp [hfront])
  · rcases List.mem_cons.1 hback with rfl | hback
    · omega
    · exact hbounds c (by simp [hback])

end Pair

/-! ## Sets with surrogates -/

namespace CodeSet

def highSurrogates (s : CodeSet) : Set Int :=
  {x | s.contains x = true ∧ 0xD800 ≤ x ∧ x ≤ 0xDBFF}

def lowSurrogates (s : CodeSet) : Set Int :=
  {x | s.contains x = true ∧ 0xDC00 ≤ x ∧ x ≤ 0xDFFF}

variable {s : CodeSet}

theorem isMerged_toList (h : ¬ (s.highSurrogates.Nonempty ∧ s.lowSurrogates.Nonempty)) :
    IsMerged s.toList := by
  refine isMerged_of_forall fun c hc d hd hpair => h ⟨⟨c, ?_⟩, ⟨d, ?_⟩⟩
  · exact ⟨(mem_toList s c).1 hc, hpair.1⟩
  · exact ⟨(mem_toList s d).1 hd, hpair.2⟩

/-- The greatest high surrogate and the least low one are neighbours. -/
theorem exists_pair (hhigh : s.highSurrogates.Nonempty) (hlow : s.lowSurrogates.Nonempty) :
    ∃ high low before after, IsGreatest s.highSurrogates high ∧ IsLeast s.lowSurrogates low
      ∧ s.toList = before ++ high :: low :: after := by
  obtain ⟨high, hmem, hgreatest⟩ := Int.exists_greatest_of_bdd ⟨0xDBFF, fun _ hx => hx.2.2⟩ hhigh
  obtain ⟨low, hmem', hleast⟩ := Int.exists_least_of_bdd ⟨0xDC00, fun _ hx => hx.2.1⟩ hlow
  have hab : high < low := by
    have hle := hmem.2.2
    have hge := hmem'.2.1
    omega
  have hbetween : ∀ c ∈ s.toList, c ≤ high ∨ low ≤ c := by
    intro c hc
    have hcontains := (mem_toList s c).1 hc
    by_contra hnone
    rw [not_or, Int.not_le, Int.not_le] at hnone
    have hge := hmem.2.1
    have hle := hmem'.2.2
    rcases Int.lt_or_le c 0xDC00 with hbelow | habove
    · have hle' := hgreatest c ⟨hcontains, by omega⟩
      omega
    · have hge' := hleast c ⟨hcontains, by omega⟩
      omega
  obtain ⟨before, after, hsplit⟩ := exists_neighbours s.members.toList_ascending
    ((mem_toList s high).2 hmem.1) ((mem_toList s low).2 hmem'.1) hab hbetween
  exact ⟨high, low, before, after, ⟨hmem, hgreatest⟩, ⟨hmem', hleast⟩, hsplit⟩

/-- **Tokens in a row fuse in one place at most.** The tokens of any set of code points are read as
units. Decoding these gives the members back in ascending order, unless there are high surrogates
among them as well as low ones. Then the greatest high surrogate stands directly before the least low
one, and decoding gives the code point that they are merged to in their place, and all other members
as they are. -/
theorem tokens_fuse_once (hbounds : ∀ x, s.contains x = true → 0 ≤ x ∧ x ≤ 0x10FFFF) :
    ∃ us, Pattern.unescape? s.tokens = some us
      ∧ (decodeUnits us = s.toList ↔
          ¬ (s.highSurrogates.Nonempty ∧ s.lowSurrogates.Nonempty))
      ∧ (s.highSurrogates.Nonempty ∧ s.lowSurrogates.Nonempty →
          ∃ high low before after, IsGreatest s.highSurrogates high ∧ IsLeast s.lowSurrogates low
            ∧ s.toList = before ++ high :: low :: after
            ∧ decodeUnits us = before ++ Surrogate.combine high low :: after) := by
  have hbounds' : ∀ c ∈ s.toList, 0 ≤ c ∧ c ≤ 0x10FFFF := fun c hc =>
    hbounds c ((mem_toList s c).1 hc)
  have hfuse : s.highSurrogates.Nonempty ∧ s.lowSurrogates.Nonempty →
      ∃ high low before after, IsGreatest s.highSurrogates high ∧ IsLeast s.lowSurrogates low
        ∧ s.toList = before ++ high :: low :: after
        ∧ decodeUnits (s.toList.flatMap utf16)
          = before ++ Surrogate.combine high low :: after := by
    rintro ⟨hhigh, hlow⟩
    obtain ⟨high, low, before, after, hgreatest, hleast, hsplit⟩ := exists_pair hhigh hlow
    have hascending := s.members.toList_ascending
    refine ⟨high, low, before, after, hgreatest, hleast, hsplit, ?_⟩
    rw [← toList, hsplit] at hascending
    rw [hsplit] at hbounds' ⊢
    exact decodeUnits_of_isPair hascending ⟨hgreatest.1.2, hleast.1.2⟩ hbounds'
  refine ⟨s.toList.flatMap utf16, Pattern.unescape?_encode hbounds', ⟨fun hsame hboth => ?_,
    fun hnone => decodeUnits_flatMap_utf16 hbounds' (isMerged_toList hnone)⟩, hfuse⟩
  obtain ⟨high, low, before, after, -, -, hsplit, hdecode⟩ := hfuse hboth
  -- the decoded list is one shorter
  have hlength := congrArg List.length (hdecode.symm.trans (hsame.trans hsplit))
  simp at hlength

/-- Two high surrogates and two low ones, and a member that is written as a pair of its own. -/
def bothKinds : CodeSet := ofList [0xD801, 0xD802, 0xDC00, 0xDC01, 0x10FFFF]

theorem tokens_fuse_once_bothKinds :
    (∀ x, bothKinds.contains x = true → 0 ≤ x ∧ x ≤ 0x10FFFF)
      ∧ ∃ us before after, Pattern.unescape? bothKinds.tokens = some us
          ∧ decodeUnits us ≠ bothKinds.toList
          ∧ bothKinds.toList = before ++ 0xD802 :: 0xDC00 :: after
          ∧ decodeUnits us = before ++ 0x10800 :: after := by
  have hall : ∀ c ∈ ([0xD801, 0xD802, 0xDC00, 0xDC01, 0x10FFFF] : List Int),
      (0 ≤ c ∧ c ≤ 0x10FFFF) ∧ (c ≤ 0xDBFF → c ≤ 0xD802) := by decide
  have hbounds : ∀ x, bothKinds.contains x = true → 0 ≤ x ∧ x ≤ 0x10FFFF :=
    fun x hx => (hall x (contains_ofList.1 hx)).1
  have hgreatest : IsGreatest bothKinds.highSurrogates 0xD802 :=
    ⟨⟨contains_ofList.2 (by decide), by decide⟩,
      fun x hx => (hall x (contains_ofList.1 hx.1)).2 hx.2.2⟩
  have hleast : IsLeast bothKinds.lowSurrogates 0xDC00 :=
    ⟨⟨contains_ofList.2 (by decide), by decide⟩, fun _ hx => hx.2.1⟩
  have hboth := And.intro hgreatest.nonempty hleast.nonempty
  obtain ⟨us, hread, hsame, hfuse⟩ := tokens_fuse_once hbounds
  obtain ⟨high, low, before, after, hhigh, hlow, hsplit, hdecode⟩ := hfuse hboth
  obtain rfl := hhigh.unique hgreatest
  obtain rfl := hlow.unique hleast
  exact ⟨hbounds, us, before, after, hread, fun h => hsame.1 h hboth, hsplit, hdecode⟩

example :
    decodeUnits ([0xD801, 0xD802, 0xDC00, 0xDC01, 0x10FFFF].flatMap utf16)
      = [0xD801, 0x10800, 0xDC01, 0x10FFFF] := by
  decide

end CodeSet

end Repertoire
