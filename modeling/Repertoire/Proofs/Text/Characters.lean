import Repertoire.Proofs.CodeSet
import Repertoire.Proofs.Text.Units
import Repertoire.Source

/-!
# The characters of a text

A text is decoded to its own characters unless a high surrogate stands directly before a low one
(`decode_keeps_characters`). A character above `0xFFFF` keeps its units together, whatever unpaired
surrogates stand beside it.
-/

namespace Repertoire

/-- The characters of a text as integers, surrogates included. -/
def Text.characters (t : Text) : List Int :=
  t.map fun c => (c.val : Int)

theorem Text.units_eq_flatMap (t : Text) : t.units = t.characters.flatMap utf16 := by
  rw [Text.units, Text.characters, List.flatMap_map]

theorem Text.characters_bounds (t : Text) : ∀ c ∈ t.characters, 0 ≤ c ∧ c ≤ 0x10FFFF := by
  intro c hc
  obtain ⟨d, -, rfl⟩ := List.mem_map.1 hc
  omega

theorem Text.decode_of_isMerged {t : Text} (h : IsMerged t.characters) :
    t.decode = t.characters := by
  rw [Text.decode, Text.units_eq_flatMap, decodeUnits_flatMap_utf16 t.characters_bounds h]

theorem isMerged_of_no_high {points : List Int}
    (h : ∀ c ∈ points, ¬ (0xD800 ≤ c ∧ c ≤ 0xDBFF)) : IsMerged points := by
  induction points with
  | nil => exact List.IsChain.nil
  | cons c points ih =>
      obtain ⟨hc, hpoints⟩ := List.forall_mem_cons.1 h
      exact isMerged_cons.2 ⟨fun _ _ hpair => hc hpair.1, ih hpoints⟩

/-- The set of a text is the set of what the text is decoded to. -/
theorem ofValue_text (t : Text) {points : List Int} (h : t.decode = points) :
    ∃ s, CodeSet.ofValue (.text t) = .ok s ∧ ∀ x, s.contains x = true ↔ x ∈ points :=
  ⟨CodeSet.ofText t, rfl, fun x => by rw [CodeSet.ofText, CodeSet.contains_ofList, h]⟩

/-- **Decoding keeps the characters that are no pairs.** The code points of a text are its
characters exactly if no high surrogate stands directly before a low one. So a text without
surrogates always makes a set, and its members are the characters of the text. -/
theorem decode_keeps_characters :
    (∀ t : Text, t.decode = t.characters ↔ IsMerged t.characters)
      ∧ ∀ t : Text, (∀ c ∈ t, ¬ (0xD800 ≤ c.val ∧ c.val ≤ 0xDFFF)) →
          ∃ s, CodeSet.ofValue (.text t) = .ok s
            ∧ ∀ x, s.contains x = true ↔ x ∈ t.characters := by
  refine ⟨fun t => ⟨fun h => ?_, Text.decode_of_isMerged⟩, fun t hscalar => ?_⟩
  · rw [← h]
    exact isMerged_decodeUnits (units_bounds t)
  · refine ofValue_text t (Text.decode_of_isMerged (isMerged_of_no_high fun c hc => ?_))
    obtain ⟨d, hd, rfl⟩ := List.mem_map.1 hc
    have hd := hscalar d hd
    omega

/-- A character of one unit, one of two, and the one after the block of the surrogates. -/
theorem decode_keeps_characters_mixed :
    (∀ c ∈ ([0x61, 0x1F600, 0xE000] : Text), ¬ (0xD800 ≤ c.val ∧ c.val ≤ 0xDFFF))
      ∧ ∃ s, CodeSet.ofValue (.text [0x61, 0x1F600, 0xE000]) = .ok s
          ∧ ∀ x, s.contains x = true ↔ x ∈ Text.characters [0x61, 0x1F600, 0xE000] := by
  have hscalar : ∀ c ∈ ([0x61, 0x1F600, 0xE000] : Text), ¬ (0xD800 ≤ c.val ∧ c.val ≤ 0xDFFF) := by
    intro c hc
    simp only [List.mem_cons, List.not_mem_nil, or_false] at hc
    rcases hc with rfl | rfl | rfl <;> decide
  exact ⟨hscalar, decode_keeps_characters.2 _ hscalar⟩

/-- A pair of units between a high and a low surrogate stays together. -/
example : Text.decode [0xD834, 0x1D306, 0xDF06] = [0xD834, 0x1D306, 0xDF06] := by
  decide

end Repertoire
