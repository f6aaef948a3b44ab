import Repertoire.Proofs.Tokens

/-!
# Splitting down to units

An integer above `0xFFFF` is split into a high and a low surrogate. Beyond `0x10FFFF` the high one can
be above `0xFFFF` again and is then split in turn. It is always less than what it comes from, so there
is an end to it (`wellFounded_isPart`), and only units are left (`leaves`). Which integer they come
from can be told from the last of them, a low surrogate, and the others, which are those of the high
surrogate (`leaves_injective`). The token of an integer is the tokens of its units in a row, and a row
of tokens can be read again (`unescape?_encode_leaves`); so different integers have different tokens
(`encode_inj`). Negative ones are left out: they share their escapes with units.
-/

namespace Repertoire

namespace Surrogate

/-- Is the one integer split so that the other is one of its two surrogates? -/
def IsPart (part whole : Int) : Prop :=
  0xFFFF < whole ∧ (part = high whole ∨ part = low whole)

theorem IsPart.toNat_lt {part whole : Int} (h : IsPart part whole) : part.toNat < whole.toNat := by
  obtain ⟨hwhole, rfl | rfl⟩ := h
  · have hlt := high_lt hwhole
    omega
  · have hlow := low_bounds whole
    omega

/-- Splitting comes to an end, whatever integer it begins with. -/
theorem wellFounded_isPart : WellFounded IsPart :=
  Subrelation.wf IsPart.toNat_lt (measure Int.toNat).wf

end Surrogate

namespace Token

/-! ## What is left of an integer -/

/-- The integers up to `0xFFFF` that are left when all others have been split. -/
def leaves (c : Int) : List Int :=
  if c ≤ 0xFFFF then [c] else leaves (Surrogate.high c) ++ [Surrogate.low c]
termination_by c.toNat
decreasing_by exact Surrogate.IsPart.toNat_lt ⟨by omega, Or.inl rfl⟩

theorem leaves_of_le {c : Int} (h : c ≤ 0xFFFF) : leaves c = [c] := by
  rw [leaves, if_pos h]

theorem leaves_of_lt {c : Int} (h : 0xFFFF < c) :
    leaves c = leaves (Surrogate.high c) ++ [Surrogate.low c] := by
  rw [leaves, if_neg (by omega)]

theorem leaves_ne_nil (c : Int) : leaves c ≠ [] := by
  by_cases hc : c ≤ 0xFFFF
  · rw [leaves_of_le hc]
    exact List.cons_ne_nil _ _
  · rw [leaves_of_lt (Int.not_le.1 hc)]
    exact List.append_ne_nil_of_right_ne_nil _ (List.cons_ne_nil _ _)

/-- The surrogates that are left are no reason for a lower bound to fail. -/
theorem leaves_bounds {least c : Int} (hleast : least ≤ 0xD800) (hc : least ≤ c) :
    ∀ u ∈ leaves c, least ≤ u ∧ u ≤ 0xFFFF := by
  fun_induction leaves c with
  | case1 c hle =>
      intro u hu
      rw [List.mem_singleton.1 hu]
      exact ⟨hc, hle⟩
  | case2 c hlt ih =>
      have hhigh : 0xD800 ≤ Surrogate.high c := Surrogate.le_high_iff.2 (by omega)
      have hlow := Surrogate.low_bounds c
      intro u hu
      rcases List.mem_append.1 hu with hfront | hlast
      · exact ih (by omega) u hfront
      · rw [List.mem_singleton.1 hlast]
        omega

/-- The induction follows the splitting of the one integer; the other has as many leaves. -/
theorem leaves_injective {a b : Int} (h : leaves a = leaves b) : a = b := by
  fun_induction leaves a generalizing b with
  | case1 a ha =>
      by_cases hb : b ≤ 0xFFFF
      · rw [leaves_of_le hb] at h
        exact List.singleton_inj.1 h
      · have hfront := leaves_ne_nil (Surrogate.high b)
        rw [leaves_of_lt (Int.not_le.1 hb)] at h
        rcases List.append_eq_singleton_iff.1 h.symm with ⟨hnil, -⟩ | ⟨-, hnil⟩
        · exact (hfront hnil).elim
        · cases hnil
  | case2 a ha ih =>
      by_cases hb : b ≤ 0xFFFF
      · have hfront := leaves_ne_nil (Surrogate.high a)
        rw [leaves_of_le hb] at h
        rcases List.append_eq_singleton_iff.1 h with ⟨hnil, -⟩ | ⟨-, hnil⟩
        · exact (hfront hnil).elim
        · cases hnil
      · rw [leaves_of_lt (Int.not_le.1 hb)] at h
        obtain ⟨hhigh, hlow⟩ := List.append_inj' h rfl
        exact Surrogate.eq_of_high_of_low (ih hhigh) (List.singleton_inj.1 hlow)

/-! ## The tokens of the leaves -/

theorem encode_eq_flatMap_leaves (c : Int) : encode c = (leaves c).flatMap encode := by
  fun_induction leaves c with
  | case1 c _ => rw [List.flatMap_singleton]
  | case2 c hlt ih =>
      rw [Pattern.encode_of_lt (Int.not_le.1 hlt), ih, List.flatMap_append, List.flatMap_singleton]

theorem unescape?_encode_leaves {c : Int} (h : 0 ≤ c) :
    Pattern.unescape? (encode c) = some (leaves c) := by
  rw [encode_eq_flatMap_leaves, Pattern.unescape?,
    Pattern.read?_encodes (leaves_bounds (by decide) h)]
  exact Pattern.mapM_unit? _

/-- **Different integers have different tokens**, however large they are, if none is negative. -/
theorem encode_inj {a b : Int} (ha : 0 ≤ a) (hb : 0 ≤ b) : encode a = encode b ↔ a = b := by
  refine ⟨fun h => leaves_injective (Option.some.inj ?_), congrArg encode⟩
  rw [← unescape?_encode_leaves ha, ← unescape?_encode_leaves hb, h]

example : leaves 0xA10000 = [0xD800, 0xDC00, 0xDC00] := by
  decide +kernel

/-- The escape of a negative integer is that of a unit. -/
example : encode (-1) = encode 0xFFFF := by
  decide +kernel

end Token

end Repertoire
