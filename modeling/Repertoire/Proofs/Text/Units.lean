import Mathlib.Data.List.Chain
import Repertoire.Proofs.Surrogate
import Repertoire.Text.Units

/-!
# Decoding and encoding

A high surrogate directly before a low one can be read in two ways, as two code points or as the one
that they are merged to. Decoding always merges. So what it yields gives the units back
(`flatMap_utf16_decodeUnits`) and leaves nothing to merge (`isMerged_decodeUnits`); and as there is
only one such reading, code points that leave nothing to merge are decoded from their own units
(`decodeUnits_flatMap_utf16`).
-/

namespace Repertoire

/-- A high surrogate and a low one, in this order. -/
def IsPair (c d : Int) : Prop :=
  (0xD800 ≤ c ∧ c ≤ 0xDBFF) ∧ (0xDC00 ≤ d ∧ d ≤ 0xDFFF)

/-- No high surrogate directly before a low one. -/
def IsMerged (points : List Int) : Prop :=
  points.IsChain fun c d => ¬ IsPair c d

theorem isMerged_cons {c : Int} {points : List Int} :
    IsMerged (c :: points) ↔ (∀ d ∈ points.head?, ¬ IsPair c d) ∧ IsMerged points :=
  List.isChain_cons

theorem units_bounds (t : Text) : ∀ u ∈ t.units, 0 ≤ u ∧ u ≤ 0xFFFF := by
  intro u hu
  obtain ⟨c, -, hc⟩ := List.mem_flatMap.1 hu
  exact utf16_bounds (by omega) (by omega) u hc

/-! ## One step of the decoder -/

/-- Of two units the bit tests say whether they are a pair. -/
theorem isHigh_and_isLow_iff {u v : Int} (hu : 0 ≤ u ∧ u ≤ 0xFFFF) (hv : 0 ≤ v ∧ v ≤ 0xFFFF) :
    (Surrogate.isHigh u && Surrogate.isLow v) = true ↔ IsPair u v := by
  rw [Bool.and_eq_true, Surrogate.isHigh_iff_of_unit hu.1 hu.2,
    Surrogate.isLow_iff_of_unit hv.1 hv.2, IsPair]

theorem decodeUnits_pair {u v : Int} (h : IsPair u v) (rest : List Int) :
    decodeUnits (u :: v :: rest) = Surrogate.combine u v :: decodeUnits rest := by
  obtain ⟨hu, hv⟩ := h
  have htest := (isHigh_and_isLow_iff (u := u) (v := v) (by omega) (by omega)).2 ⟨hu, hv⟩
  rw [decodeUnits, if_pos htest]

theorem decodeUnits_unit {u : Int} {rest : List Int} (hu : 0 ≤ u ∧ u ≤ 0xFFFF)
    (hrest : ∀ v ∈ rest.head?, (0 ≤ v ∧ v ≤ 0xFFFF) ∧ ¬ IsPair u v) :
    decodeUnits (u :: rest) = u :: decodeUnits rest := by
  cases rest with
  | nil => rfl
  | cons v rest =>
      obtain ⟨hv, hpair⟩ := hrest v rfl
      rw [decodeUnits, if_neg fun htest => hpair ((isHigh_and_isLow_iff hu hv).1 htest)]

/-- What is yielded first is the first unit or has been merged. -/
theorem head?_decodeUnits {v d : Int} {rest : List Int}
    (h : d ∈ (decodeUnits (v :: rest)).head?) : d = v ∨ 0xFFFF < d := by
  cases rest with
  | nil => exact Or.inl (Option.some.inj h).symm
  | cons w rest =>
      rw [decodeUnits] at h
      split at h
      · obtain rfl := Option.some.inj h
        exact Or.inr (Surrogate.combine_bounds v w).1
      · exact Or.inl (Option.some.inj h).symm

/-! ## What decoding yields -/

section Yield

variable {us : List Int} (hunits : ∀ u ∈ us, 0 ≤ u ∧ u ≤ 0xFFFF)

include hunits

theorem decodeUnits_bounds : ∀ c ∈ decodeUnits us, 0 ≤ c ∧ c ≤ 0x10FFFF := by
  fun_induction decodeUnits us with
  | case1 => simp
  | case2 u =>
      intro c hc
      have hunit := hunits c hc
      omega
  | case3 u v rest _ ih =>
      intro c hc
      rcases List.mem_cons.1 hc with rfl | hc
      · have hmerged := Surrogate.combine_bounds u v
        omega
      · exact ih (fun w hw => hunits w (by simp [hw])) c hc
  | case4 u v rest _ ih =>
      intro c hc
      rcases List.mem_cons.1 hc with rfl | hc
      · have hunit := hunits c List.mem_cons_self
        omega
      · exact ih (fun w hw => hunits w (List.mem_cons_of_mem _ hw)) c hc

/-- The units of the decoded code points are the units that were decoded. -/
theorem flatMap_utf16_decodeUnits : (decodeUnits us).flatMap utf16 = us := by
  fun_induction decodeUnits us with
  | case1 => rfl
  | case2 u => rw [List.flatMap_singleton, utf16_of_le (hunits u List.mem_cons_self).2]
  | case3 u v rest htest ih =>
      obtain ⟨hu, hv⟩ := (isHigh_and_isLow_iff (hunits u (by simp)) (hunits v (by simp))).1 htest
      rw [List.flatMap_cons, utf16_combine hu hv, ih fun w hw => hunits w (by simp [hw])]
      rfl
  | case4 u v rest _ ih =>
      rw [List.flatMap_cons, utf16_of_le (hunits u List.mem_cons_self).2,
        ih fun w hw => hunits w (List.mem_cons_of_mem _ hw)]
      rfl

theorem isMerged_decodeUnits : IsMerged (decodeUnits us) := by
  fun_induction decodeUnits us with
  | case1 => exact List.IsChain.nil
  | case2 => exact List.IsChain.singleton _
  | case3 u v rest _ ih =>
      refine isMerged_cons.2 ⟨fun d _ hpair => ?_, ih fun w hw => hunits w (by simp [hw])⟩
      have hlarge := (Surrogate.combine_bounds u v).1
      have hhigh := hpair.1
      omega
  | case4 u v rest htest ih =>
      refine isMerged_cons.2 ⟨fun d hd hpair => ?_,
        ih fun w hw => hunits w (List.mem_cons_of_mem _ hw)⟩
      rcases head?_decodeUnits hd with rfl | hlarge
      · exact htest ((isHigh_and_isLow_iff (hunits u (by simp)) (hunits d (by simp))).2 hpair)
      · have hlow := hpair.2
        omega

end Yield

/-! ## What encoding leaves to merge -/

/-- The first unit is the first code point itself or a high surrogate. -/
theorem head?_flatMap_utf16 {d v : Int} {points : List Int}
    (h : v ∈ ((d :: points).flatMap utf16).head?) :
    (d ≤ 0xFFFF ∧ v = d) ∨ (0xFFFF < d ∧ v = Surrogate.high d) := by
  rw [List.flatMap_cons] at h
  by_cases hd : d ≤ 0xFFFF
  · rw [utf16_of_le hd] at h
    exact Or.inl ⟨hd, (Option.some.inj h).symm⟩
  · rw [utf16_of_lt (by omega)] at h
    exact Or.inr ⟨by omega, (Option.some.inj h).symm⟩

/-- A code point that is a unit cannot take anything of the units after it, as those of a code point
above `0xFFFF` begin with a high surrogate. -/
theorem not_isPair_head?_flatMap_utf16 {c : Int} {points : List Int}
    (hbounds : ∀ d ∈ points, 0 ≤ d ∧ d ≤ 0x10FFFF) (hnext : ∀ d ∈ points.head?, ¬ IsPair c d) :
    ∀ v ∈ (points.flatMap utf16).head?, (0 ≤ v ∧ v ≤ 0xFFFF) ∧ ¬ IsPair c v := by
  intro v hv
  cases points with
  | nil => cases hv
  | cons d points =>
      have hd := hbounds d List.mem_cons_self
      rcases head?_flatMap_utf16 hv with ⟨hle, rfl⟩ | ⟨hlt, rfl⟩
      · exact ⟨⟨hd.1, hle⟩, hnext v rfl⟩
      · have hhigh := Surrogate.high_bounds hlt hd.2
        refine ⟨by omega, fun hpair => ?_⟩
        have hlow := hpair.2
        omega

theorem decodeUnits_flatMap_utf16 {points : List Int}
    (hbounds : ∀ c ∈ points, 0 ≤ c ∧ c ≤ 0x10FFFF) (hmerged : IsMerged points) :
    decodeUnits (points.flatMap utf16) = points := by
  induction points with
  | nil => rfl
  | cons c points ih =>
      obtain ⟨hnext, hmerged⟩ := isMerged_cons.1 hmerged
      obtain ⟨hc, hbounds⟩ := List.forall_mem_cons.1 hbounds
      rw [List.flatMap_cons]
      by_cases hle : c ≤ 0xFFFF
      · rw [utf16_of_le hle, List.singleton_append,
          decodeUnits_unit ⟨hc.1, hle⟩ (not_isPair_head?_flatMap_utf16 hbounds hnext),
          ih hbounds hmerged]
      · have hpair : IsPair (Surrogate.high c) (Surrogate.low c) :=
          ⟨Surrogate.high_bounds (by omega) hc.2, Surrogate.low_bounds c⟩
        rw [utf16_of_lt (by omega)]
        show decodeUnits (Surrogate.high c :: Surrogate.low c :: points.flatMap utf16) = _
        rw [decodeUnits_pair hpair, Surrogate.combine_high_low (by omega) hc.2,
          ih hbounds hmerged]

/-- **Decoding loses nothing and merges everything.** For any text, ill-formed ones included, it
yields code points whose units are the units of the text, and no high surrogate that is directly
followed by a low one. -/
theorem Text.decode_merges_losslessly (t : Text) :
    (∀ c ∈ t.decode, 0 ≤ c ∧ c ≤ 0x10FFFF)
      ∧ t.decode.flatMap utf16 = t.units
      ∧ IsMerged t.decode :=
  ⟨decodeUnits_bounds (units_bounds t), flatMap_utf16_decodeUnits (units_bounds t),
    isMerged_decodeUnits (units_bounds t)⟩

end Repertoire
