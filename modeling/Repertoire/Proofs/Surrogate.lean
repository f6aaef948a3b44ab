import Mathlib.Data.Nat.Bitwise
import Repertoire.Surrogate

/-!
# Splitting and merging code points

Splitting divides, merging and recognising look at bits. The two views meet here: the bit
operations are written as remainders, for every integer, and the rest is arithmetic. Splitting
loses nothing, however large an integer is (`whole_split`). A code point above `0xFFFF` is split
into a high and a low surrogate from which merging gives it back, and the units of a code point
tell which code point it is.
-/

namespace Repertoire

namespace Surrogate

/-! ## The integer that was split -/

/-- The integer that has these surrogates. Merging agrees with it on the surrogates of code points;
beyond these the high surrogate leaves its block, and here all of it counts. -/
def whole (h l : Int) : Int :=
  (h - 0xD800) * 0x400 + (l - 0xDC00) + 0x10000

theorem whole_split (c : Int) : whole (high c) (low c) = c := by
  unfold whole high low
  omega

/-- Every high surrogate goes with every low one. -/
theorem split_whole {h l : Int} (hl : 0xDC00 ≤ l ∧ l ≤ 0xDFFF) :
    high (whole h l) = h ∧ low (whole h l) = l := by
  unfold whole high low
  omega

/-- The surrogates of an integer tell which one it is. -/
theorem eq_of_high_of_low {a b : Int} (hhigh : high a = high b) (hlow : low a = low b) : a = b :=
  calc a = whole (high a) (low a) := (whole_split a).symm
    _ = whole (high b) (low b) := by rw [hhigh, hlow]
    _ = b := whole_split b

theorem high_mono {a b : Int} (h : a ≤ b) : high a ≤ high b := by
  unfold high
  omega

theorem le_high_iff {c : Int} : 0xD800 ≤ high c ↔ 0xFFFF < c := by
  unfold high
  omega

theorem high_le_iff {c : Int} : high c ≤ 0xDBFF ↔ c ≤ 0x10FFFF := by
  unfold high
  omega

/-! ## Bits as remainders -/

theorem toNat_ofInt_ten (h : Int) : ((BitVec.ofInt 10 h).toNat : Int) = h % 0x400 := by
  rw [BitVec.toNat_ofInt]
  omega

/-- Merging takes the low ten bits of each of its arguments. -/
theorem combine_eq (h l : Int) :
    combine h l = h % 0x400 * 0x400 + l % 0x400 + 0x10000 := by
  have hlow : (BitVec.ofInt 10 l).toNat < 2 ^ 10 := BitVec.isLt _
  have hcat : (BitVec.ofInt 10 h ++ BitVec.ofInt 10 l).toNat
      = (BitVec.ofInt 10 h).toNat * 2 ^ 10 + (BitVec.ofInt 10 l).toNat := by
    rw [BitVec.toNat_append, Nat.shiftLeft_eq, Nat.mul_comm, Nat.two_pow_add_eq_or_of_lt hlow]
  have hh := toNat_ofInt_ten h
  have hl := toNat_ofInt_ten l
  unfold combine
  omega

/-- The upper six of sixteen bits are what is left of a number without its remainder. -/
theorem and_upperSix {n : Nat} (hn : n < 0x10000) : n &&& 0xFC00 = n / 0x400 * 0x400 := by
  have hmask : (0xFC00 : Nat) = (2 ^ 6 - 1) * 2 ^ 10 := by decide
  have hspan : (0x400 : Nat) = 2 ^ 10 := by decide
  rw [hmask, hspan]
  refine Nat.eq_of_testBit_eq fun i => ?_
  rw [Nat.testBit_and, Nat.testBit_mul_two_pow, Nat.testBit_mul_two_pow, Nat.testBit_div_two_pow,
    Nat.testBit_two_pow_sub_one]
  by_cases hi : 10 ≤ i
  · have hback : i - 10 + 10 = i := by omega
    by_cases htop : i - 10 < 6
    · simp [hi, htop, hback]
    · have hout : n.testBit i = false :=
        Nat.testBit_lt_two_pow (Nat.lt_of_lt_of_le hn (Nat.pow_le_pow_right (n := 2) (by omega)
          (show 16 ≤ i by omega)))
      simp [hi, htop, hback, hout]
  · simp [hi]

theorem and_mask_eq_iff (u : Int) (base : BitVec 16) (hbase : base.toNat % 0x400 = 0) :
    (BitVec.ofInt 16 u &&& 0xFC00#16 == base) = true ↔
      (base.toNat : Int) ≤ u % 0x10000 ∧ u % 0x10000 ≤ base.toNat + 0x3FF := by
  have hlt : (BitVec.ofInt 16 u).toNat < 0x10000 := BitVec.isLt _
  have hval : ((BitVec.ofInt 16 u).toNat : Int) = u % 0x10000 := by
    rw [BitVec.toNat_ofInt]
    omega
  have hmask : (0xFC00#16).toNat = 0xFC00 := rfl
  rw [beq_iff_eq, ← BitVec.toNat_inj, BitVec.toNat_and, hmask, and_upperSix hlt]
  omega

theorem isHigh_iff (u : Int) :
    isHigh u = true ↔ 0xD800 ≤ u % 0x10000 ∧ u % 0x10000 ≤ 0xDBFF :=
  and_mask_eq_iff u 0xD800#16 rfl

theorem isLow_iff (u : Int) :
    isLow u = true ↔ 0xDC00 ≤ u % 0x10000 ∧ u % 0x10000 ≤ 0xDFFF :=
  and_mask_eq_iff u 0xDC00#16 rfl

/-! ## Units -/

theorem isHigh_iff_of_unit {u : Int} (h₀ : 0 ≤ u) (h₁ : u ≤ 0xFFFF) :
    isHigh u = true ↔ 0xD800 ≤ u ∧ u ≤ 0xDBFF := by
  rw [isHigh_iff]
  omega

theorem isLow_iff_of_unit {u : Int} (h₀ : 0 ≤ u) (h₁ : u ≤ 0xFFFF) :
    isLow u = true ↔ 0xDC00 ≤ u ∧ u ≤ 0xDFFF := by
  rw [isLow_iff]
  omega

/-- What was split is merged into the block of the code points above `0xFFFF`, to the place that it
has in its own block of that length. -/
theorem combine_split (c : Int) :
    combine (high c) (low c) = 0x10000 + (c - 0x10000) % 0x100000 := by
  rw [combine_eq]
  unfold high low
  omega

theorem high_combine_eq (h l : Int) : high (combine h l) = 0xD800 + h % 0x400 := by
  rw [combine_eq]
  unfold high
  omega

theorem low_combine_eq (h l : Int) : low (combine h l) = 0xDC00 + l % 0x400 := by
  rw [combine_eq]
  unfold low
  omega

theorem combine_high_low {c : Int} (h₀ : 0xFFFF < c) (h₁ : c ≤ 0x10FFFF) :
    combine (high c) (low c) = c := by
  rw [combine_split]
  omega

theorem high_combine {h l : Int} (h₀ : 0xD800 ≤ h) (h₁ : h ≤ 0xDBFF) :
    high (combine h l) = h := by
  rw [high_combine_eq]
  omega

theorem low_combine {h l : Int} (l₀ : 0xDC00 ≤ l) (l₁ : l ≤ 0xDFFF) :
    low (combine h l) = l := by
  rw [low_combine_eq]
  omega

theorem isHigh_high {c : Int} (h₀ : 0xFFFF < c) (h₁ : c ≤ 0x10FFFF) : isHigh (high c) = true := by
  have hhigh := high_bounds h₀ h₁
  rw [isHigh_iff_of_unit] <;> omega

theorem isLow_low (c : Int) : isLow (low c) = true := by
  have hlow := low_bounds c
  rw [isLow_iff_of_unit] <;> omega

theorem combine_bounds (h l : Int) : 0xFFFF < combine h l ∧ combine h l ≤ 0x10FFFF := by
  rw [combine_eq]
  omega

end Surrogate

/-! ## The units of a code point -/

theorem utf16_of_le {c : Int} (h : c ≤ 0xFFFF) : utf16 c = [c] := if_pos h

theorem utf16_of_lt {c : Int} (h : 0xFFFF < c) :
    utf16 c = [Surrogate.high c, Surrogate.low c] := if_neg (by omega)

/-- A high and a low surrogate are the units of what they are merged to. -/
theorem utf16_combine {h l : Int} (hh : 0xD800 ≤ h ∧ h ≤ 0xDBFF) (hl : 0xDC00 ≤ l ∧ l ≤ 0xDFFF) :
    utf16 (Surrogate.combine h l) = [h, l] := by
  rw [utf16_of_lt (Surrogate.combine_bounds h l).1, Surrogate.high_combine hh.1 hh.2,
    Surrogate.low_combine hl.1 hl.2]

theorem utf16_bounds {c : Int} (h₀ : 0 ≤ c) (h₁ : c ≤ 0x10FFFF) :
    ∀ u ∈ utf16 c, 0 ≤ u ∧ u ≤ 0xFFFF := by
  intro u hu
  by_cases hc : c ≤ 0xFFFF
  · rw [utf16_of_le hc] at hu
    rw [List.mem_singleton.1 hu]
    exact ⟨h₀, hc⟩
  · have hhigh := Surrogate.high_bounds (c := c) (by omega) h₁
    have hlow := Surrogate.low_bounds c
    rw [utf16_of_lt (by omega)] at hu
    simp only [List.mem_cons, List.not_mem_nil, or_false] at hu
    omega

end Repertoire
