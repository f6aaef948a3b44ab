import Mathlib.Data.Int.Bitwise
import Repertoire.Proofs.Surrogate

/-!
# Surrogates of all integers

Splitting, merging and recognising are defined for every integer, though only code points are meant.
Splitting tells all integers apart and keeps their order (`lt_iff_split_lt`), as it divides with
rounding to the floor. The others look at bits: they mask an integer as two's complement without an
end would (`land_natCast`), so they repeat themselves where the bits do. Merging after splitting is
therefore the identity on the code points above `0xFFFF` and nowhere else. All of this is
`splits_and_merges_integers`.
-/

namespace Repertoire.Surrogate

/-! ## Masks -/

/-- The bits of an integer modulo a power of two are its lower bits, and for a negative integer too:
there the remainder is what is left of the power, which turns every bit around. -/
theorem testBit_toNat_ofInt (n : Nat) (x : Int) (i : Nat) :
    (BitVec.ofInt n x).toNat.testBit i = (decide (i < n) && x.testBit i) := by
  rw [BitVec.toNat_ofInt]
  cases x with
  | ofNat a =>
      have hrest : (Int.ofNat a % ((2 ^ n : Nat) : Int)).toNat = a % 2 ^ n := rfl
      rw [hrest, Nat.testBit_mod_two_pow]
      rfl
  | negSucc a =>
      have hlt : a % 2 ^ n < 2 ^ n := Nat.mod_lt _ (Nat.two_pow_pos n)
      have hrest : (Int.negSucc a % ((2 ^ n : Nat) : Int)).toNat = 2 ^ n - (a % 2 ^ n + 1) := by
        rw [Int.negSucc_emod _ (by exact_mod_cast Nat.two_pow_pos n)]
        omega
      rw [hrest, Nat.testBit_two_pow_sub_succ hlt, Nat.testBit_mod_two_pow]
      show _ = (decide (i < n) && !a.testBit i)
      cases decide (i < n) <;> rfl

/-- A mask of `n` bits sees no more than the lower `n` bits of an integer. -/
theorem land_natCast (x : Int) {n mask : Nat} (h : mask < 2 ^ n) :
    Int.land x mask = ((BitVec.ofInt n x).toNat &&& mask : Nat) := by
  obtain ⟨m, hm⟩ : ∃ m : Nat, Int.land x mask = m := by
    cases x <;> exact ⟨_, rfl⟩
  rw [hm]
  refine congrArg _ (Nat.eq_of_testBit_eq fun i => ?_)
  have hbit : m.testBit i = (x.testBit i && mask.testBit i) := by
    have hland := Int.testBit_land x mask i
    rw [hm] at hland
    exact hland
  rw [hbit, Nat.testBit_and, testBit_toNat_ofInt]
  by_cases hi : i < n
  · simp [hi]
  · have hout : mask.testBit i = false :=
      Nat.testBit_lt_two_pow (Nat.lt_of_lt_of_le h (Nat.pow_le_pow_right (by omega) (by omega)))
    simp [hout]

theorem land_lowTen (x : Int) : Int.land x 0x3FF = x % 0x400 := by
  have hall : (BitVec.ofInt 10 x).toNat &&& 0x3FF = (BitVec.ofInt 10 x).toNat := by
    have hlt : (BitVec.ofInt 10 x).toNat < 2 ^ 10 := BitVec.isLt _
    rw [show (0x3FF : Nat) = 2 ^ 10 - 1 from rfl, Nat.and_two_pow_sub_one_eq_mod,
      Nat.mod_eq_of_lt hlt]
  rw [← toNat_ofInt_ten, ← hall]
  exact land_natCast x (n := 10) (by decide)

theorem combine_eq_land (h l : Int) :
    combine h l = (Int.land h 0x3FF) <<< (10 : Nat) + Int.land l 0x3FF + 0x10000 := by
  rw [combine_eq, land_lowTen, land_lowTen, Int.shiftLeft_eq]
  rfl

theorem and_mask_eq_iff_land (u : Int) (base : BitVec 16) :
    (BitVec.ofInt 16 u &&& 0xFC00#16 == base) = true ↔ Int.land u 0xFC00 = base.toNat := by
  have hland : Int.land u (0xFC00 : Nat) = ((BitVec.ofInt 16 u).toNat &&& 0xFC00 : Nat) :=
    land_natCast u (n := 16) (by omega)
  rw [beq_iff_eq, ← BitVec.toNat_inj, BitVec.toNat_and]
  exact ⟨fun h => hland.trans (congrArg _ h), fun h => Int.ofNat_inj.1 (hland.symm.trans h)⟩

theorem isHigh_iff_land (u : Int) : isHigh u = true ↔ Int.land u 0xFC00 = 0xD800 :=
  and_mask_eq_iff_land u 0xD800#16

theorem isLow_iff_land (u : Int) : isLow u = true ↔ Int.land u 0xFC00 = 0xDC00 :=
  and_mask_eq_iff_land u 0xDC00#16

/-! ## Order -/

theorem lt_iff_split_lt (a b : Int) :
    a < b ↔ Prod.Lex (· < ·) (· < ·) (high a, low a) (high b, low b) := by
  rw [Prod.lex_def]
  unfold high low
  omega

/-- **Splitting and merging, for every integer.** What was split is merged to an integer that differs
from it by a multiple of `0x100000`, and is the same only for a code point above `0xFFFF`. Merging
takes the low ten bits of its arguments, and splitting gives these back on top of the two bases. An
integer is less than another one if its surrogates come first in the order of pairs. The marks of a
surrogate are six bits of sixteen, so they repeat themselves every `0x10000`. -/
theorem splits_and_merges_integers :
    (∀ c, combine (high c) (low c) = 0x10000 + (c - 0x10000) % 0x100000
        ∧ (combine (high c) (low c) = c ↔ 0x10000 ≤ c ∧ c ≤ 0x10FFFF))
      ∧ (∀ h l, combine h l = (Int.land h 0x3FF) <<< (10 : Nat) + Int.land l 0x3FF + 0x10000
        ∧ high (combine h l) = 0xD800 + h % 0x400
        ∧ low (combine h l) = 0xDC00 + l % 0x400)
      ∧ (∀ a b, a < b ↔ Prod.Lex (· < ·) (· < ·) (high a, low a) (high b, low b))
      ∧ (∀ u, (isHigh u = true ↔ Int.land u 0xFC00 = 0xD800)
        ∧ (isHigh u = true ↔ 0xD800 ≤ u % 0x10000 ∧ u % 0x10000 ≤ 0xDBFF))
      ∧ (∀ u, (isLow u = true ↔ Int.land u 0xFC00 = 0xDC00)
        ∧ (isLow u = true ↔ 0xDC00 ≤ u % 0x10000 ∧ u % 0x10000 ≤ 0xDFFF)) := by
  refine ⟨fun c => ⟨combine_split c, ?_⟩,
    fun h l => ⟨combine_eq_land h l, high_combine_eq h l, low_combine_eq h l⟩, lt_iff_split_lt,
    fun u => ⟨isHigh_iff_land u, isHigh_iff u⟩, fun u => ⟨isLow_iff_land u, isLow_iff u⟩⟩
  rw [combine_split]
  omega

/-- A negative integer, as its bits run on without an end. -/
example : high (-1) = 0xD7BF ∧ low (-1) = 0xDFFF ∧ combine (-1) (-1) = 0x10FFFF := by
  decide

end Repertoire.Surrogate
