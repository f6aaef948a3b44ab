import Mathlib.Data.Nat.Digits.Defs
import Repertoire.Hex

/-!
# The digits of a number

The last digit of a number is the digit of its remainder, and the digits before it are those of the
quotient (`digits_of_ge`). So a number of at least four digits ends in the digits of its last four
places (`lastFour_digits`), and the digits of a number below `0x10000` spell it (`ofValues_lastFour`).

What a digit is, and what number a text of digits stands for, is said once more by two rows of
characters and positional notation (`IsDigit`, `numeral`); reading digit by digit comes to the same
(`value?_eq_some_iff`, `ofValues_map_place`). The digits of a number are a numeral of it
(`numeral_digits`), and how many there are tells how great it can be (`length_digits_le_iff`,
`numeral_lt`).
-/

namespace Repertoire.Hex

theorem digits_of_lt {n : Nat} (h : n < 16) : digits n = [digit (Fin.ofNat 16 n)] := by
  rw [digits, if_pos h]

theorem digits_of_ge {n : Nat} (h : 16 ≤ n) :
    digits n = digits (n / 16) ++ [digit (Fin.ofNat 16 n)] := by
  rw [digits, if_neg (by omega)]

theorem exists_digits_eq (n : Nat) : ∃ front, digits n = front ++ [digit (Fin.ofNat 16 n)] := by
  by_cases h : n < 16
  · exact ⟨[], digits_of_lt h⟩
  · exact ⟨digits (n / 16), digits_of_ge (by omega)⟩

def lastFour (n : Nat) : List (Fin 16) :=
  [⟨n / 0x1000 % 16, Nat.mod_lt _ (by decide)⟩, ⟨n / 0x100 % 16, Nat.mod_lt _ (by decide)⟩,
    ⟨n / 0x10 % 16, Nat.mod_lt _ (by decide)⟩, ⟨n % 16, Nat.mod_lt _ (by decide)⟩]

theorem lastFour_digits {n : Nat} (h : 0x1000 ≤ n) :
    (digits n).drop ((digits n).length - 4) = (lastFour n).map digit := by
  have h₁ : n / 16 / 16 = n / 0x100 := by omega
  have h₂ : n / 0x100 / 16 = n / 0x1000 := by omega
  obtain ⟨front, hfront⟩ := exists_digits_eq (n / 0x1000)
  have hdigits : digits n = front ++ (lastFour n).map digit := by
    rw [digits_of_ge (n := n) (by omega), digits_of_ge (n := n / 16) (by omega), h₁,
      digits_of_ge (n := n / 0x100) (by omega), h₂, hfront]
    simp [lastFour, Fin.ofNat]
  have hlen : (digits n).length - 4 = front.length := by simp [hdigits, lastFour]
  rw [hlen, hdigits, List.drop_left]

theorem value?_digit : ∀ d : Fin 16, value? (digit d) = some d.val := by
  decide

/-- Four places hold every number below `0x10000`. -/
theorem ofValues_lastFour (n : Nat) : ofValues ((lastFour n).map Fin.val) = n % 0x10000 := by
  simp only [lastFour, ofValues, List.map_cons, List.map_nil, List.foldl_cons, List.foldl_nil]
  omega

/-! ## All digits -/

theorem digits_ne_nil (n : Nat) : digits n ≠ [] := by
  obtain ⟨front, hfront⟩ := exists_digits_eq n
  rw [hfront]
  exact List.append_ne_nil_of_right_ne_nil _ (List.cons_ne_nil _ _)

theorem exists_digit_of_mem {n : Nat} {c : CodePoint} (h : c ∈ digits n) :
    ∃ d : Fin 16, c = digit d := by
  fun_induction digits n with
  | case1 n _ => exact ⟨_, List.mem_singleton.1 h⟩
  | case2 n _ ih =>
      rcases List.mem_append.1 h with hfront | hlast
      · exact ih hfront
      · exact ⟨_, List.mem_singleton.1 hlast⟩

theorem length_digits_le_iff {n k : Nat} :
    (digits n).length ≤ k + 1 ↔ n < Nat.pow 16 (k + 1) := by
  induction k generalizing n with
  | zero =>
      have hpow : Nat.pow 16 (0 + 1) = 16 := rfl
      rw [hpow]
      by_cases h : n < 16
      · simp [digits_of_lt h, h]
      · have hpos := List.length_pos_iff.2 (digits_ne_nil (n / 16))
        rw [digits_of_ge (by omega), List.length_append, List.length_singleton]
        omega
  | succ k ih =>
      have hpow : Nat.pow 16 (k + 1 + 1) = Nat.pow 16 (k + 1) * 16 := rfl
      rw [hpow, ← Nat.div_lt_iff_lt_mul (by decide), ← ih]
      by_cases h : n < 16
      · have hquot : n / 16 = 0 := by omega
        rw [digits_of_lt h, hquot, digits_of_lt (by decide)]
        simp
      · rw [digits_of_ge (by omega), List.length_append, List.length_singleton]
        omega

/-! ## Numerals in either case -/

def upper : Text := Text.ofString "0123456789ABCDEF"

def lower : Text := Text.ofString "0123456789abcdef"

/-- Is this a hexadecimal digit, in either case? -/
def IsDigit (c : CodePoint) : Prop := c ∈ upper ∨ c ∈ lower

/-- The place of a digit in its row. -/
def place (c : CodePoint) : Nat :=
  if c ∈ upper then upper.idxOf c else lower.idxOf c

/-- The number that a text of digits stands for, in base sixteen. -/
def numeral (t : Text) : Nat :=
  Nat.ofDigits 16 (t.reverse.map place)

theorem isDigit_decimal : ∀ k : Fin 10, IsDigit ⟨0x30 + k.val, by omega⟩ := by
  unfold IsDigit
  decide

theorem isDigit_letter : ∀ k : Fin 6,
    IsDigit ⟨0x41 + k.val, by omega⟩ ∧ IsDigit ⟨0x61 + k.val, by omega⟩ := by
  unfold IsDigit
  decide

theorem isDigit_digit : ∀ d : Fin 16, IsDigit (digit d) ∧ place (digit d) = d.val := by
  unfold IsDigit
  decide

theorem place_lt {c : CodePoint} (h : IsDigit c) : place c < 16 := by
  unfold place
  split
  · rename_i hupper
    exact List.idxOf_lt_length_iff.2 hupper
  · rename_i hupper
    exact List.idxOf_lt_length_iff.2 (h.resolve_left hupper)

theorem value?_of_isDigit {c : CodePoint} (h : IsDigit c) : value? c = some (place c) := by
  have hrows : (upper ++ lower).all (fun c => value? c = some (place c)) = true := by decide
  exact of_decide_eq_true (List.all_eq_true.1 hrows c (List.mem_append.2 h))

theorem isDigit_of_value? {c : CodePoint} {d : Nat} (h : value? c = some d) : IsDigit c := by
  obtain ⟨v, hv⟩ := c
  simp only [value?] at h
  split at h
  · rename_i hc
    obtain ⟨k, rfl⟩ := Nat.exists_eq_add_of_le hc.1
    exact isDigit_decimal ⟨k, by omega⟩
  · split at h
    · rename_i hc
      obtain ⟨k, rfl⟩ := Nat.exists_eq_add_of_le hc.1
      exact (isDigit_letter ⟨k, by omega⟩).1
    · split at h
      · rename_i hc
        obtain ⟨k, rfl⟩ := Nat.exists_eq_add_of_le hc.1
        exact (isDigit_letter ⟨k, by omega⟩).2
      · cases h

theorem value?_eq_some_iff {c : CodePoint} {d : Nat} :
    value? c = some d ↔ IsDigit c ∧ d = place c := by
  constructor
  · intro h
    have hdigit := isDigit_of_value? h
    rw [value?_of_isDigit hdigit] at h
    exact ⟨hdigit, (Option.some.inj h).symm⟩
  · rintro ⟨hdigit, rfl⟩
    exact value?_of_isDigit hdigit

theorem ofValues_map_place (t : Text) : ofValues (t.map place) = numeral t := by
  rw [numeral, List.map_reverse, Nat.ofDigits_eq_foldr, List.foldr_reverse, ofValues]
  simp [Nat.add_comm]

theorem numeral_append (t : Text) (c : CodePoint) :
    numeral (t ++ [c]) = place c + 16 * numeral t := by
  rw [numeral, List.reverse_append, List.map_append, List.reverse_singleton, List.map_singleton,
    List.singleton_append, Nat.ofDigits_cons, ← numeral]

/-- Six places hold no number above `0xFFFFFF`. -/
theorem numeral_lt {t : Text} (h : ∀ c ∈ t, IsDigit c) (hlength : t.length ≤ 6) :
    numeral t < 0x1000000 := by
  have hplaces : ∀ d ∈ t.reverse.map place, d < 16 := by
    intro d hd
    obtain ⟨c, hc, rfl⟩ := List.mem_map.1 hd
    exact place_lt (h c (List.mem_reverse.1 hc))
  calc numeral t
      < 16 ^ (t.reverse.map place).length := Nat.ofDigits_lt_base_pow_length (by decide) hplaces
    _ ≤ 16 ^ 6 := Nat.pow_le_pow_right (by decide) (by simpa using hlength)

theorem isDigit_of_mem_digits {n : Nat} {c : CodePoint} (h : c ∈ digits n) : IsDigit c := by
  obtain ⟨d, rfl⟩ := exists_digit_of_mem h
  exact (isDigit_digit d).1

/-- The digits of a number stand for the number. -/
theorem numeral_digits (n : Nat) : numeral (digits n) = n := by
  fun_induction digits n with
  | case1 n h =>
      rw [numeral, List.reverse_singleton, List.map_singleton, Nat.ofDigits_singleton,
        (isDigit_digit _).2]
      exact Nat.mod_eq_of_lt h
  | case2 n h ih =>
      have hlast : (Fin.ofNat 16 n).val = n % 16 := rfl
      rw [numeral_append, ih, (isDigit_digit _).2, hlast]
      omega

/-! ## Signs -/

theorem signed_of_nonneg {n : Int} (h : 0 ≤ n) : signed n = digits n.toNat :=
  if_neg (by omega)

theorem signed_of_neg {n : Int} (h : n < 0) :
    signed n = ('-' : CodePoint) :: digits n.natAbs :=
  if_pos h

theorem mem_signed {n : Int} {c : CodePoint} (h : c ∈ signed n) :
    c = ('-' : CodePoint) ∨ ∃ d : Fin 16, c = digit d := by
  by_cases hn : n < 0
  · rw [signed_of_neg hn] at h
    exact (List.mem_cons.1 h).imp_right exists_digit_of_mem
  · rw [signed_of_nonneg (Int.not_lt.1 hn)] at h
    exact Or.inr (exists_digit_of_mem h)

end Repertoire.Hex
