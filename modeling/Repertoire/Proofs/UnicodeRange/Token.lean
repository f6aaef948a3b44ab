import Repertoire.Proofs.UnicodeRange.Grammar

/-!
# Reading the tokens that are written

An integer is written with as many hexadecimal digits as it takes, and a minus if it is negative. A
token has room for six digits and none for a sign. So the token of an item is read as the ends of
the item if both are within `0` to `0xFFFFFF`, and is no token at all otherwise
(`tokenBounds?_itemToken`).
-/

namespace Repertoire.UnicodeRange

/-! ## Numbers -/

/-- A number up to `0xFFFFFF` has one to six digits, and a greater one has too many. -/
theorem digits_fit_iff (n : Nat) :
    (1 ≤ (Hex.digits n).length ∧ (Hex.digits n).length ≤ 6) ↔ n ≤ 0xFFFFFF := by
  have hpos := List.length_pos_iff.2 (Hex.digits_ne_nil n)
  have hlength : (Hex.digits n).length ≤ 5 + 1 ↔ n < 0x1000000 := Hex.length_digits_le_iff
  omega

theorem oneToSix_digits_iff (n : Nat) :
    OneToSix Hex.IsDigit (Hex.digits n) ↔ n ≤ 0xFFFFFF := by
  rw [OneToSix, digits_fit_iff, and_iff_left fun c => Hex.isDigit_of_mem_digits]

theorem isChoice_of_mem_digits {n : Nat} {c : CodePoint} (h : c ∈ Hex.digits n) : IsChoice c :=
  Or.inl (Hex.isDigit_of_mem_digits h)

/-- Two numbers are read as what they are if there is room for both, and else not at all. -/
theorem boundsOf?_digits (first : Nat) (last : Option Nat) :
    boundsOf? (Hex.digits first) (last.map Hex.digits)
      = if first ≤ 0xFFFFFF ∧ last.getD first ≤ 0xFFFFFF then some (first, last.getD first)
        else none := by
  split
  · rename_i hfits
    obtain ⟨hfirst, hlast⟩ := hfits
    have hstart := (oneToSix_digits_iff first).2 hfirst
    have hstop : ∀ stop ∈ last.map Hex.digits, OneToSix Hex.IsDigit stop := by
      rintro stop hstop
      obtain ⟨n, rfl, rfl⟩ := Option.map_eq_some_iff.1 hstop
      exact (oneToSix_digits_iff n).2 hlast
    have hmark : ('?' : CodePoint) ∉ Hex.digits first := by
      intro h
      have hdigit := Hex.isDigit_of_mem_digits h
      revert hdigit
      unfold Hex.IsDigit
      decide
    refine (boundsOf?_form ⟨('U' : CodePoint), Hex.digits first, last.map Hex.digits, Or.inr rfl,
      ⟨hstart.1, fun _ => isChoice_of_mem_digits⟩, hstop⟩).trans ?_
    rw [TokenForm.bounds, if_neg (mt List.contains_iff_mem.1 hmark), Hex.numeral_digits]
    cases last with
    | none => rfl
    | some last => exact congrArg (fun n => some (first, n)) (Hex.numeral_digits last)
  · rename_i hfits
    refine Option.not_isSome_iff_eq_none.1 fun hread => ?_
    obtain ⟨hstart, hstop⟩ := fits_of_boundsOf? hread
    have hfirst := (digits_fit_iff first).1 hstart.1
    cases last with
    | none => exact hfits ⟨hfirst, hfirst⟩
    | some last => exact hfits ⟨hfirst, (digits_fit_iff last).1 (hstop _ rfl).1⟩

/-! ## Tokens -/

theorem tokenBounds?_ofString_append (rest : Text) :
    tokenBounds? (Text.ofString "U+" ++ rest)
      = match rest.splitOn ('-' : CodePoint) with
        | [start] => boundsOf? start none
        | [start, stop] => boundsOf? start (some stop)
        | _ => none := rfl

theorem hyphen_not_mem_digits (n : Nat) : ('-' : CodePoint) ∉ Hex.digits n :=
  hyphen_not_mem fun _ => isChoice_of_mem_digits

/-- Before a hyphen there has to be a digit. -/
theorem tokenBounds?_hyphen (rest : Text) :
    tokenBounds? (Text.ofString "U+" ++ ('-' : CodePoint) :: rest) = none := by
  have hsplit : (('-' : CodePoint) :: rest).splitOn ('-' : CodePoint)
      = [] :: rest.splitOn ('-' : CodePoint) :=
    List.splitOn_append_cons_self_of_not_mem (List.not_mem_nil) rest
  have hbounds : ∀ stop, boundsOf? [] stop = none := fun _ => rfl
  rw [tokenBounds?_ofString_append, hsplit]
  split
  · rename_i heq
    rw [← (List.cons.inj heq).1, hbounds]
  · rename_i heq
    rw [← (List.cons.inj heq).1, hbounds]
  · rfl

theorem tokenBounds?_digits (first : Nat) :
    tokenBounds? (Text.ofString "U+" ++ Hex.digits first)
      = boundsOf? (Hex.digits first) none := by
  rw [tokenBounds?_ofString_append, List.splitOn_eq_singleton (hyphen_not_mem_digits first)]

theorem tokenBounds?_digits_hyphen_digits (first last : Nat) :
    tokenBounds? (Text.ofString "U+" ++ (Hex.digits first ++ ('-' : CodePoint) :: Hex.digits last))
      = boundsOf? (Hex.digits first) (some (Hex.digits last)) := by
  rw [tokenBounds?_ofString_append,
    List.splitOn_append_cons_self_of_not_mem (hyphen_not_mem_digits first),
    List.splitOn_eq_singleton (hyphen_not_mem_digits last)]

theorem exists_itemToken_of_neg {item : Item Int} (h : item.ends.1 < 0) :
    ∃ rest, itemToken item = Text.ofString "U+" ++ ('-' : CodePoint) :: rest := by
  cases item with
  | single c =>
      have h : c < 0 := h
      exact ⟨Hex.digits c.natAbs, by rw [itemToken, token, Hex.signed_of_neg h]⟩
  | pair first last =>
      have h : first < 0 := h
      refine ⟨Hex.digits first.natAbs ++ ('-' : CodePoint) :: Hex.signed last, ?_⟩
      rw [itemToken, token, Hex.signed_of_neg h, List.append_assoc, List.cons_append]

/-- The token of an item is read as the ends of the item, if it has room for them. -/
theorem tokenBounds?_itemToken {item : Item Int} (hle : item.ends.1 ≤ item.ends.2) :
    tokenBounds? (itemToken item)
      = if 0 ≤ item.ends.1 ∧ item.ends.2 ≤ 0xFFFFFF then
          some (item.ends.1.toNat, item.ends.2.toNat)
        else none := by
  by_cases hneg : item.ends.1 < 0
  · obtain ⟨rest, hrest⟩ := exists_itemToken_of_neg hneg
    rw [hrest, tokenBounds?_hyphen, if_neg (by omega)]
  · cases item with
    | single c =>
        have hc : 0 ≤ c := Int.not_lt.1 hneg
        have hfits : (c.toNat ≤ 0xFFFFFF ∧ c.toNat ≤ 0xFFFFFF) ↔ (0 ≤ c ∧ c ≤ 0xFFFFFF) := by
          omega
        have hbounds := boundsOf?_digits c.toNat none
        simp only [Option.map_none, Option.getD_none, hfits] at hbounds
        rw [itemToken, token, Hex.signed_of_nonneg hc, tokenBounds?_digits]
        exact hbounds
    | pair first last =>
        have hfirst : 0 ≤ first := Int.not_lt.1 hneg
        have hle : first ≤ last := hle
        have hfits : (first.toNat ≤ 0xFFFFFF ∧ last.toNat ≤ 0xFFFFFF)
            ↔ (0 ≤ first ∧ last ≤ 0xFFFFFF) := by
          omega
        have hbounds := boundsOf?_digits first.toNat (some last.toNat)
        simp only [Option.map_some, Option.getD_some, hfits] at hbounds
        rw [itemToken, token, Hex.signed_of_nonneg hfirst, Hex.signed_of_nonneg (by omega),
          List.append_assoc, tokenBounds?_digits_hyphen_digits]
        exact hbounds

/-! ## Tokens in a list -/

/-- Neither a comma nor blank, and so no part of a separator. -/
def IsPlain (c : CodePoint) : Prop :=
  c.isBlank = false ∧ c ≠ (',' : CodePoint)

theorem isPlain_digit : ∀ d : Fin 16, IsPlain (Hex.digit d) := by
  unfold IsPlain
  decide

theorem isPlain_signs :
    IsPlain ('-' : CodePoint) ∧ IsPlain ('U' : CodePoint) ∧ IsPlain ('+' : CodePoint) := by
  unfold IsPlain
  decide

theorem isPlain_of_mem_signed {n : Int} {c : CodePoint} (h : c ∈ Hex.signed n) : IsPlain c := by
  rcases Hex.mem_signed h with rfl | ⟨d, rfl⟩
  · exact isPlain_signs.1
  · exact isPlain_digit d

theorem isPlain_of_mem_token {n : Int} {c : CodePoint} (h : c ∈ token n) : IsPlain c := by
  have hmark : Text.ofString "U+" = [('U' : CodePoint), ('+' : CodePoint)] := rfl
  rw [token, hmark] at h
  rcases List.mem_cons.1 h with rfl | h
  · exact isPlain_signs.2.1
  · rcases List.mem_cons.1 h with rfl | h
    · exact isPlain_signs.2.2
    · exact isPlain_of_mem_signed h

theorem isPlain_of_mem_itemToken {item : Item Int} {c : CodePoint} (h : c ∈ itemToken item) :
    IsPlain c := by
  cases item with
  | single a => exact isPlain_of_mem_token h
  | pair first last =>
      rcases List.mem_append.1 h with h | h
      · exact isPlain_of_mem_token h
      · rcases List.mem_cons.1 h with rfl | h
        · exact isPlain_signs.1
        · exact isPlain_of_mem_signed h

end Repertoire.UnicodeRange
