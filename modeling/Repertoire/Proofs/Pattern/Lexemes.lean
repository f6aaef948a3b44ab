import Repertoire.Pattern
import Repertoire.Pattern.Lexeme
import Repertoire.Proofs.Hex

/-!
# Reading the lexemes of a pattern

A token of a unit is one lexeme, whatever text follows it (`read?_encode`), since an escape always
has four digits and a letter or digit is never the beginning of one. So the text of a class is read
as the lexemes that it was written from, and so is a row of alternatives.
-/

namespace Repertoire

namespace Token

/-- The escape of an integer holds its last four digits; below `-0xF000` there are not as many. -/
theorem escape_eq {u : Int} (h : -0xF000 ≤ u) :
    escape u = ('\\' : CodePoint) :: ('u' : CodePoint) ::
      (Hex.lastFour (u + 0x10000).toNat).map Hex.digit := by
  have hnonneg : ¬ u + 0x10000 < 0 := by omega
  simp only [escape, Hex.signed, if_neg hnonneg]
  rw [Hex.lastFour_digits (by omega)]

theorem isSafe_of_lt {c : Int} (h : 0x7A < c) : isSafe c = false := by
  simp only [isSafe, Bool.or_eq_false_iff, Bool.and_eq_false_iff, decide_eq_false_iff_not]
  omega

theorem encode_of_safe {c : Int} (h : isSafe c = true) : encode c = [Fin.ofNat _ c.toNat] := by
  rw [encode, if_pos h]

theorem encode_of_le {c : Int} (h : isSafe c = false) (hc : c ≤ 0xFFFF) :
    encode c = escape c := by
  rw [encode, if_neg (by simp [h]), if_pos hc]

end Token

namespace Pattern

namespace Lexeme

/-! ## Signs and tokens -/

theorem read?_opening (rest : Text) :
    read? (('[' : CodePoint) :: rest) = (read? rest).map (opening :: ·) := by
  rw [read?.eq_def]
  dsimp only
  rw [if_pos rfl]

theorem read?_closing (rest : Text) :
    read? ((']' : CodePoint) :: rest) = (read? rest).map (closing :: ·) := by
  rw [read?.eq_def]
  dsimp only
  rw [if_neg (by decide), if_pos rfl]

theorem read?_hyphen (rest : Text) :
    read? (('-' : CodePoint) :: rest) = (read? rest).map (hyphen :: ·) := by
  rw [read?.eq_def]
  dsimp only
  rw [if_neg (by decide), if_neg (by decide), if_pos rfl]

theorem read?_bar (rest : Text) :
    read? (('|' : CodePoint) :: rest) = (read? rest).map (bar :: ·) := by
  rw [read?.eq_def]
  dsimp only
  rw [if_neg (by decide), if_neg (by decide), if_neg (by decide), if_pos rfl]

theorem read?_safe {c : CodePoint} (h : Token.isSafe (c.val : Int) = true) (rest : Text) :
    read? (c :: rest) = (read? rest).map (unit (c.val : Int) :: ·) := by
  have hne : ∀ {d : CodePoint}, Token.isSafe (d.val : Int) = false → c ≠ d := by
    intro d hd heq
    rw [heq, hd] at h
    cases h
  rw [read?.eq_def]
  dsimp only
  rw [if_neg (hne (by decide)), if_neg (hne (by decide)), if_neg (hne (by decide)),
    if_neg (hne (by decide)), if_pos h]

theorem read?_digits (n : Nat) (rest : Text) :
    read? (('\\' : CodePoint) :: ('u' : CodePoint) :: ((Hex.lastFour n).map Hex.digit ++ rest))
      = (read? rest).map (unit ((n % 0x10000 : Nat) : Int) :: ·) := by
  rw [← Hex.ofValues_lastFour n]
  simp only [Hex.lastFour, List.map_cons, List.map_nil, List.cons_append, List.nil_append]
  rw [read?, if_neg (by decide), if_neg (by decide), if_neg (by decide), if_neg (by decide),
    if_neg (by decide), if_pos rfl]
  simp only [if_pos, fourDigits?, Hex.value?_digit]
  rfl

theorem read?_encode {u : Int} (h₀ : 0 ≤ u) (h₁ : u ≤ 0xFFFF) (rest : Text) :
    read? (Token.encode u ++ rest) = (read? rest).map (unit u :: ·) := by
  cases hsafe : Token.isSafe u with
  | true =>
      have hval : ((Fin.ofNat 0x110000 u.toNat).val : Int) = u := by
        rw [Fin.val_ofNat]
        omega
      rw [Token.encode_of_safe hsafe, List.singleton_append, read?_safe (by rw [hval]; exact hsafe),
        hval]
  | false =>
      have hval : (((u + 0x10000).toNat % 0x10000 : Nat) : Int) = u := by omega
      rw [Token.encode_of_le hsafe h₁, Token.escape_eq (by omega)]
      simp only [List.cons_append]
      rw [read?_digits, hval]

end Lexeme

/-! ## Classes -/

def itemLexemes : Item Int → List Lexeme
  | .single c => [.unit c]
  | .pair first last => [.unit first, .hyphen, .unit last]

def classLexemes : RangeList → List Lexeme
  | [] => []
  | [.single c] => [.unit c]
  | items => .opening :: items.flatMap itemLexemes ++ [.closing]

def InUnits (items : RangeList) : Prop :=
  ∀ item ∈ items, (0 ≤ item.ends.1 ∧ item.ends.1 ≤ 0xFFFF) ∧ 0 ≤ item.ends.2 ∧ item.ends.2 ≤ 0xFFFF

theorem read?_itemText {item : Item Int} (h : InUnits [item]) (rest : Text) :
    Lexeme.read? (itemText item ++ rest)
      = (Lexeme.read? rest).map (itemLexemes item ++ ·) := by
  obtain ⟨⟨h₀, h₁⟩, h₂, h₃⟩ := h item (List.mem_singleton.2 rfl)
  cases item with
  | single c => exact Lexeme.read?_encode h₀ h₁ rest
  | pair first last =>
      have hfirst := Lexeme.read?_encode (u := first) h₀ h₁
      have hlast := Lexeme.read?_encode (u := last) h₂ h₃
      rw [itemText, List.append_assoc, hfirst, List.cons_append, Lexeme.read?_hyphen, hlast,
        Option.map_map, Option.map_map]
      rfl

theorem read?_itemTexts : ∀ {items : RangeList}, InUnits items → ∀ rest : Text,
    Lexeme.read? (items.flatMap itemText ++ rest)
      = (Lexeme.read? rest).map (items.flatMap itemLexemes ++ ·)
  | [], _, rest => by
      cases hrest : Lexeme.read? rest <;> simp [hrest]
  | item :: items, h, rest => by
      have hitem : InUnits [item] := fun i hi => h i (by simp [List.mem_singleton.1 hi])
      have hitems : InUnits items := fun i hi => h i (List.mem_cons_of_mem _ hi)
      rw [List.flatMap_cons, List.append_assoc, read?_itemText hitem, read?_itemTexts hitems,
        Option.map_map]
      simp [Function.comp_def]

theorem read?_classText {items : RangeList} (h : InUnits items) (rest : Text) :
    Lexeme.read? (classText items ++ rest)
      = (Lexeme.read? rest).map (classLexemes items ++ ·) := by
  unfold classText classLexemes
  split
  · cases hrest : Lexeme.read? rest <;> simp [hrest]
  · exact read?_itemText h rest
  · rw [List.append_assoc, List.cons_append, Lexeme.read?_opening, read?_itemTexts h,
      List.singleton_append, Lexeme.read?_closing, Option.map_map, Option.map_map]
    simp [Function.comp_def]

/-! ## Alternatives -/

def alternativeText (alternative : List RangeList) : Text :=
  alternative.flatMap classText

/-- The lexemes of alternatives with bars between them. -/
def rowLexemes : List (List RangeList) → List Lexeme
  | [] => []
  | [alternative] => alternative.flatMap classLexemes
  | alternative :: others => alternative.flatMap classLexemes ++ .bar :: rowLexemes others

theorem read?_alternativeText : ∀ (alternative : List RangeList),
    (∀ items ∈ alternative, InUnits items) → ∀ rest : Text,
    Lexeme.read? (alternativeText alternative ++ rest)
      = (Lexeme.read? rest).map (alternative.flatMap classLexemes ++ ·)
  | [], _, rest => by
      cases hrest : Lexeme.read? rest <;> simp [hrest, alternativeText]
  | items :: alternative, h, rest => by
      have ih := read?_alternativeText alternative
        (fun i hi => h i (List.mem_cons_of_mem _ hi)) rest
      rw [alternativeText] at ih
      rw [alternativeText, List.flatMap_cons, List.append_assoc,
        read?_classText (h items List.mem_cons_self), ih, Option.map_map]
      simp [Function.comp_def]

theorem read?_row : ∀ (row : List (List RangeList)),
    (∀ alternative ∈ row, ∀ items ∈ alternative, InUnits items) →
    Lexeme.read? ([('|' : CodePoint)].intercalate (row.map alternativeText))
      = some (rowLexemes row)
  | [], _ => rfl
  | [alternative], h => by
      have hread := read?_alternativeText alternative (h alternative List.mem_cons_self) []
      simpa [Lexeme.read?, rowLexemes] using hread
  | alternative :: next :: others, h => by
      have ih := read?_row (next :: others) fun a ha => h a (List.mem_cons_of_mem _ ha)
      have hread := read?_alternativeText alternative (h alternative List.mem_cons_self)
      rw [List.map_cons, List.map_cons, List.intercalate_cons_cons, ← List.map_cons,
        List.append_assoc, hread, List.singleton_append, Lexeme.read?_bar, ih]
      rfl

end Pattern

end Repertoire
