import Repertoire.Text.Quoted

/-!
# A quoted text fits on one line

Between quotes there is no line break of any kind: none of the code points that break lines is
printable (`isPrintable_of_isLineBreak`), and an escape is made of letters, digits and backslashes.
So a message that quotes a text is one line, whatever the text is (`isLine_quoted`).
-/

namespace Repertoire

/-- Does a code point break lines? Besides the line feed and the carriage return, these are the
vertical tab, the form feed, the file, group and record separators, the next line, and the line and
paragraph separators. -/
def IsLineBreak (c : CodePoint) : Prop :=
  c.val ∈ [0x0A, 0x0B, 0x0C, 0x0D, 0x1C, 0x1D, 0x1E, 0x85, 0x2028, 0x2029]

instance : DecidablePred IsLineBreak := fun _ => inferInstanceAs (Decidable (_ ∈ _))

def IsUnbroken (t : Text) : Prop :=
  ∀ c ∈ t, ¬ IsLineBreak c

instance : DecidablePred IsUnbroken := fun t =>
  decidable_of_iff ((t.all fun c => !decide (IsLineBreak c)) = true) (by simp [IsUnbroken])

/-- Is this one line, with a line feed at its end and no other line break? -/
def IsLine (t : Text) : Prop :=
  ∃ body, t = body ++ [('\n' : CodePoint)] ∧ IsUnbroken body

theorem isLine_iff {t : Text} :
    IsLine t ↔ t.getLast? = some ('\n' : CodePoint) ∧ IsUnbroken t.dropLast := by
  constructor
  · rintro ⟨body, rfl, hbody⟩
    rw [List.dropLast_concat]
    exact ⟨List.getLast?_concat, hbody⟩
  · rintro ⟨hlast, hbody⟩
    obtain ⟨body, rfl⟩ := List.getLast?_eq_some_iff.1 hlast
    rw [List.dropLast_concat] at hbody
    exact ⟨body, rfl, hbody⟩

instance : DecidablePred IsLine := fun _ => decidable_of_iff _ isLine_iff.symm

theorem isUnbroken_append {t u : Text} : IsUnbroken (t ++ u) ↔ IsUnbroken t ∧ IsUnbroken u :=
  List.forall_mem_append

theorem isUnbroken_cons {c : CodePoint} {t : Text} :
    IsUnbroken (c :: t) ↔ ¬ IsLineBreak c ∧ IsUnbroken t :=
  List.forall_mem_cons

theorem isUnbroken_singleton {c : CodePoint} : IsUnbroken [c] ↔ ¬ IsLineBreak c := by
  simp [IsUnbroken]

theorem isPrintable_of_isLineBreak {c : CodePoint} (h : IsLineBreak c) :
    c.isPrintable = false := by
  have hall : ∀ n ∈ [0x0A, 0x0B, 0x0C, 0x0D, 0x1C, 0x1D, 0x1E, 0x85, 0x2028, 0x2029],
      (CodePoint.unprintableRanges.any fun range => range.1 ≤ n && n ≤ range.2) = true := by
    decide +kernel
  rw [CodePoint.isPrintable, hall c.val h]
  rfl

theorem isUnbroken_padded (width n : Nat) : IsUnbroken (Hex.padded width n) := by
  have hdigit : ∀ d : Fin 16, ¬ IsLineBreak
      (if 0x41 ≤ (Hex.digit d).val then Fin.ofNat _ ((Hex.digit d).val + 0x20) else Hex.digit d) := by
    decide
  induction width generalizing n with
  | zero => exact nofun
  | succ width ih =>
      exact isUnbroken_append.2 ⟨ih (n / 16), isUnbroken_singleton.2 (hdigit _)⟩

namespace Text

/-- Each way to write a code point between quotes is free of line breaks. -/
theorem isUnbroken_escaped {quote : CodePoint} (hquote : ¬ IsLineBreak quote) (c : CodePoint) :
    IsUnbroken (escaped CodePoint.isPrintable quote c) := by
  have hescape : ∀ {start : Text} (width : Nat), IsUnbroken start →
      IsUnbroken (start ++ Hex.padded width c.val) := fun width hstart =>
    isUnbroken_append.2 ⟨hstart, isUnbroken_padded width c.val⟩
  unfold escaped
  split
  · rename_i hc
    refine isUnbroken_cons.2 ⟨by decide, isUnbroken_singleton.2 ?_⟩
    rcases hc with rfl | rfl
    · exact hquote
    · decide
  · split
    · decide
    · split
      · decide
      · split
        · decide
        · split
          · rename_i hshown
            refine isUnbroken_singleton.2 fun hbreak => ?_
            rw [isPrintable_of_isLineBreak hbreak] at hshown
            cases hshown
          · split
            · exact hescape 2 (by decide)
            · split
              · exact hescape 4 (by decide)
              · exact hescape 8 (by decide)

theorem isUnbroken_quoted (t : Text) : IsUnbroken t.quoted := by
  have hquote : ¬ IsLineBreak t.quoteFor := by
    unfold quoteFor
    dsimp only
    split <;> decide
  have hinside : IsUnbroken (t.flatMap (escaped CodePoint.isPrintable t.quoteFor)) := by
    intro d hd
    obtain ⟨c, -, hd⟩ := List.mem_flatMap.1 hd
    exact isUnbroken_escaped hquote c d hd
  exact isUnbroken_append.2 ⟨isUnbroken_cons.2 ⟨hquote, hinside⟩, isUnbroken_singleton.2 hquote⟩

/-- A quoted text with the beginning and the end of a line around it makes one line. -/
theorem isLine_quoted {start stop : Text} (t : Text) (hstart : IsUnbroken start)
    (hstop : IsUnbroken stop) :
    IsLine (start ++ t.quoted ++ (stop ++ [('\n' : CodePoint)])) := by
  refine ⟨start ++ t.quoted ++ stop, (List.append_assoc _ _ _).symm, ?_⟩
  exact isUnbroken_append.2 ⟨isUnbroken_append.2 ⟨hstart, isUnbroken_quoted t⟩, hstop⟩

end Text

end Repertoire
