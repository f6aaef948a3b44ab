import Mathlib.Data.List.Forall2
import Mathlib.Data.List.Induction
import Repertoire.Proofs.UnicodeRange.Grammar

/-!
# What question marks cover

A question mark is said to stand for any digit, but a token covers an interval: from all question
marks read as `0` to all of them read as `F`. Every number that the marks can be read for lies in
it (`covers_of_canRead`). The converse depends on where the marks stand. A mark at the end makes
both the interval and the numbers sixteen times as many, and changes nothing about their agreement;
a digit behind a mark spreads the numbers sixteen apart, and leaves gaps. So the two are the same
exactly if no digit stands behind a mark (`agrees_iff_marksLast`).

All inductions add characters at the end of a text, where its last place is.
-/

namespace Repertoire.UnicodeRange

/-! ## Reading question marks -/

/-- May the first character be read as the second? A question mark is read as any digit, everything
else as itself. -/
def ReadsAs (c d : CodePoint) : Prop :=
  if c = ('?' : CodePoint) then Hex.IsDigit d else d = c

/-- Is this a number that the text stands for, each of its question marks being read as some digit
of its own? -/
def CanRead (t : Text) (n : Nat) : Prop :=
  ∃ s, List.Forall₂ ReadsAs t s ∧ Hex.numeral s = n

/-- Does the number lie between the readings by zeros and by `F`s? -/
def Covers (t : Text) (n : Nat) : Prop :=
  Hex.numeral (fill ('0' : CodePoint) t) ≤ n ∧ n ≤ Hex.numeral (fill ('F' : CodePoint) t)

/-- Do only question marks stand behind a question mark? -/
def MarksLast (t : Text) : Prop :=
  t.Pairwise fun c d => c = ('?' : CodePoint) → d = ('?' : CodePoint)

instance : DecidablePred MarksLast := fun t => inferInstanceAs (Decidable (List.Pairwise _ t))

theorem readsAs_mark {d : CodePoint} : ReadsAs ('?' : CodePoint) d ↔ Hex.IsDigit d := by
  rw [ReadsAs, if_pos rfl]

theorem readsAs_of_ne {c d : CodePoint} (hc : c ≠ ('?' : CodePoint)) : ReadsAs c d ↔ d = c := by
  rw [ReadsAs, if_neg hc]

variable {t : Text} {c : CodePoint} {n : Nat}

/-! ## One more character -/

theorem canRead_append : CanRead (t ++ [c]) n ↔
    ∃ m d, CanRead t m ∧ ReadsAs c d ∧ n = 16 * m + Hex.place d := by
  constructor
  · rintro ⟨s, hs, rfl⟩
    obtain ⟨back, d, rfl⟩ : ∃ back d, s = back ++ [d] := by
      have hlength : s.length = t.length + 1 := by simp [← hs.length_eq]
      have hne : s ≠ [] := List.ne_nil_of_length_eq_add_one hlength
      exact ⟨_, _, (List.dropLast_append_getLast hne).symm⟩
    have hreverse := List.forall₂_reverse_iff.2 hs
    rw [List.reverse_append, List.reverse_append, List.reverse_singleton, List.reverse_singleton,
      List.singleton_append, List.singleton_append, List.forall₂_cons,
      List.forall₂_reverse_iff] at hreverse
    refine ⟨Hex.numeral back, d, ⟨back, hreverse.2, rfl⟩, hreverse.1, ?_⟩
    rw [Hex.numeral_append, Nat.add_comm]
  · rintro ⟨_, d, ⟨s, hs, rfl⟩, hd, rfl⟩
    refine ⟨s ++ [d], List.rel_append hs (.cons hd .nil), ?_⟩
    rw [Hex.numeral_append, Nat.add_comm]

/-- A mark at the end can be read as whatever the last place of a number is. -/
theorem canRead_append_mark : CanRead (t ++ [('?' : CodePoint)]) n ↔ CanRead t (n / 16) := by
  simp only [canRead_append, readsAs_mark]
  constructor
  · rintro ⟨m, d, hm, hd, rfl⟩
    have hplace := Hex.place_lt hd
    have hquot : (16 * m + Hex.place d) / 16 = m := by omega
    rwa [hquot]
  · intro h
    obtain ⟨hdigit, hplace⟩ := Hex.isDigit_digit ⟨n % 16, Nat.mod_lt n (by decide)⟩
    exact ⟨n / 16, _, h, hdigit, by rw [hplace]; exact (Nat.div_add_mod n 16).symm⟩

theorem canRead_append_of_ne (hc : c ≠ ('?' : CodePoint)) :
    CanRead (t ++ [c]) n ↔ ∃ m, CanRead t m ∧ n = 16 * m + Hex.place c := by
  simp only [canRead_append, readsAs_of_ne hc]
  constructor
  · rintro ⟨m, _, hm, rfl, hn⟩
    exact ⟨m, hm, hn⟩
  · rintro ⟨m, hm, hn⟩
    exact ⟨m, c, hm, rfl, hn⟩

theorem fill_append (digit : CodePoint) :
    fill digit (t ++ [c]) = fill digit t ++ [if c = ('?' : CodePoint) then digit else c] := by
  rw [fill, List.map_append, List.map_singleton, ← fill]

theorem place_zero : Hex.place ('0' : CodePoint) = 0 := by decide

theorem place_last : Hex.place ('F' : CodePoint) = 15 := by decide

theorem covers_append_mark : Covers (t ++ [('?' : CodePoint)]) n ↔ Covers t (n / 16) := by
  simp only [Covers, fill_append, Hex.numeral_append, if_pos, place_zero, place_last]
  omega

theorem covers_append_of_ne (hc : c ≠ ('?' : CodePoint)) : Covers (t ++ [c]) n ↔
    Hex.place c + 16 * Hex.numeral (fill ('0' : CodePoint) t) ≤ n
      ∧ n ≤ Hex.place c + 16 * Hex.numeral (fill ('F' : CodePoint) t) := by
  simp only [Covers, fill_append, Hex.numeral_append, if_neg hc]

theorem mark_mem_append_of_ne (hc : c ≠ ('?' : CodePoint)) :
    ('?' : CodePoint) ∈ t ++ [c] ↔ ('?' : CodePoint) ∈ t := by
  rw [List.mem_append, List.mem_singleton, or_iff_left hc.symm]

theorem marksLast_append_mark : MarksLast (t ++ [('?' : CodePoint)]) ↔ MarksLast t := by
  simp [MarksLast, List.pairwise_append]

theorem marksLast_append_of_ne (hc : c ≠ ('?' : CodePoint)) :
    MarksLast (t ++ [c]) ↔ ('?' : CodePoint) ∉ t := by
  simp only [MarksLast, List.pairwise_append, List.pairwise_singleton, List.mem_singleton,
    forall_eq, true_and]
  constructor
  · rintro ⟨-, hlast⟩ hmark
    exact hc (hlast _ hmark rfl)
  · intro hmark
    have hnone : ∀ d ∈ t, d ≠ ('?' : CodePoint) := fun d hd => ne_of_mem_of_not_mem hd hmark
    exact ⟨List.pairwise_of_forall_mem_list fun d hd _ _ heq => absurd heq (hnone d hd),
      fun d hd heq => absurd heq (hnone d hd)⟩

/-! ## The interval and the readings -/

theorem exists_canRead (t : Text) : ∃ n, CanRead t n := by
  induction t using List.reverseRecOn with
  | nil => exact ⟨0, [], .nil, rfl⟩
  | append_singleton t c ih =>
      obtain ⟨m, hm⟩ := ih
      by_cases hc : c = ('?' : CodePoint)
      · subst hc
        exact ⟨16 * m, canRead_append_mark.2 (by rwa [Nat.mul_div_cancel_left m (by decide)])⟩
      · exact ⟨_, (canRead_append_of_ne hc).2 ⟨m, hm, rfl⟩⟩

/-- No reading is below the one by zeros or above the one by `F`s. -/
theorem covers_of_canRead (h : CanRead t n) : Covers t n := by
  induction t using List.reverseRecOn generalizing n with
  | nil =>
      obtain ⟨s, hs, rfl⟩ := h
      obtain rfl := List.forall₂_nil_left_iff.1 hs
      exact ⟨Nat.le_refl _, Nat.le_refl _⟩
  | append_singleton t c ih =>
      by_cases hc : c = ('?' : CodePoint)
      · subst hc
        exact covers_append_mark.2 (ih (canRead_append_mark.1 h))
      · obtain ⟨m, hm, rfl⟩ := (canRead_append_of_ne hc).1 h
        obtain ⟨hfirst, hlast⟩ := ih hm
        exact (covers_append_of_ne hc).2 (by omega)

theorem fill_zero_le_fill_last (t : Text) :
    Hex.numeral (fill ('0' : CodePoint) t) ≤ Hex.numeral (fill ('F' : CodePoint) t) := by
  obtain ⟨n, hn⟩ := exists_canRead t
  obtain ⟨hfirst, hlast⟩ := covers_of_canRead hn
  exact hfirst.trans hlast

/-- With a mark there is a choice. -/
theorem fill_zero_lt_fill_last (h : ('?' : CodePoint) ∈ t) :
    Hex.numeral (fill ('0' : CodePoint) t) < Hex.numeral (fill ('F' : CodePoint) t) := by
  induction t using List.reverseRecOn with
  | nil => cases h
  | append_singleton t c ih =>
      have hle := fill_zero_le_fill_last t
      simp only [fill_append, Hex.numeral_append]
      by_cases hc : c = ('?' : CodePoint)
      · rw [if_pos hc, if_pos hc, place_zero, place_last]
        omega
      · have hlt := ih ((mark_mem_append_of_ne hc).1 h)
        rw [if_neg hc, if_neg hc]
        omega

/-- Is every number that lies between the bounds a reading? -/
def Agrees (t : Text) : Prop :=
  ∀ n, Covers t n ↔ CanRead t n

theorem agrees_of_not_mem (h : ('?' : CodePoint) ∉ t) : Agrees t := by
  intro n
  refine ⟨fun hcovers => ?_, covers_of_canRead⟩
  obtain ⟨m, hm⟩ := exists_canRead t
  have hm' := covers_of_canRead hm
  rw [Covers, fill_of_not_mem h, fill_of_not_mem h] at hcovers hm'
  have heq : n = m := by omega
  rwa [heq]

theorem agrees_append_mark : Agrees (t ++ [('?' : CodePoint)]) ↔ Agrees t := by
  simp only [Agrees, covers_append_mark, canRead_append_mark]
  constructor
  · intro h n
    have hn := h (16 * n)
    rwa [Nat.mul_div_cancel_left n (by decide)] at hn
  · exact fun h n => h (n / 16)

/-- All readings end in the last digit, so the number after the least of them is none. -/
theorem agrees_append_of_ne (hc : c ≠ ('?' : CodePoint)) :
    Agrees (t ++ [c]) ↔ ('?' : CodePoint) ∉ t := by
  constructor
  · intro h hmark
    have hlt := fill_zero_lt_fill_last hmark
    have hnext := h (Hex.place c + 16 * Hex.numeral (fill ('0' : CodePoint) t) + 1)
    rw [covers_append_of_ne hc, canRead_append_of_ne hc] at hnext
    obtain ⟨m, -, hm⟩ := hnext.1 (by omega)
    omega
  · exact fun hmark => agrees_of_not_mem (mt (mark_mem_append_of_ne hc).1 hmark)

theorem agrees_iff_marksLast (t : Text) : Agrees t ↔ MarksLast t := by
  induction t using List.reverseRecOn with
  | nil => exact iff_of_true (agrees_of_not_mem List.not_mem_nil) List.Pairwise.nil
  | append_singleton t c ih =>
      by_cases hc : c = ('?' : CodePoint)
      · subst hc
        rw [agrees_append_mark, marksLast_append_mark, ih]
      · rw [agrees_append_of_ne hc, marksLast_append_of_ne hc]

/-! ## Tokens with question marks -/

/-- Only the first number of a token can hold question marks. -/
theorem TokenForm.mem_start_of_mem_text {form : TokenForm} (h : ('?' : CodePoint) ∈ form.text) :
    ('?' : CodePoint) ∈ form.start := by
  obtain ⟨mark, start, stop?, hmark, _, hstop⟩ := form
  have hdigit : ¬ Hex.IsDigit ('?' : CodePoint) := by
    unfold Hex.IsDigit
    decide
  have hsigns : ('?' : CodePoint) ≠ mark ∧ ('?' : CodePoint) ≠ ('+' : CodePoint)
      ∧ ('?' : CodePoint) ≠ ('-' : CodePoint) := by
    rcases hmark with rfl | rfl <;> decide
  have hend : ('?' : CodePoint) ∉ stop?.elim [] fun stop => ('-' : CodePoint) :: stop := by
    cases stop? with
    | none => exact List.not_mem_nil
    | some stop =>
        have hdigits : ('?' : CodePoint) ∉ stop := fun hmem => hdigit ((hstop stop rfl).2 _ hmem)
        exact List.not_mem_cons_of_ne_of_not_mem hsigns.2.2 hdigits
  have hrest := List.mem_of_ne_of_mem hsigns.2.1 (List.mem_of_ne_of_mem hsigns.1 h)
  exact (List.mem_append.1 hrest).resolve_right hend

/-- **What a token with question marks covers.** Its bounds are in order, and every number that the
marks can be read for, each as any digit, lies between them. These numbers are all that lies between
the bounds if and only if the marks stand at the end of the first number. -/
theorem tokenBounds?_marks {t : Text} {first last : Nat} (hmark : ('?' : CodePoint) ∈ t)
    (h : tokenBounds? t = some (first, last)) :
    first ≤ last
      ∧ (∃ form : TokenForm, form.text = t)
      ∧ ∀ form : TokenForm, form.text = t →
          ('?' : CodePoint) ∈ form.start
            ∧ (∀ n, CanRead form.start n → first ≤ n ∧ n ≤ last)
            ∧ ((∀ n, (first ≤ n ∧ n ≤ last) ↔ CanRead form.start n) ↔ MarksLast form.start) := by
  have hbounds : ∀ form : TokenForm, form.text = t → ('?' : CodePoint) ∈ form.start
      ∧ Hex.numeral (fill ('0' : CodePoint) form.start) = first
      ∧ Hex.numeral (fill ('F' : CodePoint) form.start) = last := by
    rintro form rfl
    have hstart := TokenForm.mem_start_of_mem_text hmark
    rw [tokenBounds?_text, TokenForm.bounds, if_pos (List.contains_iff_mem.2 hstart)] at h
    exact ⟨hstart, Prod.mk.inj (Option.some.inj h)⟩
  obtain ⟨form, hform⟩ := exists_form (Option.isSome_of_eq_some h)
  refine ⟨?_, ⟨form, hform⟩, fun form hform => ?_⟩
  · obtain ⟨-, rfl, rfl⟩ := hbounds form hform
    exact fill_zero_le_fill_last form.start
  · obtain ⟨hstart, rfl, rfl⟩ := hbounds form hform
    exact ⟨hstart, fun n => covers_of_canRead, agrees_iff_marksLast form.start⟩

/-- A digit behind a mark: between `0x102` and `0x1F2` lies more than can be read. -/
theorem tokenBounds?_marks_beforeDigit :
    ('?' : CodePoint) ∈ Text.ofString "U+1?2"
      ∧ tokenBounds? (Text.ofString "U+1?2") = some (0x102, 0x1F2)
      ∧ ¬ ∀ n, (0x102 ≤ n ∧ n ≤ 0x1F2) ↔ CanRead (Text.ofString "1?2") n := by
  have hmark : ('?' : CodePoint) ∈ Text.ofString "U+1?2" := by decide
  have hbounds : tokenBounds? (Text.ofString "U+1?2") = some (0x102, 0x1F2) := by decide
  have hread : (boundsOf? (Text.ofString "1?2") none).isSome = true := by decide
  have hlast : ¬ MarksLast (Text.ofString "1?2") := by decide
  obtain ⟨hstart, hstop⟩ := fits_of_boundsOf? hread
  obtain ⟨-, -, hall⟩ := tokenBounds?_marks hmark hbounds
  obtain ⟨-, -, hagrees⟩ :=
    hall ⟨('U' : CodePoint), Text.ofString "1?2", none, Or.inr rfl, hstart, hstop⟩ rfl
  exact ⟨hmark, hbounds, mt hagrees.1 hlast⟩

end Repertoire.UnicodeRange
