import Mathlib.Data.List.TakeWhile
import Repertoire.Text.Blank

/-!
# Trimming

What trimming does at a code point that is not blank: nothing beyond it is looked at
(`trim_append_cons`). The two ends are trimmed independently of each other (`trimStart_trimEnd`).
-/

namespace Repertoire.Text

/-- Is every code point of the text blank? -/
def IsBlank (t : Text) : Prop :=
  ∀ c ∈ t, CodePoint.isBlank c = true

theorem isBlank_cons {c : CodePoint} {t : Text} :
    IsBlank (c :: t) ↔ c.isBlank = true ∧ IsBlank t :=
  List.forall_mem_cons

theorem trimStart_eq_nil_iff {t : Text} : t.trimStart = [] ↔ t.IsBlank :=
  List.dropWhile_eq_nil_iff

theorem trimEnd_eq_nil_iff {t : Text} : t.trimEnd = [] ↔ t.IsBlank := by
  rw [trimEnd, List.reverse_eq_nil_iff, List.dropWhile_eq_nil_iff]
  simp only [List.mem_reverse]
  rfl

theorem mem_of_mem_trimStart {t : Text} {c : CodePoint} (h : c ∈ t.trimStart) : c ∈ t :=
  (List.dropWhile_sublist _).subset h

theorem mem_of_mem_trimEnd {t : Text} {c : CodePoint} (h : c ∈ t.trimEnd) : c ∈ t :=
  List.mem_reverse.1 ((List.dropWhile_sublist _).subset (List.mem_reverse.1 h))

theorem mem_of_mem_trim {t : Text} {c : CodePoint} (h : c ∈ t.trim) : c ∈ t :=
  mem_of_mem_trimStart (mem_of_mem_trimEnd h)

/-! ## The first code point -/

theorem trimStart_cons_blank {c : CodePoint} (hc : c.isBlank = true) (t : Text) :
    trimStart (c :: t) = t.trimStart :=
  List.dropWhile_cons_of_pos hc

theorem trimStart_cons {c : CodePoint} (hc : c.isBlank = false) (t : Text) :
    trimStart (c :: t) = c :: t :=
  List.dropWhile_cons_of_neg (by simp [hc])

/-- The end is trimmed down to the first code point only if nothing else is left. -/
theorem trimEnd_cons {c : CodePoint} {t : Text} (h : ¬ IsBlank (c :: t)) :
    trimEnd (c :: t) = c :: t.trimEnd := by
  have hrest : t.trimEnd = [] → c.isBlank = false := by
    intro hnil
    rw [isBlank_cons, ← trimEnd_eq_nil_iff, not_and'] at h
    exact Bool.eq_false_iff.2 (h hnil)
  rw [trimEnd, List.reverse_cons, List.dropWhile_append]
  split
  · rename_i hempty
    have hnil : t.trimEnd = [] := by
      rw [trimEnd, List.isEmpty_iff.1 hempty, List.reverse_nil]
    rw [hnil, List.dropWhile_cons_of_neg (by simp [hrest hnil])]
    rfl
  · rw [List.reverse_append]
    rfl

/-! ## A code point in the middle -/

section Middle

variable {c : CodePoint} (hc : c.isBlank = false)

include hc

theorem not_isBlank_append_cons (front back : Text) : ¬ IsBlank (front ++ c :: back) := by
  intro hblank
  have := hblank c (by simp)
  rw [hc] at this
  cases this

theorem trimStart_append_cons (front back : Text) :
    trimStart (front ++ c :: back) = front.trimStart ++ c :: back := by
  induction front with
  | nil => exact trimStart_cons hc back
  | cons d front ih =>
      rw [List.cons_append]
      by_cases hd : d.isBlank = true
      · rw [trimStart_cons_blank hd, trimStart_cons_blank hd, ih]
      · rw [trimStart_cons (by simpa using hd), trimStart_cons (by simpa using hd),
          List.cons_append]

theorem trimEnd_append_cons (front back : Text) :
    trimEnd (front ++ c :: back) = front ++ c :: back.trimEnd := by
  induction front with
  | nil => exact trimEnd_cons (not_isBlank_append_cons hc [] back)
  | cons d front ih =>
      have hblank := not_isBlank_append_cons hc (d :: front) back
      rw [List.cons_append] at hblank ⊢
      rw [trimEnd_cons hblank, ih, List.cons_append]

theorem trim_append_cons (front back : Text) :
    trim (front ++ c :: back) = front.trimStart ++ c :: back.trimEnd := by
  rw [trim, trimStart_append_cons hc, trimEnd_append_cons hc]

end Middle

theorem trimStart_trimEnd (t : Text) : t.trimEnd.trimStart = t.trim := by
  induction t with
  | nil => rfl
  | cons c t ih =>
      by_cases hblank : IsBlank (c :: t)
      · rw [trim, trimEnd_eq_nil_iff.2 hblank, trimStart_eq_nil_iff.2 hblank]
        rfl
      · rw [trimEnd_cons hblank]
        by_cases hc : c.isBlank = true
        · rw [trim, trimStart_cons_blank hc, trimStart_cons_blank hc, ih, trim]
        · rw [trim, trimStart_cons (by simpa using hc), trimStart_cons (by simpa using hc),
            trimEnd_cons hblank]

/-! ## Nothing to trim -/

theorem trimStart_of_forall_not_blank {t : Text} (h : ∀ c ∈ t, CodePoint.isBlank c = false) :
    t.trimStart = t := by
  cases t with
  | nil => rfl
  | cons c t => exact trimStart_cons (h c List.mem_cons_self) t

theorem trim_of_forall_not_blank {t : Text} (h : ∀ c ∈ t, CodePoint.isBlank c = false) :
    t.trim = t := by
  have hreverse : trimStart t.reverse = t.reverse :=
    trimStart_of_forall_not_blank fun c hc => h c (List.mem_reverse.1 hc)
  rw [trim, trimStart_of_forall_not_blank h]
  show (trimStart t.reverse).reverse = t
  rw [hreverse, List.reverse_reverse]

end Repertoire.Text
