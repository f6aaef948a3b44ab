import Mathlib.Data.Finset.Card

/-!
# Lists, options and results

What the other modules need to know of lists, of options and of results in general. Nothing here is
about code points.
-/

namespace Repertoire

/-! ## How many -/

/-- The values of a function on a list are the elements of a finite set, without repetition. -/
theorem length_eq_card {α β : Type} [DecidableEq β] {l : List α} {f : α → β} {t : Finset β}
    (hnodup : (l.map f).Nodup) (hmem : ∀ b, b ∈ t ↔ ∃ a ∈ l, f a = b) : l.length = t.card := by
  have ht : t = (l.map f).toFinset := by
    ext b
    rw [hmem, List.mem_toFinset, List.mem_map]
  rw [ht, List.toFinset_card_of_nodup hnodup, List.length_map]

theorem countP_le_one {α : Type} {p : α → Bool} {l : List α}
    (h : l.Pairwise fun a b => ¬ (p a = true ∧ p b = true)) : l.countP p ≤ 1 := by
  induction l with
  | nil => exact Nat.zero_le 1
  | cons a l ih =>
      obtain ⟨ha, hl⟩ := List.pairwise_cons.1 h
      by_cases hp : p a = true
      · have hnone : l.countP p = 0 := List.countP_eq_zero.2 fun b hb hpb => ha b hb ⟨hp, hpb⟩
        rw [List.countP_cons_of_pos hp, hnone]
      · rw [List.countP_cons_of_neg hp]
        exact ih hl

theorem eraseDups_concat {κ : Type} [DecidableEq κ] (keys : List κ) (key : κ) :
    (keys ++ [key]).eraseDups
      = if key ∈ keys then keys.eraseDups else keys.eraseDups ++ [key] := by
  rw [List.eraseDups_append]
  by_cases hkey : key ∈ keys
  · simp [List.removeAll, hkey]
  · simp [List.removeAll, hkey, List.eraseDups_cons]

/-! ## At which place -/

theorem pairwise_idxOf {l : List Int} (h : l.Nodup) :
    l.Pairwise fun a b => l.idxOf a < l.idxOf b := by
  refine List.pairwise_iff_getElem.2 fun i j hi hj hlt => ?_
  rw [h.idxOf_getElem, h.idxOf_getElem]
  exact hlt

theorem findIdx_le_idxOf {l : List Int} {p : Int → Bool} {x : Int} (hx : x ∈ l) (hp : p x = true) :
    l.findIdx p ≤ l.idxOf x := by
  refine Nat.not_lt.1 fun hlt => ?_
  have hnot := List.not_of_lt_findIdx hlt
  rw [List.getElem_idxOf (List.idxOf_lt_length_iff.2 hx), hp] at hnot
  cases hnot

theorem exists_idxOf_eq_findIdx {l : List Int} {p : Int → Bool} (h : l.Nodup) {x : Int}
    (hx : x ∈ l) (hp : p x = true) :
    ∃ y, p y = true ∧ l.idxOf y = l.findIdx p := by
  have hlt : l.findIdx p < l.length := List.findIdx_lt_length_of_exists ⟨x, hx, hp⟩
  exact ⟨l[l.findIdx p], List.findIdx_getElem, h.idxOf_getElem _ hlt⟩

theorem lookup_map_pair {β : Type} (points : List Int) (b : β) (x : Int) :
    (points.map fun y => (y, b)).lookup x = if x ∈ points then some b else none := by
  induction points with
  | nil => rfl
  | cons y points ih =>
      rw [List.map_cons, List.lookup_cons, ih]
      by_cases hxy : x = y
      · simp [hxy]
      · simp [hxy, beq_false_of_ne hxy]

/-! ## Ascending lists -/

theorem mergeSort_ascending {l : List Int} (h : l.Nodup) :
    (l.mergeSort fun a b => a ≤ b).Pairwise (· < ·) := by
  have hsorted : (l.mergeSort fun a b => a ≤ b).Pairwise (· ≤ ·) := by
    refine (List.pairwise_mergeSort ?_ ?_ _).imp of_decide_eq_true
    · intro a b c hab hbc
      exact decide_eq_true (Int.le_trans (of_decide_eq_true hab) (of_decide_eq_true hbc))
    · intro a b
      simpa using Int.le_total a b
  have honce : (l.mergeSort fun a b => a ≤ b).Nodup := (List.mergeSort_perm _ _).nodup_iff.2 h
  exact (hsorted.and honce).imp fun hle => Int.lt_iff_le_and_ne.2 hle

theorem mergeSort_of_ascending {l : List Int} (h : l.Pairwise (· < ·)) :
    (l.mergeSort fun a b => a ≤ b) = l :=
  List.mergeSort_of_pairwise (h.imp fun hlt => decide_eq_true (Int.le_of_lt hlt))

/-- Members of an ascending list with no other one between them are neighbours. -/
theorem exists_neighbours {l : List Int} (hascending : l.Pairwise (· < ·)) {a b : Int}
    (ha : a ∈ l) (hb : b ∈ l) (hab : a < b) (hbetween : ∀ c ∈ l, c ≤ a ∨ b ≤ c) :
    ∃ before after, l = before ++ a :: b :: after := by
  obtain ⟨before, rest, rfl⟩ := List.append_of_mem ha
  obtain ⟨-, hrest, hcross⟩ := List.pairwise_append.1 hascending
  obtain ⟨habove, -⟩ := List.pairwise_cons.1 hrest
  have hbrest : b ∈ rest := by
    rcases List.mem_append.1 hb with hfront | hback
    · have hlt := hcross b hfront a List.mem_cons_self
      omega
    · rcases List.mem_cons.1 hback with rfl | hmem
      · omega
      · exact hmem
  cases rest with
  | nil => cases hbrest
  | cons next after =>
      have hnext : next = b := by
        have hle : b ≤ next := by
          have hlt := habove next List.mem_cons_self
          have hside := hbetween next (by simp)
          omega
        rcases List.mem_cons.1 hbrest with rfl | hmem
        · rfl
        · have hlt := (List.pairwise_cons.1 (List.pairwise_cons.1 hrest).2).1 b hmem
          omega
      exact ⟨before, after, by rw [hnext]⟩

/-! ## Options and results -/

theorem rel_mono {α β : Type} {R S : α → β → Prop} (hRS : ∀ a b, R a b → S a b) {a : Option α}
    {b : Option β} (h : Option.Rel R a b) : Option.Rel S a b := by
  cases h with
  | some hab => exact .some (hRS _ _ hab)
  | none => exact .none

theorem rel_of_rel {α β γ : Type} {R : α → β → Prop} {S : α → γ → Prop} {T : β → γ → Prop}
    (hRST : ∀ a b c, R a b → S a c → T b c) {a : Option α} {b : Option β} {c : Option γ}
    (hab : Option.Rel R a b) (hac : Option.Rel S a c) : Option.Rel T b c := by
  cases hab with
  | some hR =>
      cases hac with
      | some hS => exact .some (hRST _ _ _ hR hS)
  | none =>
      cases hac with
      | none => exact .none

theorem map_eq_ok_iff {ε α : Type} {checked : Except ε Unit} {a b : α} :
    (checked.map fun _ => a) = .ok b ↔ checked = .ok () ∧ b = a := by
  cases checked with
  | error error => simp [Except.map]
  | ok => simp [Except.map, eq_comm]

end Repertoire
