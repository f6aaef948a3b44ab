/-!
# Rows of edges

A finite set of integers is a row of blocks, and a block is fixed by the place where it begins and
the place directly after its end. These places are the *edges* of the set. In ascending order they
say all about it: on the way up the number line, membership changes at every edge and nowhere
else, so an integer is a member exactly when an odd number of edges lie at or below it (`inside`).

Every Boolean operation on two sets is the same walk along both rows of edges, `weave`. It keeps
an edge exactly where the combined membership changes, which `inside_weave` states.
-/

namespace Repertoire

/-- Does an odd number of the edges lie at or below `x`? The edges ascend, so none after the first
one above `x` counts. -/
def inside : List Int → Int → Bool
  | [], _ => false
  | e :: edges, x => decide (e ≤ x) && !inside edges x

/-- Puts an edge at `e` in front, if membership before `e` differs from membership after it. -/
def turn (e : Int) (before after : Bool) (edges : List Int) : List Int :=
  if before = after then edges else e :: edges

/-- The edges of the combination by `f` of two sets, given by their edges from some place on.
There `p` and `q` say whether one is inside the first and inside the second set. Once one row has
ended, the combination changes at every edge of the other or at none. -/
def weave (f : Bool → Bool → Bool) (p q : Bool) : List Int → List Int → List Int
  | [], ys => if f p q = f p (!q) then [] else ys
  | x :: xs, [] => if f p q = f (!p) q then [] else x :: xs
  | x :: xs, y :: ys =>
    if x < y then turn x (f p q) (f (!p) q) (weave f (!p) q xs (y :: ys))
    else if y < x then turn y (f p q) (f p (!q)) (weave f p (!q) (x :: xs) ys)
    else turn x (f p q) (f (!p) (!q)) (weave f (!p) (!q) xs ys)
termination_by xs ys => xs.length + ys.length

theorem inside_eq_false {edges : List Int} {x : Int} (h : ∀ e ∈ edges, x < e) :
    inside edges x = false := by
  cases edges with
  | nil => rfl
  | cons e edges =>
    have := h e (by simp)
    simp [inside, Int.not_le.2 this]

theorem mem_turn {e x : Int} {before after : Bool} {edges : List Int}
    (h : x ∈ turn e before after edges) : x = e ∨ x ∈ edges := by
  unfold turn at h
  split at h
  · exact Or.inr h
  · simpa using h

theorem turn_ascending {e : Int} {before after : Bool} {edges : List Int}
    (h : edges.Pairwise (· < ·)) (he : ∀ x ∈ edges, e < x) :
    (turn e before after edges).Pairwise (· < ·) := by
  unfold turn
  split
  · exact h
  · exact List.pairwise_cons.2 ⟨he, h⟩

/-- Past `e`, the turn at `e` counts for membership exactly if it is there. -/
theorem inside_turn {e x : Int} {before after : Bool} {edges : List Int}
    (he : ∀ y ∈ edges, e < y) :
    inside (turn e before after edges) x =
      if e ≤ x then (before ^^ after) ^^ inside edges x else false := by
  unfold turn
  split
  · rename_i h
    split
    · simp [h]
    · exact inside_eq_false fun y hy => by have := he y hy; omega
  · rename_i h
    split
    · rename_i hx
      cases before <;> cases after <;> simp_all [inside]
    · rename_i hx
      simp [inside, hx]

theorem mem_weave {f : Bool → Bool → Bool} {p q : Bool} {xs ys : List Int} {e : Int}
    (h : e ∈ weave f p q xs ys) : e ∈ xs ∨ e ∈ ys := by
  fun_induction weave f p q xs ys with
  | case1 => simp at h
  | case2 => exact Or.inr h
  | case3 => simp at h
  | case4 => exact Or.inl h
  | case5 p q x xs y ys _ ih => rcases mem_turn h with rfl | h <;> grind
  | case6 p q x xs y ys _ _ ih => rcases mem_turn h with rfl | h <;> grind
  | case7 p q x xs y ys _ _ ih => rcases mem_turn h with rfl | h <;> grind

/-- Everything in both rows after the first edge lies above it. -/
private theorem lt_of_mem_weave {f : Bool → Bool → Bool} {p q : Bool} {xs ys : List Int} {e : Int}
    (hx : ∀ x ∈ xs, e < x) (hy : ∀ y ∈ ys, e < y) : ∀ z ∈ weave f p q xs ys, e < z :=
  fun _ hz => (mem_weave hz).elim (hx _) (hy _)

theorem weave_ascending (f : Bool → Bool → Bool) (p q : Bool) {xs ys : List Int}
    (hx : xs.Pairwise (· < ·)) (hy : ys.Pairwise (· < ·)) :
    (weave f p q xs ys).Pairwise (· < ·) := by
  fun_induction weave f p q xs ys with
  | case1 => exact List.Pairwise.nil
  | case2 => exact hy
  | case3 => exact List.Pairwise.nil
  | case4 => exact hx
  | case5 p q x xs y ys h ih =>
    rw [List.pairwise_cons] at hx hy
    exact turn_ascending (ih hx.2 (List.pairwise_cons.2 hy))
      (lt_of_mem_weave hx.1 (by grind))
  | case6 p q x xs y ys h h' ih =>
    rw [List.pairwise_cons] at hx hy
    exact turn_ascending (ih (List.pairwise_cons.2 hx) hy.2)
      (lt_of_mem_weave (by grind) hy.1)
  | case7 p q x xs y ys h h' ih =>
    rw [List.pairwise_cons] at hx hy
    obtain rfl : x = y := by omega
    exact turn_ascending (ih hx.2 hy.2) (lt_of_mem_weave hx.1 hy.1)

/-- Along the walk, combined membership changes against its start exactly as `f` says. -/
theorem inside_weave (f : Bool → Bool → Bool) (p q : Bool) {xs ys : List Int}
    (hx : xs.Pairwise (· < ·)) (hy : ys.Pairwise (· < ·)) (z : Int) :
    inside (weave f p q xs ys) z = (f p q ^^ f (p ^^ inside xs z) (q ^^ inside ys z)) := by
  fun_induction weave f p q xs ys with
  | case1 p q ys h => cases hz : inside ys z <;> simp [inside, h]
  | case2 p q ys h =>
    cases hz : inside ys z <;> cases hf : f p q <;> cases hf' : f p (!q) <;> simp_all [inside]
  | case3 p q x xs h => cases hz : inside (x :: xs) z <;> simp_all [inside]
  | case4 p q x xs h =>
    cases hz : inside (x :: xs) z <;> cases hf : f p q <;> cases hf' : f (!p) q <;>
      simp_all [inside]
  | case5 p q x xs y ys h ih =>
    have hx' := List.pairwise_cons.1 hx
    have hy' := List.pairwise_cons.1 hy
    rw [inside_turn (lt_of_mem_weave hx'.1 (by grind)), ih hx'.2 hy]
    by_cases hz : x ≤ z
    · simp [inside, hz]
    · have : ¬ y ≤ z := by omega
      simp [inside, hz, this]
  | case6 p q x xs y ys h h' ih =>
    have hx' := List.pairwise_cons.1 hx
    have hy' := List.pairwise_cons.1 hy
    rw [inside_turn (lt_of_mem_weave (by grind) hy'.1), ih hx hy'.2]
    by_cases hz : y ≤ z
    · simp [inside, hz]
    · have : ¬ x ≤ z := by omega
      simp [inside, hz, this]
  | case7 p q x xs y ys h h' ih =>
    have hx' := List.pairwise_cons.1 hx
    have hy' := List.pairwise_cons.1 hy
    obtain rfl : x = y := by omega
    rw [inside_turn (lt_of_mem_weave hx'.1 hy'.1), ih hx'.2 hy'.2]
    by_cases hz : x ≤ z <;> simp [inside, hz]

/-- Past all edges, one is inside exactly if their number is odd. -/
theorem inside_of_forall_le {edges : List Int} {x : Int} (h : ∀ e ∈ edges, e ≤ x) :
    inside edges x = (edges.length % 2 == 1) := by
  induction edges with
  | nil => rfl
  | cons e edges ih =>
    rw [inside, ih fun y hy => h y (List.mem_cons_of_mem _ hy)]
    have := h e (by simp)
    simp only [this, decide_true, Bool.true_and, List.length_cons]
    rcases Nat.mod_two_eq_zero_or_one edges.length with h2 | h2 <;>
      simp [h2, Nat.add_mod]

theorem exists_forall_le (l : List Int) : ∃ b, ∀ x ∈ l, x ≤ b := by
  induction l with
  | nil => exact ⟨0, by simp⟩
  | cons a l ih =>
    obtain ⟨b, hb⟩ := ih
    exact ⟨max a b, fun x hx => by
      rcases List.mem_cons.1 hx with rfl | hx
      · omega
      · have := hb x hx
        omega⟩

end Repertoire
