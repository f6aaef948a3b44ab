import Repertoire.Proofs.Element
import Repertoire.Source

/-!
# When a value is refused

The strict reading of a value goes over its elements twice, first for their shape and then for the
bounds of their ends. `Refusal` says without the two passes which values are refused and for what;
`strict_refuses_exactly` says that this is what the strict reading does, and that it gives a set for
every other value.
-/

namespace Repertoire

/-! ## What is refused -/

/-- The first member of a list with a property. -/
def IsFirst {α : Type} (p : α → Prop) (l : List α) (a : α) : Prop :=
  ∃ before after, l = before ++ a :: after ∧ p a ∧ ∀ b ∈ before, ¬ p b

/-- The values that are refused, and the reason given. -/
inductive Refusal : Value → SourceError → Prop where
  | outOfBounds {n : Int} : ¬ (0 ≤ n ∧ n ≤ 0x10FFFF) → Refusal (.int n) (.invalid (.int n))
  | illFormed {v e : Value} {elements : List Value} : v.elements? = some elements →
      IsFirst (¬ ·.IsElement) elements e → Refusal v (.invalid e)
  | endOutOfBounds {v : Value} {elements : List Value} {c : Int} : v.elements? = some elements →
      (∀ e ∈ elements, e.IsElement) →
      IsFirst (fun c => ¬ (0 ≤ c ∧ c ≤ 0x10FFFF)) (elements.flatMap Value.named) c →
      Refusal v (.invalid (.int c))
  | unsupported {v : Value} : (∀ t, v ≠ .text t) → (∀ n, v ≠ .int n) → v.elements? = none →
      Refusal v (.unsupported v)

theorem find?_eq_some_iff_isFirst {α : Type} {p : α → Prop} {test : α → Bool}
    (htest : ∀ a, test a = true ↔ p a) {l : List α} {a : α} :
    l.find? test = some a ↔ IsFirst p l a := by
  have hfalse : ∀ b, test b = false ↔ ¬ p b := fun b => by rw [← htest, Bool.not_eq_true]
  rw [List.find?_eq_some_iff_append]
  simp only [IsFirst, htest, Bool.not_eq_true', hfalse]
  constructor
  · rintro ⟨ha, before, after, hsplit, hbefore⟩
    exact ⟨before, after, hsplit, ha, hbefore⟩
  · rintro ⟨before, after, hsplit, ha, hbefore⟩
    exact ⟨ha, before, after, hsplit, hbefore⟩

theorem inBounds_iff {c : Int} : inBounds c = true ↔ 0 ≤ c ∧ c ≤ 0x10FFFF := by
  simp only [inBounds, Bool.and_eq_true, decide_eq_true_eq]

/-! ## The two passes -/

namespace CodeSet

theorem readItems_eq_error {elements : List Value} {error : SourceError} :
    readItems elements = .error error ↔
      ∃ e, error = .invalid e ∧ IsFirst (¬ ·.IsElement) elements e := by
  have hfirst : ∀ e, elements.find? (!·.isWellFormed) = some e ↔
      IsFirst (¬ ·.IsElement) elements e := fun e =>
    find?_eq_some_iff_isFirst fun v => by
      rw [Bool.not_eq_true', ← Value.isWellFormed_iff, Bool.not_eq_true]
  unfold readItems
  cases hfind : elements.find? (!·.isWellFormed) with
  | some e =>
      have he := (hfirst e).1 hfind
      constructor
      · intro h
        exact ⟨e, (Except.error.inj h).symm, he⟩
      · rintro ⟨e', rfl, he'⟩
        rw [← hfirst, hfind] at he'
        rw [Option.some.inj he']
  | none =>
      constructor
      · intro h
        cases h
      · rintro ⟨e', -, he'⟩
        rw [← hfirst, hfind] at he'
        cases he'

theorem readItems_eq_ok {elements : List Value} {items : RangeList}
    (h : readItems elements = .ok items) :
    (∀ e ∈ elements, e.IsElement) ∧ items = elements.filterMap Value.item? := by
  unfold readItems at h
  cases hfind : elements.find? (!·.isWellFormed) with
  | some e =>
      rw [hfind] at h
      cases h
  | none =>
      rw [hfind] at h
      refine ⟨fun e he => ?_, (Except.ok.inj h).symm⟩
      have hwell := List.find?_eq_none.1 hfind e he
      rw [← Value.isWellFormed_iff]
      simpa using hwell

theorem readItems_of_isElement {elements : List Value} (h : ∀ e ∈ elements, e.IsElement) :
    readItems elements = .ok (elements.filterMap Value.item?) := by
  cases hread : readItems elements with
  | error error =>
      obtain ⟨e, -, before, after, rfl, hill, -⟩ := readItems_eq_error.1 hread
      exact absurd (h e (by simp)) hill
  | ok items => rw [(readItems_eq_ok hread).2]

theorem checkBounds_eq_ok {points : List Int} :
    checkBounds points = .ok () ↔ ∀ c ∈ points, 0 ≤ c ∧ c ≤ 0x10FFFF := by
  have hnone : points.find? (!inBounds ·) = none ↔ ∀ c ∈ points, 0 ≤ c ∧ c ≤ 0x10FFFF := by
    simp only [List.find?_eq_none, Bool.not_eq_true', Bool.not_eq_false, inBounds_iff]
  rw [← hnone, checkBounds]
  cases points.find? (!inBounds ·) <;> simp

theorem checkBounds_eq_error {points : List Int} {error : SourceError} :
    checkBounds points = .error error ↔
      ∃ c, error = .invalid (.int c) ∧ points.find? (!inBounds ·) = some c := by
  unfold checkBounds
  cases points.find? (!inBounds ·) with
  | some c =>
      constructor
      · intro h
        exact ⟨c, (Except.error.inj h).symm, rfl⟩
      · rintro ⟨c', rfl, hc'⟩
        rw [Option.some.inj hc']
  | none => simp

theorem checkBounds_ends {elements : List Value} (h : ∀ e ∈ elements, e.IsElement)
    {error : SourceError} :
    checkBounds ((elements.filterMap Value.item?).flatMap
        fun item => [item.ends.1, item.ends.2]) = .error error ↔
      ∃ c, error = .invalid (.int c)
        ∧ IsFirst (fun c => ¬ (0 ≤ c ∧ c ≤ 0x10FFFF)) (elements.flatMap Value.named) c := by
  rw [checkBounds_eq_error]
  refine exists_congr fun c => and_congr_right fun _ => ?_
  rw [Value.find?_ends h]
  refine find?_eq_some_iff_isFirst fun c => ?_
  rw [Bool.not_eq_true', ← inBounds_iff, Bool.not_eq_true]

theorem strict_of_elements {v : Value} {elements : List Value}
    (h : v.elements? = some elements) :
    strict v = (readItems elements).bind fun items =>
      (checkBounds (items.flatMap fun item => [item.ends.1, item.ends.2])).map
        fun _ => ofItems items := by
  rcases Value.elements?_eq_some.1 h with rfl | rfl <;> rfl

/-- The elements are refused for the first that is ill-formed, or else for the first end that is out
of bounds. -/
theorem strict_elements_eq_error {v : Value} {elements : List Value}
    (h : v.elements? = some elements) {error : SourceError} :
    strict v = .error error ↔
      (∃ e, error = .invalid e ∧ IsFirst (¬ ·.IsElement) elements e)
      ∨ ((∀ e ∈ elements, e.IsElement) ∧ ∃ c, error = .invalid (.int c)
          ∧ IsFirst (fun c => ¬ (0 ≤ c ∧ c ≤ 0x10FFFF)) (elements.flatMap Value.named) c) := by
  rw [strict_of_elements h]
  cases hread : readItems elements with
  | error error' =>
      obtain ⟨e, -, before, after, rfl, hill, -⟩ := readItems_eq_error.1 hread
      have hsome : ¬ ∀ x ∈ before ++ e :: after, x.IsElement := fun hall => hill (hall e (by simp))
      rw [or_iff_left fun hboth => hsome hboth.1, ← readItems_eq_error, hread, Except.bind]
      simp only [Except.error.injEq]
  | ok items =>
      obtain ⟨hall, rfl⟩ := readItems_eq_ok hread
      have hnone : ¬ ∃ e, error = .invalid e ∧ IsFirst (¬ ·.IsElement) elements e := by
        rw [← readItems_eq_error, hread]
        exact nofun
      rw [or_iff_right hnone, and_iff_right hall, ← checkBounds_ends hall, Except.bind]
      cases checkBounds _ <;> simp [Except.map]

theorem strict_int (n : Int) :
    strict (.int n) = (checkBounds [n]).map fun _ => ofList [n] := rfl

theorem strict_int_eq_error {n : Int} {error : SourceError} :
    strict (.int n) = .error error ↔
      error = .invalid (.int n) ∧ ¬ (0 ≤ n ∧ n ≤ 0x10FFFF) := by
  have hmap : strict (.int n) = .error error ↔ checkBounds [n] = .error error := by
    rw [strict_int]
    cases checkBounds [n] <;> simp [Except.map]
  rw [hmap, checkBounds_eq_error, ← inBounds_iff]
  cases hn : inBounds n <;> simp [hn]

theorem strict_eq_error_iff {v : Value} {error : SourceError} :
    strict v = .error error ↔ Refusal v error := by
  cases helements : v.elements? with
  | some elements =>
      rw [strict_elements_eq_error helements]
      constructor
      · rintro (⟨e, rfl, hfirst⟩ | ⟨hall, c, rfl, hfirst⟩)
        · exact .illFormed helements hfirst
        · exact .endOutOfBounds helements hall hfirst
      · intro h
        cases h with
        | outOfBounds => cases helements
        | illFormed h hfirst =>
            obtain rfl := Option.some.inj (helements.symm.trans h)
            exact Or.inl ⟨_, rfl, hfirst⟩
        | endOutOfBounds h hall hfirst =>
            obtain rfl := Option.some.inj (helements.symm.trans h)
            exact Or.inr ⟨hall, _, rfl, hfirst⟩
        | unsupported _ _ h => cases helements.symm.trans h
  | none =>
      constructor
      · intro h
        cases v with
        | text t => cases h
        | int n =>
            obtain ⟨rfl, hn⟩ := strict_int_eq_error.1 h
            exact .outOfBounds hn
        | list items => cases helements
        | tuple items => cases helements
        | _ =>
            cases h
            exact .unsupported nofun nofun rfl
      · intro h
        cases h with
        | outOfBounds hn => exact strict_int_eq_error.2 ⟨rfl, hn⟩
        | illFormed h => cases helements.symm.trans h
        | endOutOfBounds h => cases helements.symm.trans h
        | unsupported htext hint _ =>
            cases v with
            | text t => exact absurd rfl (htext t)
            | int n => exact absurd rfl (hint n)
            | list items => cases helements
            | tuple items => cases helements
            | _ => rfl

/-- **What the strict reading refuses.** A value is refused with an error exactly if the rules of
`Refusal` name it with this error, and every value that they do not name gives a set. A text is
never refused. -/
theorem strict_refuses_exactly (v : Value) :
    (∀ error, strict v = .error error ↔ Refusal v error)
      ∧ ((∃ s, strict v = .ok s) ↔ ∀ error, ¬ Refusal v error)
      ∧ ∀ t, v = .text t → ∃ s, strict v = .ok s := by
  refine ⟨fun error => strict_eq_error_iff, ?_, fun t ht => ⟨CodeSet.ofText t, by rw [ht]; rfl⟩⟩
  simp only [← strict_eq_error_iff]
  cases strict v with
  | ok s => simp
  | error error => simp

end CodeSet

end Repertoire
