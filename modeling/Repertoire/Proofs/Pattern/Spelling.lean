import Mathlib.Data.List.Basic
import Repertoire.Proofs.Pattern.Fragment
import Repertoire.Proofs.Surrogate

/-!
# Classes as they are spelled

A class is written token by token, and the token of an integer above `0xFFFF` is the tokens of its
two surrogates. By itself such an integer is then matched as two units. Between brackets the tokens
are read one by one: they are two elements where one was meant, and at the end of a range only the
nearer of the two belongs to the range. So what is read is made of other items than were meant
(`spelled`), though of the same text (`alternativeText_spelledClasses`). These items are units; but
one of them may run backwards where the item that spells them does not.
-/

namespace Repertoire

/-! ## Outer and inner units -/

/-- The first unit of an integer. -/
def firstUnit (c : Int) : Int :=
  if c ≤ 0xFFFF then c else Surrogate.high c

/-- The last unit of an integer. -/
def lastUnit (c : Int) : Int :=
  if c ≤ 0xFFFF then c else Surrogate.low c

theorem firstUnit_of_le {c : Int} (h : c ≤ 0xFFFF) : firstUnit c = c := if_pos h

theorem lastUnit_of_le {c : Int} (h : c ≤ 0xFFFF) : lastUnit c = c := if_pos h

theorem firstUnit_of_lt {c : Int} (h : 0xFFFF < c) : firstUnit c = Surrogate.high c :=
  if_neg (by omega)

theorem lastUnit_of_lt {c : Int} (h : 0xFFFF < c) : lastUnit c = Surrogate.low c :=
  if_neg (by omega)

theorem firstUnit_bounds {c : Int} (h₀ : 0 ≤ c) (h₁ : c ≤ 0x10FFFF) :
    0 ≤ firstUnit c ∧ firstUnit c ≤ 0xFFFF := by
  by_cases hc : c ≤ 0xFFFF
  · rw [firstUnit_of_le hc]
    exact ⟨h₀, hc⟩
  · have hhigh := Surrogate.high_bounds (c := c) (by omega) h₁
    rw [firstUnit_of_lt (by omega)]
    omega

theorem lastUnit_bounds {c : Int} (h₀ : 0 ≤ c) : 0 ≤ lastUnit c ∧ lastUnit c ≤ 0xFFFF := by
  by_cases hc : c ≤ 0xFFFF
  · rw [lastUnit_of_le hc]
    exact ⟨h₀, hc⟩
  · have hlow := Surrogate.low_bounds c
    rw [lastUnit_of_lt (by omega)]
    omega

/-- A range that leads beyond the units and yet runs forwards, as it is spelled, begins at a unit
that is no greater than the high surrogates. -/
theorem le_of_lastUnit_le_firstUnit {first last : Int} (hbeyond : 0xFFFF < last)
    (hlast : last ≤ 0x10FFFF) (h : lastUnit first ≤ firstUnit last) : first ≤ 0xDBFF := by
  have hhigh := Surrogate.high_bounds hbeyond hlast
  rw [firstUnit_of_lt hbeyond] at h
  by_cases hfirst : first ≤ 0xFFFF
  · rw [lastUnit_of_le hfirst] at h
    omega
  · have hlow := Surrogate.low_bounds first
    rw [lastUnit_of_lt (Int.not_le.1 hfirst)] at h
    omega

namespace Pattern

/-- The units of an integer before the last one, as items. -/
def leading (c : Int) : RangeList :=
  if c ≤ 0xFFFF then [] else [.single (Surrogate.high c)]

/-- The units of an integer after the first one, as items. -/
def trailing (c : Int) : RangeList :=
  if c ≤ 0xFFFF then [] else [.single (Surrogate.low c)]

/-- The items that the text of an item spells inside brackets. -/
def spelled : Item Int → RangeList
  | .single c => leading c ++ [.single (lastUnit c)]
  | .pair first last =>
      leading first ++ .pair (lastUnit first) (firstUnit last) :: trailing last

/-- The classes that the text of a class spells: one for each unit of a single integer, or else one
between brackets. -/
def spelledClasses : RangeList → List RangeList
  | [.single c] => (utf16 c).map fun u => [.single u]
  | items => [items.flatMap spelled]

theorem mem_leading {c : Int} {item : Item Int} :
    item ∈ leading c ↔ 0xFFFF < c ∧ item = .single (Surrogate.high c) := by
  rw [leading, List.mem_ite_nil_left, List.mem_singleton, Int.not_le]

theorem mem_trailing {c : Int} {item : Item Int} :
    item ∈ trailing c ↔ 0xFFFF < c ∧ item = .single (Surrogate.low c) := by
  rw [trailing, List.mem_ite_nil_left, List.mem_singleton, Int.not_le]

theorem mem_spelled_single {c : Int} {item : Item Int} : item ∈ spelled (.single c) ↔
    (0xFFFF < c ∧ item = .single (Surrogate.high c)) ∨ item = .single (lastUnit c) := by
  rw [spelled, List.mem_append, mem_leading, List.mem_singleton]

theorem mem_spelled_pair {first last : Int} {item : Item Int} :
    item ∈ spelled (.pair first last) ↔
      (0xFFFF < first ∧ item = .single (Surrogate.high first))
      ∨ item = .pair (lastUnit first) (firstUnit last)
      ∨ (0xFFFF < last ∧ item = .single (Surrogate.low last)) := by
  rw [spelled, List.mem_append, List.mem_cons, mem_leading, mem_trailing]

/-- Is the class written between brackets? -/
def Bracketed (items : RangeList) : Prop :=
  ∀ c, items ≠ [.single c]

theorem single_or_bracketed (items : RangeList) :
    (∃ c, items = [.single c]) ∨ Bracketed items := by
  by_cases h : ∃ c, items = [.single c]
  · exact Or.inl h
  · exact Or.inr fun c hc => h ⟨c, hc⟩

theorem spelledClasses_of_bracketed {items : RangeList} (h : Bracketed items) :
    spelledClasses items = [items.flatMap spelled] := by
  unfold spelledClasses
  split
  · exact absurd rfl (h _)
  · rfl

/-! ## The text -/

theorem encode_of_lt {c : Int} (h : 0xFFFF < c) :
    Token.encode c = Token.encode (Surrogate.high c) ++ Token.encode (Surrogate.low c) := by
  have hlow := Surrogate.low_bounds c
  have hsafe : Token.isSafe (Surrogate.low c) = false := Token.isSafe_of_lt (by omega)
  rw [Token.encode, if_neg (by rw [Token.isSafe_of_lt (by omega)]; exact Bool.false_ne_true),
    if_neg (by omega), Token.encode_of_le hsafe (by omega)]

theorem flatMap_encode_utf16 (c : Int) : (utf16 c).flatMap Token.encode = Token.encode c := by
  by_cases hc : c ≤ 0xFFFF
  · rw [utf16_of_le hc, List.flatMap_singleton]
  · rw [utf16_of_lt (by omega), encode_of_lt (by omega)]
    simp

theorem itemTexts_leading (c : Int) :
    (leading c).flatMap itemText ++ Token.encode (lastUnit c) = Token.encode c := by
  by_cases hc : c ≤ 0xFFFF
  · rw [leading, if_pos hc, lastUnit_of_le hc]
    rfl
  · have hencode := encode_of_lt (c := c) (by omega)
    rw [leading, if_neg hc, lastUnit_of_lt (by omega), hencode, List.flatMap_singleton]
    rfl

theorem itemTexts_trailing (c : Int) :
    Token.encode (firstUnit c) ++ (trailing c).flatMap itemText = Token.encode c := by
  by_cases hc : c ≤ 0xFFFF
  · rw [trailing, if_pos hc, firstUnit_of_le hc, List.flatMap_nil, List.append_nil]
  · have hencode := encode_of_lt (c := c) (by omega)
    rw [trailing, if_neg hc, firstUnit_of_lt (by omega), hencode, List.flatMap_singleton]
    rfl

/-- An item and the items that it spells have the same text. -/
theorem itemTexts_spelled (item : Item Int) : (spelled item).flatMap itemText = itemText item := by
  cases item with
  | single c =>
      rw [spelled, List.flatMap_append, List.flatMap_singleton]
      exact itemTexts_leading c
  | pair first last =>
      rw [spelled, List.flatMap_append, List.flatMap_cons, itemText, List.append_assoc,
        List.cons_append, itemTexts_trailing, ← List.append_assoc, itemTexts_leading]
      rfl

theorem flatMap_spelled_eq_nil {items : RangeList} : items.flatMap spelled = [] ↔ items = [] := by
  have hsome : ∀ item, spelled item ≠ [] := by
    rintro (_ | _) <;> simp [spelled]
  rw [List.flatMap_eq_nil_iff, List.eq_nil_iff_forall_not_mem]
  exact forall₂_congr fun item _ => iff_false_intro (hsome item)

/-- Only a single unit spells a single unit. -/
theorem bracketed_flatMap_spelled {items : RangeList} (hitems : Bracketed items) :
    Bracketed (items.flatMap spelled) := by
  intro u h
  cases items with
  | nil => cases h
  | cons item others =>
      rw [List.flatMap_cons] at h
      rcases List.append_eq_singleton_iff.1 h with ⟨hnil, -⟩ | ⟨hitem, hothers⟩
      · have hitem : [item].flatMap spelled = [] := by rw [List.flatMap_singleton, hnil]
        cases flatMap_spelled_eq_nil.1 hitem
      · obtain rfl := flatMap_spelled_eq_nil.1 hothers
        cases item with
        | single c => exact hitems c rfl
        | pair first last =>
            rw [spelled] at hitem
            rcases List.append_eq_singleton_iff.1 hitem with ⟨-, hpair⟩ | ⟨-, hnil⟩
            · cases (List.cons.inj hpair).1
            · cases hnil

theorem classText_of_bracketed {items : RangeList} (hne : items ≠ []) (h : Bracketed items) :
    classText items
      = ('[' : CodePoint) :: items.flatMap itemText ++ [(']' : CodePoint)] := by
  unfold classText
  split
  · exact absurd rfl hne
  · exact absurd rfl (h _)
  · rfl

/-- The text of a class is the text of the classes that it spells. -/
theorem alternativeText_spelledClasses {items : RangeList} (hne : items ≠ []) :
    alternativeText (spelledClasses items) = classText items := by
  rcases single_or_bracketed items with ⟨c, rfl⟩ | hbrackets
  · rw [spelledClasses, alternativeText, List.flatMap_map]
    exact flatMap_encode_utf16 c
  · have hspelled : items.flatMap spelled ≠ [] := fun hnil => hne (flatMap_spelled_eq_nil.1 hnil)
    rw [spelledClasses_of_bracketed hbrackets, alternativeText, List.flatMap_singleton,
      classText_of_bracketed hspelled (bracketed_flatMap_spelled hbrackets),
      classText_of_bracketed hne hbrackets, List.flatMap_assoc]
    simp only [itemTexts_spelled]

/-! ## Items that are spelled -/

section Item

variable {item : Item Int}

/-- An item that does not reach beyond the units spells itself. -/
theorem spelled_of_le (hle : item.ends.1 ≤ item.ends.2) (h : item.ends.2 ≤ 0xFFFF) :
    spelled item = [item] := by
  cases item with
  | single c =>
      have h : c ≤ 0xFFFF := h
      rw [spelled, leading, if_pos h, lastUnit_of_le h]
      rfl
  | pair first last =>
      have hlast : last ≤ 0xFFFF := h
      have hfirst : first ≤ 0xFFFF := Int.le_trans hle hlast
      rw [spelled, leading, if_pos hfirst, trailing, if_pos hlast, lastUnit_of_le hfirst,
        firstUnit_of_le hlast]
      rfl

theorem spelled_single_of_lt {c : Int} (h : 0xFFFF < c) :
    spelled (.single c) = [.single (Surrogate.high c), .single (Surrogate.low c)] := by
  rw [spelled, leading, if_neg (by omega), lastUnit_of_lt h]
  rfl

theorem inUnits_spelled (hfirst : 0 ≤ item.ends.1 ∧ item.ends.1 ≤ 0x10FFFF)
    (hlast : 0 ≤ item.ends.2 ∧ item.ends.2 ≤ 0x10FFFF) : InUnits (spelled item) := by
  intro inner hinner
  cases item with
  | single c =>
      simp only [Item.ends] at hfirst
      rcases mem_spelled_single.1 hinner with ⟨habove, rfl⟩ | rfl
      · have hhigh := Surrogate.high_bounds habove hfirst.2
        simp only [Item.ends]
        omega
      · have hunit := lastUnit_bounds hfirst.1
        exact ⟨hunit, hunit⟩
  | pair first last =>
      simp only [Item.ends] at hfirst hlast
      rcases mem_spelled_pair.1 hinner with ⟨habove, rfl⟩ | rfl | ⟨-, rfl⟩
      · have hhigh := Surrogate.high_bounds habove hfirst.2
        simp only [Item.ends]
        omega
      · exact ⟨lastUnit_bounds hfirst.1, firstUnit_bounds hlast.1 hlast.2⟩
      · have hlow := Surrogate.low_bounds last
        simp only [Item.ends]
        omega

theorem forwards_spelled (hle : item.ends.1 ≤ item.ends.2)
    (h : item.ends.2 ≤ 0xFFFF ∨ ∃ c, item = .single c) :
    ∀ inner ∈ spelled item, inner.ends.1 ≤ inner.ends.2 := by
  intro inner hinner
  rcases h with hunits | ⟨c, rfl⟩
  · rw [spelled_of_le hle hunits] at hinner
    obtain rfl := List.mem_singleton.1 hinner
    exact hle
  · rcases mem_spelled_single.1 hinner with ⟨-, rfl⟩ | rfl
    · exact Int.le_refl _
    · exact Int.le_refl _

end Item

/-! ## Classes that are spelled -/

theorem spelledClasses_single_of_le {c : Int} (h : c ≤ 0xFFFF) :
    spelledClasses [.single c] = [[.single c]] := by
  rw [spelledClasses, utf16_of_le h, List.map_singleton]

theorem spelledClasses_single_of_lt {c : Int} (h : 0xFFFF < c) :
    spelledClasses [.single c] = [[.single (Surrogate.high c)], [.single (Surrogate.low c)]] := by
  rw [spelledClasses, utf16_of_lt h, List.map_cons, List.map_singleton]

section Classes

variable {items : RangeList}

theorem spelledClasses_ne_nil (items : RangeList) : spelledClasses items ≠ [] := by
  unfold spelledClasses utf16
  split
  · split <;> simp
  · simp

theorem nil_not_mem_spelledClasses (hne : items ≠ []) : [] ∉ spelledClasses items := by
  intro hnil
  rcases single_or_bracketed items with ⟨c, rfl⟩ | hbrackets
  · obtain ⟨u, -, heq⟩ := List.mem_map.1 hnil
    cases heq
  · rw [spelledClasses_of_bracketed hbrackets] at hnil
    exact hne (flatMap_spelled_eq_nil.1 (List.mem_singleton.1 hnil).symm)

/-- A class without integers beyond the units spells itself. -/
theorem spelledClasses_of_le
    (h : ∀ item ∈ items, item.ends.1 ≤ item.ends.2 ∧ item.ends.2 ≤ 0xFFFF) :
    spelledClasses items = [items] := by
  rcases single_or_bracketed items with ⟨c, rfl⟩ | hbrackets
  · exact spelledClasses_single_of_le (h (.single c) List.mem_cons_self).2
  · have hspelled : ∀ item ∈ items, spelled item = [item] := fun item hitem =>
      spelled_of_le (h item hitem).1 (h item hitem).2
    rw [spelledClasses_of_bracketed hbrackets, List.flatMap_congr hspelled,
      List.flatMap_singleton']

theorem forwards_spelledClasses
    (h : Bracketed items → ∀ item ∈ items, ∀ inner ∈ spelled item, inner.ends.1 ≤ inner.ends.2) :
    ∀ items' ∈ spelledClasses items, ∀ inner ∈ items', inner.ends.1 ≤ inner.ends.2 := by
  intro items' hitems' inner hinner
  rcases single_or_bracketed items with ⟨c, rfl⟩ | hbrackets
  · obtain ⟨u, -, rfl⟩ := List.mem_map.1 hitems'
    obtain rfl := List.mem_singleton.1 hinner
    exact Int.le_refl u
  · rw [spelledClasses_of_bracketed hbrackets] at hitems'
    obtain rfl := List.mem_singleton.1 hitems'
    obtain ⟨item, hitem, hmem⟩ := List.mem_flatMap.1 hinner
    exact h hbrackets item hitem inner hmem

theorem inUnits_spelledClasses
    (h : ∀ item ∈ items, item.ends.1 ≤ item.ends.2 ∧ 0 ≤ item.ends.1 ∧ item.ends.2 ≤ 0x10FFFF) :
    ∀ items' ∈ spelledClasses items, InUnits items' := by
  intro items' hitems' inner hinner
  rcases single_or_bracketed items with ⟨c, rfl⟩ | hbrackets
  · obtain ⟨-, h₀, h₁⟩ := h (.single c) List.mem_cons_self
    obtain ⟨u, hu, rfl⟩ := List.mem_map.1 hitems'
    obtain rfl := List.mem_singleton.1 hinner
    have hunit := utf16_bounds h₀ h₁ u hu
    exact ⟨hunit, hunit⟩
  · rw [spelledClasses_of_bracketed hbrackets] at hitems'
    obtain rfl := List.mem_singleton.1 hitems'
    obtain ⟨item, hitem, hmem⟩ := List.mem_flatMap.1 hinner
    obtain ⟨hle, hfirst, hlast⟩ := h item hitem
    exact inUnits_spelled (by omega) (by omega) inner hmem

end Classes

end Pattern

end Repertoire
