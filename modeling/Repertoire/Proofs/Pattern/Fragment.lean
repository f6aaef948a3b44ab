import Repertoire.Pattern.Matching
import Repertoire.Proofs.Pattern.Lexemes

/-!
# Reading the text of a pattern

The text of a row of alternatives, each a sequence of classes, is read as the fragment of these
alternatives (`read?_row`). A class of a single integer has no brackets and is read as a unit; any
other is read as the class of its items. A row that has a class with an item that runs backwards is
not read at all (`forwards_of_read?`).
-/

namespace Repertoire.Pattern

def Atom.ofItems : RangeList → Atom
  | [.single c] => .unit c
  | items => .cls items

theorem Atom.ofItems_of_ne {items : RangeList} (h : ∀ c, items ≠ [.single c]) :
    Atom.ofItems items = .cls items := by
  unfold Atom.ofItems
  split
  · exact absurd rfl (h _)
  · rfl

/-- Do the items of a class run forwards, and is there one at all? -/
structure IsClass (items : RangeList) : Prop where
  inhabited : items ≠ []
  forwards : ∀ item ∈ items, item.ends.1 ≤ item.ends.2

namespace Fragment

/-! ## Classes -/

/-- Behind an item no hyphen follows: the next item begins with a unit. -/
theorem itemLexemes_ne_hyphen (items : RangeList) (rest lexemes : List Lexeme) :
    items.flatMap itemLexemes ++ .closing :: rest ≠ .hyphen :: lexemes := by
  cases items with
  | nil => simp
  | cons item items => cases item <;> simp [itemLexemes]

/-- Inside the brackets, the items that are still to come join those that have been read. -/
theorem ofClass?_items : ∀ (items known : RangeList) (rest : List Lexeme),
    (∀ item ∈ items, item.ends.1 ≤ item.ends.2) → known ≠ [] ∨ items ≠ [] →
    ofClass? known (items.flatMap itemLexemes ++ .closing :: rest)
      = (ofLexemes? rest).map (prepend (.cls (known.reverse ++ items)))
  | [], known, rest, _, hsome => by
      have hknown : known.isEmpty = false := by simpa using hsome
      rw [List.flatMap_nil, List.nil_append, ofClass?, hknown, List.append_nil]
      rfl
  | .single c :: items, known, rest, hle, _ => by
      have hrest := ofClass?_items items (.single c :: known) rest
        (fun i hi => hle i (List.mem_cons_of_mem _ hi)) (Or.inl (by simp))
      rw [List.flatMap_cons, itemLexemes, List.append_assoc, List.singleton_append, ofClass?, hrest,
        List.reverse_cons, List.append_assoc, List.singleton_append]
      exact fun last lexemes heq => itemLexemes_ne_hyphen items rest _ heq
  | .pair first last :: items, known, rest, hle, _ => by
      have hrest := ofClass?_items items (.pair first last :: known) rest
        (fun i hi => hle i (List.mem_cons_of_mem _ hi)) (Or.inl (by simp))
      have hends : first ≤ last := hle (.pair first last) List.mem_cons_self
      rw [List.flatMap_cons, itemLexemes, List.append_assoc]
      simp only [List.cons_append, List.nil_append]
      rw [ofClass?, if_pos hends, hrest, List.reverse_cons, List.append_assoc,
        List.singleton_append]

theorem ofLexemes?_classLexemes {items : RangeList} (h : IsClass items) (rest : List Lexeme) :
    ofLexemes? (classLexemes items ++ rest)
      = (ofLexemes? rest).map (prepend (Atom.ofItems items)) := by
  unfold classLexemes
  split
  · exact absurd rfl h.inhabited
  · rw [List.singleton_append, ofLexemes?]
    rfl
  · rename_i hsingle
    rw [List.append_assoc, List.cons_append, ofLexemes?, List.singleton_append,
      ofClass?_items items [] rest h.forwards (Or.inr h.inhabited), Atom.ofItems_of_ne hsingle]
    rfl

/-! ## Alternatives -/

theorem ofLexemes?_alternative : ∀ (alternative : List RangeList),
    (∀ items ∈ alternative, IsClass items) → ∀ {rest : List Lexeme} {others : Fragment},
    ofLexemes? rest = some ([] :: others) →
    ofLexemes? (alternative.flatMap classLexemes ++ rest)
      = some (alternative.map Atom.ofItems :: others)
  | [], _, _, _, hrest => hrest
  | items :: alternative, h, rest, others, hrest => by
      have ih := ofLexemes?_alternative alternative
        (fun i hi => h i (List.mem_cons_of_mem _ hi)) hrest
      rw [List.flatMap_cons, List.append_assoc, ofLexemes?_classLexemes (h items List.mem_cons_self),
        ih]
      rfl

theorem ofLexemes?_row : ∀ (row : List (List RangeList)), row ≠ [] →
    (∀ alternative ∈ row, ∀ items ∈ alternative, IsClass items) →
    ofLexemes? (rowLexemes row) = some (row.map (List.map Atom.ofItems))
  | [], hne, _ => absurd rfl hne
  | [alternative], _, h => by
      have hend : ofLexemes? [] = some ([] :: []) := by rw [ofLexemes?]
      have hread := ofLexemes?_alternative alternative (h alternative List.mem_cons_self) hend
      simpa [rowLexemes] using hread
  | alternative :: next :: others, _, h => by
      have ih := ofLexemes?_row (next :: others) (by simp)
        fun a ha => h a (List.mem_cons_of_mem _ ha)
      have hbar : ofLexemes? (.bar :: rowLexemes (next :: others))
          = some ([] :: (next :: others).map (List.map Atom.ofItems)) := by
        rw [ofLexemes?, ih]
        rfl
      rw [rowLexemes, ofLexemes?_alternative alternative (h alternative List.mem_cons_self) hbar]
      · rfl
      · simp

/-- The text of a row of alternatives is read as these alternatives. -/
theorem read?_row {row : List (List RangeList)} (hne : row ≠ []) (hinhabited : [] ∉ row)
    (hclass : ∀ alternative ∈ row, ∀ items ∈ alternative, IsClass items)
    (hunits : ∀ alternative ∈ row, ∀ items ∈ alternative, InUnits items) :
    read? ([('|' : CodePoint)].intercalate (row.map alternativeText))
      = some (row.map (List.map Atom.ofItems)) := by
  have hany : (row.map (List.map Atom.ofItems)).any List.isEmpty = false := by
    rw [List.any_eq_false]
    intro alternative hmem
    obtain ⟨classes, hclasses, rfl⟩ := List.mem_map.1 hmem
    have hne' : classes ≠ [] := fun heq => hinhabited (heq ▸ hclasses)
    simpa using hne'
  simp only [read?, Pattern.read?_row row hunits, ofLexemes?_row row hne hclass, Option.bind_eq_bind,
    Option.bind_some, hany]
  rfl

/-! ## What is read runs forwards -/

theorem forwards_of_ofClass? : ∀ {items known : RangeList} {rest : List Lexeme}
    {fragment : Fragment},
    ofClass? known (items.flatMap itemLexemes ++ .closing :: rest) = some fragment →
    (∀ item ∈ items, item.ends.1 ≤ item.ends.2) ∧ ∃ others, ofLexemes? rest = some others
  | [], known, rest, fragment, h => by
      rw [List.flatMap_nil, List.nil_append, ofClass?] at h
      split at h
      · cases h
      · obtain ⟨others, hothers, -⟩ := Option.map_eq_some_iff.1 h
        exact ⟨nofun, others, hothers⟩
  | .single c :: items, known, rest, fragment, h => by
      rw [List.flatMap_cons, itemLexemes, List.append_assoc, List.singleton_append, ofClass?] at h
      · obtain ⟨hitems, hrest⟩ := forwards_of_ofClass? h
        exact ⟨List.forall_mem_cons.2 ⟨Int.le_refl c, hitems⟩, hrest⟩
      · exact fun last lexemes heq => itemLexemes_ne_hyphen items rest _ heq
  | .pair first last :: items, known, rest, fragment, h => by
      rw [List.flatMap_cons, itemLexemes, List.append_assoc] at h
      simp only [List.cons_append, List.nil_append] at h
      rw [ofClass?] at h
      split at h
      · rename_i hends
        obtain ⟨hitems, hrest⟩ := forwards_of_ofClass? h
        exact ⟨List.forall_mem_cons.2 ⟨hends, hitems⟩, hrest⟩
      · cases h

theorem forwards_of_class {items : RangeList} (hne : items ≠ []) {rest : List Lexeme}
    {fragment : Fragment} (h : ofLexemes? (classLexemes items ++ rest) = some fragment) :
    (∀ item ∈ items, item.ends.1 ≤ item.ends.2) ∧ ∃ others, ofLexemes? rest = some others := by
  unfold classLexemes at h
  split at h
  · exact absurd rfl hne
  · rename_i c
    rw [List.singleton_append, ofLexemes?] at h
    obtain ⟨others, hothers, -⟩ := Option.map_eq_some_iff.1 h
    refine ⟨?_, others, hothers⟩
    intro item hitem
    obtain rfl := List.mem_singleton.1 hitem
    exact Int.le_refl c
  · rw [List.append_assoc, List.cons_append, ofLexemes?] at h
    exact forwards_of_ofClass? h

theorem forwards_of_alternative : ∀ {alternative : List RangeList}, [] ∉ alternative →
    ∀ {rest : List Lexeme} {fragment : Fragment},
    ofLexemes? (alternative.flatMap classLexemes ++ rest) = some fragment →
    (∀ items ∈ alternative, ∀ item ∈ items, item.ends.1 ≤ item.ends.2)
      ∧ ∃ others, ofLexemes? rest = some others
  | [], _, _, _, h => ⟨nofun, _, h⟩
  | items :: alternative, hne, rest, fragment, h => by
      rw [List.flatMap_cons, List.append_assoc] at h
      have hitems : items ≠ [] := fun hnil => hne (hnil ▸ List.mem_cons_self)
      obtain ⟨hforwards, others, hothers⟩ := forwards_of_class hitems h
      obtain ⟨hrest, hend⟩ :=
        forwards_of_alternative (fun hnil => hne (List.mem_cons_of_mem _ hnil)) hothers
      exact ⟨List.forall_mem_cons.2 ⟨hforwards, hrest⟩, hend⟩

/-- Do all items of all alternatives run forwards? -/
def Forwards (row : List (List RangeList)) : Prop :=
  ∀ alternative ∈ row, ∀ items ∈ alternative, ∀ item ∈ items, item.ends.1 ≤ item.ends.2

theorem forwards_of_row : ∀ {row : List (List RangeList)}, (∀ alternative ∈ row, [] ∉ alternative) →
    ∀ {fragment : Fragment}, ofLexemes? (rowLexemes row) = some fragment →
    Forwards row
  | [], _, _, _ => nofun
  | [alternative], hne, fragment, h => by
      rw [rowLexemes, ← List.append_nil (alternative.flatMap classLexemes)] at h
      have hforwards := (forwards_of_alternative (hne alternative List.mem_cons_self) h).1
      exact List.forall_mem_singleton.2 hforwards
  | alternative :: next :: others, hne, fragment, h => by
      rw [rowLexemes] at h
      · obtain ⟨hforwards, rest, hrest⟩ :=
          forwards_of_alternative (hne alternative List.mem_cons_self) h
        rw [ofLexemes?] at hrest
        obtain ⟨behind, hbehind, -⟩ := Option.map_eq_some_iff.1 hrest
        exact List.forall_mem_cons.2 ⟨hforwards,
          forwards_of_row (fun a ha => hne a (List.mem_cons_of_mem _ ha)) hbehind⟩
      · simp

/-- Where the text of a row of alternatives is read at all, all its items run forwards. -/
theorem forwards_of_read? {row : List (List RangeList)} {fragment : Fragment}
    (hne : ∀ alternative ∈ row, [] ∉ alternative)
    (hunits : ∀ alternative ∈ row, ∀ items ∈ alternative, InUnits items)
    (h : read? ([('|' : CodePoint)].intercalate (row.map alternativeText)) = some fragment) :
    Forwards row := by
  simp only [read?, Pattern.read?_row row hunits, Option.bind_eq_bind, Option.bind_some] at h
  obtain ⟨others, hothers, -⟩ := Option.bind_eq_some_iff.1 h
  exact forwards_of_row hne hothers

end Fragment

end Repertoire.Pattern
