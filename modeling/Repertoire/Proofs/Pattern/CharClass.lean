import Repertoire.Proofs.Pattern.Fragment
import Repertoire.Proofs.RangeList.Runs

/-!
# What a class says

The class of a set of units is read as an atom that matches the members of the set and nothing else
(`accepts_atomOf`). As the text can be read in one way only, sets of units with the same class are
equal (`classOf_injective`).
-/

namespace Repertoire.Pattern

/-- Are all members of the set units? -/
def OfUnits (s : Extent) : Prop :=
  ∀ u, s.contains u = true → 0 ≤ u ∧ u ≤ 0xFFFF

def itemsOf (s : Extent) : RangeList :=
  RangeList.compress s.toList

/-- What the class of a set is read as. -/
def atomOf (s : Extent) : Atom :=
  Atom.ofItems (itemsOf s)

theorem accepts_ofItems {items : RangeList} {u : Int} :
    (Atom.ofItems items).accepts u = true
      ↔ ∃ item ∈ items, item.ends.1 ≤ u ∧ u ≤ item.ends.2 := by
  unfold Atom.ofItems
  split
  · simp only [Atom.accepts, Item.ends, beq_iff_eq, List.mem_singleton, exists_eq_left]
    omega
  · simp only [Atom.accepts, List.any_eq_true, Bool.and_eq_true, decide_eq_true_eq]

theorem accepts_atomOf {s : Extent} {u : Int} :
    (atomOf s).accepts u = true ↔ s.contains u = true := by
  rw [atomOf, accepts_ofItems, itemsOf, RangeList.mem_compress, Extent.mem_toList]

theorem inUnits_itemsOf {s : Extent} (h : OfUnits s) : InUnits (itemsOf s) := by
  intro item hitem
  obtain ⟨hfirst, hlast⟩ := RangeList.ends_mem_of_mem_compress hitem
  exact ⟨h _ ((s.mem_toList _).1 hfirst), h _ ((s.mem_toList _).1 hlast)⟩

theorem isClass_itemsOf {s : Extent} {u : Int} (h : s.contains u = true) :
    IsClass (itemsOf s) := by
  refine ⟨fun hnil => ?_, fun item hitem => RangeList.ends_le_of_mem_compress hitem⟩
  obtain ⟨item, hitem, -⟩ := RangeList.mem_compress.2 ((s.mem_toList u).2 h)
  rw [itemsOf] at hnil
  rw [hnil] at hitem
  exact List.not_mem_nil hitem

theorem classLexemes_eq_nil {items : RangeList} : classLexemes items = [] ↔ items = [] := by
  unfold classLexemes
  split <;> simp_all

theorem read?_classOf {s : Extent} (h : OfUnits s) :
    Lexeme.read? (classOf s) = some (classLexemes (itemsOf s)) := by
  have hread := read?_classText (inUnits_itemsOf h) []
  simpa [Lexeme.read?, classOf, itemsOf] using hread

/-- The lexemes of a class are read as one atom, which matches the members. -/
theorem contains_of_classLexemes_eq {s t : Extent} {u : Int} (hu : s.contains u = true)
    (heq : classLexemes (itemsOf s) = classLexemes (itemsOf t)) : t.contains u = true := by
  have hclass := isClass_itemsOf hu
  have hclass' : IsClass (itemsOf t) := by
    refine ⟨fun hnil => hclass.inhabited ?_,
      fun item hitem => RangeList.ends_le_of_mem_compress hitem⟩
    rw [← classLexemes_eq_nil, heq, classLexemes_eq_nil]
    exact hnil
  have hfragment := Fragment.ofLexemes?_classLexemes hclass []
  rw [heq, Fragment.ofLexemes?_classLexemes hclass' []] at hfragment
  have hatoms : atomOf t = atomOf s := by
    simpa [Fragment.ofLexemes?, Fragment.prepend, atomOf] using hfragment
  rw [← accepts_atomOf, hatoms, accepts_atomOf]
  exact hu

theorem classOf_injective {s t : Extent} (hs : OfUnits s) (ht : OfUnits t)
    (h : classOf s = classOf t) : s = t := by
  have hlexemes : classLexemes (itemsOf s) = classLexemes (itemsOf t) := by
    have hread := read?_classOf hs
    rw [h, read?_classOf ht] at hread
    exact (Option.some.inj hread).symm
  refine Extent.ext_contains fun u => ?_
  rw [Bool.eq_iff_iff]
  exact ⟨fun hu => contains_of_classLexemes_eq hu hlexemes,
    fun hu => contains_of_classLexemes_eq hu hlexemes.symm⟩

end Repertoire.Pattern
