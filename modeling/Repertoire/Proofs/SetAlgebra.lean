import Repertoire.Proofs.Session.Comparison

/-!
# The laws of the algebra

Inclusion, the three operations and the size of sets are worked out in different ways. A ledger asks
the other one for each member when it compares, builds a union from two lists of members that may
overlap, filters its own list for the other operations, and counts as it goes. `Lawful` says what
ties all this together. The laws hold of any two sets (`lawful_codeSets`), and as every ledger keeps a
set they hold of any two ledgers, whatever these have withdrawn (`lawful_ledgers`).
-/

namespace Repertoire

/-- A way to hold sets, with the operations on them and what can be asked. -/
structure SetAlgebra (σ : Type) where
  combine : Session.Algebra → σ → σ → σ
  contains : σ → Int → Bool
  subset : σ → σ → Bool
  equals : σ → σ → Bool
  isEmpty : σ → Bool
  size : σ → Int

/-- A ledger goes by its count here as well. -/
def Ledger.isEmpty (l : Ledger) : Bool := l.count == 0

theorem Keeps.isEmpty_eq {s : CodeSet} {l : Ledger} (h : Keeps s l) : l.isEmpty = s.isEmpty := by
  rw [Bool.eq_iff_iff, Ledger.isEmpty, beq_iff_eq, l.count_eq_length, h.isEmpty, Int.natCast_eq_zero,
    List.length_eq_zero_iff]

namespace SetAlgebra

def codeSets : SetAlgebra CodeSet where
  combine := Session.combine
  contains := CodeSet.contains
  subset := CodeSet.subset
  equals := CodeSet.equals
  isEmpty := CodeSet.isEmpty
  size s := s.size

def ledgers : SetAlgebra Ledger where
  combine := Ledger.combine
  contains := Ledger.contains
  subset := Ledger.subset
  equals := Ledger.equals
  isEmpty := Ledger.isEmpty
  size := Ledger.count

/-- The laws of the algebra for two sets. -/
structure Lawful {σ : Type} (A : SetAlgebra σ) (a b : σ) : Prop where
  subset_iff : A.subset a b = true ↔ ∀ x, A.contains a x = true → A.contains b x = true
  /-- A union that adds nothing is an inclusion. -/
  equals_union : A.equals (A.combine .union a b) b = A.subset a b
  equals_inter : A.equals (A.combine .inter a b) a = A.subset a b
  isEmpty_diff : A.isEmpty (A.combine .diff a b) = A.subset a b
  /-- The difference and the intersection make up the first set. -/
  equals_parts :
    A.equals (A.combine .union (A.combine .diff a b) (A.combine .inter a b)) a = true
  /-- The difference has nothing of the second set. -/
  isEmpty_inter_diff : A.isEmpty (A.combine .inter (A.combine .diff a b) b) = true
  size_union_add_size_inter :
    A.size (A.combine .union a b) + A.size (A.combine .inter a b) = A.size a + A.size b

/-! ## Sets -/

section Sets

variable (s t : CodeSet)

theorem equals_union : (s.union t).equals t = s.subset t := by
  rw [Bool.eq_iff_iff, CodeSet.equals_iff, CodeSet.subset_iff]
  simp only [CodeSet.contains_union, Bool.or_eq_right_iff_imp]

theorem equals_inter : (s.inter t).equals s = s.subset t := by
  rw [Bool.eq_iff_iff, CodeSet.equals_iff, CodeSet.subset_iff]
  simp only [CodeSet.contains_inter, Bool.and_eq_left_iff_imp]

theorem isEmpty_diff : (s.diff t).isEmpty = s.subset t := by
  rw [Bool.eq_iff_iff, CodeSet.isEmpty_iff_contains, CodeSet.subset_iff]
  simp only [CodeSet.contains_diff, Bool.and_eq_false_imp, Bool.not_eq_false']

theorem equals_parts : ((s.diff t).union (s.inter t)).equals s = true := by
  rw [CodeSet.equals_iff]
  intro x
  rw [CodeSet.contains_union, CodeSet.contains_diff, CodeSet.contains_inter,
    ← Bool.and_or_distrib_left, Bool.not_or_self, Bool.and_true]

theorem isEmpty_inter_diff : ((s.diff t).inter t).isEmpty = true := by
  rw [CodeSet.isEmpty_iff_contains]
  intro x
  rw [CodeSet.contains_inter, CodeSet.contains_diff, Bool.and_assoc, Bool.not_and_self,
    Bool.and_false]

/-- The members of both sets are counted once in the union and once in the intersection. -/
theorem size_union_add_size_inter :
    (s.union t).size + (s.inter t).size = s.size + t.size := by
  have hs := s.shows_toFinset
  have ht := t.shows_toFinset
  have hunion : (s.union t).Shows (s.toList.toFinset ∪ t.toList.toFinset) :=
    CodeSet.shows_of_contains fun x => by
      rw [CodeSet.contains_union, Bool.or_eq_true, Finset.mem_union, hs.contains, ht.contains]
  have hinter : (s.inter t).Shows (s.toList.toFinset ∩ t.toList.toFinset) :=
    CodeSet.shows_of_contains fun x => by
      rw [CodeSet.contains_inter, Bool.and_eq_true, Finset.mem_inter, hs.contains, ht.contains]
  rw [hunion.size, hinter.size, hs.size, ht.size]
  exact Finset.card_union_add_card_inter _ _

theorem lawful_codeSets : codeSets.Lawful s t where
  subset_iff := CodeSet.subset_iff
  equals_union := equals_union s t
  equals_inter := equals_inter s t
  isEmpty_diff := isEmpty_diff s t
  equals_parts := equals_parts s t
  isEmpty_inter_diff := isEmpty_inter_diff s t
  size_union_add_size_inter := by
    have hsize := size_union_add_size_inter s t
    show ((s.union t).size : Int) + (s.inter t).size = s.size + t.size
    omega

end Sets

/-! ## Ledgers -/

/-- Whatever a ledger is asked, the set that it keeps gives the same answer. -/
theorem lawful_ledgers (l m : Ledger) : ledgers.Lawful l m := by
  obtain ⟨s, hl⟩ := l.exists_keeps
  obtain ⟨t, hm⟩ := m.exists_keeps
  have hlaws := lawful_codeSets s t
  have hunion := hl.combine .union hm
  have hinter := hl.combine .inter hm
  have hdiff := hl.combine .diff hm
  exact {
    subset_iff := by
      show l.subset m = true ↔ ∀ x, l.contains x = true → m.contains x = true
      simp only [hl.subset hm, hl.contains, hm.contains, CodeSet.subset_iff]
    equals_union := (hunion.equals hm).trans (hlaws.equals_union.trans (hl.subset hm).symm)
    equals_inter := (hinter.equals hl).trans (hlaws.equals_inter.trans (hl.subset hm).symm)
    isEmpty_diff := hdiff.isEmpty_eq.trans (hlaws.isEmpty_diff.trans (hl.subset hm).symm)
    equals_parts := ((hdiff.combine .union hinter).equals hl).trans hlaws.equals_parts
    isEmpty_inter_diff := (hdiff.combine .inter hm).isEmpty_eq.trans hlaws.isEmpty_inter_diff
    size_union_add_size_inter := by
      show (Ledger.combine .union l m).count + (Ledger.combine .inter l m).count
        = l.count + m.count
      rw [hunion.count, hinter.count, hl.count, hm.count]
      exact hlaws.size_union_add_size_inter }

/-- **Inclusion, the operations and the size agree.** Of any two sets, and of any two ledgers
whatever has been withdrawn from them, the first is included in the second exactly if their union is
the second, if their intersection is the first, and if the difference is empty. The difference and
the intersection make up the first set, and the difference shares nothing with the second. The sizes
of the union and the intersection add up to the sizes of the two. -/
theorem algebra_isLawful :
    (∀ s t : CodeSet, codeSets.Lawful s t) ∧ ∀ l m : Ledger, ledgers.Lawful l m :=
  ⟨lawful_codeSets, lawful_ledgers⟩

end SetAlgebra

end Repertoire
