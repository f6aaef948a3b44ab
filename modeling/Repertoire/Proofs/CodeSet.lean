import Mathlib.Data.Finset.Card
import Mathlib.Order.Basic
import Repertoire.CodeSet

/-!
# What a set shows

All that can be seen of a set follows from which integers are members and which are withdrawn.
`Shows` collects what is to be seen of the members: the list, the size, the flags of the record and
the membership test all speak of one finite set.
-/

namespace Repertoire.CodeSet

variable {s t : CodeSet} {x : Int}

/-! ## Members and withdrawn integers -/

theorem ext_members (hmembers : ∀ x, s.contains x = t.contains x)
    (hwithdrawn : ∀ x, s.withdrawn.contains x = t.withdrawn.contains x) : s = t := by
  cases s
  cases t
  obtain rfl := Extent.ext_contains hmembers
  obtain rfl := Extent.ext_contains hwithdrawn
  rfl

theorem withdrawn_of_contains (h : s.contains x = true) : s.withdrawn.contains x = false := by
  have hboth : (s.members ∩ s.withdrawn).contains x = false := by
    rw [s.apart, Extent.contains_empty]
  rw [Extent.contains_inter, Bool.and_eq_false_iff] at hboth
  exact hboth.resolve_left fun hout => Bool.false_ne_true (hout.symm.trans h)

@[simp] theorem contains_ofList {points : List Int} :
    (ofList points).contains x = true ↔ x ∈ points :=
  Extent.contains_ofList points x

theorem ofExtent_eq_ofList {e : Extent} {points : List Int}
    (h : ∀ x, e.contains x = true ↔ x ∈ points) : ofExtent e = ofList points :=
  ext_members (fun x => Bool.eq_iff_iff.2 ((h x).trans contains_ofList.symm)) fun _ => rfl

theorem ofItems_eq_ofList (items : RangeList) : ofItems items = ofList items.expand :=
  ofExtent_eq_ofList (Extent.contains_ofItems items)

theorem empty_eq_ofList : empty = ofList [] :=
  ofExtent_eq_ofList fun x => by simp

theorem ofList_congr {points points' : List Int} (h : ∀ x, x ∈ points ↔ x ∈ points') :
    ofList points = ofList points' :=
  ofExtent_eq_ofList fun x => (Extent.contains_ofList points x).trans (h x)

/-- What has been withdrawn plays no part in comparing. -/
theorem equals_of_contains (h : ∀ x, s.contains x = t.contains x) : s.equals t = true :=
  beq_iff_eq.2 (Extent.ext_contains h)

/-! ## Sets rebuilt from lists of members -/

theorem copy_eq_ofList (s : CodeSet) : s.copy = ofList s.toList :=
  ofExtent_eq_ofList fun x => (mem_toList s x).symm

theorem union_eq_ofList (s t : CodeSet) : s.union t = ofList (s.toList ++ t.toList) :=
  ofExtent_eq_ofList fun x => by
    rw [Extent.contains_union, Bool.or_eq_true, List.mem_append, mem_toList, mem_toList]
    rfl

theorem inter_eq_ofList (s t : CodeSet) :
    s.inter t = ofList (s.toList.filter fun x => t.contains x == true) :=
  ofExtent_eq_ofList fun x => by
    rw [Extent.contains_inter, Bool.and_eq_true, List.mem_filter, mem_toList, beq_iff_eq]
    rfl

theorem diff_eq_ofList (s t : CodeSet) :
    s.diff t = ofList (s.toList.filter fun x => t.contains x == false) :=
  ofExtent_eq_ofList fun x => by
    rw [Extent.contains_diff, Bool.and_eq_true, List.mem_filter, mem_toList, beq_iff_eq,
      Bool.not_eq_true']
    rfl

/-! ## Withdrawing and taking in again -/

theorem withdrawn_add (s : CodeSet) (points : List Int) (x : Int) :
    (s.add points).withdrawn.contains x = true ↔
      s.withdrawn.contains x = true ∧ x ∉ points := by
  show (s.withdrawn \ Extent.ofList points).contains x = true ↔ _
  rw [Extent.contains_diff, Bool.and_eq_true, Bool.not_eq_true', ← Extent.contains_ofList,
    Bool.not_eq_true]

theorem withdrawn_remove (s : CodeSet) (points : List Int) (x : Int) :
    (s.remove points).withdrawn.contains x = true ↔
      s.withdrawn.contains x = true ∨ (s.contains x = true ∧ x ∈ points) := by
  show (s.withdrawn ∪ (s.members ∩ Extent.ofList points)).contains x = true ↔ _
  rw [Extent.contains_union, Extent.contains_inter, Bool.or_eq_true, Bool.and_eq_true,
    Extent.contains_ofList]
  rfl

/-! ## The record -/

/-- The flag of an integer, if the set has ever held it. -/
def flag? (s : CodeSet) (x : Int) : Option Bool :=
  if s.contains x then some true else if s.withdrawn.contains x then some false else none

theorem flag?_eq_true : s.flag? x = some true ↔ s.contains x = true := by
  unfold flag?
  cases s.contains x <;> cases s.withdrawn.contains x <;> simp

theorem flag?_eq_false : s.flag? x = some false ↔ s.withdrawn.contains x = true := by
  unfold flag?
  cases hmember : s.contains x with
  | true => simp [withdrawn_of_contains hmember]
  | false => cases s.withdrawn.contains x <;> simp

/-- Where nothing has been withdrawn, the members have the only flags. -/
theorem flag?_of_withdrawn_eq_empty (h : s.withdrawn = ∅) (x : Int) :
    s.flag? x = if s.contains x = true then some true else none := by
  rw [flag?, h]
  rfl

theorem flag?_ofList (points : List Int) (x : Int) :
    (ofList points).flag? x = if x ∈ points then some true else none := by
  rw [flag?_of_withdrawn_eq_empty rfl]
  simp only [contains_ofList]

/-- Any other integer keeps its flag when some are taken in. -/
theorem flag?_add (s : CodeSet) (points : List Int) (x : Int) :
    (s.add points).flag? x = if x ∈ points then some true else s.flag? x := by
  split
  · rename_i hx
    exact flag?_eq_true.2 ((contains_add s points x).2 (Or.inr hx))
  · rename_i hx
    have hmember : (s.add points).contains x = s.contains x :=
      Bool.eq_iff_iff.2 ((contains_add s points x).trans (or_iff_left hx))
    have hwithdrawn : (s.add points).withdrawn.contains x = s.withdrawn.contains x :=
      Bool.eq_iff_iff.2 ((withdrawn_add s points x).trans (and_iff_left hx))
    rw [flag?, hmember, hwithdrawn]
    rfl

/-- Only the flags of members are turned when some integers are withdrawn. -/
theorem flag?_remove (s : CodeSet) (points : List Int) (x : Int) :
    (s.remove points).flag? x
      = if x ∈ points ∧ s.flag? x = some true then some false else s.flag? x := by
  split
  · rename_i hboth
    obtain ⟨hx, hflag⟩ := hboth
    exact flag?_eq_false.2 ((withdrawn_remove s points x).2
      (Or.inr ⟨flag?_eq_true.1 hflag, hx⟩))
  · rename_i hnone
    have hapart : ¬ (s.contains x = true ∧ x ∈ points) := fun ⟨hs, hx⟩ =>
      hnone ⟨hx, flag?_eq_true.2 hs⟩
    have hmember : (s.remove points).contains x = s.contains x :=
      Bool.eq_iff_iff.2 ((contains_remove s points x).trans
        (and_iff_left_of_imp fun hs hx => hapart ⟨hs, hx⟩))
    have hwithdrawn : (s.remove points).withdrawn.contains x = s.withdrawn.contains x :=
      Bool.eq_iff_iff.2 ((withdrawn_remove s points x).trans (or_iff_left hapart))
    rw [flag?, hmember, hwithdrawn]
    rfl

theorem mem_record {b : Bool} : (x, b) ∈ s.record ↔ s.flag? x = some b := by
  rw [record, List.mem_merge, List.mem_map, List.mem_map]
  cases b with
  | true =>
      rw [flag?_eq_true]
      simp [contains]
  | false =>
      rw [flag?_eq_false]
      simp

private theorem record_perm (s : CodeSet) :
    s.record.Perm ((s.members.toList.map fun x => (x, true))
      ++ s.withdrawn.toList.map fun x => (x, false)) :=
  List.merge_perm_append _

/-- The record has an integer once, and the integers stand in ascending order. -/
theorem record_ascending (s : CodeSet) : (s.record.map Prod.fst).Pairwise (· < ·) := by
  have hsorted : (s.record.map Prod.fst).Pairwise (· ≤ ·) := by
    rw [List.pairwise_map]
    have hlists : ∀ (e : Extent) (b : Bool),
        (e.toList.map fun x => (x, b)).Pairwise fun p q => decide (p.1 ≤ q.1) = true := by
      intro e b
      rw [List.pairwise_map]
      exact e.toList_ascending.imp fun h => decide_eq_true (Int.le_of_lt h)
    refine (List.pairwise_merge ?_ ?_ _ _ (hlists _ true) (hlists _ false)).imp of_decide_eq_true
    · intro a b c hab hbc
      exact decide_eq_true (Int.le_trans (of_decide_eq_true hab) (of_decide_eq_true hbc))
    · intro a b
      simpa using Int.le_total a.1 b.1
  -- the two lists have no integer in common, as the parts of a set are disjoint
  have honce : (s.record.map Prod.fst).Nodup := by
    rw [((record_perm s).map Prod.fst).nodup_iff]
    simp only [List.map_append, List.map_map, Function.comp_def, List.map_id']
    refine List.nodup_append.2 ⟨s.members.toList_ascending.imp Int.ne_of_lt,
      s.withdrawn.toList_ascending.imp Int.ne_of_lt, ?_⟩
    rintro x hx _ hy rfl
    rw [Extent.mem_toList] at hx hy
    rw [withdrawn_of_contains hx] at hy
    cases hy
  exact (hsorted.and honce).imp fun h => lt_of_le_of_ne h.1 h.2

theorem countP_record (s : CodeSet) : s.record.countP Prod.snd = s.size := by
  rw [(record_perm s).countP_eq, List.countP_append, List.countP_map, List.countP_map]
  simp [Function.comp_def, size, Extent.length_toList]

/-! ## The finite set that is shown -/

/-- All that can be asked about the members is answered as for one finite set. -/
structure Shows (s : CodeSet) (members : Finset Int) : Prop where
  ascending : s.toList.Pairwise (· < ·)
  listed : ∀ x, x ∈ s.toList ↔ x ∈ members
  size : s.size = members.card
  /-- As many entries of the record have a true flag. -/
  flags : s.record.countP Prod.snd = members.card
  contains : ∀ x, s.contains x = true ↔ x ∈ members

theorem shows_of_contains {members : Finset Int}
    (h : ∀ x, s.contains x = true ↔ x ∈ members) : s.Shows members := by
  have hlisted : ∀ x, x ∈ s.toList ↔ x ∈ members := fun x => (mem_toList s x).trans (h x)
  have hascending : s.toList.Pairwise (· < ·) := s.members.toList_ascending
  have hmembers : members = s.toList.toFinset := by
    ext x
    rw [List.mem_toFinset, hlisted]
  have hsize : s.size = members.card := by
    rw [hmembers, List.toFinset_card_of_nodup (hascending.imp Int.ne_of_lt)]
    exact (Extent.length_toList s.members).symm
  exact ⟨hascending, hlisted, hsize, (countP_record s).trans hsize, h⟩

theorem shows_toFinset (s : CodeSet) : s.Shows s.toList.toFinset :=
  shows_of_contains fun x => by rw [List.mem_toFinset, mem_toList]

theorem isEmpty_iff_contains : s.isEmpty = true ↔ ∀ x, s.contains x = false :=
  Extent.isEmpty_iff s.members

theorem isEmpty_iff : s.isEmpty = true ↔ s.toList = [] :=
  Extent.isEmpty_iff_toList s.members

end Repertoire.CodeSet
