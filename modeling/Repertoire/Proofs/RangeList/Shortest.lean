import Mathlib.Data.Finset.Sort
import Mathlib.Data.Int.ConditionallyCompleteOrder
import Mathlib.Order.ConditionallyCompleteLattice.Basic
import Repertoire.Proofs.RangeList.Normal

/-!
# How short a range list can be

A member of a set that lacks a neighbour, below or above, is a *border*. An item mentions
everything between its ends, so a border can only be the end of an item, and every range list of a
set has to write down all borders (`mem_written_of_mem_borders`). In an ascending normal list, what
is written down is borders only, and each one once: if an end had both neighbours, the items on
both sides would touch it, which only two singles may do (`exists_next`, `exists_previous`). So no
range list of the set is shorter (`compress_is_shortest`).
-/

namespace Repertoire

namespace Item

/-- The integers that are written down for an item. -/
def written : Item Int → List Int
  | single a => [a]
  | pair first last => [first, last]

theorem length_written (item : Item Int) : item.written.length = item.writtenSize := by
  cases item <;> rfl

theorem mem_written {item : Item Int} {x : Int} :
    x ∈ item.written ↔ x = item.ends.1 ∨ x = item.ends.2 := by
  cases item with
  | single a => simp [written, ends]
  | pair first last => simp [written, ends]

end Item

namespace RangeList

/-! ## What has to be written down -/

def written (items : RangeList) : List Int :=
  items.flatMap Item.written

theorem length_written (items : RangeList) : items.written.length = items.writtenSize := by
  induction items with
  | nil => rfl
  | cons item items ih =>
      rw [written, List.flatMap_cons, List.length_append, item.length_written, ← written, ih]
      rfl

/-- The members of a set that have no neighbour below or none above. -/
def borders (points : Finset Int) : Finset Int :=
  points.filter fun x => x - 1 ∉ points ∨ x + 1 ∉ points

theorem mem_written_of_mem_borders {items : RangeList} {x : Int}
    (h : x ∈ borders items.expand.toFinset) : x ∈ items.written := by
  obtain ⟨hx, hborder⟩ := Finset.mem_filter.1 h
  simp only [List.mem_toFinset, mem_expand] at hx hborder
  obtain ⟨item, hitem, hfirst, hlast⟩ := hx
  refine List.mem_flatMap.2 ⟨item, hitem, Item.mem_written.2 ?_⟩
  -- before its end, an item mentions the neighbour as well
  rcases hborder with hbelow | habove
  · left
    by_contra hne
    exact hbelow ⟨item, hitem, by omega, by omega⟩
  · right
    by_contra hne
    exact habove ⟨item, hitem, by omega, by omega⟩

theorem card_borders_le (items : RangeList) :
    (borders items.expand.toFinset).card ≤ items.writtenSize :=
  calc (borders items.expand.toFinset).card
      ≤ items.written.toFinset.card :=
        Finset.card_le_card fun _ hx => List.mem_toFinset.2 (mem_written_of_mem_borders hx)
    _ ≤ items.written.length := List.toFinset_card_le _
    _ = items.writtenSize := length_written items

/-! ## What an ascending normal list writes down -/

/-- Does each item end before the next one begins? -/
def Ascends (items : RangeList) : Prop :=
  items.Pairwise fun a b => a.ends.2 < b.ends.1

section Neighbours

variable {front back : RangeList} {item : Item Int}

/-- If the integer above an item is mentioned, then by the item that comes next. -/
theorem exists_touched (hforward : ∀ a ∈ front ++ item :: back, a.ends.1 ≤ a.ends.2)
    (hascends : Ascends (front ++ item :: back))
    (h : item.ends.2 + 1 ∈ expand (front ++ item :: back)) :
    ∃ b rest, back = b :: rest ∧ item.Touches b := by
  obtain ⟨c, hc, hfirst, hlast⟩ := mem_expand.1 h
  obtain ⟨-, htail, hcross⟩ := List.pairwise_append.1 hascends
  obtain ⟨hitem, hback⟩ := List.pairwise_cons.1 htail
  have hle := hforward item (by simp)
  rcases List.mem_append.1 hc with hc | hc
  · have hbefore := hcross c hc item (by simp)
    omega
  rcases List.mem_cons.1 hc with rfl | hc
  · omega
  cases back with
  | nil => cases hc
  | cons b rest =>
      refine ⟨b, rest, rfl, ?_⟩
      show b.ends.1 = item.ends.2 + 1
      have hb := hitem b (by simp)
      rcases List.mem_cons.1 hc with rfl | hc
      · omega
      · have hbc := (List.pairwise_cons.1 hback).1 c hc
        have hbb := hforward b (by simp)
        omega

/-- If the integer below an item is mentioned, then by the item that comes before. -/
theorem exists_touching (hforward : ∀ a ∈ front ++ item :: back, a.ends.1 ≤ a.ends.2)
    (hascends : Ascends (front ++ item :: back))
    (h : item.ends.1 - 1 ∈ expand (front ++ item :: back)) :
    ∃ a rest, front = rest ++ [a] ∧ a.Touches item := by
  obtain ⟨c, hc, hfirst, hlast⟩ := mem_expand.1 h
  obtain ⟨hfront, htail, hcross⟩ := List.pairwise_append.1 hascends
  obtain ⟨hitem, -⟩ := List.pairwise_cons.1 htail
  have hle := hforward item (by simp)
  rcases List.mem_append.1 hc with hc | hc
  · rcases List.eq_nil_or_concat front with rfl | ⟨rest, a, rfl⟩
    · cases hc
    · rw [List.concat_eq_append] at *
      refine ⟨a, rest, rfl, ?_⟩
      show item.ends.1 = a.ends.2 + 1
      have ha := hcross a (by simp) item (by simp)
      rcases List.mem_append.1 hc with hc | hc
      · have hca := (List.pairwise_append.1 hfront).2.2 c hc a (by simp)
        have haa := hforward a (by simp)
        omega
      · obtain rfl := List.mem_singleton.1 hc
        omega
  · rcases List.mem_cons.1 hc with rfl | hc
    · omega
    · have hafter := hitem c hc
      omega

variable (hnormal : IsNormal (front ++ item :: back)) (hascends : Ascends (front ++ item :: back))

include hnormal hascends

/-- In a normal list, both of them are single then. -/
theorem exists_next (h : item.ends.2 + 1 ∈ expand (front ++ item :: back)) :
    ∃ x rest, item = .single x ∧ back = .single (x + 1) :: rest := by
  obtain ⟨b, rest, rfl, htouches⟩ := exists_touched hnormal.forwards hascends h
  obtain ⟨⟨x, rfl⟩, y, rfl⟩ := hnormal.touching item b ⟨front, rest, by simp⟩ htouches
  obtain rfl : y = x + 1 := htouches
  exact ⟨x, rest, rfl, rfl⟩

theorem exists_previous (h : item.ends.1 - 1 ∈ expand (front ++ item :: back)) :
    ∃ x rest, item = .single x ∧ front = rest ++ [.single (x - 1)] := by
  obtain ⟨a, rest, rfl, htouches⟩ := exists_touching hnormal.forwards hascends h
  obtain ⟨⟨y, rfl⟩, x, rfl⟩ := hnormal.touching a item ⟨rest, back, by simp⟩ htouches
  have hx : x = y + 1 := htouches
  exact ⟨x, rest, rfl, by rw [hx, Int.add_sub_cancel]⟩

end Neighbours

section Normal

variable {items : RangeList} (hnormal : items.IsNormal) (hascends : items.Ascends)

include hnormal hascends

theorem mem_borders_of_mem_written {x : Int} (h : x ∈ items.written) :
    x ∈ borders items.expand.toFinset := by
  obtain ⟨item, hitem, hx⟩ := List.mem_flatMap.1 h
  have hmember : x ∈ items.expand := by
    have hle := hnormal.forwards item hitem
    rw [Item.mem_written] at hx
    exact mem_expand.2 ⟨item, hitem, by omega, by omega⟩
  refine Finset.mem_filter.2 ⟨List.mem_toFinset.2 hmember, ?_⟩
  rw [List.mem_toFinset, List.mem_toFinset]
  by_contra hboth
  rw [not_or, not_not, not_not] at hboth
  obtain ⟨hbelow, habove⟩ := hboth
  obtain ⟨front, back, rfl⟩ := List.append_of_mem hitem
  -- with a neighbour at one end the item is single, and then the neighbours are at both ends
  obtain ⟨y, rfl⟩ : ∃ y, item = .single y := by
    rcases Item.mem_written.1 hx with rfl | rfl
    · obtain ⟨y, -, hy, -⟩ := exists_previous hnormal hascends hbelow
      exact ⟨y, hy⟩
    · obtain ⟨y, -, hy, -⟩ := exists_next hnormal hascends habove
      exact ⟨y, hy⟩
  obtain rfl := List.mem_singleton.1 hx
  obtain ⟨_, before, hx, rfl⟩ := exists_previous hnormal hascends hbelow
  obtain rfl := Item.single.inj hx
  obtain ⟨_, after, hx, rfl⟩ := exists_next hnormal hascends habove
  obtain rfl := Item.single.inj hx
  refine hnormal.short (x - 1) ⟨before, after, ?_⟩
  rw [Int.sub_add_cancel, show x - 1 + 2 = x + 1 by omega]
  simp

theorem nodup_written : items.written.Nodup := by
  have hsorted : items.written.Pairwise (· < ·) := by
    refine List.pairwise_flatMap.2 ⟨fun item hitem => ?_, ?_⟩
    · cases item with
      | single a => exact List.pairwise_singleton _ _
      | pair first last =>
          have hlong := hnormal.long first last hitem
          exact List.pairwise_pair.2 (by omega)
    · refine hascends.imp_of_mem fun {a b} ha hb hab x hx y hy => ?_
      have hforward := hnormal.forwards
      have haa := hforward a ha
      have hbb := hforward b hb
      rw [Item.mem_written] at hx hy
      omega
  exact hsorted.imp Int.ne_of_lt

theorem writtenSize_le_card_borders :
    items.writtenSize ≤ (borders items.expand.toFinset).card :=
  calc items.writtenSize
      = items.written.length := (length_written items).symm
    _ = items.written.toFinset.card :=
        (List.toFinset_card_of_nodup (nodup_written hnormal hascends)).symm
    _ ≤ (borders items.expand.toFinset).card :=
        Finset.card_le_card fun _ hx =>
          mem_borders_of_mem_written hnormal hascends (List.mem_toFinset.1 hx)

end Normal

/-! ## Sorted members -/

theorem ofItems_toList (items : RangeList) :
    (CodeSet.ofItems items).toList = items.expand.toFinset.sort (· ≤ ·) := by
  have hsorted : (items.expand.toFinset.sort (· ≤ ·)).Pairwise (· < ·) :=
    (Finset.sortedLT_sort _).pairwise
  refine List.Pairwise.eq_of_mem_iff (Extent.toList_ascending _) hsorted fun x => ?_
  rw [Finset.mem_sort, List.mem_toFinset, ← Extent.contains_ofItems]
  exact CodeSet.mem_toList _ x

end RangeList

end Repertoire
