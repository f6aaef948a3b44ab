import Mathlib.Data.List.SplitBy
import Repertoire.RangeList.Capacity

/-!
# The runs of a list

Compressing cuts a list into runs of consecutive integers. A run is the interval between its first
and its last integer, so the items that are written for it mention the integers of the run and
nothing else (`expand_ofRun`), and a compressed list mentions the integers of the list one after the
other (`expand_compress`). No pair that compressing writes is reversed. The items of an ascending list
ascend, and no integer is mentioned by two of them (`eq_of_mem_compress`).
-/

namespace Repertoire

/-- Each integer of the list is the successor of the one before it. -/
def IsRun (points : List Int) : Prop :=
  points.IsChain fun a b => b = a + 1

theorem interval_eq_cons {first last : Int} (h : first ≤ last) :
    interval first last = first :: interval (first + 1) last := by
  have hlen : (last - first + 1).toNat = (last - (first + 1) + 1).toNat + 1 := by omega
  simp only [interval, hlen, List.range_succ_eq_map, List.map_cons, List.map_map]
  congr 1
  · simp
  · refine List.map_congr_left fun i _ => ?_
    simp only [Function.comp, Nat.succ_eq_add_one]
    omega

theorem interval_eq_nil {first last : Int} (h : last < first) : interval first last = [] := by
  have hlen : (last - first + 1).toNat = 0 := by omega
  simp [interval, hlen]

/-- A run is the interval from its first to its last integer. -/
theorem IsRun.eq_interval : ∀ {a : Int} {rest : List Int}, IsRun (a :: rest) →
    a ≤ (a :: rest).getLast (by simp)
      ∧ a :: rest = interval a ((a :: rest).getLast (by simp))
  | a, [], _ => by
      refine ⟨Int.le_refl a, ?_⟩
      rw [List.getLast_singleton, interval_eq_cons (Int.le_refl a), interval_eq_nil (by omega)]
  | a, b :: rest, h => by
      obtain ⟨hb, hrest⟩ := List.isChain_cons_cons.1 h
      obtain ⟨hle, heq⟩ := IsRun.eq_interval (a := b) hrest
      rw [List.getLast_cons (by simp)]
      refine ⟨by omega, ?_⟩
      rw [interval_eq_cons (by omega), ← hb, ← heq]

namespace Item

theorem mem_points {item : Item Int} {x : Int} :
    x ∈ item.points ↔ item.ends.1 ≤ x ∧ x ≤ item.ends.2 := by
  cases item with
  | single a =>
      simp only [points, ends, List.mem_singleton]
      omega
  | pair first last => exact mem_interval

/-- Every integer of one item lies below every integer of the other. -/
def Apart (a b : Item Int) : Prop :=
  a.ends.2 < b.ends.1 ∨ b.ends.2 < a.ends.1

instance : Std.Symm Apart := ⟨fun _ _ => Or.symm⟩

theorem Apart.not_mem_points {a b : Item Int} (h : a.Apart b) {x : Int} (hx : x ∈ a.points) :
    x ∉ b.points := by
  rw [mem_points] at hx ⊢
  rcases h with hbelow | habove <;> omega

end Item

namespace RangeList

theorem mem_expand {items : RangeList} {x : Int} :
    x ∈ items.expand ↔ ∃ item ∈ items, item.ends.1 ≤ x ∧ x ≤ item.ends.2 := by
  simp only [expand, List.mem_flatMap, Item.mem_points]

theorem expand_singles (points : List Int) :
    expand (points.map Item.single) = points := by
  induction points with
  | nil => rfl
  | cons a points ih =>
      rw [List.map_cons, expand, List.flatMap_cons, ← expand, ih]
      rfl

theorem expand_ofRun {run : List Int} (h : IsRun run) : (ofRun run).expand = run := by
  unfold ofRun
  split
  · rename_i a b c rest
    have heq := h.eq_interval.2
    rw [List.getLast_cons (by simp)] at heq
    rw [expand, List.flatMap_singleton]
    exact heq.symm
  · exact expand_singles run

theorem ends_le_of_mem_ofRun {run : List Int} (h : IsRun run) {item : Item Int}
    (hitem : item ∈ ofRun run) : item.ends.1 ≤ item.ends.2 := by
  unfold ofRun at hitem
  split at hitem
  · rename_i a b c rest
    have hle := h.eq_interval.1
    rw [List.getLast_cons (by simp)] at hle
    rw [List.mem_singleton.1 hitem]
    exact hle
  · obtain ⟨x, -, rfl⟩ := List.mem_map.1 hitem
    exact Int.le_refl x

theorem isRun_of_mem_splitBy {points run : List Int}
    (h : run ∈ points.splitBy fun a b => b == a + 1) : IsRun run :=
  (List.isChain_of_mem_splitBy h).imp fun _ _ hab => eq_of_beq hab

/-- Each run gives its integers back, and the runs of a list make up the list. -/
theorem expand_compress (points : List Int) : (compress points).expand = points := by
  have hruns : ∀ run ∈ points.splitBy fun a b => b == a + 1, (ofRun run).expand = run :=
    fun run hmem => expand_ofRun (isRun_of_mem_splitBy hmem)
  calc (compress points).expand
      = (points.splitBy fun a b => b == a + 1).flatMap fun run => (ofRun run).expand :=
        List.flatMap_assoc
    _ = (points.splitBy fun a b => b == a + 1).flatMap fun run => run := List.flatMap_congr hruns
    _ = points := by rw [List.flatMap_id', List.flatten_splitBy]

theorem mem_compress {points : List Int} {x : Int} :
    (∃ item ∈ compress points, item.ends.1 ≤ x ∧ x ≤ item.ends.2) ↔ x ∈ points := by
  rw [← mem_expand, expand_compress]

theorem mem_expand_compress {points : List Int} {x : Int} :
    x ∈ (compress points).expand ↔ x ∈ points := by
  rw [expand_compress]

/-- No item mentions more integers than there are in the list. -/
theorem length_le_of_mem_compress {points : List Int} {item : Item Int}
    (h : item ∈ compress points) : item.length ≤ points.length := by
  obtain ⟨front, back, hsplit⟩ := List.append_of_mem h
  have hlength := congrArg List.length (expand_compress points)
  rw [hsplit, expand, List.flatMap_append, List.flatMap_cons, List.length_append,
    List.length_append, item.length_points] at hlength
  omega

theorem ends_le_of_mem_compress {points : List Int} {item : Item Int}
    (h : item ∈ compress points) : item.ends.1 ≤ item.ends.2 := by
  obtain ⟨run, hrun, hitem⟩ := List.mem_flatMap.1 h
  exact ends_le_of_mem_ofRun (isRun_of_mem_splitBy hrun) hitem

theorem ends_mem_of_mem_compress {points : List Int} {item : Item Int}
    (h : item ∈ compress points) : item.ends.1 ∈ points ∧ item.ends.2 ∈ points := by
  have hle := ends_le_of_mem_compress h
  exact ⟨mem_compress.1 ⟨item, h, Int.le_refl _, hle⟩, mem_compress.1 ⟨item, h, hle, Int.le_refl _⟩⟩

theorem ends_mem_of_mem_ofRun {run : List Int} (h : IsRun run) {item : Item Int}
    (hitem : item ∈ ofRun run) : item.ends.1 ∈ run ∧ item.ends.2 ∈ run := by
  have hle := ends_le_of_mem_ofRun h hitem
  rw [← expand_ofRun h, mem_expand, mem_expand]
  exact ⟨⟨item, hitem, Int.le_refl _, hle⟩, ⟨item, hitem, hle, Int.le_refl _⟩⟩

theorem ofRun_ascending {run : List Int} (h : run.Pairwise (· < ·)) :
    (ofRun run).Pairwise fun a b => a.ends.2 < b.ends.1 := by
  unfold ofRun
  split
  · exact List.pairwise_singleton _ _
  · exact List.pairwise_map.2 h

theorem compress_ascending {points : List Int} (h : points.Pairwise (· < ·)) :
    (compress points).Pairwise fun a b => a.ends.2 < b.ends.1 := by
  rw [← List.flatten_splitBy (fun a b => b == a + 1) points, List.pairwise_flatten] at h
  obtain ⟨hrun, hruns⟩ := h
  refine List.pairwise_flatMap.2 ⟨fun run hmem => ofRun_ascending (hrun run hmem), ?_⟩
  refine hruns.imp_of_mem fun hfront hback hbefore a ha b hb => ?_
  exact hbefore _ (ends_mem_of_mem_ofRun (isRun_of_mem_splitBy hfront) ha).2
    _ (ends_mem_of_mem_ofRun (isRun_of_mem_splitBy hback) hb).1

/-- An integer of an ascending list has one item. -/
theorem eq_of_mem_compress {points : List Int} (h : points.Pairwise (· < ·)) {a b : Item Int}
    (ha : a ∈ compress points) (hb : b ∈ compress points) {x : Int} (hxa : x ∈ a.points)
    (hxb : x ∈ b.points) : a = b := by
  by_contra hne
  have hapart : (compress points).Pairwise Item.Apart := (compress_ascending h).imp Or.inl
  exact (hapart.forall ha hb hne).not_mem_points hxa hxb

end RangeList

end Repertoire
