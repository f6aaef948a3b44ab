import Repertoire.Proofs.RangeList.Expanding
import Repertoire.RangeList.Normal

/-!
# What compressing leaves as it is

Expanding forgets how a list was cut into items, and compressing cuts it anew. The new cuts stand
where the integers do not go on, so a range list may be expanded and compressed part by part
wherever one of its items does not touch the next (`breaks_iff_expand`, `compress_append`). Normal
lists can be put together at such a break and taken apart there (`IsNormal.append`,
`IsNormal.exists_stretch`), and between two breaks a normal list has only what one run is written
as. So the normal lists are what compressing writes, and what it leaves as it is
(`compress_keeps_normal`).
-/

namespace Repertoire

/-! ## Intervals and items as runs -/

theorem isRun_interval (first last : Int) : IsRun (interval first last) := by
  rw [IsRun, interval, List.isChain_map, List.range_eq_range']
  exact (List.isChain_range' _ _ 1).imp fun i j hij => by omega

theorem head?_interval {first last : Int} (h : first ≤ last) :
    (interval first last).head? = some first := by
  rw [interval_eq_cons h, List.head?_cons]

theorem getLast?_interval {first last : Int} (h : first ≤ last) :
    (interval first last).getLast? = some last := by
  rw [interval, List.getLast?_map, List.getLast?_range, if_neg (by omega), Option.map_some]
  congr 1
  omega

namespace Item

/-- Does the second item go on where the first one ends? -/
def Touches (a b : Item Int) : Prop := b.ends.1 = a.ends.2 + 1

theorem isRun_points (item : Item Int) : IsRun item.points := by
  cases item with
  | single a => exact List.isChain_singleton a
  | pair first last => exact isRun_interval first last

theorem head?_points {item : Item Int} (h : item.ends.1 ≤ item.ends.2) :
    item.points.head? = some item.ends.1 := by
  cases item with
  | single a => rfl
  | pair first last => exact head?_interval h

theorem getLast?_points {item : Item Int} (h : item.ends.1 ≤ item.ends.2) :
    item.points.getLast? = some item.ends.2 := by
  cases item with
  | single a => rfl
  | pair first last => exact getLast?_interval h

end Item

namespace RangeList

variable {items front back : RangeList}

/-! ## Where a list may be cut -/

/-- Does the second list not go on where the first one ends? -/
def Breaks (front back : RangeList) : Prop :=
  ∀ a ∈ front.getLast?, ∀ b ∈ back.head?, ¬ a.Touches b

theorem expand_append (front back : RangeList) :
    expand (front ++ back) = front.expand ++ back.expand :=
  List.flatMap_append

theorem head?_expand (h : ∀ item ∈ items, item.ends.1 ≤ item.ends.2) :
    items.expand.head? = items.head?.map fun item => item.ends.1 := by
  cases items with
  | nil => rfl
  | cons a rest =>
      rw [expand, List.flatMap_cons, List.head?_append, Item.head?_points (h a (by simp))]
      rfl

theorem getLast?_expand (h : ∀ item ∈ items, item.ends.1 ≤ item.ends.2) :
    items.expand.getLast? = items.getLast?.map fun item => item.ends.2 := by
  rcases List.eq_nil_or_concat items with rfl | ⟨rest, a, rfl⟩
  · rfl
  · rw [List.concat_eq_append, expand_append, List.getLast?_append, expand,
      List.flatMap_singleton, Item.getLast?_points (h a (by simp)), List.getLast?_append]
    rfl

/-- A break can be seen in the integers that are mentioned on both of its sides. -/
theorem breaks_iff_expand (hfront : ∀ item ∈ front, item.ends.1 ≤ item.ends.2)
    (hback : ∀ item ∈ back, item.ends.1 ≤ item.ends.2) :
    Breaks front back ↔
      ∀ x ∈ front.expand.getLast?, ∀ y ∈ back.expand.head?, (y == x + 1) = false := by
  simp only [getLast?_expand hfront, head?_expand hback, Option.forall_mem_map,
    beq_eq_false_iff_ne, Breaks, Item.Touches, ne_eq]

theorem compress_append {front back : List Int}
    (h : ∀ x ∈ front.getLast?, ∀ y ∈ back.head?, (y == x + 1) = false) :
    compress (front ++ back) = compress front ++ compress back := by
  rw [compress, List.splitBy_append h, List.flatMap_append]
  rfl

theorem compress_of_isRun {run : List Int} (h : IsRun run) : compress run = ofRun run := by
  cases run with
  | nil => rfl
  | cons a rest =>
      rw [compress, List.splitBy_of_isChain (List.cons_ne_nil a rest), List.flatMap_singleton]
      exact h.imp fun _ _ hab => beq_iff_eq.2 hab

/-- A stretch of items each of which touches the next lies on one side of a break. -/
theorem within_of_breaks {stretch : RangeList} (hbreaks : Breaks front back)
    (htouch : stretch.IsChain Item.Touches) (h : stretch <:+: front ++ back) :
    stretch <:+: front ∨ stretch <:+: back := by
  rcases List.infix_append_iff_ne_nil.1 h with
    hfront | hback | ⟨left, right, hleft, hright, rfl, ⟨before, rfl⟩, ⟨after, rfl⟩⟩
  · exact Or.inl hfront
  · exact Or.inr hback
  · refine absurd (htouch.rel_getLast_head_of_append hleft hright) (hbreaks _ ?_ _ ?_)
    · rw [List.getLast?_append_of_ne_nil _ hleft]
      exact List.getLast_mem_getLast? hleft
    · rw [List.head?_append_of_ne_nil _ hright]
      exact List.head_mem_head? hright

/-! ## Parts of normal lists -/

/-- In a normal list no item ends before it begins. -/
theorem IsNormal.forwards (h : items.IsNormal) : ∀ item ∈ items, item.ends.1 ≤ item.ends.2
  | .single a, _ => Int.le_refl a
  | .pair first last, hitem => by
      have hlong := h.long first last hitem
      show first ≤ last
      omega

theorem IsNormal.part {part : RangeList} (h : items.IsNormal) (hpart : part <:+: items) :
    part.IsNormal where
  long first last hmem := h.long first last (hpart.mem hmem)
  touching a b hab := h.touching a b (hab.trans hpart)
  short x hx := h.short x (hx.trans hpart)

/-- Two normal lists with a break between them make a normal list. -/
theorem IsNormal.append (hfront : front.IsNormal) (hback : back.IsNormal)
    (hbreaks : Breaks front back) : IsNormal (front ++ back) where
  long first last hmem := by
    rcases List.mem_append.1 hmem with hmem | hmem
    · exact hfront.long first last hmem
    · exact hback.long first last hmem
  touching a b hab htouch := by
    rcases within_of_breaks hbreaks (List.isChain_pair.2 htouch) hab with hab | hab
    · exact hfront.touching a b hab htouch
    · exact hback.touching a b hab htouch
  short x hx := by
    have hchain : [Item.single x, .single (x + 1), .single (x + 2)].IsChain Item.Touches :=
      List.isChain_cons_cons.2 ⟨rfl, List.isChain_pair.2 (Int.add_assoc x 1 1).symm⟩
    rcases within_of_breaks hbreaks hchain hx with hx | hx
    · exact hfront.short x hx
    · exact hback.short x hx

/-! ## What compressing writes -/

/-- A run is written as one pair of three integers or more, or else as one or two singles. -/
theorem ofRun_cases : ∀ {run : List Int}, IsRun run →
    (∃ first last, first + 2 ≤ last ∧ ofRun run = [.pair first last])
      ∨ (run.length ≤ 2 ∧ ofRun run = run.map .single)
  | [], _ => Or.inr ⟨Nat.zero_le 2, rfl⟩
  | [_], _ => Or.inr ⟨Nat.le_succ 1, rfl⟩
  | [_, _], _ => Or.inr ⟨Nat.le_refl 2, rfl⟩
  | a :: b :: c :: rest, h => by
      obtain ⟨hab, hb⟩ := List.isChain_cons_cons.1 h
      obtain ⟨hbc, hc⟩ := List.isChain_cons_cons.1 hb
      have hle := (IsRun.eq_interval hc).1
      refine Or.inl ⟨a, _, ?_, rfl⟩
      rw [List.getLast_cons (List.cons_ne_nil c rest)]
      omega

theorem isNormal_pair {first last : Int} (h : first + 2 ≤ last) :
    IsNormal [.pair first last] where
  long first' last' hmem := by
    obtain ⟨rfl, rfl⟩ := Item.pair.inj (List.mem_singleton.1 hmem)
    exact h
  touching a b hab := absurd hab.length_le (Nat.lt_irrefl 1)
  short x hx := absurd hx.length_le (by simp)

theorem isNormal_singles {points : List Int} (h : points.length ≤ 2) :
    IsNormal (points.map .single) where
  long first last hmem := by
    obtain ⟨x, -, hx⟩ := List.mem_map.1 hmem
    cases hx
  touching a b hab _ := by
    obtain ⟨x, -, hx⟩ := List.mem_map.1 (hab.mem (List.mem_cons_self : a ∈ [a, b]))
    obtain ⟨y, -, hy⟩ := List.mem_map.1 (hab.mem (List.mem_cons_of_mem a List.mem_cons_self))
    exact ⟨⟨x, hx.symm⟩, y, hy.symm⟩
  short x hx := by
    have hlength : 3 ≤ points.length := by simpa using hx.length_le
    omega

theorem isNormal_ofRun {run : List Int} (h : IsRun run) : (ofRun run).IsNormal := by
  rcases ofRun_cases h with ⟨first, last, hlong, heq⟩ | ⟨hshort, heq⟩
  · rw [heq]
    exact isNormal_pair hlong
  · rw [heq]
    exact isNormal_singles hshort

theorem expand_flatMap_ofRun {runs : List (List Int)} (hruns : ∀ run ∈ runs, IsRun run) :
    expand (runs.flatMap ofRun) = runs.flatten :=
  calc expand (runs.flatMap ofRun)
      = runs.flatMap fun run => (ofRun run).expand := List.flatMap_assoc
    _ = runs.flatMap fun run => run := List.flatMap_congr fun run h => expand_ofRun (hruns run h)
    _ = runs.flatten := List.flatMap_id'

/-- Runs none of which goes on where the one before it ends are written as a normal list. -/
theorem isNormal_flatMap_ofRun {runs : List (List Int)} (hruns : ∀ run ∈ runs, IsRun run)
    (hapart : runs.IsChain fun r s => ∃ hr hs, (s.head hs == r.getLast hr + 1) = false) :
    IsNormal (runs.flatMap ofRun) := by
  induction runs with
  | nil => exact isNormal_ofRun List.isChain_nil
  | cons run runs ih =>
      rw [List.isChain_cons] at hapart
      rw [List.forall_mem_cons] at hruns
      have hrun := isNormal_ofRun hruns.1
      have hrest := ih hruns.2 hapart.2
      refine hrun.append hrest ((breaks_iff_expand hrun.forwards hrest.forwards).2 ?_)
      rw [expand_ofRun hruns.1, expand_flatMap_ofRun hruns.2]
      intro x hx y hy
      cases runs with
      | nil => cases hy
      | cons next runs =>
          obtain ⟨hrun, hnext, hne⟩ := hapart.1 next rfl
          rw [List.flatten_cons, List.head?_append_of_ne_nil _ hnext] at hy
          rwa [List.head_of_mem_head? hy, List.getLast_of_mem_getLast? hx] at hne

theorem isNormal_compress (points : List Int) : (compress points).IsNormal :=
  isNormal_flatMap_ofRun (fun _ => isRun_of_mem_splitBy)
    (List.isChain_getLast_head_splitBy (fun a b => b == a + 1) points)

/-! ## What is left as it is -/

/-- An interval of three integers or more is written as a pair, whose ends are the same. -/
theorem ofRun_interval {first last : Int} (h : first + 2 ≤ last) :
    ofRun (interval first last) = [.pair first last] := by
  have hrun := isRun_interval first last
  rcases ofRun_cases hrun with ⟨first', last', h', heq⟩ | ⟨hshort, -⟩
  · have hexpand := expand_ofRun hrun
    rw [heq, expand, List.flatMap_singleton, Item.points] at hexpand
    have hfirst := head?_interval (by omega : first' ≤ last')
    have hlast := getLast?_interval (by omega : first' ≤ last')
    rw [hexpand, head?_interval (by omega)] at hfirst
    rw [hexpand, getLast?_interval (by omega)] at hlast
    rw [heq, Option.some.inj hfirst, Option.some.inj hlast]
  · rw [length_interval] at hshort
    omega

theorem compress_points {item : Item Int} (h : IsNormal [item]) :
    compress item.points = [item] := by
  rw [compress_of_isRun item.isRun_points]
  cases item with
  | single a => rfl
  | pair first last => exact ofRun_interval (h.long first last (List.mem_singleton_self _))

/-- A normal list begins with a pair, or with one or two singles, and does not go on from there. -/
theorem IsNormal.exists_stretch {a : Item Int} {rest : RangeList} (h : IsNormal (a :: rest)) :
    ∃ stretch back : RangeList, a :: rest = stretch ++ back ∧ stretch ≠ [] ∧ Breaks stretch back
      ∧ compress stretch.expand = stretch := by
  by_cases hbreaks : Breaks [a] rest
  · refine ⟨[a], rest, rfl, List.cons_ne_nil _ _, hbreaks, ?_⟩
    rw [expand, List.flatMap_singleton]
    exact compress_points (h.part ⟨[], rest, rfl⟩)
  · obtain ⟨b, back, rfl, hab⟩ : ∃ b back, rest = b :: back ∧ a.Touches b := by
      cases rest with
      | nil => exact absurd (fun _ _ _ hb => by cases hb) hbreaks
      | cons b back => exact ⟨b, back, rfl, by simpa [Breaks] using hbreaks⟩
    obtain ⟨⟨x, rfl⟩, y, rfl⟩ := h.touching a b ⟨[], back, rfl⟩ hab
    obtain rfl : y = x + 1 := hab
    have hrun : IsRun [x, x + 1] := List.isChain_pair.2 rfl
    refine ⟨[.single x, .single (x + 1)], back, rfl, List.cons_ne_nil _ _, ?_,
      compress_of_isRun hrun⟩
    -- a third item that goes on would be a third single
    intro b hb c hc htouches
    obtain rfl := Option.some.inj hb
    obtain ⟨rest, rfl⟩ : ∃ rest, back = c :: rest := List.head?_eq_some_iff.1 hc
    obtain ⟨-, z, rfl⟩ := h.touching (.single (x + 1)) c ⟨[.single x], rest, rfl⟩ htouches
    obtain rfl : z = x + 1 + 1 := htouches
    rw [Int.add_assoc] at h
    exact h.short x ⟨[], rest, rfl⟩

/-- Stretch after stretch, a normal list is compressed to itself. -/
theorem IsNormal.compress_expand (h : items.IsNormal) : compress items.expand = items := by
  induction hlength : items.length using Nat.strong_induction_on generalizing items with
  | h n ih =>
      cases items with
      | nil => rfl
      | cons a rest =>
          obtain ⟨stretch, back, heq, hne, hbreaks, hstretch⟩ := h.exists_stretch
          rw [heq] at h hlength ⊢
          have hfront : stretch.IsNormal := h.part ⟨[], back, rfl⟩
          have hback : back.IsNormal := h.part ⟨stretch, [], by simp⟩
          have hshorter : back.length < n := by
            have hpos := List.length_pos_iff.2 hne
            rw [List.length_append] at hlength
            omega
          rw [expand_append, compress_append
            ((breaks_iff_expand hfront.forwards hback.forwards).1 hbreaks), hstretch,
            ih _ hshorter hback rfl]

theorem compress_expand_eq_iff_isNormal : compress items.expand = items ↔ items.IsNormal :=
  ⟨fun h => h ▸ isNormal_compress items.expand, IsNormal.compress_expand⟩

end RangeList
end Repertoire
