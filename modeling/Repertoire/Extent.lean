import Repertoire.RangeList
import Repertoire.Extent.Edges

/-!
# Finite sets of integers

An `Extent` is a finite set of integers, held by its edges in ascending order. Two neighbouring
blocks would share an edge, which the order forbids; so a set has only one row of edges, and
extents with the same members are equal (`ext_contains`).

There are two views of an extent. `contains` asks for one integer, and `toList` lists the members
in ascending order; `mem_toList` says that they agree. The operations are described by what they
do to `contains`.
-/

namespace Repertoire

/-- A finite set of integers. Its edges come in pairs, the beginning of a block and the place after
its end. -/
structure Extent where
  edges : List Int
  ascending : edges.Pairwise (· < ·)
  closed : edges.length % 2 = 0
  deriving DecidableEq

namespace Extent

def contains (s : Extent) (x : Int) : Bool :=
  inside s.edges x

def empty : Extent := ⟨[], .nil, rfl⟩

instance : EmptyCollection Extent := ⟨empty⟩

instance : Inhabited Extent := ⟨∅⟩

theorem blockEdges_ascending {first last : Int} (h : first ≤ last) :
    [first, last + 1].Pairwise (· < ·) := by
  simp
  omega

theorem blockEdges_closed (first last : Int) : [first, last + 1].length % 2 = 0 := by
  simp

/-- The integers from `first` to `last`, none if `last` is smaller. -/
def block (first last : Int) : Extent :=
  if h : first ≤ last then
    ⟨[first, last + 1], blockEdges_ascending h, blockEdges_closed first last⟩
  else ∅

/-- The set of the integers whose memberships in `s` and `t` are combined to true by `f`. An integer
in neither set must not be taken in, as there is no end of such integers. -/
def combine (f : Bool → Bool → Bool) (hf : f false false = false) (s t : Extent) : Extent where
  edges := weave f false false s.edges t.edges
  ascending := weave_ascending f false false s.ascending t.ascending
  closed := by
    obtain ⟨b, hb⟩ := exists_forall_le (s.edges ++ t.edges)
    have hs : inside s.edges b = false := by
      rw [inside_of_forall_le fun e he => hb e (by simp [he]), s.closed]
      rfl
    have ht : inside t.edges b = false := by
      rw [inside_of_forall_le fun e he => hb e (by simp [he]), t.closed]
      rfl
    have h := inside_weave f false false s.ascending t.ascending b
    rw [hs, ht, Bool.false_xor, hf, inside_of_forall_le fun e he =>
      hb e (List.mem_append.2 (mem_weave he))] at h
    rcases Nat.mod_two_eq_zero_or_one (weave f false false s.edges t.edges).length with h2 | h2
    · exact h2
    · simp [h2] at h

def union (s t : Extent) : Extent := combine (· || ·) rfl s t

def inter (s t : Extent) : Extent := combine (· && ·) rfl s t

def diff (s t : Extent) : Extent := combine (fun p q => p && !q) rfl s t

instance : Union Extent := ⟨union⟩
instance : Inter Extent := ⟨inter⟩
instance : SDiff Extent := ⟨diff⟩

/-- The union of many sets. Halving keeps the cost low whatever the order of the sets is. -/
def unite : List Extent → Extent
  | [] => ∅
  | [s] => s
  | s :: t :: rest =>
    let half := (rest.length + 2) / 2
    unite ((s :: t :: rest).take half) ∪ unite ((s :: t :: rest).drop half)
termination_by sets => sets.length
decreasing_by all_goals simp only [List.length_take, List.length_drop, List.length_cons]; omega

def ofList (points : List Int) : Extent :=
  unite (points.map fun x => block x x)

theorem ofList_nil : ofList [] = ∅ := by
  rw [ofList, List.map_nil, unite]

/-- The set of all integers that a range list mentions. -/
def ofItems (items : RangeList) : Extent :=
  unite (items.map fun item => block item.ends.1 item.ends.2)

/-- The blocks that a row of edges bounds, each as its first and its last integer. -/
def blocksOf : List Int → List (Int × Int)
  | a :: b :: edges => (a, b - 1) :: blocksOf edges
  | _ => []

/-- The blocks of consecutive members, in ascending order. -/
def blocks (s : Extent) : List (Int × Int) :=
  blocksOf s.edges

def toList (s : Extent) : List Int :=
  s.blocks.flatMap fun b => interval b.1 b.2

def size (s : Extent) : Nat :=
  s.blocks.foldr (fun b n => (b.2 - b.1 + 1).toNat + n) 0

def isEmpty (s : Extent) : Bool :=
  s.edges.isEmpty

/-- Is every member of `s` a member of `t`? As blocks do not touch, each block of `s` must lie
within a single block of `t`. -/
def subset (s t : Extent) : Bool :=
  s.blocks.all fun b => t.blocks.any fun c => c.1 ≤ b.1 && b.2 ≤ c.2

/-! ## Membership -/

@[simp] theorem contains_empty (x : Int) : (∅ : Extent).contains x = false := rfl

theorem contains_block (first last x : Int) :
    (block first last).contains x = (decide (first ≤ x) && decide (x ≤ last)) := by
  unfold block contains
  split
  · rename_i h
    by_cases h₁ : first ≤ x <;> by_cases h₂ : last + 1 ≤ x <;> simp [inside, h₁, h₂] <;> omega
  · rename_i h
    by_cases h₁ : first ≤ x <;> by_cases h₂ : x ≤ last <;> simp [h₁, h₂] <;> first | omega | rfl

theorem contains_combine {f : Bool → Bool → Bool} (hf : f false false = false) (s t : Extent)
    (x : Int) : (combine f hf s t).contains x = f (s.contains x) (t.contains x) := by
  have h := inside_weave f false false s.ascending t.ascending x
  simpa [combine, contains, hf] using h

@[simp] theorem contains_union (s t : Extent) (x : Int) :
    (s ∪ t).contains x = (s.contains x || t.contains x) :=
  contains_combine rfl s t x

@[simp] theorem contains_inter (s t : Extent) (x : Int) :
    (s ∩ t).contains x = (s.contains x && t.contains x) :=
  contains_combine rfl s t x

@[simp] theorem contains_diff (s t : Extent) (x : Int) :
    (s \ t).contains x = (s.contains x && !t.contains x) :=
  contains_combine rfl s t x

theorem contains_unite (sets : List Extent) (x : Int) :
    (unite sets).contains x = sets.any (·.contains x) := by
  fun_induction unite sets with
  | case1 => rfl
  | case2 => simp
  | case3 s t rest half ih₁ ih₂ =>
    rw [contains_union, ih₁, ih₂, ← List.any_append, List.take_append_drop]

theorem contains_ofList (points : List Int) (x : Int) :
    (ofList points).contains x = true ↔ x ∈ points := by
  simp only [ofList, contains_unite, List.any_map, List.any_eq_true, Function.comp,
    contains_block, Bool.and_eq_true, decide_eq_true_eq]
  exact ⟨fun ⟨y, hy, h⟩ => (by omega : y = x) ▸ hy, fun h => ⟨x, h, by omega⟩⟩

theorem contains_ofItems (items : RangeList) (x : Int) :
    (ofItems items).contains x = true ↔ x ∈ items.expand := by
  simp only [ofItems, contains_unite, List.any_map, List.any_eq_true, Function.comp,
    contains_block, Bool.and_eq_true, decide_eq_true_eq, RangeList.expand, List.mem_flatMap]
  refine exists_congr fun item => and_congr_right fun _ => ?_
  cases item with
  | single a => simp only [Item.ends, Item.points, List.mem_singleton]; omega
  | pair a b => simp only [Item.ends, Item.points, mem_interval]

/-! ## The list of the members -/

/-- Two edges in front bound a block below everything else. -/
theorem inside_cons_cons {a b x : Int} {edges : List Int} (h : (a :: b :: edges).Pairwise (· < ·)) :
    inside (a :: b :: edges) x = true ↔ (a ≤ x ∧ x ≤ b - 1) ∨ inside edges x = true := by
  rw [List.pairwise_cons, List.pairwise_cons] at h
  have hab : a < b := h.1 b (by simp)
  by_cases hb : b ≤ x
  · have ha : a ≤ x := by omega
    have hx : ¬ x ≤ b - 1 := by omega
    simp [inside, ha, hb, hx]
  · have := inside_eq_false (x := x) fun e he => Int.lt_trans (by omega) (h.2.1 e he)
    have hx : x ≤ b - 1 := by omega
    simp [inside, hb, this, hx]

theorem inside_iff_blocksOf {x : Int} : {edges : List Int} → edges.Pairwise (· < ·) →
    edges.length % 2 = 0 → (inside edges x = true ↔ ∃ b ∈ blocksOf edges, b.1 ≤ x ∧ x ≤ b.2)
  | [], _, _ => by simp [inside, blocksOf]
  | [_], _, h => by simp at h
  | a :: b :: edges, h, h2 => by
    rw [inside_cons_cons h, inside_iff_blocksOf (h.sublist (by simp)) (by simp at h2; omega)]
    simp [blocksOf]

theorem contains_iff_blocks (s : Extent) (x : Int) :
    s.contains x = true ↔ ∃ b ∈ s.blocks, b.1 ≤ x ∧ x ≤ b.2 :=
  inside_iff_blocksOf s.ascending s.closed

@[simp] theorem mem_toList (s : Extent) (x : Int) : x ∈ s.toList ↔ s.contains x = true := by
  simp only [toList, List.mem_flatMap, mem_interval, contains_iff_blocks]

theorem blocksOf_bounds : {edges : List Int} → edges.Pairwise (· < ·) →
    ∀ b ∈ blocksOf edges, b.1 ≤ b.2 ∧ b.1 ∈ edges ∧ b.2 + 1 ∈ edges
  | [], _, _, hb => by simp [blocksOf] at hb
  | [_], _, _, hb => by simp [blocksOf] at hb
  | x :: y :: edges, h, b, hb => by
    have hxy : x < y := (List.pairwise_cons.1 h).1 y (by simp)
    rcases List.mem_cons.1 hb with rfl | hb
    · exact ⟨by show x ≤ y - 1; omega, by simp, by simp⟩
    · obtain ⟨h₁, h₂, h₃⟩ := blocksOf_bounds (h.sublist (by simp)) b hb
      exact ⟨h₁, by simp [h₂], by simp [h₃]⟩

/-- Between a block and the next one at least one integer is missing. -/
theorem blocksOf_apart : {edges : List Int} → edges.Pairwise (· < ·) →
    (blocksOf edges).Pairwise fun b c => b.2 + 1 < c.1
  | [], _ => by simp [blocksOf]
  | [_], _ => by simp [blocksOf]
  | x :: y :: edges, h => by
    have h' : edges.Pairwise (· < ·) := h.sublist (by simp)
    refine List.pairwise_cons.2 ⟨fun c hc => ?_, blocksOf_apart h'⟩
    have := (blocksOf_bounds h' c hc).2.1
    have hy := (List.pairwise_cons.1 (List.pairwise_cons.1 h).2).1 c.1 this
    show y - 1 + 1 < c.1
    omega

theorem toList_ascending (s : Extent) : s.toList.Pairwise (· < ·) := by
  rw [toList, List.pairwise_flatMap]
  refine ⟨fun b _ => interval_ascending b.1 b.2, ?_⟩
  refine (blocksOf_apart s.ascending).imp fun h x hx y hy => ?_
  rw [mem_interval] at hx hy
  omega

theorem length_toList (s : Extent) : s.toList.length = s.size := by
  rw [toList, size]
  induction s.blocks with
  | nil => rfl
  | cons b blocks ih =>
      rw [List.flatMap_cons, List.length_append, length_interval, ih, List.foldr_cons]

/-! ## Equality, emptiness and inclusion -/

/-- The edges can be read off membership: an edge stands exactly where membership changes. -/
theorem mem_edges_iff (s : Extent) (x : Int) :
    x ∈ s.edges ↔ s.contains (x - 1) ≠ s.contains x := by
  have key : ∀ edges : List Int, edges.Pairwise (· < ·) →
      (x ∈ edges ↔ inside edges (x - 1) ≠ inside edges x) := by
    intro edges h
    induction edges with
    | nil => simp [inside]
    | cons e edges ih =>
      rw [List.pairwise_cons] at h
      have ih := ih h.2
      by_cases hx : e ≤ x - 1
      · have hx' : e ≤ x := by omega
        have hne : x ≠ e := by omega
        simp [inside, hx, hx', hne, ih]
      · by_cases hx' : e ≤ x
        · have hxe : x = e := by omega
          have := inside_eq_false (x := x) fun y hy => by have := h.1 y hy; omega
          subst hxe
          simp [inside, hx, this]
        · have hne : x ≠ e := by omega
          have hnm : x ∉ edges := fun hm => by have := h.1 x hm; omega
          simp [inside, hx, hx', hne, hnm]
  exact key s.edges s.ascending

theorem ext_contains {s t : Extent} (h : ∀ x, s.contains x = t.contains x) : s = t := by
  have hmem : ∀ x, x ∈ s.edges ↔ x ∈ t.edges := fun x => by
    rw [mem_edges_iff, mem_edges_iff, h, h]
  have hperm : s.edges.Perm t.edges :=
    (List.perm_ext_iff_of_nodup (s.ascending.imp Int.ne_of_lt) (t.ascending.imp Int.ne_of_lt)).2 hmem
  have hedges : s.edges = t.edges :=
    hperm.eq_of_pairwise (fun _ _ _ _ hab hba => absurd hba (Int.lt_asymm hab))
      s.ascending t.ascending
  cases s
  cases t
  simpa using hedges

theorem isEmpty_iff (s : Extent) : s.isEmpty = true ↔ ∀ x, s.contains x = false := by
  rw [isEmpty, List.isEmpty_iff]
  constructor
  · intro h x
    rw [contains, h]
    rfl
  · intro h
    exact congrArg edges (ext_contains (t := ∅) h)

theorem isEmpty_iff_toList (s : Extent) : s.isEmpty = true ↔ s.toList = [] := by
  rw [List.eq_nil_iff_forall_not_mem, isEmpty_iff]
  simp only [mem_toList, Bool.not_eq_true]

theorem subset_iff (s t : Extent) :
    s.subset t = true ↔ ∀ x, s.contains x = true → t.contains x = true := by
  simp only [subset, List.all_eq_true, List.any_eq_true, Bool.and_eq_true, decide_eq_true_eq]
  constructor
  · intro h x hx
    obtain ⟨b, hb, h₁, h₂⟩ := (contains_iff_blocks s x).1 hx
    obtain ⟨c, hc, h₃, h₄⟩ := h b hb
    exact (contains_iff_blocks t x).2 ⟨c, hc, by omega, by omega⟩
  · intro h b hb
    have hbb := (blocksOf_bounds s.ascending b hb).1
    have member : ∀ x, b.1 ≤ x → x ≤ b.2 → t.contains x = true := fun x h₁ h₂ =>
      h x ((contains_iff_blocks s x).2 ⟨b, hb, h₁, h₂⟩)
    obtain ⟨c, hc, h₁, h₂⟩ := (contains_iff_blocks t b.1).1 (member b.1 (Int.le_refl _) hbb)
    refine ⟨c, hc, h₁, Int.not_lt.1 fun hlt => ?_⟩
    have edge := (mem_edges_iff t (c.2 + 1)).1 (blocksOf_bounds t.ascending c hc).2.2
    rw [Int.add_sub_cancel, member c.2 h₂ (by omega), member (c.2 + 1) (by omega) (by omega)] at edge
    exact edge rfl

end Extent

end Repertoire
