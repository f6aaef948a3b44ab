import Mathlib.Data.Finset.Image
import Mathlib.Data.Int.Order.Basic
import Repertoire.Proofs.Pattern.Arrangement

/-!
# How long a pattern can get

A high surrogate stands for a block of `0x400` integers. If all of them are members, its low
surrogates are all that there are, and every such high surrogate is in the same group. If not, but
some are, then membership changes somewhere inside of the block, where a run of members begins or has
just ended (`lowSets_subset`). So the groups are few where the runs are, and a class of single units
costs nothing more, as the run that it comes from begins below all blocks (`card_edgesAbove_lt`).
-/

namespace Repertoire

/-! ## Runs and edges -/

/-- A run of consecutive integers of the list that goes on neither before nor behind. -/
structure IsMaximalRun (points : List Int) (first last : Int) : Prop where
  forwards : first ≤ last
  members : ∀ x, first ≤ x → x ≤ last → x ∈ points
  before : first - 1 ∉ points
  behind : last + 1 ∉ points

namespace Extent

/-- An edge is where a block begins or the place after its end. -/
theorem mem_edges_iff_blocksOf {x : Int} : ∀ {edges : List Int}, edges.length % 2 = 0 →
    (x ∈ edges ↔ ∃ block ∈ blocksOf edges, x = block.1 ∨ x = block.2 + 1)
  | [], _ => by simp [blocksOf]
  | [_], h => by simp at h
  | a :: b :: edges, h => by
      have ih : x ∈ edges ↔ ∃ block ∈ blocksOf edges, x = block.1 ∨ x = block.2 + 1 :=
        mem_edges_iff_blocksOf (by simp only [List.length_cons] at h; omega)
      rw [List.mem_cons, List.mem_cons, ih, blocksOf, List.exists_mem_cons_iff, Int.sub_add_cancel,
        or_assoc]

theorem contains_ends_of_mem_blocks {s : Extent} {block : Int × Int} (h : block ∈ s.blocks) :
    (∀ x, block.1 ≤ x → x ≤ block.2 → s.contains x = true)
      ∧ s.contains (block.1 - 1) = false ∧ s.contains (block.2 + 1) = false := by
  obtain ⟨hle, hfirst, hlast⟩ := blocksOf_bounds s.ascending block h
  have hmembers : ∀ x, block.1 ≤ x → x ≤ block.2 → s.contains x = true :=
    fun x hx hx' => (contains_iff_blocks s x).2 ⟨block, h, hx, hx'⟩
  rw [mem_edges_iff, hmembers _ (Int.le_refl _) hle] at hfirst
  rw [mem_edges_iff, Int.add_sub_cancel, hmembers _ hle (Int.le_refl _)] at hlast
  exact ⟨hmembers, by simpa using hfirst, by simpa using hlast.symm⟩

/-- Membership does not change where there is no edge. -/
theorem contains_eq_of_no_edge {s : Extent} {a b : Int} (hab : a ≤ b)
    (h : ∀ x, a < x → x ≤ b → x ∉ s.edges) : s.contains a = s.contains b := by
  induction b, hab using Int.leInduction with
  | base => rfl
  | succ b hab ih =>
      have hsame := h (b + 1) (by omega) (Int.le_refl _)
      rw [mem_edges_iff, Int.add_sub_cancel, ne_eq, not_not] at hsame
      rw [← hsame]
      exact ih fun x hx hx' => h x hx (by omega)

end Extent

/-- The maximal runs of a list, each as its first and its last integer. -/
def runsOf (points : List Int) : Finset (Int × Int) :=
  (Extent.ofList points).blocks.toFinset

theorem mem_runsOf {points : List Int} {run : Int × Int} :
    run ∈ runsOf points ↔ IsMaximalRun points run.1 run.2 := by
  have hcontains := Extent.contains_ofList points
  rw [runsOf, List.mem_toFinset]
  constructor
  · intro h
    have hle := (Extent.blocksOf_bounds (Extent.ofList points).ascending run h).1
    obtain ⟨hmembers, hbefore, hbehind⟩ := Extent.contains_ends_of_mem_blocks h
    rw [← Bool.not_eq_true, hcontains] at hbefore hbehind
    exact ⟨hle, fun x hx hx' => (hcontains x).1 (hmembers x hx hx'), hbefore, hbehind⟩
  · rintro ⟨hle, hmembers, hbefore, hbehind⟩
    obtain ⟨block, hblock, hfirst, hlast⟩ := (Extent.contains_iff_blocks _ _).1
      ((hcontains run.1).2 (hmembers _ (Int.le_refl _) hle))
    obtain ⟨hinside, -, hend⟩ := Extent.contains_ends_of_mem_blocks hblock
    simp only [hcontains] at hinside
    rw [← Bool.not_eq_true, hcontains] at hend
    -- the block begins where the run does, or it would have the integer before the run
    have hbegin : block.1 = run.1 := by
      by_contra hne
      exact hbefore (hinside _ (by omega) (by omega))
    have hstop : block.2 = run.2 := by
      by_contra hne
      rcases Int.lt_or_gt_of_ne hne with hlt | hgt
      · exact hend (hmembers _ (by omega) (by omega))
      · exact hbehind (hinside _ (by omega) (by omega))
    rwa [← Prod.ext hbegin hstop]

theorem exists_run_of_mem {points : List Int} {c : Int} (h : c ∈ points) :
    ∃ run ∈ runsOf points, run.1 ≤ c ∧ c ≤ run.2 := by
  simp only [runsOf, List.mem_toFinset]
  exact (Extent.contains_iff_blocks _ c).1 ((Extent.contains_ofList points c).2 h)

namespace Pattern

/-! ## Edges inside of blocks -/

variable {points : List Int}

/-- The edges above the least integer that has surrogates. -/
def edgesAbove (points : List Int) : Finset Int :=
  (Extent.ofList points).edges.toFinset.filter (0x10000 < ·)

theorem edgesAbove_subset :
    edgesAbove points ⊆ ((runsOf points).filter (0x10000 < ·.1)).image Prod.fst
      ∪ (runsOf points).image fun run => run.2 + 1 := by
  intro x hx
  obtain ⟨hedge, habove⟩ := Finset.mem_filter.1 hx
  obtain ⟨run, hrun, hx⟩ := (Extent.mem_edges_iff_blocksOf (Extent.ofList points).closed).1
    (List.mem_toFinset.1 hedge)
  have hmem : run ∈ runsOf points := List.mem_toFinset.2 hrun
  rw [Finset.mem_union, Finset.mem_image, Finset.mem_image]
  rcases hx with rfl | rfl
  · exact Or.inl ⟨run, Finset.mem_filter.2 ⟨hmem, habove⟩, rfl⟩
  · exact Or.inr ⟨run, hmem, rfl⟩

theorem card_edgesAbove_le_add (points : List Int) :
    (edgesAbove points).card
      ≤ ((runsOf points).filter (0x10000 < ·.1)).card + (runsOf points).card :=
  calc (edgesAbove points).card
      ≤ _ := Finset.card_le_card edgesAbove_subset
    _ ≤ _ := Finset.card_union_le _ _
    _ ≤ _ := Nat.add_le_add Finset.card_image_le Finset.card_image_le

theorem card_edgesAbove_le (points : List Int) :
    (edgesAbove points).card ≤ 2 * (runsOf points).card := by
  have hsum := card_edgesAbove_le_add points
  have hfilter := Finset.card_filter_le (runsOf points) (0x10000 < ·.1)
  omega

/-- A single unit is in a run that begins below. -/
theorem card_edgesAbove_lt {c : Int} (hc : c ∈ points) (hle : c ≤ 0xFFFF) :
    (edgesAbove points).card < 2 * (runsOf points).card := by
  obtain ⟨run, hrun, hfirst, -⟩ := exists_run_of_mem hc
  have hfilter : ((runsOf points).filter (0x10000 < ·.1)).card < (runsOf points).card :=
    Finset.card_lt_card (Finset.filter_ssubset.2 ⟨run, hrun, by omega⟩)
  have hsum := card_edgesAbove_le_add points
  omega

/-! ## Full and partial blocks -/

/-- All low surrogates. -/
def allLows : Finset Int :=
  (interval 0xDC00 0xDFFF).toFinset

/-- If membership does not change inside of the block of a high surrogate that occurs, all low
surrogates go with it. -/
theorem lowsUnder_eq_allLows {high : Int} (h : high ∈ highsOf points)
    (hno : ∀ x ∈ edgesAbove points, Surrogate.high x ≠ high) :
    lowsUnder points high = allLows := by
  have hcontains := Extent.contains_ofList points
  have hconstant : ∀ a b, 0xFFFF < a → a ≤ b → Surrogate.high a = high →
      Surrogate.high b = high → (a ∈ points ↔ b ∈ points) := by
    intro a b habove hab hhigh hhigh'
    rw [← hcontains, ← hcontains, ← Bool.eq_iff_iff]
    refine Extent.contains_eq_of_no_edge hab fun x hx hx' hedge => hno x ?_ ?_
    · exact Finset.mem_filter.2 ⟨List.mem_toFinset.2 hedge, by omega⟩
    · have hafter := Surrogate.high_mono (Int.le_of_lt hx)
      have hbefore := Surrogate.high_mono hx'
      omega
  obtain ⟨c, hc, habove, hhigh⟩ := mem_highsOf.1 h
  ext l
  rw [mem_lowsUnder, allLows, List.mem_toFinset, mem_interval]
  constructor
  · rintro ⟨d, -, -, rfl⟩
    exact Surrogate.low_bounds d
  · intro hl
    obtain ⟨d, hd, hlow⟩ : ∃ d, Surrogate.high d = high ∧ Surrogate.low d = l :=
      ⟨_, Surrogate.split_whole hl⟩
    have hdabove : 0xFFFF < d := lt_of_high_mem (hd ▸ h)
    refine ⟨d, ?_, hd, hlow⟩
    rcases Int.le_total c d with hcd | hdc
    · exact (hconstant c d habove hcd hhigh hd).1 hc
    · exact (hconstant d c hdabove hdc hd hhigh).2 hc

/-- A set of low surrogates has them all, or its high surrogate has an edge inside. -/
theorem lowSets_subset :
    lowSets points ⊆ insert allLows
      ((edgesAbove points).image fun x => lowsUnder points (Surrogate.high x)) := by
  intro lows hlows
  obtain ⟨high, hhigh, rfl⟩ := mem_lowSets.1 hlows
  rw [Finset.mem_insert, Finset.mem_image]
  by_cases hedge : ∃ x ∈ edgesAbove points, Surrogate.high x = high
  · obtain ⟨x, hx, rfl⟩ := hedge
    exact Or.inr ⟨x, hx, rfl⟩
  · exact Or.inl (lowsUnder_eq_allLows hhigh fun x hx heq => hedge ⟨x, hx, heq⟩)

theorem card_lowSets_le (points : List Int) : (lowSets points).card ≤ (edgesAbove points).card + 1 :=
  calc (lowSets points).card
      ≤ _ := Finset.card_le_card lowSets_subset
    _ ≤ _ := Finset.card_insert_le _ _
    _ ≤ _ := Nat.succ_le_succ Finset.card_image_le

/-! ## Alternatives -/

theorem length_fragmentOf (points : List Int) :
    (fragmentOf points).length
      = (arrangementOf points).bmp?.toList.length + (lowSets points).card := by
  rw [← fragment_arrangementOf, Arrangement.fragment, List.length_append, List.length_map,
    List.length_map, arrangementOf, List.length_map, length_groupsOf]

theorem length_fragmentOf_le (points : List Int) :
    (fragmentOf points).length ≤ 2 * (runsOf points).card + 1 := by
  have hgroups := card_lowSets_le points
  rw [length_fragmentOf]
  cases hbmp : (arrangementOf points).bmp? with
  | none =>
      have hedges := card_edgesAbove_le points
      rw [Option.toList_none, List.length_nil]
      omega
  | some units =>
      obtain ⟨c, hc, hle⟩ := isSome_bmp?_arrangementOf.1 (by rw [hbmp]; rfl)
      have hedges := card_edgesAbove_lt hc hle
      rw [Option.toList_some, List.length_singleton]
      omega

theorem card_runsOf_le_one {first last : Int}
    (h : ∀ x, x ∈ points ↔ first ≤ x ∧ x ≤ last) : (runsOf points).card ≤ 1 := by
  have hsubset : runsOf points ⊆ {(first, last)} := by
    intro run hrun
    obtain ⟨hle, hmembers, hbefore, hbehind⟩ := mem_runsOf.1 hrun
    have hfirst := (h _).1 (hmembers run.1 (Int.le_refl _) hle)
    have hlast := (h _).1 (hmembers run.2 hle (Int.le_refl _))
    rw [h] at hbefore hbehind
    rw [Finset.mem_singleton]
    exact Prod.ext (by omega) (by omega)
  exact (Finset.card_le_card hsubset).trans_eq (Finset.card_singleton _)

/-- **A pattern is short where there are few runs.** However many code points there are: if they
make up `n` runs of consecutive integers, none of which can be extended, the pattern has at most
`2 * n + 1` alternatives. So a single range never takes more than three, wherever it begins and
ends. -/
theorem length_ofPoints_le (points : List Int) (hbounds : ∀ c ∈ points, 0 ≤ c ∧ c ≤ 0x10FFFF) :
    ∃ fragment, Fragment.alternatives? (ofPoints points) = some fragment
      ∧ (∃ runs : Finset (Int × Int),
          (∀ run, run ∈ runs ↔ IsMaximalRun points run.1 run.2)
            ∧ fragment.length ≤ 2 * runs.card + 1)
      ∧ ∀ first last, (∀ x, x ∈ points ↔ first ≤ x ∧ x ≤ last) → fragment.length ≤ 3 := by
  have hlength := length_fragmentOf_le points
  refine ⟨fragmentOf points, alternatives?_ofPoints hbounds,
    ⟨runsOf points, fun _ => mem_runsOf, hlength⟩, fun first last h => ?_⟩
  have hone := card_runsOf_le_one h
  omega

/-- From the last single unit over two full blocks into a third one: three alternatives. -/
theorem length_ofPoints_le_acrossBlocks :
    (∀ c ∈ interval 0xFFFF 0x10800, 0 ≤ c ∧ c ≤ 0x10FFFF)
      ∧ ∃ fragment, Fragment.alternatives? (ofPoints (interval 0xFFFF 0x10800)) = some fragment
          ∧ (∃ runs : Finset (Int × Int),
              (∀ run, run ∈ runs ↔ IsMaximalRun (interval 0xFFFF 0x10800) run.1 run.2)
                ∧ fragment.length ≤ 2 * runs.card + 1)
          ∧ (∀ x, x ∈ interval 0xFFFF 0x10800 ↔ 0xFFFF ≤ x ∧ x ≤ 0x10800)
          ∧ fragment.length ≤ 3 := by
  have hbounds : ∀ c ∈ interval 0xFFFF 0x10800, 0 ≤ c ∧ c ≤ 0x10FFFF := by
    intro c hc
    rw [mem_interval] at hc
    omega
  obtain ⟨fragment, hread, hruns, hrange⟩ := length_ofPoints_le _ hbounds
  exact ⟨hbounds, fragment, hread, hruns, fun _ => mem_interval, hrange _ _ fun _ => mem_interval⟩

end Pattern

end Repertoire
