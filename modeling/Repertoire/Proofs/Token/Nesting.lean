import Repertoire.Proofs.Pattern.RangeString
import Repertoire.Proofs.RangeList.Shortest
import Repertoire.Proofs.Token.Splitting

/-!
# Under a limit on nested calls

For the token of an integer as many calls are nested as it leaves units: one up to `0xFFFF`, and one
more each time a high surrogate is split in turn (`depth`). If no more calls can be nested than
`limit`, the token comes out as it is or not at all (`encode?_eq`). What is written with tokens comes
out if those of all integers in it do (`within`), and it does not matter in which order they are
written or how often.

A call takes ten bits off an integer. So the depth is known up to one from the number of bits
(`depth_le`, `lt_depth`), and whatever the limit is, there are integers beyond it.
-/

namespace Repertoire

namespace Token

/-! ## Depth -/

/-- How many calls are nested for the token of an integer. -/
def depth (c : Int) : Nat :=
  (leaves c).length

theorem depth_of_le {c : Int} (h : c ≤ 0xFFFF) : depth c = 1 := by
  rw [depth, leaves_of_le h]
  rfl

theorem depth_of_lt {c : Int} (h : 0xFFFF < c) : depth c = depth (Surrogate.high c) + 1 := by
  rw [depth, leaves_of_lt h, List.length_append]
  rfl

theorem depth_pos (c : Int) : 0 < depth c :=
  List.length_pos_iff.2 (leaves_ne_nil c)

theorem two_pow_add_ten (n : Nat) : (2 : Int) ^ (n + 10) = 2 ^ n * 0x400 := by
  rw [Int.pow_add]
  rfl

/-- The bound is raised by the base of the high surrogates, which splitting adds each time. -/
theorem depth_le_succ (limit : Nat) {c : Int} (h : c < 2 ^ (10 * limit + 13) + 0xD800) :
    depth c ≤ limit + 1 := by
  induction limit generalizing c with
  | zero =>
      rw [depth_of_le (by omega)]
  | succ limit ih =>
      by_cases hc : c ≤ 0xFFFF
      · rw [depth_of_le hc]
        exact Nat.le_add_left 1 _
      · rw [show 10 * (limit + 1) + 13 = 10 * limit + 13 + 10 from rfl, two_pow_add_ten] at h
        rw [depth_of_lt (Int.not_le.1 hc)]
        refine Nat.succ_le_succ (ih ?_)
        unfold Surrogate.high
        omega

theorem depth_le {limit : Nat} (hlimit : 0 < limit) {c : Int} (h : c < 2 ^ (10 * limit + 3)) :
    depth c ≤ limit := by
  obtain ⟨limit, rfl⟩ := Nat.exists_eq_succ_of_ne_zero (Nat.ne_of_gt hlimit)
  rw [show 10 * (limit + 1) + 3 = 10 * limit + 13 from rfl] at h
  exact depth_le_succ limit (by omega)

theorem lt_depth (limit : Nat) {c : Int} (h : 2 ^ (10 * limit + 6) ≤ c) : limit < depth c := by
  induction limit generalizing c with
  | zero => exact depth_pos c
  | succ limit ih =>
      rw [show 10 * (limit + 1) + 6 = 10 * limit + 6 + 10 from rfl, two_pow_add_ten] at h
      have hleast : (2 : Int) ^ 6 ≤ 2 ^ (10 * limit + 6) :=
        pow_le_pow_right₀ (by decide) (Nat.le_add_left 6 _)
      rw [depth_of_lt (by omega)]
      refine Nat.succ_lt_succ (ih ?_)
      unfold Surrogate.high
      omega

/-! ## Results under a limit -/

section Within

variable {α β γ : Type} {limit : Nat} {points points' : List Int} {a : α} {b : β}

/-- What comes out if the tokens of these integers are needed for it. -/
def within (limit : Nat) (points : List Int) (a : α) : Option α :=
  if ∀ c ∈ points, depth c ≤ limit then some a else none

theorem within_eq_some_iff {a' : α} :
    within limit points a = some a' ↔ (∀ c ∈ points, depth c ≤ limit) ∧ a = a' := by
  simp [within]

theorem within_of (h : ∀ c ∈ points, depth c ≤ limit) : within limit points a = some a :=
  if_pos h

theorem within_of_lt {c : Int} (hc : c ∈ points) (h : limit < depth c) :
    within limit points a = none :=
  if_neg fun hall => Nat.not_lt.2 (hall c hc) h

theorem within_nil : within limit [] a = some a :=
  within_of nofun

theorem within_congr {limit' : Nat}
    (h : (∀ c ∈ points, depth c ≤ limit) ↔ ∀ c ∈ points', depth c ≤ limit') :
    within limit points a = within limit' points' a :=
  if_congr h rfl rfl

theorem within_congr_mem (h : ∀ c, c ∈ points ↔ c ∈ points') :
    within limit points a = within limit points' a :=
  within_congr (forall_congr' fun c => imp_congr_left (h c))

theorem map_within (f : α → β) : (within limit points a).map f = within limit points (f a) := by
  unfold within
  split <;> rfl

theorem bind_pure_within (f : α → β) :
    (within limit points a >>= fun x => pure (f x)) = within limit points (f a) := by
  unfold within
  split <;> rfl

/-- Of two results in a row both have to come out. -/
theorem bind_within {f : α → Option β} (h : f a = within limit points' b) :
    (within limit points a >>= f) = within limit (points ++ points') b := by
  by_cases hpoints : ∀ c ∈ points, depth c ≤ limit
  · have hboth : (∀ c ∈ points', depth c ≤ limit) ↔ ∀ c ∈ points ++ points', depth c ≤ limit := by
      rw [List.forall_mem_append, and_iff_right hpoints]
    rw [within_of hpoints, ← within_congr hboth]
    exact h
  · push Not at hpoints
    obtain ⟨c, hc, hlt⟩ := hpoints
    rw [within_of_lt hc hlt, within_of_lt (List.mem_append_left _ hc) hlt]
    rfl

theorem bind_bind_within (f : α → β → γ) :
    (do
      let x ← within limit points a
      let y ← within limit points' b
      return f x y) = within limit (points ++ points') (f a b) :=
  bind_within (bind_pure_within (f a))

theorem mapM_within {xs : List β} {f : β → Option α} {written : β → List Int} {g : β → α}
    (h : ∀ x ∈ xs, f x = within limit (written x) (g x)) :
    xs.mapM f = within limit (xs.flatMap written) (xs.map g) := by
  induction xs with
  | nil => exact within_nil.symm
  | cons x xs ih =>
      obtain ⟨hx, hxs⟩ := List.forall_mem_cons.1 h
      rw [List.mapM_cons, hx, ih hxs]
      exact bind_bind_within List.cons

end Within

/-! ## Tokens under a limit -/

theorem encode?_of_le {limit : Nat} {c : Int} (h : c ≤ 0xFFFF) :
    encode? (limit + 1) c = some (encode c) := by
  cases hsafe : isSafe c with
  | true => rw [encode?, if_pos hsafe, encode_of_safe hsafe]
  | false => rw [encode?, if_neg (by simp [hsafe]), if_pos h, encode_of_le hsafe h]

theorem encode?_of_lt {limit : Nat} {c : Int} (h : 0xFFFF < c) :
    encode? (limit + 1) c = do
      let front ← encode? limit (Surrogate.high c)
      let back ← encode? limit (Surrogate.low c)
      return front ++ back := by
  rw [encode?, if_neg (by simp [isSafe_of_lt (c := c) (by omega)]), if_neg (by omega)]

/-- The low surrogate is split no more, so it is the high one that the depth depends on. -/
theorem depth_surrogates {limit : Nat} {c : Int} (h : 0xFFFF < c) :
    (∀ d ∈ [Surrogate.high c, Surrogate.low c], depth d ≤ limit) ↔ depth c ≤ limit + 1 := by
  have hlow := Surrogate.low_bounds c
  have hone : depth (Surrogate.low c) = 1 := depth_of_le (by omega)
  have hpos := depth_pos (Surrogate.high c)
  rw [List.forall_mem_cons, List.forall_mem_singleton, hone, depth_of_lt h]
  omega

/-- **A token comes out as it is, if it comes out.** The induction is on the calls that are left. -/
theorem encode?_eq (limit : Nat) (c : Int) : encode? limit c = within limit [c] (encode c) := by
  induction limit generalizing c with
  | zero => exact (within_of_lt List.mem_cons_self (depth_pos c)).symm
  | succ limit ih =>
      by_cases hc : c ≤ 0xFFFF
      · have hdepth : ∀ d ∈ [c], depth d ≤ limit + 1 := by
          rw [List.forall_mem_singleton, depth_of_le hc]
          exact Nat.le_add_left 1 limit
        rw [encode?_of_le hc, within_of hdepth]
      · have habove := Int.not_le.1 hc
        rw [encode?_of_lt habove, ih, ih, Pattern.encode_of_lt habove]
        refine (bind_bind_within (· ++ ·)).trans (within_congr ?_)
        rw [List.forall_mem_singleton]
        exact depth_surrogates habove

theorem encode?_eq_ite (limit : Nat) (c : Int) :
    encode? limit c = if depth c ≤ limit then some (encode c) else none :=
  (encode?_eq limit c).trans (if_congr List.forall_mem_singleton rfl rfl)

theorem encode?_eq_some_iff {limit : Nat} {c : Int} {t : Text} :
    encode? limit c = some t ↔ depth c ≤ limit ∧ encode c = t := by
  rw [encode?_eq, within_eq_some_iff, List.forall_mem_singleton]

theorem encode?_eq_none_iff {limit : Nat} {c : Int} : encode? limit c = none ↔ limit < depth c := by
  simp [encode?_eq_ite]

/-- **Different integers have different tokens**, if none is negative and the tokens come out. They do
so for the integers whose depth is within the limit: for all of up to `10 * limit + 3` bits, and for
none of more than `10 * limit + 6`. -/
theorem encode?_differs :
    (∀ limit limit' a b t u, 0 ≤ a → 0 ≤ b → a ≠ b →
        encode? limit a = some t → encode? limit' b = some u → t ≠ u)
      ∧ (∀ limit c, (∃ t, encode? limit c = some t) ↔ depth c ≤ limit)
      ∧ (∀ limit c, 0 < limit → c < 2 ^ (10 * limit + 3) → ∃ t, encode? limit c = some t)
      ∧ ∀ limit c, 2 ^ (10 * limit + 6) ≤ c → encode? limit c = none := by
  have hout : ∀ limit c, (∃ t, encode? limit c = some t) ↔ depth c ≤ limit := by
    intro limit c
    simp only [encode?_eq_some_iff, exists_and_left, exists_eq', and_true]
  refine ⟨?_, hout, fun limit c hlimit hc => (hout limit c).2 (depth_le hlimit hc),
    fun limit c hc => encode?_eq_none_iff.2 (lt_depth limit hc)⟩
  intro limit limit' a b t u ha hb hne ht hu htu
  rw [encode?_eq_some_iff] at ht hu
  exact hne ((encode_inj ha hb).1 (ht.2.trans (htu.trans hu.2.symm)))

/-- Two integers that are split more than once and have the same last unit. -/
theorem encode?_differs_beyond :
    ∃ t u, encode? 7 0xFEDCBA9876543210 = some t ∧ encode? 7 0xFEDCBA9876543610 = some u
      ∧ t ≠ u := by
  obtain ⟨hne, -, hout, -⟩ := encode?_differs
  obtain ⟨t, ht⟩ := hout 7 0xFEDCBA9876543210 (by decide) (by decide)
  obtain ⟨u, hu⟩ := hout 7 0xFEDCBA9876543610 (by decide) (by decide)
  exact ⟨t, u, ht, hu, hne 7 7 _ _ t u (by decide) (by decide) (by decide) ht hu⟩

/-- Neither token comes out where a thousand calls can be nested. -/
theorem not_encode?_differs_ofLarge :
    (0 : Int) ≤ 2 ^ 13949 ∧ (0 : Int) ≤ 2 ^ 13949 + 1 ∧ (2 : Int) ^ 13949 ≠ 2 ^ 13949 + 1
      ∧ ¬ ∃ t u, encode? 1000 (2 ^ 13949) = some t ∧ encode? 1000 (2 ^ 13949 + 1) = some u
          ∧ t ≠ u := by
  have hnonneg : (0 : Int) ≤ 2 ^ 13949 := Int.pow_nonneg (by decide)
  have hlimit : (2 : Int) ^ (10 * 1000 + 6) ≤ 2 ^ 13949 :=
    pow_le_pow_right₀ (by decide) (by decide)
  refine ⟨hnonneg, by omega, by omega, ?_⟩
  rintro ⟨t, u, ht, -⟩
  rw [encode?_eq_none_iff.2 (lt_depth 1000 hlimit)] at ht
  cases ht

end Token

/-! ## Classes and patterns under a limit -/

namespace Pattern

open Token

variable {limit : Nat}

theorem itemText?_eq (item : Item Int) :
    itemText? limit item = within limit item.written (itemText item) := by
  cases item with
  | single c => exact encode?_eq limit c
  | pair first last =>
      rw [itemText?, encode?_eq, encode?_eq]
      exact bind_bind_within fun front back => front ++ ('-' : CodePoint) :: back

theorem classText?_of_bracketed {items : RangeList} (hne : items ≠ []) (h : Bracketed items) :
    classText? limit items = do
      let texts ← items.mapM (itemText? limit)
      return ('[' : CodePoint) :: texts.flatten ++ [(']' : CodePoint)] := by
  unfold classText?
  split
  · exact absurd rfl hne
  · exact absurd rfl (h _)
  · rfl

theorem classText?_eq (items : RangeList) :
    classText? limit items = within limit items.written (classText items) := by
  rcases single_or_bracketed items with ⟨c, rfl⟩ | hbrackets
  · exact encode?_eq limit c
  · by_cases hne : items = []
    · subst hne
      exact within_nil.symm
    · rw [classText?_of_bracketed hne hbrackets, classText_of_bracketed hne hbrackets,
        mapM_within fun item _ => itemText?_eq item, List.flatMap_def]
      exact bind_pure_within fun texts : List Text =>
        ('[' : CodePoint) :: texts.flatten ++ [(']' : CodePoint)]

theorem classOf?_eq (s : Extent) :
    classOf? limit s = within limit (itemsOf s).written (classOf s) :=
  classText?_eq _

theorem rangeString?_eq (points : List Int) :
    rangeString? limit points
      = within limit (RangeList.compress (points.mergeSort fun a b => a ≤ b)).written
          (rangeString points) :=
  classText?_eq _

theorem itemsOf_of_isEmpty {s : Extent} (h : s.isEmpty = true) : itemsOf s = [] := by
  rw [itemsOf, (Extent.isEmpty_iff_toList s).1 h]
  rfl

theorem unitAlternatives?_eq (s : Extent) :
    unitAlternatives? limit s
      = within limit (itemsOf s).written (if s.isEmpty then [] else [classOf s]) := by
  by_cases hempty : s.isEmpty = true
  · rw [unitAlternatives?, if_pos hempty, if_pos hempty, itemsOf_of_isEmpty hempty]
    exact within_nil.symm
  · rw [unitAlternatives?, if_neg hempty, if_neg hempty, classOf?_eq]
    exact map_within fun t => [t]

theorem groupByLows?_eq (byHigh : List (Int × Extent)) :
    groupByLows? limit byHigh
      = within limit (byHigh.flatMap fun entry => (itemsOf entry.2).written)
          (groupByLows byHigh) := by
  have hentries : byHigh.mapM (fun entry => do
        let lows ← classOf? limit entry.2
        return (lows, entry.1))
      = within limit (byHigh.flatMap fun entry => (itemsOf entry.2).written)
          (byHigh.map fun entry => (classOf entry.2, entry.1)) := by
    refine mapM_within fun entry _ => ?_
    rw [classOf?_eq]
    exact bind_pure_within fun lows => (lows, entry.1)
  rw [groupByLows?, hentries]
  exact bind_pure_within fun entries : List (Text × Int) =>
    (gather entries).map fun group => (group.1, Extent.ofList group.2)

theorem alternatives?_eq (parts : Partition) :
    alternatives? limit parts
      = within limit
          ((parts.byHigh.flatMap fun entry => (itemsOf entry.2).written)
            ++ ((itemsOf parts.bmp).written
            ++ (((groupByLows parts.byHigh).flatMap fun group => (itemsOf group.2).written)
            ++ (itemsOf parts.lone).written)))
          (alternatives parts) := by
  have hpairs : (groupByLows parts.byHigh).mapM (fun group => do
        let highs ← classOf? limit group.2
        return highs ++ group.1)
      = within limit ((groupByLows parts.byHigh).flatMap fun group => (itemsOf group.2).written)
          ((groupByLows parts.byHigh).map fun group => classOf group.2 ++ group.1) := by
    refine mapM_within fun group _ => ?_
    rw [classOf?_eq]
    exact bind_pure_within fun highs => highs ++ group.1
  rw [alternatives?, groupByLows?_eq]
  refine bind_within ?_
  rw [unitAlternatives?_eq]
  refine bind_within ?_
  rw [hpairs]
  refine bind_within ?_
  rw [unitAlternatives?_eq]
  exact bind_pure_within _

/-- The units that are written down for a pattern, alternative by alternative. -/
def writtenUnits (points : List Int) : List Int :=
  (rows points).flatMap fun row => row.flatMap fun s => (itemsOf s).written

theorem mem_writtenUnits {points : List Int} {u : Int} : u ∈ writtenUnits points ↔
    u ∈ (itemsOf (partition points).bmp).written
    ∨ ∃ lows highs, (lows, highs) ∈ groupByLowSets (partition points).byHigh
        ∧ (u ∈ (itemsOf highs).written ∨ u ∈ (itemsOf lows).written) := by
  constructor
  · intro h
    obtain ⟨row, hrow, h⟩ := List.mem_flatMap.1 h
    obtain ⟨s, hs, hu⟩ := List.mem_flatMap.1 h
    rcases mem_rows.1 hrow with ⟨-, rfl⟩ | ⟨lows, highs, hgroup, rfl⟩
    · exact Or.inl (List.mem_singleton.1 hs ▸ hu)
    · rcases List.mem_pair.1 hs with rfl | rfl
      · exact Or.inr ⟨lows, s, hgroup, Or.inl hu⟩
      · exact Or.inr ⟨s, highs, hgroup, Or.inr hu⟩
  · rintro (hbmp | ⟨lows, highs, hgroup, hu⟩)
    · have hsome : (partition points).bmp.isEmpty = false := by
        rw [Bool.eq_false_iff]
        intro hempty
        rw [itemsOf_of_isEmpty hempty] at hbmp
        exact List.not_mem_nil hbmp
      exact List.mem_flatMap.2 ⟨_, mem_rows.2 (Or.inl ⟨hsome, rfl⟩), by simpa using hbmp⟩
    · refine List.mem_flatMap.2 ⟨_, mem_rows.2 (Or.inr ⟨lows, highs, hgroup, rfl⟩), ?_⟩
      simpa using hu

/-- The class of the low surrogates is made for each high surrogate, but written once for those that
share it. Under a limit this is the same, as it only matters which integers are written. -/
theorem ofPoints?_eq (points : List Int) :
    ofPoints? limit points = within limit (writtenUnits points) (ofPoints points) := by
  have hlows : ∀ entry ∈ (partition points).byHigh, OfUnits entry.2 := by
    rintro ⟨high, lows⟩ hentry
    exact ofUnits_lows hentry
  rw [ofPoints?, alternatives?_eq, map_within, groupByLows_eq hlows, lone_partition,
    itemsOf_of_isEmpty (s := ∅) rfl]
  refine within_congr_mem fun u => ?_
  simp only [List.mem_append, List.mem_flatMap, mem_writtenUnits]
  constructor
  · rintro (⟨⟨high, lows⟩, hentry, hu⟩ | hbmp | ⟨group, hgroup, hu⟩ | hlone)
    · obtain ⟨highs, hgroup, -⟩ := exists_highs hentry
      exact Or.inr ⟨lows, highs, hgroup, Or.inr hu⟩
    · exact Or.inl hbmp
    · obtain ⟨⟨lows, highs⟩, hsets, rfl⟩ := List.mem_map.1 hgroup
      exact Or.inr ⟨lows, highs, hsets, Or.inl hu⟩
    · cases hlone
  · rintro (hbmp | ⟨lows, highs, hgroup, hu | hu⟩)
    · exact Or.inr (Or.inl hbmp)
    · exact Or.inr (Or.inr (Or.inl ⟨_, List.mem_map.2 ⟨_, hgroup, rfl⟩, hu⟩))
    · obtain ⟨high, hentry⟩ := exists_high_of_group hgroup
      exact Or.inl ⟨_, hentry, hu⟩

end Pattern

namespace CodeSet

open Token

variable (limit : Nat) (s : CodeSet)

theorem tokens?_eq : s.tokens? limit = within limit s.toList s.tokens := by
  rw [tokens?, mapM_within fun c _ => encode?_eq limit c, map_within, List.flatMap_singleton']
  rw [tokens, List.flatMap_def]

theorem rangeString?_eq : s.rangeString? limit = within limit s.ranges.written s.rangeString := by
  have hascending : s.toList.Pairwise (· < ·) := s.members.toList_ascending
  rw [rangeString?, Pattern.rangeString?_eq, mergeSort_of_ascending hascending]
  rfl

theorem regexp?_eq :
    s.regexp? limit = within limit (Pattern.writtenUnits s.toList) s.regexp :=
  Pattern.ofPoints?_eq s.toList

/-- The integers whose tokens an export is made of. -/
def writtenIn (s : CodeSet) : Export → List Int
  | .rangeString => s.ranges.written
  | .tokens => s.toList
  | .regexp => Pattern.writtenUnits s.toList
  | _ => []

/-- **Under a limit an export is the same, or there is none.** -/
theorem export?_eq (what : Export) :
    s.export? limit what = within limit (s.writtenIn what) (s.export what) := by
  cases what with
  | rangeString =>
      rw [export?, rangeString?_eq]
      exact map_within Exported.text
  | tokens =>
      rw [export?, tokens?_eq]
      exact map_within Exported.text
  | regexp =>
      rw [export?, regexp?_eq]
      exact map_within Exported.text
  | _ => exact within_nil.symm

end CodeSet

end Repertoire
