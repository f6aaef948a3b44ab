import Mathlib.Data.Set.Function
import Repertoire.Proofs.Pattern.Partition

/-!
# Nothing is lost in taking integers apart

Taking integers apart files each of them in a bucket: as a unit, or as a low surrogate under its high
one. Nothing is lost by this. The two surrogates of an integer above `0xFFFF` say which integer it is,
however large it may be (`Surrogate.whole_split`), and a pair that is filed comes from no other one
(`bijOn_pairs`). So the buckets hold what was given, and of its order no more than the order in which
the high surrogates were first seen (`partition_isLossless`).
-/

namespace Repertoire.Pattern

/-! ## Filed pairs -/

/-- A high surrogate with a low one that is filed under it. -/
def Partition.pairs (parts : Partition) : Set (Int × Int) :=
  {pair | ∃ lows, (pair.1, lows) ∈ parts.byHigh ∧ lows.contains pair.2 = true}

variable {points : List Int}

theorem exists_of_mem_pairs {pair : Int × Int} (h : pair ∈ (partition points).pairs) :
    ∃ c ∈ points, 0xFFFF < c ∧ (Surrogate.high c, Surrogate.low c) = pair := by
  obtain ⟨lows, hentry, hlow⟩ := h
  obtain ⟨c, hc, habove, hhigh, hlow⟩ := (mem_lows_iff hentry).1 hlow
  exact ⟨c, hc, habove, Prod.ext hhigh hlow⟩

/-- Splitting and putting together undo each other on what is filed. -/
theorem bijOn_pairs (points : List Int) :
    Set.BijOn (fun pair => Surrogate.whole pair.1 pair.2) (partition points).pairs
      {c | c ∈ points ∧ 0xFFFF < c} := by
  have hinverse : Set.InvOn (fun c => (Surrogate.high c, Surrogate.low c))
      (fun pair => Surrogate.whole pair.1 pair.2) (partition points).pairs
      {c | c ∈ points ∧ 0xFFFF < c} := by
    refine ⟨fun pair hpair => ?_, fun c _ => Surrogate.whole_split c⟩
    obtain ⟨c, -, -, rfl⟩ := exists_of_mem_pairs hpair
    simp only [Surrogate.whole_split]
  refine hinverse.bijOn (fun pair hpair => ?_) fun c hc => exists_lows hc.1 hc.2
  obtain ⟨c, hc, habove, rfl⟩ := exists_of_mem_pairs hpair
  simp only [Surrogate.whole_split]
  exact ⟨hc, habove⟩

/-! ## All buckets -/

theorem keys_byHigh (points : List Int) : (partition points).byHigh.map Prod.fst
    = ((points.filter (0xFFFF < ·)).map Surrogate.high).eraseDups := by
  rw [byHigh_partition, keys_gatherSets, pairsOf, List.map_map]
  rfl

/-- Do the buckets hold the integers, each in its place and nothing else? -/
structure Partition.IsLossless (parts : Partition) (points : List Int) : Prop where
  /-- A negative integer is in the bucket of the units too. -/
  bmp : ∀ u, parts.bmp.contains u = true ↔ u ∈ points ∧ u ≤ 0xFFFF
  lone : parts.lone = ∅
  /-- There is no high surrogate without a low one. -/
  inhabited : ∀ entry ∈ parts.byHigh, ∃ l, entry.2.contains l = true
  lows : ∀ entry ∈ parts.byHigh, ∀ l, entry.2.contains l = true → 0xDC00 ≤ l ∧ l ≤ 0xDFFF
  /-- Each pair that is filed comes from one integer above `0xFFFF`, and each of these is filed. -/
  bijection : Set.BijOn (fun pair => (pair.1 - 0xD800) * 0x400 + (pair.2 - 0xDC00) + 0x10000)
    parts.pairs {c | c ∈ points ∧ 0xFFFF < c}
  /-- A high surrogate is there once. -/
  nodup : (parts.byHigh.map Prod.fst).Nodup
  /-- The high surrogates stand in the order in which they were first seen. -/
  order : parts.byHigh.map Prod.fst
    = ((points.filter (0xFFFF < ·)).map Surrogate.high).eraseDups

/-- **Taking integers apart loses nothing and adds nothing.** This holds of any integers, in any order
and with repetitions, negative ones and ones beyond the code points among them. -/
theorem partition_isLossless (points : List Int) : (partition points).IsLossless points where
  bmp _ := contains_bmp
  lone := lone_partition points
  inhabited _ h := inhabited_lows h
  lows _ h _ hl := lows_bounds h hl
  bijection := bijOn_pairs points
  nodup := nodup_byHigh points
  order := keys_byHigh points

/-- The high surrogate of an integer beyond the code points comes first, as it was seen first. -/
example : (partition [0xA10000, -1, 0x10001, 0xA10000, 0x10000]).byHigh
    = [(0x10000, Extent.ofList [0xDC00]), (0xD800, Extent.ofList [0xDC00, 0xDC01])] := by
  decide +kernel

end Repertoire.Pattern
