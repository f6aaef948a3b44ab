import Repertoire.Export
import Repertoire.Proofs.UnicodeRange.Pieces
import Repertoire.Proofs.UnicodeRange.Token

/-!
# Reading what was written

A set is written in the unicode-range notation item by item, and each item is read or passed over as
a whole. So reading gives back the items that lie within `0` to `0xFFFFFF`, and all of a set whose
members do (`parse_hexRangeString`). Code points end far below that.
-/

namespace Repertoire.UnicodeRange

/-- No token reaches further than six digits do, so no text does. -/
theorem parse_bounds {t : Text} {x : Int} (h : (parse t).contains x = true) :
    0 ≤ x ∧ x ≤ 0xFFFFFF := by
  obtain ⟨piece, -, first, last, hbounds, hx⟩ := contains_parse.1 h
  have hle := tokenBounds?_le hbounds
  omega

theorem names_itemToken {item : Item Int} (hle : item.ends.1 ≤ item.ends.2) {x : Int} :
    Names (itemToken item) x ↔
      x ∈ item.points ∧ 0 ≤ item.ends.1 ∧ item.ends.2 ≤ 0xFFFFFF := by
  have htrim : (itemToken item).trim = itemToken item :=
    Text.trim_of_forall_not_blank fun c hc => (isPlain_of_mem_itemToken hc).1
  rw [Names, htrim, tokenBounds?_itemToken hle, Item.mem_points]
  by_cases hfits : 0 ≤ item.ends.1 ∧ item.ends.2 ≤ 0xFFFFFF
  · rw [if_pos hfits]
    constructor
    · rintro ⟨first, last, hbounds, hx⟩
      obtain ⟨rfl, rfl⟩ := Prod.mk.inj (Option.some.inj hbounds)
      omega
    · rintro ⟨hx, -⟩
      exact ⟨_, _, rfl, by omega⟩
  · rw [if_neg hfits]
    constructor
    · rintro ⟨first, last, hbounds, -⟩
      cases hbounds
    · rintro ⟨-, h⟩
      exact absurd h hfits

/-- What is read of items that were written are those that fit. -/
theorem contains_parse_items {items : RangeList} (hle : ∀ item ∈ items, item.ends.1 ≤ item.ends.2)
    {x : Int} :
    (parse ([(',' : CodePoint)].intercalate (items.map itemToken))).contains x = true ↔
      ∃ item ∈ items, x ∈ item.points ∧ 0 ≤ item.ends.1 ∧ item.ends.2 ≤ 0xFFFFFF := by
  have hcommas : ∀ p ∈ items.map itemToken, (',' : CodePoint) ∉ p := by
    intro p hp hcomma
    obtain ⟨item, -, rfl⟩ := List.mem_map.1 hp
    exact (isPlain_of_mem_itemToken hcomma).2 rfl
  rw [contains_parse_intercalate hcommas]
  constructor
  · rintro ⟨p, hp, hnames⟩
    obtain ⟨item, hitem, rfl⟩ := List.mem_map.1 hp
    exact ⟨item, hitem, (names_itemToken (hle item hitem)).1 hnames⟩
  · rintro ⟨item, hitem, hx⟩
    exact ⟨itemToken item, List.mem_map_of_mem hitem, (names_itemToken (hle item hitem)).2 hx⟩

/-- What is read of integers that were written, in any order, are the items that fit. -/
theorem contains_parse_hexRangeString {points : List Int} {x : Int} :
    (parse (hexRangeString points)).contains x = true ↔
      ∃ item ∈ RangeList.compress points,
        x ∈ item.points ∧ 0 ≤ item.ends.1 ∧ item.ends.2 ≤ 0xFFFFFF :=
  contains_parse_items fun _ hitem => RangeList.ends_le_of_mem_compress hitem

/-- Integers one by one are written as the items that they are by themselves. -/
theorem hexString_eq_intercalate (points : List Int) :
    hexString points
      = [(',' : CodePoint)].intercalate ((points.map Item.single).map itemToken) := by
  rw [hexString, List.map_map]
  rfl

/-- Written one by one, integers fit or do not fit each for itself. -/
theorem contains_parse_hexString {points : List Int} {x : Int} :
    (parse (hexString points)).contains x = true ↔ x ∈ points ∧ 0 ≤ x ∧ x ≤ 0xFFFFFF := by
  have hle : ∀ item ∈ points.map Item.single, item.ends.1 ≤ item.ends.2 := by
    intro item hitem
    obtain ⟨c, -, rfl⟩ := List.mem_map.1 hitem
    exact Int.le_refl c
  rw [hexString_eq_intercalate, contains_parse_items hle]
  constructor
  · rintro ⟨item, hitem, hx, hfits⟩
    obtain ⟨c, hc, rfl⟩ := List.mem_map.1 hitem
    obtain rfl := List.mem_singleton.1 hx
    exact ⟨hc, hfits⟩
  · rintro ⟨hx, hfits⟩
    exact ⟨.single x, List.mem_map_of_mem hx, List.mem_singleton_self x, hfits⟩

/-- What is written begins with the mark of a token, unless there is nothing to write. -/
theorem head?_intercalate_itemToken {items : RangeList} {c : CodePoint}
    (h : c ∈ ([(',' : CodePoint)].intercalate (items.map itemToken)).head?) :
    c = ('U' : CodePoint) := by
  have hmark : ∀ item, ∃ rest, itemToken item = ('U' : CodePoint) :: rest
    | .single _ => ⟨_, rfl⟩
    | .pair _ _ => ⟨_, rfl⟩
  cases items with
  | nil => cases h
  | cons item others =>
      obtain ⟨rest, hrest⟩ := hmark item
      cases others with
      | nil =>
          rw [List.map_cons, List.map_nil, List.intercalate_singleton, hrest] at h
          exact (Option.some.inj h).symm
      | cons next others =>
          rw [List.map_cons, List.map_cons, List.intercalate_cons_cons, hrest] at h
          exact (Option.some.inj h).symm

/-! ## Sets within reach -/

section Fits

variable {s : CodeSet} (hfits : ∀ x, s.contains x = true → 0 ≤ x ∧ x ≤ 0xFFFFFF)

include hfits

theorem contains_parse_hexString_of_fits (x : Int) :
    (parse s.hexString).contains x = s.contains x := by
  rw [Bool.eq_iff_iff, CodeSet.hexString, contains_parse_hexString, CodeSet.mem_toList]
  exact and_iff_left_of_imp (hfits x)

theorem contains_parse_hexRangeString_of_fits (x : Int) :
    (parse s.hexRangeString).contains x = s.contains x := by
  rw [Bool.eq_iff_iff, CodeSet.hexRangeString, contains_parse_hexRangeString,
    ← CodeSet.mem_toList s, ← RangeList.mem_compress]
  refine exists_congr fun item => and_congr_right fun hitem => ?_
  rw [Item.mem_points]
  have hends := RangeList.ends_mem_of_mem_compress hitem
  have hfirst := hfits _ ((CodeSet.mem_toList s _).1 hends.1)
  have hlast := hfits _ ((CodeSet.mem_toList s _).1 hends.2)
  omega

end Fits

/-- Every member has one item in the range list of its set. -/
theorem contains_iff_existsUnique_item (s : CodeSet) (x : Int) :
    s.contains x = true ↔ ∃! item, item ∈ s.ranges ∧ x ∈ item.points := by
  rw [← CodeSet.mem_toList, ← RangeList.mem_compress]
  simp only [← Item.mem_points]
  constructor
  · rintro ⟨item, hitem, hx⟩
    exact ⟨item, ⟨hitem, hx⟩, fun other hother =>
      RangeList.eq_of_mem_compress s.members.toList_ascending hother.1 hitem hother.2 hx⟩
  · rintro ⟨item, hitem, -⟩
    exact ⟨item, hitem⟩

/-- **Reading gives back every item that fits.** Each member of a set belongs to one item of its
range list, a single integer or a whole range. When the set is written in the unicode-range notation
and read again, a member is there exactly if its item lies within `0` to `0xFFFFFF`, and nothing is
there that was no member. So a set within these bounds, such as every set of code points, is read
back as an equal one. -/
theorem parse_hexRangeString (s : CodeSet) :
    (∀ x, s.contains x = true ↔ ∃! item, item ∈ s.ranges ∧ x ∈ item.points)
      ∧ (∀ x, (parse s.hexRangeString).contains x = true ↔
          ∃ item ∈ s.ranges, x ∈ item.points ∧ 0 ≤ item.ends.1 ∧ item.ends.2 ≤ 0xFFFFFF)
      ∧ ((∀ x, s.contains x = true → 0 ≤ x ∧ x ≤ 0xFFFFFF) →
          (parse s.hexRangeString).equals s = true) := by
  refine ⟨contains_iff_existsUnique_item s, fun _ => contains_parse_hexRangeString, fun hfits => ?_⟩
  exact CodeSet.equals_of_contains (contains_parse_hexRangeString_of_fits hfits)

/-- The least and the greatest integer that a token has room for, a range and two neighbours. -/
theorem parse_hexRangeString_extremes :
    (∀ x, (CodeSet.ofList [0, 0x41, 0x42, 0x43, 0x10FFFE, 0x10FFFF, 0xFFFFFF]).contains x = true →
        0 ≤ x ∧ x ≤ 0xFFFFFF)
      ∧ (parse (CodeSet.ofList
            [0, 0x41, 0x42, 0x43, 0x10FFFE, 0x10FFFF, 0xFFFFFF]).hexRangeString).equals
          (CodeSet.ofList [0, 0x41, 0x42, 0x43, 0x10FFFE, 0x10FFFF, 0xFFFFFF]) = true := by
  have hfits : ∀ x,
      (CodeSet.ofList [0, 0x41, 0x42, 0x43, 0x10FFFE, 0x10FFFF, 0xFFFFFF]).contains x = true →
        0 ≤ x ∧ x ≤ 0xFFFFFF := by
    intro x hx
    rw [CodeSet.contains_ofList] at hx
    simp only [List.mem_cons, List.not_mem_nil, or_false] at hx
    omega
  exact ⟨hfits, (parse_hexRangeString _).2.2 hfits⟩

/-- A range with one end out of reach is lost as a whole. -/
example : parse (hexRangeString [-1, 0, 1, 0x41, 0xFFFFFE, 0xFFFFFF, 0x1000000])
    = CodeSet.ofList [0x41] := by
  decide +kernel

/-! ## Members one by one -/

/-- Does an integer have a token that is read? -/
def fits (x : Int) : Bool := 0 ≤ x && x ≤ 0xFFFFFF

theorem fits_iff {x : Int} : fits x = true ↔ 0 ≤ x ∧ x ≤ 0xFFFFFF := by
  rw [fits, Bool.and_eq_true, decide_eq_true_eq, decide_eq_true_eq]

theorem trim_token (x : Int) : (token x).trim = token x :=
  Text.trim_of_forall_not_blank fun _ hc => (isPlain_of_mem_token hc).1

theorem pieces_hexString {points : List Int} (h : points ≠ []) :
    pieces (hexString points).trim = points.map token := by
  have hcommas : ∀ p ∈ points.map token, (',' : CodePoint) ∉ p := by
    intro p hp hcomma
    obtain ⟨x, -, rfl⟩ := List.mem_map.1 hp
    exact (isPlain_of_mem_token hcomma).2 rfl
  rw [pieces_trim, hexString, List.splitOn_intercalate _ hcommas (by simpa using h), List.map_map]
  exact List.map_congr_left fun x _ => trim_token x

theorem parse_hexString_eq_ofList (points : List Int) :
    parse (hexString points) = CodeSet.ofList (points.filter fits) :=
  parse_eq_ofExtent fun x => by
    rw [contains_parse_hexString, Extent.contains_ofList, List.mem_filter, fits_iff]

/-- **Members written one by one are read one by one.** The pieces of the text are the tokens of the
members, and each is read as its member if that lies within `0` to `0xFFFFFF`, and is no token
otherwise. So what is read is the set cut off at these bounds, with nothing withdrawn; the members
beyond them may as well not have been written. -/
theorem parse_hexString (s : CodeSet) :
    (∀ x, (parse s.hexString).contains x = true ↔ s.contains x = true ∧ 0 ≤ x ∧ x ≤ 0xFFFFFF)
      ∧ parse s.hexString = s.inter (CodeSet.ofItems [.pair 0 0xFFFFFF])
      ∧ (∀ x, tokenBounds? (token x)
          = if 0 ≤ x ∧ x ≤ 0xFFFFFF then some (x.toNat, x.toNat) else none)
      ∧ (∀ x, s.contains x = true → pieces s.hexString.trim = s.toList.map token)
      ∧ parse s.hexString = parse (hexString (s.toList.filter fits)) := by
  have hmembers : ∀ x, (parse s.hexString).contains x = true ↔
      s.contains x = true ∧ 0 ≤ x ∧ x ≤ 0xFFFFFF := by
    intro x
    rw [CodeSet.hexString, contains_parse_hexString, CodeSet.mem_toList]
  refine ⟨hmembers, parse_eq_ofExtent fun x => ?_, fun x => ?_, fun x hx => ?_, ?_⟩
  · rw [hmembers, Extent.contains_inter, Bool.and_eq_true]
    show _ ↔ s.contains x = true ∧ (CodeSet.ofItems [.pair 0 0xFFFFFF]).contains x = true
    rw [CodeSet.ofItems_eq_ofList, CodeSet.contains_ofList, RangeList.mem_expand]
    simp [Item.ends]
  · have hle : (Item.single x).ends.1 ≤ (Item.single x).ends.2 := Int.le_refl x
    exact tokenBounds?_itemToken hle
  · exact pieces_hexString (List.ne_nil_of_mem ((CodeSet.mem_toList s x).2 hx))
  · rw [CodeSet.hexString, parse_hexString_eq_ofList, parse_hexString_eq_ofList,
      List.filter_filter]
    simp only [Bool.and_self]

end Repertoire.UnicodeRange
