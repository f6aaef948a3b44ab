import Repertoire.Proofs.Pattern.Language
import Repertoire.Proofs.Text.Units

/-!
# Scanning and decoding in step

A pattern is matched against units, and units are decoded to code points. The two walks see the same
units and know nothing of each other. They keep in step for a set without surrogates: where the scan
takes a match, the decoder yields the member whose units these are, and where the scan moves on
without one, the decoder yields no member. A decoded pair that is no member costs the scan two
moves, and the unit in the middle, being a low surrogate, begins no match.

To say that matches and code points stand in the same places, both walks are given with the place
of the first unit.
-/

namespace Repertoire

/-! ## Walks with their places -/

/-- The code points that units spell, each with the place of its first unit. -/
def decodeUnitsFrom (place : Nat) : List Int → List (Nat × Int)
  | [] => []
  | [u] => [(place, u)]
  | u :: v :: rest =>
    if Surrogate.isHigh u && Surrogate.isLow v then
      (place, Surrogate.combine u v) :: decodeUnitsFrom (place + 2) rest
    else
      (place, u) :: decodeUnitsFrom (place + 1) (v :: rest)

theorem map_snd_decodeUnitsFrom (place : Nat) (us : List Int) :
    (decodeUnitsFrom place us).map Prod.snd = decodeUnits us := by
  fun_induction decodeUnitsFrom place us with
  | case1 => rfl
  | case2 => rfl
  | case3 place u v rest hpair ih => rw [decodeUnits, if_pos hpair, List.map_cons, ih]
  | case4 place u v rest hpair ih => rw [decodeUnits, if_neg hpair, List.map_cons, ih]

namespace Pattern

/-- The matches in a row of units, each with the place of its first unit. -/
def Fragment.scanFrom (fragment : Fragment) (place : Nat) : List Int → List (Nat × List Int)
  | [] => []
  | u :: us =>
    match fragment.find? fun alternative => Alternative.startsOn alternative (u :: us) with
    | some alternative =>
      (place, (u :: us).take alternative.length) ::
        scanFrom fragment (place + (alternative.length - 1) + 1)
          (us.drop (alternative.length - 1))
    | none => scanFrom fragment (place + 1) us
termination_by us => us.length
decreasing_by
  · simp only [List.length_drop, List.length_cons]; omega
  · simp

theorem map_snd_scanFrom (fragment : Fragment) (place : Nat) (us : List Int) :
    (fragment.scanFrom place us).map Prod.snd = fragment.scan us := by
  fun_induction Fragment.scanFrom fragment place us with
  | case1 => rw [Fragment.scan]; rfl
  | case2 place u us alternative hfind ih =>
      rw [Fragment.scan, hfind, List.map_cons, ih]
  | case3 place u us hfind ih => rw [Fragment.scan, hfind, ih]

/-! ## One step of the scan -/

theorem length_of_accepts : ∀ {alternative : Alternative} {us : List Int},
    alternative.accepts us = true → us.length = alternative.length
  | [], [], _ => rfl
  | [], _ :: _, h => by simp [Alternative.accepts] at h
  | _ :: _, [], h => by simp [Alternative.accepts] at h
  | atom :: alternative, u :: us, h => by
      rw [Alternative.accepts, Bool.and_eq_true] at h
      rw [List.length_cons, List.length_cons, length_of_accepts h.2]

/-- Does the fragment accept the units of the integers of a list, and no other units? -/
def Fragment.IsFor (fragment : Fragment) (points : List Int) : Prop :=
  ∀ us, fragment.accepts us = true ↔ ∃ c ∈ points, us = utf16 c

variable {fragment : Fragment} {points : List Int}

theorem Fragment.IsFor.of_find?_some (hfor : fragment.IsFor points) {us : List Int}
    {alternative : Alternative}
    (hfind : fragment.find? (fun a => Alternative.startsOn a us) = some alternative) :
    ∃ c ∈ points, us = utf16 c ++ us.drop alternative.length
      ∧ (utf16 c).length = alternative.length := by
  have hstarts := List.find?_some hfind
  have hmem := List.mem_of_find?_eq_some hfind
  obtain ⟨c, hc, heq⟩ := (hfor _).1 (List.any_eq_true.2 ⟨alternative, hmem, hstarts⟩)
  refine ⟨c, hc, ?_, ?_⟩
  · rw [← heq, List.take_append_drop]
  · rw [← heq]
    exact length_of_accepts hstarts

theorem Fragment.IsFor.of_find?_none (hfor : fragment.IsFor points) {us : List Int}
    (hfind : fragment.find? (fun a => Alternative.startsOn a us) = none) {c : Int}
    (hc : c ∈ points) (rest : List Int) : us ≠ utf16 c ++ rest := by
  rintro rfl
  obtain ⟨alternative, hmem, haccepts⟩ := List.any_eq_true.1 ((hfor _).2 ⟨c, hc, rfl⟩)
  have hnone := List.find?_eq_none.1 hfind alternative hmem
  rw [Alternative.startsOn, ← length_of_accepts haccepts, List.take_left] at hnone
  exact hnone haccepts

theorem length_utf16_pos (c : Int) : 0 < (utf16 c).length := by
  unfold utf16
  split <;> simp

def IsScalar (c : Int) : Prop :=
  (0 ≤ c ∧ c ≤ 0x10FFFF) ∧ ¬ (0xD800 ≤ c ∧ c ≤ 0xDFFF)

/-- Units begin with the units of one scalar at most. -/
theorem utf16_append_inj {c d : Int} (hc : IsScalar c) (hd : IsScalar d) {us vs : List Int}
    (h : utf16 c ++ us = utf16 d ++ vs) : c = d := by
  obtain ⟨hcb, hcs⟩ := hc
  obtain ⟨hdb, hds⟩ := hd
  by_cases hc' : c ≤ 0xFFFF <;> by_cases hd' : d ≤ 0xFFFF
  · rw [utf16_of_le hc', utf16_of_le hd'] at h
    exact (List.cons.inj h).1
  · have hhigh := Surrogate.high_bounds (c := d) (by omega) hdb.2
    rw [utf16_of_le hc', utf16_of_lt (by omega)] at h
    have := (List.cons.inj h).1
    omega
  · have hhigh := Surrogate.high_bounds (c := c) (by omega) hcb.2
    rw [utf16_of_lt (by omega), utf16_of_le hd'] at h
    have := (List.cons.inj h).1
    omega
  · rw [utf16_of_lt (by omega), utf16_of_lt (by omega)] at h
    obtain ⟨hhigh, htail⟩ := List.cons.inj h
    rw [← Surrogate.combine_high_low (c := c) (by omega) hcb.2,
      ← Surrogate.combine_high_low (c := d) (by omega) hdb.2, hhigh, (List.cons.inj htail).1]

theorem scanFrom_of_mem (hfor : fragment.IsFor points) (hscalar : ∀ c ∈ points, IsScalar c)
    {c : Int} (hc : c ∈ points) (place : Nat) (rest : List Int) :
    fragment.scanFrom place (utf16 c ++ rest)
      = (place, utf16 c) :: fragment.scanFrom (place + (utf16 c).length) rest := by
  obtain ⟨u, us, hus⟩ : ∃ u us, utf16 c ++ rest = u :: us := by
    refine List.exists_cons_of_length_pos ?_
    have hpos := length_utf16_pos c
    rw [List.length_append]
    omega
  rw [hus, Fragment.scanFrom]
  cases hfind : fragment.find? fun alternative => Alternative.startsOn alternative (u :: us) with
  | none => exact absurd hus.symm (hfor.of_find?_none hfind hc rest)
  | some alternative =>
      obtain ⟨d, hd, hsplit, hlen⟩ := hfor.of_find?_some hfind
      obtain rfl := utf16_append_inj (hscalar c hc) (hscalar d hd) (hus.trans hsplit)
      obtain ⟨n, hn⟩ : ∃ n, alternative.length = n + 1 :=
        Nat.exists_eq_add_one.2 (by rw [← hlen]; exact length_utf16_pos c)
      have htake : (u :: us).take alternative.length = utf16 c := by
        rw [← hus, ← hlen, List.take_left]
      have hdrop : us.drop n = rest := by
        rw [← List.drop_succ_cons (a := u), ← hn, ← hus, ← hlen, List.drop_left]
      simp only
      rw [htake, hlen, hn, Nat.add_sub_cancel, hdrop, Nat.add_assoc]

theorem scanFrom_of_not_mem (hfor : fragment.IsFor points) {u : Int} {us : List Int}
    (hnone : ∀ c ∈ points, ∀ rest, u :: us ≠ utf16 c ++ rest) (place : Nat) :
    fragment.scanFrom place (u :: us) = fragment.scanFrom (place + 1) us := by
  rw [Fragment.scanFrom]
  cases hfind : fragment.find? fun alternative => Alternative.startsOn alternative (u :: us) with
  | none => rfl
  | some alternative =>
      obtain ⟨c, hc, hsplit, -⟩ := hfor.of_find?_some hfind
      exact absurd hsplit (hnone c hc _)

/-! ## The two walks -/

/-- No member begins at a unit that is none itself and is not the first of a pair that is one. -/
theorem ne_utf16_append (hscalar : ∀ c ∈ points, IsScalar c) {u : Int} (us : List Int)
    (hsingle : u ∉ points)
    (hpair : ∀ v rest, us = v :: rest → Surrogate.isHigh u = true → Surrogate.isLow v = true →
      Surrogate.combine u v ∉ points) :
    ∀ c ∈ points, ∀ rest, u :: us ≠ utf16 c ++ rest := by
  intro c hc rest heq
  have hbounds := (hscalar c hc).1
  by_cases hle : c ≤ 0xFFFF
  · rw [utf16_of_le hle] at heq
    rw [(List.cons.inj heq).1] at hsingle
    exact hsingle hc
  · rw [utf16_of_lt (by omega)] at heq
    obtain ⟨rfl, htail⟩ := List.cons.inj heq
    refine hpair (Surrogate.low c) rest htail (Surrogate.isHigh_high (by omega) hbounds.2)
      (Surrogate.isLow_low c) ?_
    rw [Surrogate.combine_high_low (by omega) hbounds.2]
    exact hc

/-- The units of those code points that are in the list, in the same places. -/
def unitsOfMembers (points : List Int) (placed : List (Nat × Int)) : List (Nat × List Int) :=
  (placed.filter (·.2 ∈ points)).map fun m => (m.1, utf16 m.2)

theorem unitsOfMembers_cons_of_mem {place : Nat} {c : Int} (hc : c ∈ points)
    (placed : List (Nat × Int)) :
    unitsOfMembers points ((place, c) :: placed)
      = (place, utf16 c) :: unitsOfMembers points placed := by
  rw [unitsOfMembers, List.filter_cons_of_pos (by simpa using hc), List.map_cons]
  rfl

theorem unitsOfMembers_cons_of_not_mem {place : Nat} {c : Int} (hc : c ∉ points)
    (placed : List (Nat × Int)) :
    unitsOfMembers points ((place, c) :: placed) = unitsOfMembers points placed := by
  rw [unitsOfMembers, List.filter_cons_of_neg (by simpa using hc)]
  rfl

/-- Over a unit that the decoder yields by itself, the walks stay in step. -/
theorem scanFrom_unit (hfor : fragment.IsFor points) (hscalar : ∀ c ∈ points, IsScalar c)
    {place : Nat} {u : Int} {rest : List Int} {placed : List (Nat × Int)} (hu : u ≤ 0xFFFF)
    (hsingle : ∀ v vs, rest = v :: vs →
      ¬ (Surrogate.isHigh u = true ∧ Surrogate.isLow v = true))
    (hrest : fragment.scanFrom (place + 1) rest = unitsOfMembers points placed) :
    fragment.scanFrom place (u :: rest) = unitsOfMembers points ((place, u) :: placed) := by
  by_cases hmem : u ∈ points
  · have hstep := scanFrom_of_mem hfor hscalar hmem place rest
    rw [utf16_of_le hu] at hstep
    rw [unitsOfMembers_cons_of_mem hmem, utf16_of_le hu, ← hrest]
    exact hstep
  · have hnone := ne_utf16_append hscalar rest hmem
      fun v vs heq hhigh hlow => absurd ⟨hhigh, hlow⟩ (hsingle v vs heq)
    rw [unitsOfMembers_cons_of_not_mem hmem, ← hrest]
    exact scanFrom_of_not_mem hfor hnone place

/-- Over a pair that the decoder merges, the walks stay in step. -/
theorem scanFrom_pair (hfor : fragment.IsFor points) (hscalar : ∀ c ∈ points, IsScalar c)
    {place : Nat} {u v : Int} {rest : List Int} {placed : List (Nat × Int)}
    (hu : 0xD800 ≤ u ∧ u ≤ 0xDBFF) (hv : 0xDC00 ≤ v ∧ v ≤ 0xDFFF)
    (hrest : fragment.scanFrom (place + 2) rest = unitsOfMembers points placed) :
    fragment.scanFrom place (u :: v :: rest)
      = unitsOfMembers points ((place, Surrogate.combine u v) :: placed) := by
  by_cases hmem : Surrogate.combine u v ∈ points
  · have hstep := scanFrom_of_mem hfor hscalar hmem place rest
    rw [utf16_combine hu hv] at hstep
    rw [unitsOfMembers_cons_of_mem hmem, utf16_combine hu hv, ← hrest]
    exact hstep
  · have hfirst := ne_utf16_append hscalar (u := u) (v :: rest)
      (fun hin => (hscalar u hin).2 (by omega)) fun w ws heq _ _ => by
        rw [← (List.cons.inj heq).1]
        exact hmem
    have hsecond := ne_utf16_append hscalar (u := v) rest
      (fun hin => (hscalar v hin).2 (by omega)) fun w ws _ hin _ => by
        have := (Surrogate.isHigh_iff_of_unit (u := v) (by omega) (by omega)).1 hin
        omega
    rw [unitsOfMembers_cons_of_not_mem hmem, ← hrest, scanFrom_of_not_mem hfor hfirst,
      scanFrom_of_not_mem hfor hsecond]

/-- The scan takes the members that the decoder yields, in their places. The induction follows the
decoder. -/
theorem scanFrom_eq (hfor : fragment.IsFor points) (hscalar : ∀ c ∈ points, IsScalar c)
    (place : Nat) (us : List Int) (hunits : ∀ u ∈ us, 0 ≤ u ∧ u ≤ 0xFFFF) :
    fragment.scanFrom place us = unitsOfMembers points (decodeUnitsFrom place us) := by
  fun_induction decodeUnitsFrom place us with
  | case1 =>
      rw [Fragment.scanFrom]
      rfl
  | case2 place u =>
      refine scanFrom_unit hfor hscalar (hunits u List.mem_cons_self).2 (by simp) ?_
      rw [Fragment.scanFrom]
      rfl
  | case3 place u v rest hpair ih =>
      have hu := hunits u List.mem_cons_self
      have hv := hunits v (by simp)
      rw [isHigh_and_isLow_iff hu hv] at hpair
      exact scanFrom_pair hfor hscalar hpair.1 hpair.2 (ih fun x hx => hunits x (by simp [hx]))
  | case4 place u v rest hpair ih =>
      rw [Bool.and_eq_true] at hpair
      refine scanFrom_unit hfor hscalar (hunits u List.mem_cons_self).2 ?_
        (ih fun x hx => hunits x (List.mem_cons_of_mem _ hx))
      intro w ws heq
      rw [← (List.cons.inj heq).1]
      exact hpair

theorem map_snd_unitsOfMembers (placed : List (Nat × Int)) :
    (unitsOfMembers points placed).map Prod.snd
      = ((placed.map Prod.snd).filter (· ∈ points)).map utf16 := by
  rw [unitsOfMembers, List.filter_map, List.map_map, List.map_map]
  rfl

/-- **Scanning finds the members of the decoded text.** For a set without surrogates and any text,
ill-formed ones included, the matches of the pattern from left to right are the units of the decoded
code points that are members, in their order. They also stand in the same places, so that no match
begins inside of a decoded pair or takes half of one. -/
theorem scan_ofPoints (points : List Int) (hne : points ≠ [])
    (hscalar : ∀ c ∈ points, IsScalar c) (t : Text) :
    ∃ fragment, Fragment.read? (ofPoints points) = some fragment
      ∧ fragment.scan t.units = (t.decode.filter (· ∈ points)).map utf16
      ∧ fragment.scanFrom 0 t.units = unitsOfMembers points (decodeUnitsFrom 0 t.units) := by
  have hfor : (fragmentOf points).IsFor points := fun us => accepts_fragmentOf_iff
  have hplaces := scanFrom_eq hfor hscalar 0 t.units (units_bounds t)
  refine ⟨fragmentOf points, read?_ofPoints hne fun c hc => (hscalar c hc).1, ?_, hplaces⟩
  rw [← map_snd_scanFrom, hplaces, map_snd_unitsOfMembers, map_snd_decodeUnitsFrom]
  rfl

/-- A high surrogate before a pair that is no member, a member of one unit and a member of two. -/
theorem scan_ofPoints_unpaired :
    ([0x61, 0x1F600] : List Int) ≠ [] ∧ (∀ c ∈ ([0x61, 0x1F600] : List Int), IsScalar c)
      ∧ ∃ fragment, Fragment.read? (ofPoints [0x61, 0x1F600]) = some fragment
        ∧ fragment.scan (Text.units [0xD83D, 0x1F601, 0x61, 0x1F600])
          = ((Text.decode [0xD83D, 0x1F601, 0x61, 0x1F600]).filter
              (· ∈ ([0x61, 0x1F600] : List Int))).map utf16
        ∧ fragment.scanFrom 0 (Text.units [0xD83D, 0x1F601, 0x61, 0x1F600])
          = unitsOfMembers [0x61, 0x1F600]
              (decodeUnitsFrom 0 (Text.units [0xD83D, 0x1F601, 0x61, 0x1F600])) := by
  have hscalar : ∀ c ∈ ([0x61, 0x1F600] : List Int), IsScalar c := by
    unfold IsScalar
    decide
  exact ⟨by decide, hscalar, scan_ofPoints _ (by decide) hscalar _⟩

end Pattern

end Repertoire
