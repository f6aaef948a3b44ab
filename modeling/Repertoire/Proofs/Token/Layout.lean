import Repertoire.Proofs.Token.Nesting

/-!
# What the texts of a set are made of

A token is a letter or a digit or an escape with four digits. The texts of a set consist of such
tokens and of four signs, the brackets, the hyphen and the bar (`IsLaidOut`). None of the signs can
come from a member: if they are left out, what remains is the tokens of the integers that were to be
written, one after the other, and in these there is no sign (`isPlain_of_mem_encode`). So nothing in
a text has a meaning of its own in a regular expression, but for the signs and the backslash of an
escape.

All this holds of integers down to `-0xF000`, the least whose escape has four digits. It is said of the
texts as such; under a limit on nested calls they come out like this or not at all.
-/

namespace Repertoire

namespace Token

/-! ## Tokens -/

/-- The letters and digits of ASCII. -/
def alphanumerics : Text :=
  Text.ofString "0123456789ABCDEFGHIJKLMNOPQRSTUVWXYZabcdefghijklmnopqrstuvwxyz"

/-- A letter or digit, or an escape with four upper-case hexadecimal digits. -/
inductive IsToken : Text → Prop where
  | plain {c : CodePoint} (h : c ∈ alphanumerics) : IsToken [c]
  | escape {digits : Text} (hlength : digits.length = 4) (hdigits : ∀ d ∈ digits, d ∈ Hex.upper) :
      IsToken (('\\' : CodePoint) :: ('u' : CodePoint) :: digits)

theorem upper_subset_alphanumerics : Hex.upper ⊆ alphanumerics := by
  decide

theorem IsToken.mem {t : Text} (h : IsToken t) {c : CodePoint} (hc : c ∈ t) :
    c ∈ alphanumerics ∨ c = ('\\' : CodePoint) := by
  cases h with
  | plain hplain => exact Or.inl (List.mem_singleton.1 hc ▸ hplain)
  | escape _ hdigits =>
      rcases List.mem_cons.1 hc with rfl | hc
      · exact Or.inr rfl
      · rcases List.mem_cons.1 hc with rfl | hc
        · exact Or.inl (by decide)
        · exact Or.inl (upper_subset_alphanumerics (hdigits c hc))

theorem mem_alphanumerics_of_isSafe {c : Int} (h : isSafe c = true) :
    Fin.ofNat 0x110000 c.toNat ∈ alphanumerics := by
  have hall : ∀ k : Fin 75, isSafe (0x30 + k.val : Nat) = true →
      Fin.ofNat 0x110000 (0x30 + k.val) ∈ alphanumerics := by
    decide +kernel
  have hbounds : 0x30 ≤ c ∧ c ≤ 0x7A := by
    simp only [isSafe, Bool.or_eq_true, Bool.and_eq_true, decide_eq_true_eq] at h
    omega
  obtain ⟨k, rfl⟩ : ∃ k : Nat, c = (0x30 + k : Nat) := ⟨(c - 0x30).toNat, by omega⟩
  exact hall ⟨k, by omega⟩ h

theorem isToken_encode {u : Int} (h₀ : -0xF000 ≤ u) (h₁ : u ≤ 0xFFFF) : IsToken (encode u) := by
  cases hsafe : isSafe u with
  | true =>
      rw [encode_of_safe hsafe]
      exact .plain (mem_alphanumerics_of_isSafe hsafe)
  | false =>
      have hupper : ∀ d : Fin 16, Hex.digit d ∈ Hex.upper := by decide
      rw [encode_of_le hsafe h₁, escape_eq h₀]
      refine .escape rfl fun c hc => ?_
      obtain ⟨d, -, rfl⟩ := List.mem_map.1 hc
      exact hupper d

/-- The token of any integer is a row of tokens, one for each unit that it is split into. -/
theorem exists_tokens {c : Int} (h : -0xF000 ≤ c) :
    ∃ tokens ≠ [], (∀ t ∈ tokens, IsToken t) ∧ encode c = tokens.flatten := by
  refine ⟨(leaves c).map encode, ?_, ?_, ?_⟩
  · rw [Ne, List.map_eq_nil_iff]
    exact leaves_ne_nil c
  · intro t ht
    obtain ⟨u, hu, rfl⟩ := List.mem_map.1 ht
    have hbounds := leaves_bounds (by decide) h u hu
    exact isToken_encode hbounds.1 hbounds.2
  · rw [encode_eq_flatMap_leaves, List.flatMap_def]

/-! ## Meaning in a regular expression -/

/-- The brackets of a class, the hyphen of a range and the bar between alternatives. -/
def signs : Text := Text.ofString "[]-|"

/-- The characters that mean something else than themselves in a regular expression or in a class,
or that end one. -/
def metacharacters : Text := Text.ofString "^$\\.*+?()[]\x7b\x7d|/-"

/-- Is this an ASCII character that means itself, or a backslash? -/
def IsPlain (c : CodePoint) : Prop :=
  c.val < 0x80 ∧ (c ∈ metacharacters → c = ('\\' : CodePoint))

theorem isPlain_of_mem_encode {n : Int} (h : -0xF000 ≤ n) {c : CodePoint} (hc : c ∈ encode n) :
    IsPlain c := by
  have hplain : ∀ c ∈ alphanumerics, c.val < 0x80 ∧ c ∉ metacharacters :=
    List.forall_iff_forall_mem.1 (by decide)
  obtain ⟨tokens, -, htokens, hencode⟩ := exists_tokens h
  rw [hencode] at hc
  obtain ⟨t, ht, hc⟩ := List.mem_flatten.1 hc
  rcases (htokens t ht).mem hc with hmem | rfl
  · exact ⟨(hplain c hmem).1, fun hmeta => absurd hmeta (hplain c hmem).2⟩
  · exact ⟨by decide, fun _ => rfl⟩

theorem not_mem_signs_of_isPlain {c : CodePoint} (h : IsPlain c) : c ∉ signs := by
  have hsigns : signs ⊆ metacharacters := by decide
  intro hc
  obtain rfl := h.2 (hsigns hc)
  revert hc
  decide

end Token

/-! ## Texts -/

open Token in
/-- The text is made of tokens and signs, and what it holds besides the signs are the tokens of these
integers. -/
structure IsLaidOut (points : List Int) (t : Text) : Prop where
  parts : ∃ parts : List Text,
    (∀ part ∈ parts, IsToken part ∨ ∃ sign ∈ signs, part = [sign]) ∧ t = parts.flatten
  remainder : t.filter (· ∉ signs) = points.flatMap encode

namespace IsLaidOut

open Token

theorem nil : IsLaidOut [] [] :=
  ⟨⟨[], nofun, rfl⟩, rfl⟩

theorem sign {c : CodePoint} (h : c ∈ signs) : IsLaidOut [] [c] where
  parts := ⟨[[c]], fun part hpart => Or.inr ⟨c, h, List.mem_singleton.1 hpart⟩, rfl⟩
  remainder := by simpa using h

theorem encode {n : Int} (h : -0xF000 ≤ n) : IsLaidOut [n] (Token.encode n) where
  parts := by
    obtain ⟨tokens, -, htokens, hencode⟩ := exists_tokens h
    exact ⟨tokens, fun t ht => Or.inl (htokens t ht), hencode⟩
  remainder := by
    rw [List.flatMap_singleton]
    refine List.filter_eq_self.2 fun c hc => decide_eq_true ?_
    exact not_mem_signs_of_isPlain (isPlain_of_mem_encode h hc)

theorem append {ps qs : List Int} {t u : Text} (ht : IsLaidOut ps t) (hu : IsLaidOut qs u) :
    IsLaidOut (ps ++ qs) (t ++ u) where
  parts := by
    obtain ⟨parts, hparts, rfl⟩ := ht.parts
    obtain ⟨parts', hparts', rfl⟩ := hu.parts
    exact ⟨parts ++ parts', List.forall_mem_append.2 ⟨hparts, hparts'⟩, List.flatten_append.symm⟩
  remainder := by
    rw [List.filter_append, ht.remainder, hu.remainder, List.flatMap_append]

theorem flatMap {α : Type} {xs : List α} {f : α → List Int} {g : α → Text}
    (h : ∀ x ∈ xs, IsLaidOut (f x) (g x)) : IsLaidOut (xs.flatMap f) (xs.flatMap g) := by
  induction xs with
  | nil => exact nil
  | cons x xs ih =>
      obtain ⟨hx, hxs⟩ := List.forall_mem_cons.1 h
      exact hx.append (ih hxs)

/-- Bars between texts add no integers. -/
theorem intercalate {α : Type} {f : α → List Int} {g : α → Text} :
    ∀ {xs : List α}, (∀ x ∈ xs, IsLaidOut (f x) (g x)) →
      IsLaidOut (xs.flatMap f) ([('|' : CodePoint)].intercalate (xs.map g))
  | [], _ => nil
  | [x], h => by
      rw [List.flatMap_singleton, List.map_singleton, List.intercalate_singleton]
      exact h x List.mem_cons_self
  | x :: y :: rest, h => by
      obtain ⟨hx, hrest⟩ := List.forall_mem_cons.1 h
      have hbar := (sign (c := ('|' : CodePoint)) (by decide)).append (intercalate hrest)
      rw [List.flatMap_cons, List.map_cons, List.map_cons, List.intercalate_cons_cons,
        List.append_assoc]
      exact hx.append hbar

end IsLaidOut

/-! ## Classes and patterns -/

namespace Pattern

theorem isLaidOut_itemText {item : Item Int} (h : ∀ n ∈ item.written, -0xF000 ≤ n) :
    IsLaidOut item.written (itemText item) := by
  cases item with
  | single c => exact IsLaidOut.encode (h c List.mem_cons_self)
  | pair first last =>
      have hfirst := IsLaidOut.encode (h first (by simp [Item.written]))
      have hlast := IsLaidOut.encode (h last (by simp [Item.written]))
      exact hfirst.append ((IsLaidOut.sign (c := ('-' : CodePoint)) (by decide)).append hlast)

theorem isLaidOut_classText {items : RangeList} (h : ∀ n ∈ items.written, -0xF000 ≤ n) :
    IsLaidOut items.written (classText items) := by
  have hitems : IsLaidOut items.written (items.flatMap itemText) :=
    IsLaidOut.flatMap fun item hitem =>
      isLaidOut_itemText fun n hn => h n (List.mem_flatMap.2 ⟨item, hitem, hn⟩)
  rcases single_or_bracketed items with ⟨c, rfl⟩ | hbrackets
  · exact IsLaidOut.encode (h c List.mem_cons_self)
  · by_cases hne : items = []
    · subst hne
      exact IsLaidOut.nil
    · have hopening := IsLaidOut.sign (c := ('[' : CodePoint)) (by decide)
      have hclosing := IsLaidOut.sign (c := (']' : CodePoint)) (by decide)
      rw [classText_of_bracketed hne hbrackets]
      simpa using (hopening.append hitems).append hclosing

theorem exists_mem_of_row {points : List Int} {row : List Extent} (hrow : row ∈ rows points)
    {s : Extent} (hs : s ∈ row) {u : Int} (hu : s.contains u = true) :
    ∃ c ∈ points, u ∈ utf16 c := by
  rcases mem_rows.1 hrow with ⟨-, rfl⟩ | ⟨lows, highs, hgroup, rfl⟩
  · obtain rfl := List.mem_singleton.1 hs
    obtain ⟨hmem, hle⟩ := contains_bmp.1 hu
    exact ⟨u, hmem, by simp [utf16_of_le hle]⟩
  · rcases List.mem_cons.1 hs with rfl | hs
    · obtain ⟨c, hmem, habove, rfl⟩ := exists_mem_of_highs hgroup hu
      exact ⟨c, hmem, by simp [utf16_of_lt habove]⟩
    · obtain rfl := List.mem_singleton.1 hs
      obtain ⟨high, hhigh⟩ := inhabited_gatherSets hgroup
      obtain ⟨c, hmem, habove, -, rfl⟩ := (mem_lows_iff ((mem_highs_iff hgroup).1 hhigh)).1 hu
      exact ⟨c, hmem, by simp [utf16_of_lt habove]⟩

theorem contains_of_mem_written {s : Extent} {u : Int} (h : u ∈ (itemsOf s).written) :
    s.contains u = true := by
  obtain ⟨item, hitem, hu⟩ := List.mem_flatMap.1 h
  obtain ⟨hfirst, hlast⟩ := RangeList.ends_mem_of_mem_compress hitem
  rcases Item.mem_written.1 hu with rfl | rfl
  · exact (s.mem_toList _).1 hfirst
  · exact (s.mem_toList _).1 hlast

/-- What is written down is units of the integers that the pattern is of. -/
theorem exists_mem_of_writtenUnits {points : List Int} {u : Int} (h : u ∈ writtenUnits points) :
    ∃ c ∈ points, u ∈ utf16 c := by
  obtain ⟨row, hrow, h⟩ := List.mem_flatMap.1 h
  obtain ⟨s, hs, hu⟩ := List.mem_flatMap.1 h
  exact exists_mem_of_row hrow hs (contains_of_mem_written hu)

theorem nonneg_of_mem_utf16 {c u : Int} (hc : 0 ≤ c) (hu : u ∈ utf16 c) : 0 ≤ u := by
  by_cases hle : c ≤ 0xFFFF
  · rw [utf16_of_le hle, List.mem_singleton] at hu
    omega
  · have hhigh := Surrogate.le_high_iff.2 (Int.not_le.1 hle)
    have hlow := Surrogate.low_bounds c
    rw [utf16_of_lt (Int.not_le.1 hle), List.mem_pair] at hu
    omega

theorem isLaidOut_ofPoints {points : List Int} (h : ∀ c ∈ points, 0 ≤ c) :
    IsLaidOut (writtenUnits points) (ofPoints points) := by
  have hrow : ∀ row ∈ rows points,
      IsLaidOut (row.flatMap fun s => (itemsOf s).written)
        (alternativeText (row.map itemsOf)) := by
    intro row hrow
    rw [alternativeText, List.flatMap_map]
    refine IsLaidOut.flatMap fun s hs => isLaidOut_classText fun u hu => ?_
    obtain ⟨c, hc, hu⟩ := exists_mem_of_row hrow hs (contains_of_mem_written hu)
    have hnonneg := nonneg_of_mem_utf16 (h c hc) hu
    omega
  rw [ofPoints, alternatives_eq, List.map_map]
  exact IsLaidOut.intercalate hrow

end Pattern

namespace CodeSet

theorem isLaidOut_tokens {s : CodeSet} (h : ∀ c ∈ s.toList, 0 ≤ c) :
    IsLaidOut s.toList s.tokens := by
  have hrow := IsLaidOut.flatMap (f := fun c => [c]) (g := Token.encode) fun c hc =>
    IsLaidOut.encode (Int.le_trans (by decide) (h c hc))
  rwa [List.flatMap_singleton'] at hrow

theorem isLaidOut_rangeString {s : CodeSet} (h : ∀ c ∈ s.toList, 0 ≤ c) :
    IsLaidOut s.ranges.written s.rangeString := by
  have hascending : s.toList.Pairwise (· < ·) := s.members.toList_ascending
  rw [rangeString, Pattern.rangeString_of_ascending hascending]
  refine Pattern.isLaidOut_classText fun n hn => Int.le_trans (by decide) (h n ?_)
  exact (s.mem_toList n).2 (Pattern.contains_of_mem_written hn)

/-- What the texts of a set are made of, and when they come out under a limit. -/
structure IsWrittenInTokens (s : CodeSet) : Prop where
  tokens : IsLaidOut s.toList s.tokens
  rangeString : IsLaidOut s.ranges.written s.rangeString
  regexp : IsLaidOut (Pattern.writtenUnits s.toList) s.regexp
  units : ∀ u ∈ Pattern.writtenUnits s.toList, ∃ c, s.contains c = true ∧ u ∈ utf16 c
  tokens? : ∀ limit, s.tokens? limit = Token.within limit s.toList s.tokens
  rangeString? : ∀ limit, s.rangeString? limit = Token.within limit s.ranges.written s.rangeString
  regexp? : ∀ limit,
    s.regexp? limit = Token.within limit (Pattern.writtenUnits s.toList) s.regexp

/-- **Nothing of a member but tokens.** Splitting an integer for its token comes to an end after as
many nested calls as it leaves units. If no more than `limit` calls can be nested, the token comes
out for the integers that need no more, which are all below `2 ^ (10 * limit + 3)` and none from
`2 ^ (10 * limit + 6)` on. It is then a row of tokens of units, without any character that means
something in a regular expression but for the backslash of an escape.

The texts of a set without negative members come out if the tokens of all integers in them do. They
are made of such tokens and of brackets, hyphens and bars. Without these signs they are the tokens of
the members, of the ends of the ranges, or of the units of the members, each in the order in which
they are written down. -/
theorem texts_isLaidOut :
    (WellFounded Surrogate.IsPart
        ∧ (∀ c, 0xFFFF < c → Token.encode c
            = Token.encode (Surrogate.high c) ++ Token.encode (Surrogate.low c))
        ∧ (∀ c ≤ 0xFFFF, Token.depth c = 1)
        ∧ ∀ c, 0xFFFF < c → Token.depth c = Token.depth (Surrogate.high c) + 1)
      ∧ (∀ limit c, Token.encode? limit c
            = if Token.depth c ≤ limit then some (Token.encode c) else none)
      ∧ (∀ limit c, 0 < limit → c < 2 ^ (10 * limit + 3) → Token.depth c ≤ limit)
      ∧ (∀ limit c, 2 ^ (10 * limit + 6) ≤ c → limit < Token.depth c)
      ∧ (∀ c, -0xF000 ≤ c →
          (∃ tokens ≠ [], (∀ t ∈ tokens, Token.IsToken t) ∧ Token.encode c = tokens.flatten)
            ∧ ∀ x ∈ Token.encode c, Token.IsPlain x)
      ∧ ∀ s : CodeSet, (∀ x, s.contains x = true → 0 ≤ x) → s.IsWrittenInTokens := by
  refine ⟨⟨Surrogate.wellFounded_isPart, fun _ => Pattern.encode_of_lt, fun _ => Token.depth_of_le,
      fun _ => Token.depth_of_lt⟩,
    Token.encode?_eq_ite, fun _ _ hlimit hc => Token.depth_le hlimit hc, fun limit _ => Token.lt_depth limit,
    fun c hc => ⟨Token.exists_tokens hc, fun x hx => Token.isPlain_of_mem_encode hc hx⟩,
    fun s hs => ?_⟩
  have hpoints : ∀ c ∈ s.toList, 0 ≤ c := fun c hc => hs c ((s.mem_toList c).1 hc)
  refine ⟨isLaidOut_tokens hpoints, isLaidOut_rangeString hpoints,
    Pattern.isLaidOut_ofPoints hpoints, fun u hu => ?_, fun limit => s.tokens?_eq limit,
    fun limit => s.rangeString?_eq limit, fun limit => s.regexp?_eq limit⟩
  obtain ⟨c, hc, hu⟩ := Pattern.exists_mem_of_writtenUnits hu
  exact ⟨c, (s.mem_toList c).1 hc, hu⟩

/-- Members that are signs themselves, a letter beyond ASCII, and one that is split twice. -/
def ofSigns : CodeSet := ofList [0x2D, 0x5B, 0x5D, 0x7C, 0xE9, 0xA10000]

/-- Three calls are enough for the last member, but not for an integer of thirty-seven bits. -/
theorem texts_isLaidOut_ofSigns :
    (∀ x, ofSigns.contains x = true → 0 ≤ x)
      ∧ ofSigns.IsWrittenInTokens
      ∧ Token.encode? 3 0xA10000 = some (Token.encode 0xA10000)
      ∧ (∀ x ∈ Token.encode 0xA10000, Token.IsPlain x)
      ∧ Token.encode? 3 (2 ^ 36) = none := by
  obtain ⟨-, hlimited, hbelow, habove, htokens, hsets⟩ := texts_isLaidOut
  have hnonneg : ∀ x, ofSigns.contains x = true → 0 ≤ x := by
    have hall : ∀ c ∈ ([0x2D, 0x5B, 0x5D, 0x7C, 0xE9, 0xA10000] : List Int), 0 ≤ c := by decide
    exact fun x hx => hall x (contains_ofList.1 hx)
  refine ⟨hnonneg, hsets _ hnonneg, ?_, (htokens _ (by decide)).2, ?_⟩
  · rw [hlimited, if_pos (hbelow 3 _ (by decide) (by decide))]
  · rw [hlimited, if_neg (Nat.not_le.2 (habove 3 _ (by decide)))]

example :
    (ofList [0x2D, 0x5B, 0x5D, 0x7C, 0xE9, 0xA10000]).regexp
      = Text.ofString "[\\u002D\\u005B\\u005D\\u007C\\u00E9]|\\uD800\\uDC00\\uDC00" := by
  decide +kernel

/-- Where a thousand calls can be nested, an integer of so many bits has no row of tokens. -/
theorem not_isLaidOut_ofLarge :
    -0xF000 ≤ (2 : Int) ^ 13950
      ∧ ¬ ∃ tokens ≠ [], (∀ t ∈ tokens, Token.IsToken t)
          ∧ Token.encode? 1000 (2 ^ 13950) = some tokens.flatten := by
  have hnonneg : (0 : Int) ≤ 2 ^ 13950 := Int.pow_nonneg (by decide)
  have hlimit : (2 : Int) ^ (10 * 1000 + 6) ≤ 2 ^ 13950 :=
    pow_le_pow_right₀ (by decide) (by decide)
  refine ⟨by omega, ?_⟩
  rintro ⟨tokens, -, -, hencode⟩
  rw [Token.encode?_eq_none_iff.2 (Token.lt_depth 1000 hlimit)] at hencode
  cases hencode

end CodeSet

end Repertoire
