import Repertoire.Proofs.CommandLine.Rereading

/-!
# Reading a file

What a file holds is a text if its bytes are the UTF-8 of one (`decodeFile?_toUTF8`,
`decodeFile?_eq_none_iff`), and the text that is read has its line breaks made uniform. That is
done in one go, but comes to the same as replacing twice, first both characters of a double break and
then every carriage return that is left (`unifyLineBreaks_eq`). So a file and a source that is
written out select the same, and a carriage return is never selected from a file
(`run_file_eq_run_text`).
-/

namespace Repertoire

/-! ## Replacing -/

namespace Text

/-- The text with each occurrence of `old` replaced by `new`, from left to right. -/
def replace (old new : Text) : Text → Text
  | [] => []
  | c :: rest =>
    if old.isPrefixOf (c :: rest) then new ++ replace old new (rest.drop (old.length - 1))
    else c :: replace old new rest
termination_by t => t.length
decreasing_by
  · simp only [List.length_drop, List.length_cons]
    omega
  · simp

variable {old new rest : Text} {a b c : CodePoint}

theorem replace_nil : replace old new [] = [] := by
  rw [replace]

theorem replace_of_not_isPrefixOf (h : old.isPrefixOf (c :: rest) = false) :
    replace old new (c :: rest) = c :: replace old new rest := by
  rw [replace, if_neg (by simp [h])]

theorem replace_pair :
    replace [a, b] new (a :: b :: rest) = new ++ replace [a, b] new rest := by
  rw [replace, if_pos (by simp [List.isPrefixOf])]
  rfl

theorem replace_singleton (t : Text) :
    replace [a] [b] t = t.map fun c => if c = a then b else c := by
  induction t with
  | nil => exact replace_nil
  | cons c rest ih =>
      by_cases hc : c = a
      · rw [replace, if_pos (by simp [List.isPrefixOf, hc]), List.map_cons, if_pos hc, ← ih]
        rfl
      · rw [replace_of_not_isPrefixOf (by simp [List.isPrefixOf, Ne.symm hc]), List.map_cons,
          if_neg hc, ih]

end Text

namespace CommandLine

/-! ## Uniform line breaks -/

abbrev carriageReturn : CodePoint := '\r'

abbrev lineFeed : CodePoint := '\n'

/-- Every double break replaced by a line feed, and then every carriage return that is left. -/
def withLineFeeds (t : Text) : Text :=
  Text.replace [carriageReturn] [lineFeed]
    (Text.replace [carriageReturn, lineFeed] [lineFeed] t)

/-- One character makes a difference to what follows only as the first of a double break. -/
theorem withLineFeeds_cons {c : CodePoint} {rest : Text}
    (h : [carriageReturn, lineFeed].isPrefixOf (c :: rest) = false) :
    withLineFeeds (c :: rest)
      = (if c = carriageReturn then lineFeed else c) :: withLineFeeds rest := by
  rw [withLineFeeds, Text.replace_of_not_isPrefixOf h, Text.replace_singleton, List.map_cons,
    ← Text.replace_singleton, ← withLineFeeds]

theorem withLineFeeds_double (rest : Text) :
    withLineFeeds (carriageReturn :: lineFeed :: rest) = lineFeed :: withLineFeeds rest := by
  rw [withLineFeeds, Text.replace_pair, Text.replace_singleton, List.map_append,
    ← Text.replace_singleton (Text.replace _ _ rest), ← withLineFeeds]
  rfl

theorem unifyLineBreaks_eq (t : Text) : unifyLineBreaks t = withLineFeeds t := by
  fun_induction unifyLineBreaks t with
  | case1 => simp only [withLineFeeds, Text.replace_nil]
  | case2 c =>
      rw [withLineFeeds_cons (by simp [List.isPrefixOf])]
      simp only [withLineFeeds, Text.replace_nil]
  | case3 rest ih => rw [withLineFeeds_double, ih]
  | case4 d rest hd ih =>
      rw [withLineFeeds_cons (by simp [List.isPrefixOf, Ne.symm hd]), if_pos rfl, ih]
  | case5 c d rest hc ih =>
      rw [withLineFeeds_cons (by simp [List.isPrefixOf, Ne.symm hc]), if_neg hc, ih]

theorem carriageReturn_not_mem_withLineFeeds (t : Text) : carriageReturn ∉ withLineFeeds t := by
  rw [withLineFeeds, Text.replace_singleton]
  intro h
  obtain ⟨c, -, hc⟩ := List.mem_map.1 h
  split at hc
  · exact absurd hc (by decide)
  · rename_i hne
    exact hne hc

/-! ## Texts in files -/

theorem decodeFile?_toUTF8 (t : String) :
    decodeFile? t.toUTF8 = some (withLineFeeds (Text.ofString t)) := by
  have hdecode : String.fromUTF8? t.toUTF8 = some t := by
    simp only [String.fromUTF8?, String.toUTF8_eq_toByteArray, dif_pos t.isValidUTF8]
    rfl
  rw [decodeFile?, hdecode, Option.map_some, unifyLineBreaks_eq]

theorem exists_toUTF8_of_decodeFile? {bytes : ByteArray} {t : Text}
    (h : decodeFile? bytes = some t) : ∃ s : String, s.toUTF8 = bytes := by
  obtain ⟨s, hs, -⟩ := Option.map_eq_some_iff.1 h
  refine ⟨s, ?_⟩
  unfold String.fromUTF8? at hs
  split at hs
  · obtain rfl := Option.some.inj hs
    rfl
  · cases hs

theorem decodeFile?_eq_none_iff {bytes : ByteArray} :
    decodeFile? bytes = none ↔ ∀ s : String, s.toUTF8 ≠ bytes := by
  constructor
  · rintro h s rfl
    rw [decodeFile?_toUTF8] at h
    cases h
  · intro h
    refine Option.eq_none_iff_forall_ne_some.2 fun t ht => ?_
    obtain ⟨s, hs⟩ := exists_toUTF8_of_decodeFile? ht
    exact h s hs

/-! ## Selections from files -/

/-- Below the surrogates nothing is decoded that does not stand in the text. -/
theorem mem_of_mem_decode {t : Text} {c : CodePoint} (hc : c.val < 0xD800)
    (h : (c.val : Int) ∈ t.decode) : c ∈ t := by
  have hunit : (c.val : Int) ∈ t.units := by
    rw [← (Text.decode_merges_losslessly t).2.1]
    exact List.mem_flatMap.2 ⟨c.val, h, by simp [utf16_of_le (c := c.val) (by omega)]⟩
  obtain ⟨d, hd, hunit⟩ := List.mem_flatMap.1 hunit
  by_cases hle : (d.val : Int) ≤ 0xFFFF
  · rw [utf16_of_le hle, List.mem_singleton] at hunit
    have hsame : c = d := by
      rw [Fin.ext_iff]
      omega
    exact hsame ▸ hd
  · -- a surrogate is too large
    have hhigh := Surrogate.high_bounds (c := d.val) (by omega) (by omega)
    have hlow := Surrogate.low_bounds d.val
    rw [utf16_of_lt (by omega), List.mem_pair] at hunit
    omega

theorem contains_carriageReturn_ofText {t : Text} (h : carriageReturn ∉ t) :
    (CodeSet.ofText t).contains 0x0D = false := by
  rw [← Bool.not_eq_true]
  intro hcontains
  exact h (mem_of_mem_decode (by decide) (CodeSet.contains_ofList.1 hcontains))

/-- **A file is read like a source that is written out.** Let a file hold the UTF-8 of a text. Arguments
that name it, and arguments that give the text with its line breaks replaced by line feeds and are the
same otherwise, have the same outcome: the same status, and the same on both outputs. What they select
holds no carriage return. -/
theorem run_file_eq_run_text {entry entry' : Text → Entry} {t : String} {options : Options}
    {asked again : List Text} (hasked : Options.ofArguments? asked = some options)
    (hfile : options.file = true) (hentry : entry options.source = .file t.toUTF8)
    (hagain : Options.ofArguments? again
      = some { options with source := withLineFeeds (Text.ofString t), file := false }) :
    run entry asked = run entry' again
      ∧ ∃ s, selection? entry options = some s ∧ run entry asked = report options s
        ∧ s.contains 0x0D = false := by
  have hrange := unicodeRange_of_file hasked hfile
  have hselection : selection? entry options
      = some (CodeSet.ofText (withLineFeeds (Text.ofString t))) := by
    rw [selection?, if_neg (by simp [hrange]), if_pos hfile, hentry]
    show (decodeFile? t.toUTF8).map CodeSet.ofText = _
    rw [decodeFile?_toUTF8, Option.map_some]
  have hselection' : selection? entry'
      { options with source := withLineFeeds (Text.ofString t), file := false }
      = some (CodeSet.ofText (withLineFeeds (Text.ofString t))) := by
    rw [selection?, if_neg (by simp [hrange]), if_neg Bool.false_ne_true]
  have hrun : run entry asked
      = report options (CodeSet.ofText (withLineFeeds (Text.ofString t))) := by
    rw [run, hasked]
    exact runOptions_of_selection? hselection
  refine ⟨?_, _, hselection, hrun,
    contains_carriageReturn_ofText (carriageReturn_not_mem_withLineFeeds _)⟩
  rw [hrun, run, hagain]
  exact (runOptions_of_selection? hselection').symm

/-- A byte order mark, each kind of line break, and characters of one to four bytes. -/
def mixedFile : String := "\uFEFFa\r\n\r\ré\n\r😀"

theorem run_file_eq_run_text_mixed :
    Options.ofArguments? [Text.ofString "-vf", Text.ofString "n"]
        = some
          { source := Text.ofString "n", unicodeRange := false, file := true,
            format := some .regexp, allowEmpty := false, verbose := true }
      ∧ Options.ofArguments? [Text.ofString "-v", withLineFeeds (Text.ofString mixedFile)]
        = some
          { source := withLineFeeds (Text.ofString mixedFile), unicodeRange := false, file := false,
            format := some .regexp, allowEmpty := false, verbose := true }
      ∧ run (fun _ => .file mixedFile.toUTF8) [Text.ofString "-vf", Text.ofString "n"]
        = run (fun _ => .missing) [Text.ofString "-v", withLineFeeds (Text.ofString mixedFile)] := by
  have hasked : Options.ofArguments? [Text.ofString "-vf", Text.ofString "n"]
      = some
        { source := Text.ofString "n", unicodeRange := false, file := true,
          format := some .regexp, allowEmpty := false, verbose := true } := by
    decide +kernel
  have hagain : Options.ofArguments? [Text.ofString "-v", withLineFeeds (Text.ofString mixedFile)]
      = some
        { source := withLineFeeds (Text.ofString mixedFile), unicodeRange := false, file := false,
          format := some .regexp, allowEmpty := false, verbose := true } := by
    decide +kernel
  exact ⟨hasked, hagain, (run_file_eq_run_text hasked rfl rfl hagain).1⟩

example :
    withLineFeeds (Text.ofString mixedFile) = Text.ofString "\uFEFFa\n\n\né\n\n😀" := by
  decide +kernel

end CommandLine

end Repertoire
