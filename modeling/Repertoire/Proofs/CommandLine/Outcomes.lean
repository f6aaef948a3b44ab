import Repertoire.Proofs.CommandLine.Files
import Repertoire.Proofs.Text.Quoted

/-!
# How a run ends

With settings, a run ends in one of six ways, and `Ends` says under which conditions each of them
comes about: what the source names is missing, is a directory or is no text; or there is a selection,
which is empty against the settings, has no format, or is written. What else is to be said about the
end of a run follows from this account (`runOptions_ends`) and from when a selection is empty
(`isEmpty_iff_selectsNothing`): that nothing is printed before a complaint, that a complaint is one
line, and that a missing file is reported before anything is asked of the selection.
-/

namespace Repertoire

/-! ## Empty sets -/

theorem decodeUnits_eq_nil {us : List Int} : decodeUnits us = [] ↔ us = [] := by
  fun_cases decodeUnits us <;> simp

theorem CodeSet.isEmpty_ofText {t : Text} : (CodeSet.ofText t).isEmpty = true ↔ t = [] := by
  have hunits : t.units = [] ↔ t = [] := by
    cases t with
    | nil => simp [Text.units]
    | cons c t =>
        have hsome : utf16 (c.val : Int) ≠ [] := by
          unfold utf16
          split <;> exact List.cons_ne_nil _ _
        simp [Text.units, hsome]
  rw [← hunits, ← decodeUnits_eq_nil, List.eq_nil_iff_forall_not_mem, isEmpty_iff_contains]
  exact forall_congr' fun x => by
    rw [ofText, Text.decode, ← Bool.not_eq_true, contains_ofList]

namespace UnicodeRange

theorem exists_names_of_namesAny {piece : Text} (h : namesAny piece = true) :
    ∃ x, Names piece x := by
  rw [namesAny, Option.any_eq_true] at h
  obtain ⟨⟨first, last⟩, hbounds, hle⟩ := h
  have hle : first ≤ last := of_decide_eq_true hle
  exact ⟨first, first, last, hbounds, by omega, by omega⟩

theorem isEmpty_parse {t : Text} :
    (parse t).isEmpty = true ↔ ∀ piece ∈ t.splitOn (',' : CodePoint), namesAny piece = false := by
  rw [CodeSet.isEmpty_iff_contains]
  constructor
  · intro h piece hpiece
    rw [← Bool.not_eq_true]
    intro hany
    obtain ⟨x, hx⟩ := exists_names_of_namesAny hany
    have hcontains := contains_parse.2 ⟨piece, hpiece, hx⟩
    rw [h x] at hcontains
    cases hcontains
  · intro h x
    rw [← Bool.not_eq_true]
    intro hcontains
    obtain ⟨piece, hpiece, hx⟩ := contains_parse.1 hcontains
    have hany := hx.namesAny
    rw [h piece hpiece] at hany
    cases hany

end UnicodeRange

namespace CommandLine

/-! ## Sources -/

variable {entry : Text → Entry} {options : Options} {args : List Text} {s : CodeSet}
  {outcome : Outcome}

/-- The text whose code points are selected, unless the notation for ranges is used: that of the
file which the source names, or the source itself. -/
def sourceText? (entry : Text → Entry) (options : Options) : Option Text :=
  if options.file then
    match entry options.source with
    | .file bytes => decodeFile? bytes
    | _ => none
  else some options.source

/-- Is there nothing in the source to select: no text, or no piece that names an integer? -/
def SelectsNothing (entry : Text → Entry) (options : Options) : Prop :=
  if options.unicodeRange then
    ∀ piece ∈ options.source.splitOn (',' : CodePoint), UnicodeRange.namesAny piece = false
  else sourceText? entry options = some []

theorem selection?_of_unicodeRange (h : options.unicodeRange = true) :
    selection? entry options = some (UnicodeRange.parse options.source) :=
  if_pos h

theorem selection?_of_sourceText? (h : options.unicodeRange = false) :
    selection? entry options = (sourceText? entry options).map CodeSet.ofText := by
  rw [selection?, if_neg (by simp [h]), sourceText?]
  split
  · cases entry options.source <;> rfl
  · rfl

theorem isEmpty_iff_selectsNothing (h : selection? entry options = some s) :
    s.isEmpty = true ↔ SelectsNothing entry options := by
  unfold SelectsNothing
  by_cases hrange : options.unicodeRange = true
  · rw [selection?_of_unicodeRange hrange] at h
    obtain rfl := Option.some.inj h
    rw [if_pos hrange, UnicodeRange.isEmpty_parse]
  · rw [selection?_of_sourceText? (Bool.eq_false_iff.2 hrange)] at h
    obtain ⟨t, ht, rfl⟩ := Option.map_eq_some_iff.1 h
    rw [if_neg hrange, ht, CodeSet.isEmpty_ofText, Option.some_inj]

theorem SelectsNothing.exists_selection (h : SelectsNothing entry options) :
    ∃ s, selection? entry options = some s := by
  unfold SelectsNothing at h
  by_cases hrange : options.unicodeRange = true
  · exact ⟨_, selection?_of_unicodeRange hrange⟩
  · rw [if_neg hrange] at h
    rw [selection?_of_sourceText? (Bool.eq_false_iff.2 hrange), h]
    exact ⟨_, rfl⟩

/-! ## The six ways to end -/

/-- The line about the pattern that is to be written, if it is asked for. -/
def statisticsBefore (options : Options) (s : CodeSet) (format : Format) : Text :=
  if options.verbose = true ∧ format = .regexp then (Pattern.statistics s.toList).line else []

/-- The ways in which a run with settings can end. -/
inductive Ends (entry : Text → Entry) (options : Options) : Outcome → Prop where
  | missing (hfile : options.file = true) (hentry : entry options.source = .missing) :
      Ends entry options (missingFile options.source)
  | directory (hfile : options.file = true) (hentry : entry options.source = .directory) :
      Ends entry options (.failed .isDirectory)
  | notUtf8 {bytes : ByteArray} (hfile : options.file = true)
      (hentry : entry options.source = .file bytes) (hbytes : ∀ t : String, t.toUTF8 ≠ bytes) :
      Ends entry options (.failed .notUtf8)
  | nothing {s : CodeSet} (hs : selection? entry options = some s) (hempty : s.isEmpty = true)
      (hallow : options.allowEmpty = false) :
      Ends entry options emptySelection
  | unformatted {s : CodeSet} (hs : selection? entry options = some s)
      (hallow : s.isEmpty = true → options.allowEmpty = true) (hformat : options.format = none) :
      Ends entry options .unformatted
  | written {s : CodeSet} {format : Format} (hs : selection? entry options = some s)
      (hallow : s.isEmpty = true → options.allowEmpty = true)
      (hformat : options.format = some format) :
      Ends entry options (.finished
        { status := 0
          stdout := statisticsBefore options s format ++ format.write s ++ [('\n' : CodePoint)]
          stderr := [] })

theorem report_ends (hs : selection? entry options = some s) :
    Ends entry options (report options s) := by
  unfold report
  split
  · rename_i hempty
    rw [Bool.and_eq_true, Bool.not_eq_true'] at hempty
    exact .nothing hs hempty.1 hempty.2
  · rename_i hfull
    have hallow : s.isEmpty = true → options.allowEmpty = true := by
      simpa using hfull
    split
    · rename_i hformat
      exact .unformatted hs hallow hformat
    · rename_i format hformat
      have hwritten := Ends.written hs hallow hformat
      simpa [statisticsBefore] using hwritten

theorem runOptions_ends (entry : Text → Entry) (options : Options) :
    Ends entry options (runOptions entry options) := by
  cases hselection : selection? entry options with
  | some s =>
      rw [runOptions_of_selection? hselection]
      exact report_ends hselection
  | none =>
      have hrange : options.unicodeRange ≠ true := fun hrange => by
        rw [selection?_of_unicodeRange hrange] at hselection
        cases hselection
      rw [selection?_of_sourceText? (Bool.eq_false_iff.2 hrange), Option.map_eq_none_iff,
        sourceText?] at hselection
      split at hselection
      · rename_i hfile
        rw [runOptions, if_neg hrange, if_pos hfile]
        cases hentry : entry options.source with
        | missing => exact .missing hfile hentry
        | directory => exact .directory hfile hentry
        | file bytes =>
            rw [hentry] at hselection
            simp only at hselection
            simp only [hselection]
            exact .notUtf8 hfile hentry (decodeFile?_eq_none_iff.1 hselection)
      · cases hselection

/-! ## Statuses -/

/-- The run is finished with this status. -/
def Outcome.Exits (outcome : Outcome) (status : Nat) : Prop :=
  ∃ r, outcome = .finished r ∧ r.status = status

theorem Outcome.Exits.status_eq {outcome : Outcome} {status : Nat} (h : outcome.Exits status)
    {r : Report} (hr : outcome = .finished r) : r.status = status := by
  obtain ⟨r', hr', rfl⟩ := h
  rw [hr] at hr'
  cases hr'
  rfl

/-- A report of something wrong prints nothing and complains in one line. -/
def Report.IsComplaint (r : Report) : Prop :=
  r.stdout = [] ∧ IsLine r.stderr

theorem isComplaint_missingFile {name : Text} {r : Report} (h : missingFile name = .finished r) :
    r.IsComplaint := by
  have hline : IsLine (Text.ofString "Source file " ++ name.quoted
      ++ (Text.ofString " does not exist." ++ [('\n' : CodePoint)])) :=
    Text.isLine_quoted name (by decide) (by decide)
  obtain rfl := Outcome.finished.inj h
  exact ⟨rfl, hline⟩

theorem isComplaint_emptySelection {r : Report} (h : emptySelection = .finished r) :
    r.IsComplaint := by
  obtain rfl := Outcome.finished.inj h
  exact ⟨rfl, by decide +kernel⟩

/-- A finished run has complained, over a missing file or an empty selection, or it has written its
selection. -/
theorem Ends.of_finished {r : Report} (h : Ends entry options outcome)
    (houtcome : outcome = .finished r) :
    (r.status = 1 ∧ r.IsComplaint
        ∧ ((options.file = true ∧ entry options.source = .missing)
          ∨ (SelectsNothing entry options ∧ options.allowEmpty = false)))
      ∨ (r.status = 0 ∧ r.stderr = []
        ∧ ∃ s format, selection? entry options = some s
          ∧ (s.isEmpty = true → options.allowEmpty = true) ∧ options.format = some format
          ∧ r.stdout
            = statisticsBefore options s format ++ format.write s ++ [('\n' : CodePoint)]) := by
  cases h with
  | missing hfile hentry =>
      have hcomplaint := isComplaint_missingFile houtcome
      obtain rfl := Outcome.finished.inj houtcome
      exact Or.inl ⟨rfl, hcomplaint, Or.inl ⟨hfile, hentry⟩⟩
  | directory _ _ => cases houtcome
  | notUtf8 _ _ _ => cases houtcome
  | nothing hs hempty hallow =>
      have hcomplaint := isComplaint_emptySelection houtcome
      have hnothing := (isEmpty_iff_selectsNothing hs).1 hempty
      obtain rfl := Outcome.finished.inj houtcome
      exact Or.inl ⟨rfl, hcomplaint, Or.inr ⟨hnothing, hallow⟩⟩
  | unformatted _ _ _ => cases houtcome
  | written hs hallow hformat =>
      obtain rfl := Outcome.finished.inj houtcome
      exact Or.inr ⟨rfl, rfl, _, _, hs, hallow, hformat, rfl⟩

/-- Only reading a file can fail. -/
theorem Ends.of_failed {error : ReadError} (h : Ends entry options outcome)
    (houtcome : outcome = .failed error) :
    options.file = true
      ∧ ((error = .isDirectory ∧ entry options.source = .directory)
        ∨ (error = .notUtf8
          ∧ ∃ bytes, entry options.source = .file bytes ∧ ∀ t : String, t.toUTF8 ≠ bytes)) := by
  cases h with
  | missing _ _ => cases houtcome
  | directory hfile hentry =>
      obtain rfl := Outcome.failed.inj houtcome
      exact ⟨hfile, Or.inl ⟨rfl, hentry⟩⟩
  | notUtf8 hfile hentry hbytes =>
      obtain rfl := Outcome.failed.inj houtcome
      exact ⟨hfile, Or.inr ⟨rfl, _, hentry, hbytes⟩⟩
  | nothing _ _ _ => cases houtcome
  | unformatted _ _ _ => cases houtcome
  | written _ _ _ => cases houtcome

/-! ## Runs -/

section Run

variable (hargs : Options.ofArguments? args = some options)

include hargs

theorem run_eq_runOptions : run entry args = runOptions entry options := by
  rw [run, hargs]

theorem run_ends : Ends entry options (run entry args) := by
  rw [run_eq_runOptions hargs]
  exact runOptions_ends entry options

/-- The name of a file is never taken for a text in the unicode-range notation. -/
theorem run_of_file (hfile : options.file = true) :
    run entry args
      = match entry options.source with
        | .missing => missingFile options.source
        | .directory => .failed .isDirectory
        | .file bytes =>
          match decodeFile? bytes with
          | none => .failed .notUtf8
          | some t => report options (CodeSet.ofText t) := by
  have hrange := unicodeRange_of_file hargs hfile
  rw [run_eq_runOptions hargs]
  exact (if_neg (Bool.eq_false_iff.1 hrange)).trans (if_pos hfile)

theorem run_of_missing (hfile : options.file = true) (hentry : entry options.source = .missing) :
    run entry args = missingFile options.source := by
  rw [run_of_file hargs hfile, hentry]

theorem run_of_directory (hfile : options.file = true)
    (hentry : entry options.source = .directory) : run entry args = .failed .isDirectory := by
  rw [run_of_file hargs hfile, hentry]

theorem run_of_notUtf8 {bytes : ByteArray} (hfile : options.file = true)
    (hentry : entry options.source = .file bytes) (hbytes : ∀ t : String, t.toUTF8 ≠ bytes) :
    run entry args = .failed .notUtf8 := by
  rw [run_of_file hargs hfile, hentry]
  dsimp only
  rw [decodeFile?_eq_none_iff.2 hbytes]

theorem run_of_selectsNothing (hnothing : SelectsNothing entry options)
    (hallow : options.allowEmpty = false) : run entry args = emptySelection := by
  obtain ⟨s, hs⟩ := hnothing.exists_selection
  have hempty := (isEmpty_iff_selectsNothing hs).2 hnothing
  rw [run_eq_runOptions hargs, runOptions_of_selection? hs, report,
    if_pos (by simp [hempty, hallow])]

theorem exits_zero_of_selection? (hs : selection? entry options = some s)
    (hallow : s.isEmpty = true → options.allowEmpty = true) (hformat : options.format ≠ none) :
    (run entry args).Exits 0 := by
  obtain ⟨format, hformat⟩ := Option.ne_none_iff_exists'.1 hformat
  have hfull : ¬ (s.isEmpty && !options.allowEmpty) = true := by simpa using hallow
  rw [run_eq_runOptions hargs, runOptions_of_selection? hs, report, if_neg hfull, hformat]
  exact ⟨_, rfl, rfl⟩

end Run

/-- **How a run ends.** A run with settings has status 1 if it is to read a file of a name that leads
nowhere, or if nothing is selected and that is not allowed, and in no other case. Then it has printed
nothing and complains in one line. It has status 0 if it has a selection, allowed to be written, and a
format for it; then it writes the selection, a line about the pattern before it if one is asked for,
and nothing on the other output. Reading fails at directories and at files that are not UTF-8. A
selection is empty if the text to select from is, or if no piece of a text in the unicode-range
notation names an integer. -/
theorem run_ends_as_told (hargs : Options.ofArguments? args = some options) :
    ((run entry args).Exits 1 ↔
        (options.file = true ∧ entry options.source = .missing)
          ∨ (SelectsNothing entry options ∧ options.allowEmpty = false))
      ∧ (options.file = true → entry options.source = .missing →
          run entry args = missingFile options.source)
      ∧ (∀ r, run entry args = .finished r → r.status = 1 → r.stdout = [] ∧ IsLine r.stderr)
      ∧ ((run entry args).Exits 0 ↔
          ∃ s, selection? entry options = some s
            ∧ (s.isEmpty = true → options.allowEmpty = true) ∧ options.format ≠ none)
      ∧ (∀ r, run entry args = .finished r → r.status = 0 → r.stderr = []
          ∧ ∃ s format, selection? entry options = some s ∧ options.format = some format
            ∧ r.stdout
              = (if options.verbose = true ∧ format = .regexp then
                  (Pattern.statistics s.toList).line else [])
                ++ format.write s ++ [('\n' : CodePoint)])
      ∧ (run entry args = .failed .isDirectory ↔
          options.file = true ∧ entry options.source = .directory)
      ∧ (run entry args = .failed .notUtf8 ↔
          options.file = true
            ∧ ∃ bytes, entry options.source = .file bytes ∧ ∀ t : String, t.toUTF8 ≠ bytes)
      ∧ ∀ s, selection? entry options = some s →
          (s.isEmpty = true ↔ SelectsNothing entry options) := by
  have hends : Ends entry options (run entry args) := run_ends hargs
  refine ⟨⟨?_, ?_⟩, run_of_missing hargs, fun r hr hstatus => ?_, ⟨?_, ?_⟩, fun r hr hstatus => ?_,
    ⟨?_, ?_⟩, ⟨?_, ?_⟩, fun s hs => isEmpty_iff_selectsNothing hs⟩
  · rintro ⟨r, hr, hstatus⟩
    rcases hends.of_finished hr with ⟨-, -, hreason⟩ | ⟨hzero, -⟩
    · exact hreason
    · omega
  · rintro (⟨hfile, hentry⟩ | ⟨hnothing, hallow⟩)
    · exact ⟨_, run_of_missing hargs hfile hentry, rfl⟩
    · exact ⟨_, run_of_selectsNothing hargs hnothing hallow, rfl⟩
  · rcases hends.of_finished hr with ⟨-, hcomplaint, -⟩ | ⟨hzero, -⟩
    · exact hcomplaint
    · omega
  · rintro ⟨r, hr, hstatus⟩
    rcases hends.of_finished hr with ⟨hone, -⟩ | ⟨-, -, s, format, hs, hallow, hformat, -⟩
    · omega
    · exact ⟨s, hs, hallow, by simp [hformat]⟩
  · rintro ⟨s, hs, hallow, hformat⟩
    exact exits_zero_of_selection? hargs hs hallow hformat
  · rcases hends.of_finished hr with ⟨hone, -⟩ | ⟨-, hstderr, s, format, hs, -, hformat, hstdout⟩
    · omega
    · exact ⟨hstderr, s, format, hs, hformat, hstdout⟩
  · intro hfailed
    obtain ⟨hfile, ⟨-, hentry⟩ | ⟨hother, -⟩⟩ := hends.of_failed hfailed
    · exact ⟨hfile, hentry⟩
    · cases hother
  · exact fun h => run_of_directory hargs h.1 h.2
  · intro hfailed
    obtain ⟨hfile, ⟨hother, -⟩ | ⟨-, hbytes⟩⟩ := hends.of_failed hfailed
    · cases hother
    · exact ⟨hfile, hbytes⟩
  · rintro ⟨hfile, bytes, hentry, hbytes⟩
    exact run_of_notUtf8 hargs hfile hentry hbytes

/-- A file is asked for that has a line break in its name; an empty selection is allowed, and a line
about the pattern wanted. -/
def lostFile : List Text :=
  [Text.ofString "-vf", Text.ofString "--allow-empty", Text.ofString "lost\nfile"]

/-- A text in the unicode-range notation that names one member, in two ways. -/
def oneMember : List Text :=
  [Text.ofString "-vu", Text.ofString "U+41, zoo ,u+0041"]

/-- A text in the unicode-range notation that names no member, as the range in it runs backwards. -/
def noMember : List Text :=
  [Text.ofString "--unicode-range", Text.ofString "U+43-41,zoo"]

/-- Where there are no files, the first is reported as missing. The one member is written out behind the
line about its pattern, and the empty selection is complained of. -/
theorem run_ends_as_told_threeRuns :
    (run (fun _ => .missing) lostFile).Exits 1
      ∧ run (fun _ => .missing) lostFile = missingFile (Text.ofString "lost\nfile")
      ∧ (run (fun _ => .missing) oneMember).Exits 0
      ∧ (∀ r, run (fun _ => .missing) oneMember = .finished r → r.stderr = []
          ∧ r.stdout = Text.ofString
              "Pattern synthesis: 1 BMP, 0 lone surrogates, 0 high surrogates in 0 groups.\nA\n")
      ∧ (run (fun _ => .missing) noMember).Exits 1
      ∧ ∀ r, run (fun _ => .missing) noMember = .finished r → r.stdout = [] ∧ IsLine r.stderr := by
  have hlost : Options.ofArguments? lostFile
      = some
        { source := Text.ofString "lost\nfile", unicodeRange := false, file := true,
          format := some .regexp, allowEmpty := true, verbose := true } := by
    decide +kernel
  have hone : Options.ofArguments? oneMember
      = some
        { source := Text.ofString "U+41, zoo ,u+0041", unicodeRange := true, file := false,
          format := some .regexp, allowEmpty := false, verbose := true } := by
    decide +kernel
  have hnone : Options.ofArguments? noMember
      = some
        { source := Text.ofString "U+43-41,zoo", unicodeRange := true, file := false,
          format := some .regexp, allowEmpty := false, verbose := false } := by
    decide +kernel
  obtain ⟨hstatus, hmissing, -⟩ := @run_ends_as_told (fun _ => .missing) _ _ hlost
  obtain ⟨-, -, -, hzero, hwrites, -⟩ := @run_ends_as_told (fun _ => .missing) _ _ hone
  obtain ⟨hstatus', -, hcomplains, -⟩ := @run_ends_as_told (fun _ => .missing) _ _ hnone
  have hwritten : (run (fun _ => .missing) oneMember).Exits 0 :=
    hzero.2 ⟨UnicodeRange.parse _, rfl, fun hempty => absurd hempty (by decide +kernel), by decide⟩
  have hnothing : (run (fun _ => .missing) noMember).Exits 1 := by
    refine hstatus'.2 (Or.inr ⟨?_, rfl⟩)
    rw [SelectsNothing, if_pos rfl]
    decide +kernel
  refine ⟨hstatus.2 (Or.inl ⟨rfl, rfl⟩), hmissing rfl rfl, hwritten, fun r hr => ?_, hnothing,
    fun r hr => hcomplains r hr (hnothing.status_eq hr)⟩
  obtain ⟨hstderr, s, format, hs, hformat, hstdout⟩ := hwrites r hr (hwritten.status_eq hr)
  cases hs
  cases hformat
  refine ⟨hstderr, hstdout.trans ?_⟩
  decide +kernel

example :
    missingFile (Text.ofString "lost\nfile")
      = .finished
        { status := 1, stdout := [],
          stderr := Text.ofString "Source file 'lost\\nfile' does not exist.\n" } := by
  decide +kernel

end CommandLine

end Repertoire
