import Repertoire.CommandLine.Run
import Repertoire.Proofs.CommandLine.Options
import Repertoire.Proofs.Text.Units
import Repertoire.Proofs.UnicodeRange.RoundTrip

/-!
# Selecting again what was written

A run has a selection before it writes anything, and what it reports depends on the selection, on
whether it may be empty, and on the format (`runOptions_cases`). A selection, wherever it
comes from, holds nothing that the unicode-range notation has no room for (`selection?_isFresh`). So
a selection that was written in this notation can be read again as the source of another run, which
then has the same selection and reports the same in every format (`run_rereading`).
-/

namespace Repertoire.CommandLine

/-! ## Selections -/

/-- The set that a run is about to write, if it gets that far. -/
def selection? (entry : Text → Entry) (options : Options) : Option CodeSet :=
  if options.unicodeRange then some (UnicodeRange.parse options.source)
  else if options.file then
    match entry options.source with
    | .file bytes => (decodeFile? bytes).map CodeSet.ofText
    | _ => none
  else some (CodeSet.ofText options.source)

/-- Nothing has been withdrawn from the set, and tokens have room for all members. -/
structure IsFresh (s : CodeSet) : Prop where
  complete : s.withdrawn = ∅
  fits : ∀ x, s.contains x = true → 0 ≤ x ∧ x ≤ 0xFFFFFF

theorem isFresh_parse (t : Text) : IsFresh (UnicodeRange.parse t) :=
  ⟨rfl, fun _ hx => UnicodeRange.parse_bounds hx⟩

theorem isFresh_ofText (t : Text) : IsFresh (CodeSet.ofText t) := by
  refine ⟨rfl, fun x hx => ?_⟩
  have hbounds := decodeUnits_bounds (units_bounds t) x (CodeSet.contains_ofList.1 hx)
  omega

variable {entry : Text → Entry} {options : Options} {s : CodeSet} {r : Report}

theorem selection?_isFresh (h : selection? entry options = some s) : IsFresh s := by
  unfold selection? at h
  split at h
  · obtain rfl := Option.some.inj h
    exact isFresh_parse _
  · split at h
    · split at h
      · obtain ⟨t, -, rfl⟩ := Option.map_eq_some_iff.1 h
        exact isFresh_ofText t
      · cases h
    · obtain rfl := Option.some.inj h
      exact isFresh_ofText _

/-- A run reports a selection, or it has none and fails over the file that it was to read. -/
theorem runOptions_cases (entry : Text → Entry) (options : Options) :
    (∃ s, selection? entry options = some s ∧ runOptions entry options = report options s)
      ∨ (selection? entry options = none
          ∧ (runOptions entry options = missingFile options.source
              ∨ ∃ error, runOptions entry options = .failed error)) := by
  unfold selection? runOptions
  by_cases hrange : options.unicodeRange = true
  · simp only [if_pos hrange]
    exact Or.inl ⟨_, rfl, rfl⟩
  · simp only [if_neg hrange]
    by_cases hfile : options.file = true
    · simp only [if_pos hfile]
      cases entry options.source with
      | missing => exact Or.inr ⟨rfl, Or.inl rfl⟩
      | directory => exact Or.inr ⟨rfl, Or.inr ⟨_, rfl⟩⟩
      | file bytes =>
          cases hdecode : decodeFile? bytes with
          | none =>
              simp only [hdecode, Option.map_none]
              exact Or.inr ⟨trivial, Or.inr ⟨_, rfl⟩⟩
          | some t =>
              simp only [hdecode, Option.map_some]
              exact Or.inl ⟨_, rfl, rfl⟩
    · simp only [if_neg hfile]
      exact Or.inl ⟨_, rfl, rfl⟩

theorem runOptions_of_selection? (h : selection? entry options = some s) :
    runOptions entry options = report options s := by
  rcases runOptions_cases entry options with ⟨s', hs', hreport⟩ | ⟨hnone, -⟩
  · rw [h] at hs'
    obtain rfl := Option.some.inj hs'
    exact hreport
  · rw [h] at hnone
    cases hnone

/-- A run that ends with status 0 had a selection. -/
theorem exists_selection (h : runOptions entry options = .finished r) (hstatus : r.status = 0) :
    ∃ s, selection? entry options = some s := by
  rcases runOptions_cases entry options with ⟨s, hs, -⟩ | ⟨-, hmissing | ⟨error, hfailed⟩⟩
  · exact ⟨s, hs⟩
  · rw [h] at hmissing
    obtain rfl := Outcome.finished.inj hmissing
    cases hstatus
  · rw [h] at hfailed
    cases hfailed

/-- A report with status 0 ends with the selection in the format that was asked for. Only before a
pattern can there be anything else. -/
theorem stdout_of_report {format : Format} (hformat : options.format = some format)
    (hplain : format ≠ .regexp) (h : report options s = .finished r) (hstatus : r.status = 0) :
    r.stdout = format.write s ++ [('\n' : CodePoint)] := by
  unfold report at h
  split at h
  · obtain rfl := Outcome.finished.inj h
    cases hstatus
  · rw [hformat] at h
    obtain rfl := Outcome.finished.inj h
    simp [hplain]

/-! ## What is written in hexadecimal -/

def IsHexadecimal (format : Format) : Prop :=
  format = .hex ∨ format = .hexRange

theorem parse_write {format : Format} (hformat : IsHexadecimal format) (hs : IsFresh s) :
    UnicodeRange.parse (format.write s) = s := by
  refine CodeSet.ext_members ?_ fun x => ?_
  · rcases hformat with rfl | rfl
    · exact UnicodeRange.contains_parse_hexString_of_fits hs.fits
    · exact UnicodeRange.contains_parse_hexRangeString_of_fits hs.fits
  · rw [hs.complete]
    rfl

theorem head?_write {format : Format} (hformat : IsHexadecimal format) :
    ∀ c ∈ (format.write s).head?, c = ('U' : CodePoint) := by
  intro c hc
  rcases hformat with rfl | rfl
  · rw [Format.write, CodeSet.hexString, UnicodeRange.hexString_eq_intercalate] at hc
    exact UnicodeRange.head?_intercalate_itemToken hc
  · exact UnicodeRange.head?_intercalate_itemToken hc

/-! ## Arguments for what was written -/

/-- What does not begin with a hyphen is taken for a source. -/
theorem operand_of_head? {source : Text} (h : ∀ c ∈ source.head?, c ≠ ('-' : CodePoint)) :
    source ≠ separator ∧ classify? source = some .operand := by
  have hseparator : separator.head? = some ('-' : CodePoint) := rfl
  refine ⟨?_, ?_⟩
  · rintro rfl
    exact h _ hseparator rfl
  · match source, h with
    | [], _ => rfl
    | [_], _ => rfl
    | hyphen :: first :: rest, h =>
        have hhyphen : hyphen ≠ ('-' : CodePoint) := h hyphen rfl
        rw [classify?, if_pos hhyphen]

def flag (on : Bool) (arg : Text) : List Text :=
  if on then [arg] else []

/-- Arguments that give a text in the unicode-range notation as the source, and are otherwise those
of the settings. -/
def rereading (options : Options) (source : Text) : List Text :=
  flag true (Text.ofString "-u")
    ++ (flag options.allowEmpty (Text.ofString "--allow-empty")
      ++ (flag options.verbose (Text.ofString "-v") ++ [source]))

/-- The settings that these arguments give. -/
def Options.rereading (options : Options) (source : Text) : Options :=
  { options with source, unicodeRange := true, file := false }

/-- Does the argument turn on this one switch? -/
def IsFlag (arg : Text) (switch : Switch) : Prop :=
  arg ≠ separator ∧ classify? arg = some (.switches [switch])

theorem isFlag_rereading :
    IsFlag (Text.ofString "-u") .unicodeRange
      ∧ IsFlag (Text.ofString "--allow-empty") .allowEmpty
      ∧ IsFlag (Text.ofString "-v") .verbose := by
  unfold IsFlag
  decide +kernel

theorem read?_flag {arg : Text} {switch : Switch} (harg : IsFlag arg switch) (on : Bool)
    (draft : Draft) (rest : List Text) :
    read? draft (flag on arg ++ rest)
      = read? { draft with switches := draft.switches ++ if on then [switch] else [] } rest := by
  cases on with
  | false =>
      rw [if_neg Bool.false_ne_true, List.append_nil]
      rfl
  | true => exact read?_switches draft harg.1 harg.2

theorem unformatted_flag {arg : Text} {switch : Switch} (harg : IsFlag arg switch) (on : Bool)
    {rest : List Text} (hrest : Unformatted rest) : Unformatted (flag on arg ++ rest) := by
  cases on with
  | false => exact hrest
  | true =>
      refine (unformatted_cons harg.1).2 ⟨?_, hrest⟩
      rw [isFormatOption, harg.2]

section Source

variable {options : Options} {source : Text}
  (hsource : source ≠ separator ∧ classify? source = some .operand)

include hsource

theorem unformatted_rereading : Unformatted (rereading options source) := by
  have hlast : Unformatted [source] := by
    refine (unformatted_cons hsource.1).2 ⟨?_, nofun⟩
    rw [isFormatOption, hsource.2]
  obtain ⟨hrange, hempty, hverbose⟩ := isFlag_rereading
  exact unformatted_flag hrange _ (unformatted_flag hempty _ (unformatted_flag hverbose _ hlast))

theorem ofArguments?_rereading (hformat : options.format = some .regexp) :
    Options.ofArguments? (rereading options source) = some (options.rereading source) := by
  have hlast : ∀ draft : Draft, draft.source = none →
      read? draft [source] = some { draft with source := some source } := by
    intro draft hdraft
    rw [read?_operand draft hsource.1 hsource.2 hdraft, if_neg (by simp), read?]
  obtain ⟨hrange, hempty, hverbose⟩ := isFlag_rereading
  rw [Options.ofArguments?, rereading, read?_flag hrange, read?_flag hempty, read?_flag hverbose,
    hlast _ rfl]
  cases options with
  | mk _ _ _ format allowEmpty verbose =>
      obtain rfl := hformat
      cases allowEmpty <;> cases verbose <;> rfl

end Source

/-! ## Reading what was written -/

/-- What a run with a selection leaves does not show where the selection came from. -/
theorem run_of_selection? {args : List Text} {format : Option Format}
    (hargs : Options.ofArguments? args = some { options with format })
    (hs : selection? entry options = some s) :
    run entry args = report { options with format } s := by
  have hformat : selection? entry { options with format } = some s := hs
  rw [run, hargs]
  exact runOptions_of_selection? hformat

/-- **What was written in hexadecimal selects the same again.** Take any arguments that leave the
format open, and let a run write their selection as hexadecimal tokens, one by one or as ranges, and
end with status 0. What it prints, less the line break, is a text in the unicode-range notation.
Arguments that give this text as such a source and are the same otherwise have the same outcome in
every format: the same status, and the same on both outputs. It does not matter where among the
arguments the format is asked for. -/
theorem run_rereading {entry : Text → Entry} {args : List Text} {options : Options}
    {written : Format} {r : Report}
    (hargs : Options.ofArguments? args = some options) (hopen : Unformatted args)
    (hwritten : IsHexadecimal written)
    (hrun : run entry (inFormat written args) = .finished r) (hstatus : r.status = 0) :
    ∃ source, r.stdout = source ++ [('\n' : CodePoint)]
      ∧ Options.ofArguments? (rereading options source) = some (options.rereading source)
      ∧ ∀ (entry' : Text → Entry) (format : Format),
          run entry' (inFormat format (rereading options source))
            = run entry (inFormat format args)
          ∧ ∀ asked again,
              Options.ofArguments? asked = some { options with format := some format } →
              Options.ofArguments? again
                = some { options.rereading source with format := some format } →
              run entry' again = run entry asked := by
  have hask : ∀ format : Format, Options.ofArguments? (inFormat format args)
      = some { options with format := some format } := by
    intro format
    rw [ofArguments?_inFormat format hopen, hargs, Option.map_some]
  have hfinished : runOptions entry { options with format := some written } = .finished r := by
    rwa [run, hask] at hrun
  obtain ⟨s, hs⟩ := exists_selection hfinished hstatus
  have hfresh := selection?_isFresh hs
  rw [runOptions_of_selection? hs] at hfinished
  have hstdout : r.stdout = written.write s ++ [('\n' : CodePoint)] := by
    refine stdout_of_report rfl ?_ hfinished hstatus
    rcases hwritten with rfl | rfl <;> decide
  have hsource : written.write s ≠ separator ∧ classify? (written.write s) = some .operand := by
    refine operand_of_head? fun c hc => ?_
    rw [head?_write hwritten c hc]
    decide
  have hagain := ofArguments?_rereading hsource (format_of_unformatted hopen hargs)
  refine ⟨written.write s, hstdout, hagain, fun entry' format => ?_⟩
  have hreread : selection? entry' (options.rereading (written.write s)) = some s := by
    show some (UnicodeRange.parse (written.write s)) = some s
    rw [parse_write hwritten hfresh]
  have hsame : ∀ asked again,
      Options.ofArguments? asked = some { options with format := some format } →
      Options.ofArguments? again
        = some { options.rereading (written.write s) with format := some format } →
      run entry' again = run entry asked := by
    intro asked again hasked hagain
    rw [run_of_selection? hasked hs, run_of_selection? hagain hreread]
    rfl
  refine ⟨hsame _ _ (hask format) ?_, hsame⟩
  rw [ofArguments?_inFormat format (unformatted_rereading hsource), hagain, Option.map_some]

/-- Arguments that select a lone surrogate and a member beyond `0x10FFFF`. -/
def reachingArguments : List Text :=
  [Text.ofString "-vu", Text.ofString "U+FFFFFF, u+d800,U+41-43"]

def reachingOptions : Options where
  source := Text.ofString "U+FFFFFF, u+d800,U+41-43"
  unicodeRange := true
  file := false
  format := some .regexp
  allowEmpty := false
  verbose := true

theorem run_rereading_reaching :
    Options.ofArguments? reachingArguments = some reachingOptions
      ∧ Unformatted reachingArguments
      ∧ IsHexadecimal .hexRange
      ∧ run (fun _ => .missing) (inFormat .hexRange reachingArguments)
        = .finished
            { status := 0, stdout := Text.ofString "U+41-43,U+D800,U+FFFFFF\n", stderr := [] }
      ∧ ∀ (entry' : Text → Entry) (format : Format),
          run entry' (inFormat format
              (rereading reachingOptions (Text.ofString "U+41-43,U+D800,U+FFFFFF")))
            = run (fun _ => .missing) (inFormat format reachingArguments) := by
  have hargs : Options.ofArguments? reachingArguments = some reachingOptions := by decide +kernel
  have hopen : Unformatted reachingArguments := by decide +kernel
  have hrun : run (fun _ => .missing) (inFormat .hexRange reachingArguments)
      = .finished
          { status := 0, stdout := Text.ofString "U+41-43,U+D800,U+FFFFFF\n", stderr := [] } := by
    decide +kernel
  have hline : Text.ofString "U+41-43,U+D800,U+FFFFFF\n"
      = Text.ofString "U+41-43,U+D800,U+FFFFFF" ++ [('\n' : CodePoint)] := by decide
  obtain ⟨source, hsource, -, hagain⟩ := run_rereading hargs hopen (Or.inr rfl) hrun rfl
  obtain rfl := List.append_cancel_right (hline.symm.trans hsource)
  exact ⟨hargs, hopen, Or.inr rfl, hrun, fun entry' format => (hagain entry' format).1⟩

end Repertoire.CommandLine
