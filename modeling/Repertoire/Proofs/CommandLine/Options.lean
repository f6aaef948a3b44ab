import Repertoire.CommandLine.Options

/-!
# Arguments that leave the format open

Arguments without the format option say everything about a run except its format. Whatever draft
they are read into, its format comes through as it is (`read?_withFormat`). So a format that is put
in front of them is the one that counts, and all other settings are those of the arguments alone
(`ofArguments?_inFormat`).
-/

namespace Repertoire.CommandLine

/-! ## The format option -/

def Format.name : Format → Text
  | regexp => Text.ofString "regexp"
  | range => Text.ofString "range"
  | hex => Text.ofString "hex"
  | hexRange => Text.ofString "hex-range"
  | string => Text.ofString "string"
  | array => Text.ofString "array"

/-- Is the argument taken for the format option, abbreviated or with its value attached? -/
def isFormatOption (arg : Text) : Bool :=
  match classify? arg with
  | some (.format _) => true
  | _ => false

/-- No format option among the arguments, as far as they can hold options. -/
def Unformatted (args : List Text) : Prop :=
  ∀ arg ∈ args.takeWhile (· ≠ separator), isFormatOption arg = false

instance (args : List Text) : Decidable (Unformatted args) :=
  inferInstanceAs (Decidable (∀ arg ∈ args.takeWhile (· ≠ separator), isFormatOption arg = false))

/-- The arguments with a format in front of them. -/
def inFormat (format : Format) (args : List Text) : List Text :=
  Text.ofString "--format" :: format.name :: args

theorem formatOperand?_name : ∀ format : Format, formatOperand? format.name = some format
  | .regexp | .range | .hex | .hexRange | .string | .array => by decide +kernel

theorem unformatted_cons {arg : Text} {rest : List Text} (harg : arg ≠ separator) :
    Unformatted (arg :: rest) ↔ isFormatOption arg = false ∧ Unformatted rest := by
  have hbefore : (arg :: rest).takeWhile (· ≠ separator)
      = arg :: rest.takeWhile (· ≠ separator) :=
    List.takeWhile_cons_of_pos (by simpa using harg)
  rw [Unformatted, hbefore, List.forall_mem_cons]
  rfl

/-! ## One step of the reading -/

section Step

variable (draft : Draft) {arg : Text} {rest : List Text}

theorem read?_switches {names : List Switch} (harg : arg ≠ separator)
    (h : classify? arg = some (.switches names)) :
    read? draft (arg :: rest) = read? { draft with switches := draft.switches ++ names } rest := by
  rw [read?.eq_def]
  simp only [if_neg harg, h]

theorem read?_operand (harg : arg ≠ separator) (h : classify? arg = some .operand)
    (hsource : draft.source = none) :
    read? draft (arg :: rest)
      = if rest = [separator] then some { draft with source := some arg }
        else read? { draft with source := some arg } rest := by
  rw [read?.eq_def]
  simp only [if_neg harg, h, hsource]

theorem read?_source {source : Text} (hsource : draft.source = none) :
    read? draft [separator, source] = some { draft with source := some source } := by
  rw [read?.eq_def]
  simp only [if_true, hsource]

theorem read?_format (format : Format) :
    read? draft (inFormat format rest) = read? { draft with format := some format } rest := by
  have hname : Text.ofString "--format" ≠ separator := by decide
  have hclass : classify? (Text.ofString "--format") = some (.format none) := by decide +kernel
  rw [inFormat, read?.eq_def]
  simp only [if_neg hname, hclass, formatOperand?_name, Option.bind_eq_bind, Option.bind_some]

end Step

/-! ## Reading into a draft -/

def Draft.withFormat (draft : Draft) (format : Option Format) : Draft :=
  { draft with format }

theorem isFormatOption_of_format {arg : Text} {value : Option Text}
    (h : classify? arg = some (.format value)) : isFormatOption arg = true := by
  rw [isFormatOption, h]

/-- What is read never looks at the format of the draft. The induction follows the reading; the
steps at a format option are the ones that do not occur. -/
theorem read?_withFormat (format : Option Format) (draft : Draft) (args : List Text)
    (h : Unformatted args) :
    read? (draft.withFormat format) args = (read? draft args).map (·.withFormat format) := by
  fun_induction read? draft args with
  | case1 draft => rfl
  | case2 draft source hsource =>
      rw [read?_source (draft.withFormat format) hsource]
      rfl
  | case3 draft rest hnone =>
      rw [read?.eq_def]
      simp only [if_true, Option.map_none]
      split
      · rename_i source hsource
        exact (hnone source hsource rfl).elim
      · rfl
  | case4 draft arg rest harg hclass =>
      rw [read?.eq_def]
      simp only [if_neg harg, hclass, Option.map_none]
  | case5 draft arg rest harg hclass source hsource =>
      rw [read?.eq_def]
      simp only [if_neg harg, hclass, Draft.withFormat, hsource, Option.map_none]
  | case6 draft arg harg hclass hsource =>
      rw [read?_operand (draft.withFormat format) harg hclass hsource, if_pos rfl]
      rfl
  | case7 draft arg rest harg hclass hsource draft' hrest ih =>
      rw [read?_operand (draft.withFormat format) harg hclass hsource, if_neg hrest,
        ← ih ((unformatted_cons harg).1 h).2]
      rfl
  | case8 draft arg rest harg names hclass ih =>
      rw [read?_switches (draft.withFormat format) harg hclass,
        ← ih ((unformatted_cons harg).1 h).2]
      rfl
  | case9 draft arg rest harg value hclass ih =>
      have hformat := isFormatOption_of_format hclass
      rw [((unformatted_cons harg).1 h).1] at hformat
      cases hformat
  | case10 draft arg harg hclass =>
      rw [read?.eq_def]
      simp only [if_neg harg, hclass, Option.map_none]
  | case11 draft arg harg hclass name rest ih =>
      have hformat := isFormatOption_of_format hclass
      rw [((unformatted_cons harg).1 h).1] at hformat
      cases hformat

theorem options?_withFormat (format : Option Format) (draft : Draft) :
    (draft.withFormat format).options?
      = draft.options?.map fun options => { options with format } := by
  cases hsource : draft.source with
  | none => simp only [Draft.options?, Draft.withFormat, hsource, Option.map_none]
  | some source =>
      simp only [Draft.options?, Draft.withFormat, hsource]
      rw [apply_ite (Option.map _)]
      rfl

/-- A source is not both the name of a file and a text in the unicode-range notation. -/
theorem unicodeRange_of_file {args : List Text} {options : Options}
    (hargs : Options.ofArguments? args = some options) (hfile : options.file = true) :
    options.unicodeRange = false := by
  obtain ⟨draft, -, hoptions⟩ := Option.bind_eq_some_iff.1 hargs
  unfold Draft.options? at hoptions
  dsimp only at hoptions
  split at hoptions
  · cases hoptions
  · split at hoptions
    · cases hoptions
    · rename_i hone
      obtain rfl := Option.some.inj hoptions
      rw [Bool.or_eq_true, Bool.and_eq_true, not_or, not_and] at hone
      exact Bool.eq_false_iff.2 fun hrange => hone.2 hrange hfile

/-- Where no format is asked for, it is that of a pattern. -/
theorem format_of_unformatted {args : List Text} {options : Options} (h : Unformatted args)
    (hargs : Options.ofArguments? args = some options) : options.format = some .regexp := by
  obtain ⟨draft, hdraft, hoptions⟩ := Option.bind_eq_some_iff.1 hargs
  have hread : read? {} args = (read? {} args).map (·.withFormat (some .regexp)) :=
    read?_withFormat (some .regexp) {} args h
  rw [hdraft, Option.map_some] at hread
  rw [Option.some.inj hread, options?_withFormat] at hoptions
  obtain ⟨options', -, rfl⟩ := Option.map_eq_some_iff.1 hoptions
  rfl

/-- **The format in front counts, and nothing else changes.** -/
theorem ofArguments?_inFormat (format : Format) {args : List Text} (h : Unformatted args) :
    Options.ofArguments? (inFormat format args)
      = (Options.ofArguments? args).map fun options => { options with format := some format } := by
  have hread := read?_withFormat (some format) {} args h
  rw [Options.ofArguments?, read?_format]
  show (read? (Draft.withFormat {} (some format)) args).bind Draft.options? = _
  rw [hread, Options.ofArguments?, Option.bind_map, Option.map_bind]
  exact congrArg _ (funext fun draft => options?_withFormat (some format) draft)

end Repertoire.CommandLine
