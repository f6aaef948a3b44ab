import Repertoire.Text.Decimal

/-!
# The arguments of the command line

The command line takes one source and some options, in any order. `-u`, `-f` and `-v` are short for
`--unicode-range`, `--file` and `--verbose`; short options may be joined, also by an equals sign
after the first of them, and a long one may be abbreviated as long as it stays the only one.
`--format` takes a value, either as the next argument or after an equals sign.

What begins with a hyphen is an option, except for the hyphen alone, a negative number, and an
argument that holds a space and is no option. The argument `--` ends the options: exactly one
argument may follow, which is the source whatever it looks like. A `--` directly after the source,
at the end, does no harm. Where an equals sign attaches `--` to the format option, it takes the
format away: unless a later one is given, nothing can be written.

The arguments are refused where help is asked for, since then there are no settings to run with.

In two places releases of the option parser do not agree, and the rules here are those from before
3.11.9: an equals sign may join short options (`joined?`), and `--` may be attached to the format
option (`formatAttached?`). Later releases refuse both.
-/

namespace Repertoire.CommandLine

inductive Format where
  | regexp
  | range
  | hex
  | hexRange
  | string
  | array
  deriving DecidableEq, Repr

def Format.ofName? (name : Text) : Option Format :=
  [(Text.ofString "regexp", regexp), (Text.ofString "range", range), (Text.ofString "hex", hex),
    (Text.ofString "hex-range", hexRange), (Text.ofString "string", string),
    (Text.ofString "array", array)].lookup name

/-- An option without a value. -/
inductive Switch where
  | unicodeRange
  | file
  | allowEmpty
  | verbose
  | help
  deriving DecidableEq, Repr

inductive Setting where
  | switch (s : Switch)
  | format
  deriving DecidableEq, Repr

def longNames : List (Text × Setting) :=
  [(Text.ofString "--unicode-range", .switch .unicodeRange),
    (Text.ofString "--file", .switch .file),
    (Text.ofString "--format", .format),
    (Text.ofString "--allow-empty", .switch .allowEmpty),
    (Text.ofString "--verbose", .switch .verbose),
    (Text.ofString "--help", .switch .help)]

/-- The options that have a letter. -/
def ofLetter? (c : CodePoint) : Option Switch :=
  [(CodePoint.ofChar 'u', Switch.unicodeRange), (CodePoint.ofChar 'f', Switch.file),
    (CodePoint.ofChar 'v', Switch.verbose), (CodePoint.ofChar 'h', Switch.help)].lookup c

/-- The options that joined letters stand for. An equals sign between the first letter and the
others is passed over, as it was before release 3.11.9; from then on `-u=v` is refused. Anywhere else
the sign is no letter. -/
def joined? : Text → Option (List Switch)
  | first :: sign :: second :: rest =>
    if sign = ('=' : CodePoint) then (first :: second :: rest).mapM ofLetter?
    else (first :: sign :: second :: rest).mapM ofLetter?
  | letters => letters.mapM ofLetter?

/-- What one argument is taken for. -/
inductive Argument where
  /-- The source, or the value of an option. -/
  | operand
  /-- Options without a value, one or several joined. -/
  | switches (names : List Switch)
  /-- The format option, with its value if an equals sign attaches one. -/
  | format (value : Option Text)
  deriving DecidableEq

/-- A long option with the value that is attached to it. An option that takes no value refuses
one. -/
def Argument.ofOption? : Setting → (value : Option Text) → Option Argument
  | .switch s, none => some (.switches [s])
  | .switch _, some _ => none
  | .format, value => some (.format value)

/-- The argument before its first equals sign, and what comes after. -/
def cutAtEquals (t : Text) : Text × Option Text :=
  match t.span (· ≠ ('=' : CodePoint)) with
  | (name, []) => (name, none)
  | (name, _ :: value) => (name, some value)

/-- Is this a negative number: a hyphen, digits of any script, and perhaps a point with at least one
digit after it? A final line break does not count. -/
def isNegativeNumber (t : Text) : Bool :=
  let body := match t.getLast? with
    | some c => if c = ('\n' : CodePoint) then t.dropLast else t
    | none => t
  match body with
  | [] => false
  | c :: rest =>
    c = ('-' : CodePoint) &&
      match rest.span CodePoint.isDecimal with
      | (whole, []) => !whole.isEmpty
      | (_, point :: fraction) =>
        point = ('.' : CodePoint) && !fraction.isEmpty && fraction.all CodePoint.isDecimal

/-- What an argument that is no option is taken for, although it begins with a hyphen. -/
def leftover? (arg : Text) : Option Argument :=
  if isNegativeNumber arg || arg.contains ((' ' : Char) : CodePoint) then some .operand else none

/-- What an argument is taken for. There is no answer for an unknown or ambiguous option, nor for a
value that is attached to an option without one. -/
def classify? (arg : Text) : Option Argument :=
  match arg with
  | [] => some .operand
  | [_] => some .operand
  | hyphen :: first :: rest =>
    if hyphen ≠ ('-' : CodePoint) then some .operand
    else if first = ('-' : CodePoint) then
      let (name, value) := cutAtEquals arg
      match longNames.filter fun entry => name.isPrefixOf entry.1 with
      | [] => leftover? arg
      | [entry] => Argument.ofOption? entry.2 value
      | _ => none
    else if (ofLetter? first).isSome then (joined? (first :: rest)).map .switches
    else leftover? arg

/-- The settings of a run. The format is missing if it was taken away. -/
structure Options where
  source : Text
  unicodeRange : Bool
  file : Bool
  format : Option Format
  allowEmpty : Bool
  verbose : Bool
  deriving DecidableEq

structure Draft where
  source : Option Text := none
  switches : List Switch := []
  format : Option Format := some .regexp

/-- The settings of a finished draft. A source is needed, it cannot be both a text in the
unicode-range notation and the name of a file, and help must not have been asked for. -/
def Draft.options? (draft : Draft) : Option Options :=
  let on (s : Switch) : Bool := draft.switches.contains s
  match draft.source with
  | none => none
  | some source =>
    if on .help || (on .unicodeRange && on .file) then none
    else some
      { source
        unicodeRange := on .unicodeRange
        file := on .file
        format := draft.format
        allowEmpty := on .allowEmpty
        verbose := on .verbose }

def separator : Text := Text.ofString "--"

def formatOperand? (arg : Text) : Option Format :=
  if arg ≠ separator ∧ classify? arg = some .operand then Format.ofName? arg else none

/-- The format after an equals sign has attached a value to the format option. That `--` takes the
format away is as it was before release 3.11.9; from then on `--format=--` is refused. -/
def formatAttached? (value : Text) : Option (Option Format) :=
  if value = separator then some none else (Format.ofName? value).map some

/-- Reads the arguments into a draft. The last format counts. -/
def read? (draft : Draft) : List Text → Option Draft
  | [] => some draft
  | arg :: rest =>
    if arg = separator then
      match draft.source, rest with
      | none, [source] => some { draft with source := some source }
      | _, _ => none
    else
      match classify? arg with
      | none => none
      | some .operand =>
        match draft.source with
        | some _ => none
        | none =>
          let draft := { draft with source := some arg }
          if rest = [separator] then some draft else read? draft rest
      | some (.switches names) => read? { draft with switches := draft.switches ++ names } rest
      | some (.format (some value)) => do
        read? { draft with format := ← formatAttached? value } rest
      | some (.format none) =>
        match rest with
        | [] => none
        | name :: rest => do
          read? { draft with format := some (← formatOperand? name) } rest

/-- The settings that the arguments give, unless they are refused. -/
def Options.ofArguments? (args : List Text) : Option Options :=
  (read? {} args).bind Draft.options?

end Repertoire.CommandLine
