import Repertoire.CommandLine.Directory
import Repertoire.CommandLine.Options
import Repertoire.Export

/-!
# A run of the command line

A run selects code points and writes the selection in one format. The selection comes from the
source: its text, what it says in the unicode-range notation, or the text of the file that it names.
A run ends with status 0 and the selection on the standard output; with status 1 and one line on
the standard error if the file is missing or if nothing is selected and that was not allowed; or
with status 2 if the arguments are refused. A file that is there but cannot be read as text is a
failure of its own, and so is a selection that there is no format for; that comes out last, when
all else went well.

The line of statistics belongs to the making of a pattern, so it is written only with a pattern.
-/

namespace Repertoire.CommandLine

/-- What a finished run leaves: its exit status and what it wrote. -/
structure Report where
  status : Nat
  stdout : Text
  stderr : Text
  deriving DecidableEq

inductive ReadError where
  | isDirectory
  | notUtf8
  deriving DecidableEq

inductive Outcome where
  | refused
  | failed (error : ReadError)
  /-- There is no format to write the selection in. -/
  | unformatted
  | finished (report : Report)
  deriving DecidableEq

def complaint (message : Text) : Outcome :=
  .finished { status := 1, stdout := [], stderr := message }

def missingFile (name : Text) : Outcome :=
  complaint (Text.ofString "Source file " ++ name.quoted ++ Text.ofString " does not exist.\n")

def emptySelection : Outcome :=
  complaint (Text.ofString
    "The selection is empty and --allow-empty command-line argument was not given.\n")

def Format.write (selection : CodeSet) : Format → Text
  | regexp => selection.regexp
  | range => selection.rangeString
  | hex => selection.hexString
  | hexRange => selection.hexRangeString
  | string => selection.tokens
  | array => selection.decimals

def report (options : Options) (selection : CodeSet) : Outcome :=
  if selection.isEmpty && !options.allowEmpty then emptySelection
  else
    match options.format with
    | none => .unformatted
    | some format =>
      let statistics :=
        if options.verbose && format == .regexp then
          (Pattern.statistics selection.toList).line
        else []
      .finished
        { status := 0
          stdout := statistics ++ format.write selection ++ [('\n' : CodePoint)]
          stderr := [] }

/-- A run with settings. The files are given by what their names lead to. -/
def runOptions (entry : Text → Entry) (options : Options) : Outcome :=
  if options.unicodeRange then report options (UnicodeRange.parse options.source)
  else if options.file then
    match entry options.source with
    | .missing => missingFile options.source
    | .directory => .failed .isDirectory
    | .file bytes =>
      match decodeFile? bytes with
      | none => .failed .notUtf8
      | some t => report options (CodeSet.ofText t)
  else report options (CodeSet.ofText options.source)

def run (entry : Text → Entry) (args : List Text) : Outcome :=
  match Options.ofArguments? args with
  | none => .refused
  | some options => runOptions entry options

end Repertoire.CommandLine
