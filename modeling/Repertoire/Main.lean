import Repertoire.CommandLine.Run

/-!
# The program

The outer layer of the command line: it fetches the file that a run asks for, and passes on what
the run wrote. All decisions are taken in `CommandLine.run`.
-/

namespace Repertoire.CommandLine

/-- Looks up what a name leads to in the file system. -/
def lookUp (name : Text) : IO Entry := do
  let path := System.mkFilePath [name.toString]
  if name.isEmpty || !(← path.pathExists) then return .missing
  else if ← path.isDir then return .directory
  else return .file (← IO.FS.readBinFile path)

def ReadError.message : ReadError → String
  | isDirectory => "The source file is a directory."
  | notUtf8 => "The source file is not well-formed UTF-8."

/-- Passes on how a run ended, and gives the exit status. -/
def Outcome.deliver : Outcome → IO UInt32
  | refused => do
    IO.eprintln "usage: repertoire [-u | -f] [--format FORMAT] [--allow-empty] [-v] source"
    return 2
  | failed error => do
    IO.eprintln error.message
    return 1
  | unformatted => do
    IO.eprintln "There is no format to write the selection in."
    return 1
  | finished report => do
    IO.print report.stdout.toString
    IO.eprint report.stderr.toString
    return report.status.toUInt32

end Repertoire.CommandLine

open Repertoire CommandLine in
def main (args : List String) : IO UInt32 := do
  let args := args.map Text.ofString
  let entry ← match Options.ofArguments? args with
    | some options => if options.file then lookUp options.source else pure .missing
    | none => pure .missing
  (run (fun _ => entry) args).deliver
