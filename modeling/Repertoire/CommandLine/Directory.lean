import Repertoire.Text.Octets

/-!
# Files by name

What a name leads to, as far as a run of the program can tell: nothing, a directory, or a file with
its bytes. A `Directory` is a directory that holds files and no directories; names are resolved in
it step by step, where a dot stays and two dots lead to the directory above, of which nothing more
is known than that it is there. What counts of a name are its octets, so two texts that stand for
the same octets lead to the same file.

A file that is to be read as text must hold well-formed UTF-8. Its line breaks are made uniform.
-/

namespace Repertoire.CommandLine

inductive Entry where
  | missing
  | directory
  | file (bytes : ByteArray)

/-- The files of a directory by name. Of two files with one name the later is there. -/
abbrev Directory := List (Text × ByteArray)

/-- Where one stands while a name is resolved. -/
inductive Place where
  | inside
  | above
  | file (bytes : ByteArray)

namespace Directory

def file? (files : Directory) (name : List UInt8) : Option ByteArray :=
  (files.reverse.find? fun file => file.1.octets? == some name).map (·.2)

def slash : UInt8 := 0x2F

/-- The part of a name that stays in place. -/
def here : List UInt8 := [0x2E]

/-- The part of a name that leads to the directory above. -/
def parent : List UInt8 := [0x2E, 0x2E]

/-- One step on the way, by one part of a name. -/
def step? (files : Directory) : Place → List UInt8 → Option Place
  | .file _, _ => none
  | .above, part => if part = [] ∨ part = here ∨ part = parent then some .above else none
  | .inside, part =>
    if part = [] ∨ part = here then some .inside
    else if part = parent then some .above
    else (files.file? part).map .file

/-- The octets of a name. There are none for the empty name, for one with the octet zero, and for
one of more than 4095 octets. -/
def nameOctets? (name : Text) : Option (List UInt8) :=
  name.octets?.filter fun octets => octets ≠ [] && !octets.contains 0 && octets.length ≤ 4095

/-- What a name leads to. A name without octets leads nowhere. -/
def entry (files : Directory) (name : Text) : Entry :=
  match nameOctets? name with
  | none => .missing
  | some octets =>
    let start := if octets.head? = some slash then Place.above else Place.inside
    match (octets.splitOn slash).foldlM (step? files) start with
    | none => .missing
    | some .inside | some .above => .directory
    | some (.file bytes) => .file bytes

end Directory

/-- The text with every line break, of either kind that begins with a carriage return, made a line
feed. -/
def unifyLineBreaks : Text → Text
  | [] => []
  | [c] => [if c = ('\r' : CodePoint) then '\n' else c]
  | c :: d :: rest =>
    if c = ('\r' : CodePoint) then
      if d = ('\n' : CodePoint) then ('\n' : CodePoint) :: unifyLineBreaks rest
      else ('\n' : CodePoint) :: unifyLineBreaks (d :: rest)
    else c :: unifyLineBreaks (d :: rest)

/-- The text that a file holds, unless it is not UTF-8. A byte order mark is part of the text. -/
def decodeFile? (bytes : ByteArray) : Option Text :=
  (String.fromUTF8? bytes).map fun s => unifyLineBreaks (Text.ofString s)

end Repertoire.CommandLine
