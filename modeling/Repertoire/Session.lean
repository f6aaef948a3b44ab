import Repertoire.Export
import Repertoire.Value.Key

/-!
# Sessions

A session works on named registers that hold sets. Each step either answers and may write one
register, or fails and leaves all registers as they were; the session then goes on with the next
step. The right side of an operation is a register or a value that is not a set. Asked for by a
sign, an operation refuses such a value at once; asked for by its name, it fails when it first needs
something of the value that only a set has. An intersection, a difference and an inclusion ask only
about members of the left side, so an empty left side never finds out.
-/

namespace Repertoire.Session

/-- The registers, the latest binding of a name in front. -/
abbrev Registers := List (String × CodeSet)

inductive Operand where
  | register (name : String)
  | other (value : Value)

inductive Maker where
  | permissive
  | strict
  | unicodeRange

inductive Algebra where
  | union
  | inter
  | diff

inductive Form where
  | name
  | sign

/-- The comparisons of two sets: two that are asked for by name, and five signs. -/
inductive Relation where
  | equals
  | subset
  | eq
  | ne
  | le
  | ge
  | lt

inductive Step where
  | make (maker : Maker) (target : String) (source : Value)
  | clear (target : String)
  | copy (target source : String)
  | add (register : String) (points : List Int)
  | remove (register : String) (points : List Int)
  | combine (operation : Algebra) (form : Form) (target left : String) (right : Operand)
  | contains (register : String) (point : Int)
  | hash (register : String)
  | compare (relation : Relation) (left : String) (right : Operand)
  | writeOut (what : Export) (register : String)

inductive Fault where
  | source (error : SourceError)
  | capacity (error : CapacityError)
  | unbound (name : String)
  /-- Something was asked of a value that it does not have. -/
  | lacking (value : Value)
  /-- The value can be trimmed as a text can, but what is left cannot be read as one. -/
  | unreadable (value : Value)
  | undefinedSign
  /-- What can change was taken for something lasting: a set was to be hashed, or a value has a
  dictionary with a key that is none. -/
  | unhashable

/-- What a step answers: the size and the range list of the set that it wrote, or what it was asked
for. -/
inductive Reply where
  | wrote (size : Nat) (ranges : RangeList)
  | truth (b : Bool)
  | exported (answer : Exported)

def get (registers : Registers) (name : String) : Except Fault CodeSet :=
  match registers.lookup name with
  | some s => .ok s
  | none => .error (.unbound name)

/-- The value that a step is given, with its dictionaries made proper. -/
def settled (v : Value) : Except Fault Value :=
  match v.settle? with
  | some w => .ok w
  | none => .error .unhashable

/-- The set that a value makes. Only a text can be read in the unicode-range notation; a byte string
is found out when it has been trimmed already. -/
def make : Maker → Value → Except Fault CodeSet
  | .permissive, v => (CodeSet.ofValue v).mapError .capacity
  | .strict, v => (CodeSet.strict v).mapError .source
  | .unicodeRange, .text t => .ok (UnicodeRange.parse t)
  | .unicodeRange, .bytes octets => .error (.unreadable (.bytes octets))
  | .unicodeRange, v => .error (.lacking v)

def combine : Algebra → CodeSet → CodeSet → CodeSet
  | .union, s, t => s.union t
  | .inter, s, t => s.inter t
  | .diff, s, t => s.diff t

def combineOther (s : CodeSet) (value : Value) : Algebra → Form → Except Fault CodeSet
  | _, .sign => .error .undefinedSign
  | .union, .name => .error (.lacking value)
  | .inter, .name | .diff, .name => if s.isEmpty then .ok CodeSet.empty else .error (.lacking value)

/-- Does the relation hold between two sets? The strict inclusion is not defined. -/
def related : Relation → CodeSet → CodeSet → Except Fault Bool
  | .equals, s, t => .ok (s.equals t)
  | .subset, s, t => .ok (s.subset t)
  | .eq, s, t => .ok (s.equals t)
  | .ne, s, t => .ok !(s.equals t)
  | .le, s, t => .ok (s.subset t)
  | .ge, s, t => .ok (t.subset s)
  | .lt, _, _ => .error .undefinedSign

def relatedOther (s : CodeSet) (value : Value) : Relation → Except Fault Bool
  | .equals => .error (.lacking value)
  | .subset => if s.isEmpty then .ok true else .error (.lacking value)
  | .eq => .ok false
  | .ne => .ok true
  | .le | .ge | .lt => .error .undefinedSign

def put (registers : Registers) (name : String) (s : CodeSet) : Reply × Registers :=
  (.wrote s.size s.ranges, (name, s) :: registers)

/-- The answer of a step and the registers after it. -/
def Step.apply (registers : Registers) : Step → Except Fault (Reply × Registers)
  | make maker target source => do
    return put registers target (← Session.make maker (← settled source))
  | clear target => return put registers target CodeSet.empty
  | copy target source => do
    return put registers target (← get registers source).copy
  | add name points => do
    return put registers name ((← get registers name).add points)
  | remove name points => do
    return put registers name ((← get registers name).remove points)
  | combine operation form target left right => do
    let s ← get registers left
    match right with
    | .register name =>
      let t ← get registers name
      return put registers target (Session.combine operation s t)
    | .other value =>
      return put registers target (← combineOther s (← settled value) operation form)
  | contains name point => do
    return (.truth ((← get registers name).contains point), registers)
  | hash name => do
    let _ ← get registers name
    .error .unhashable
  | compare relation left right => do
    let s ← get registers left
    match right with
    | .register name => return (.truth (← related relation s (← get registers name)), registers)
    | .other value => return (.truth (← relatedOther s (← settled value) relation), registers)
  | writeOut what name => do
    return (.exported ((← get registers name).export what), registers)

/-- The answers of the steps of a session, one for each. A step that fails changes nothing. -/
def run (registers : Registers) : List Step → List (Except Fault Reply)
  | [] => []
  | step :: steps =>
    match step.apply registers with
    | .ok (reply, registers') => .ok reply :: run registers' steps
    | .error fault => .error fault :: run registers steps

end Repertoire.Session
