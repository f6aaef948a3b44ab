import Repertoire.Double.Written
import Repertoire.Text.Quoted
import Repertoire.Value

/-!
# The written form of a value

A value is written on one line: numbers in decimal, texts quoted, lists in brackets, tuples in
parentheses with a comma after a single element, dictionaries in braces. A text that is described
on its own, and not as part of another value, is given as it is, without quotes.
-/

namespace Repertoire.Value

def comma : Text := [',', ' ']

def bracketed (opening closing : Char) (t : Text) : Text :=
  CodePoint.ofChar opening :: t ++ [CodePoint.ofChar closing]

/-- Is this octet shown as it is in the written form of bytes? Only the visible ASCII characters
and the space are. -/
def isShownOctet (c : CodePoint) : Bool :=
  0x20 ≤ c.val && c.val ≤ 0x7E

mutual

def written : Value → Text
  | null => Text.ofString "None"
  | bool true => Text.ofString "True"
  | bool false => Text.ofString "False"
  | int n => Text.ofInt n
  | float x => x.written
  | text t => t.quoted
  | list items => bracketed '[' ']' (comma.intercalate (writtenAll items))
  | tuple [item] => bracketed '(' ')' (written item ++ [(',' : CodePoint)])
  | tuple items => bracketed '(' ')' (comma.intercalate (writtenAll items))
  | dict entries => bracketed '\x7b' '\x7d' (comma.intercalate (writtenEntries entries))
  | bytes octets =>
    ('b' : CodePoint) ::
      Text.quotedShowing isShownOctet (octets.map fun o => Fin.ofNat _ o.toNat)

def writtenAll : List Value → List Text
  | [] => []
  | v :: vs => written v :: writtenAll vs

def writtenEntries : List (Value × Value) → List Text
  | [] => []
  | (k, v) :: rest => (written k ++ Text.ofString ": " ++ written v) :: writtenEntries rest

end

/-- How a value is named in a message: a text as it is, any other value in its written form. -/
def described : Value → Text
  | text t => t
  | v => written v

end Repertoire.Value
