import Repertoire.Pattern
import Repertoire.Source
import Repertoire.UnicodeRange

/-!
# What a set is written out as

Every export of a set is a function of its members in ascending order, except for the record, which
also shows what was withdrawn. `CodeSet.export` gathers them under one name, and `CodeSet.export?`
is the same where the nesting of calls is limited.
-/

namespace Repertoire

namespace CodeSet

def ranges (s : CodeSet) : RangeList := RangeList.compress s.toList

def rangeString (s : CodeSet) : Text := Pattern.rangeString s.toList

def hexString (s : CodeSet) : Text := UnicodeRange.hexString s.toList

/-- The members in the unicode-range notation, runs as ranges. -/
def hexRangeString (s : CodeSet) : Text := UnicodeRange.hexRangeString s.toList

def tokens (s : CodeSet) : Text := s.toList.flatMap Token.encode

def regexp (s : CodeSet) : Text := Pattern.ofPoints s.toList

def rangeString? (limit : Nat) (s : CodeSet) : Option Text := Pattern.rangeString? limit s.toList

def tokens? (limit : Nat) (s : CodeSet) : Option Text :=
  (s.toList.mapM (Token.encode? limit)).map List.flatten

def regexp? (limit : Nat) (s : CodeSet) : Option Text := Pattern.ofPoints? limit s.toList

def decimals (s : CodeSet) : Text := [(',' : CodePoint)].intercalate (s.toList.map Text.ofInt)

/-- The item of a range list as a value, a pair being a list of two. -/
def itemValue : Item Int → Value
  | .single c => .int c
  | .pair first last => .list [.int first, .int last]

/-- The expression that makes the set from its range list. -/
def expression (s : CodeSet) : Text :=
  Text.ofString "CodePointSet(" ++ (Value.list (s.ranges.map itemValue)).written ++
    Text.ofString ")"

end CodeSet

inductive Export where
  | size
  | isEmpty
  | isInhabited
  | array
  | ranges
  | rangeString
  | hexString
  | hexRangeString
  | tokens
  | regexp
  | expression
  | record
  deriving DecidableEq, Repr

inductive Exported where
  | count (n : Nat)
  | truth (b : Bool)
  | points (cs : List Int)
  | items (items : RangeList)
  | text (t : Text)
  | flags (entries : List (Int × Bool))
  deriving DecidableEq

def CodeSet.export (s : CodeSet) : Export → Exported
  | .size => .count s.size
  | .isEmpty => .truth s.isEmpty
  | .isInhabited => .truth (0 < s.size)
  | .array => .points s.toList
  | .ranges => .items s.ranges
  | .rangeString => .text s.rangeString
  | .hexString => .text s.hexString
  | .hexRangeString => .text s.hexRangeString
  | .tokens => .text s.tokens
  | .regexp => .text s.regexp
  | .expression => .text s.expression
  | .record => .flags s.record

/-- What comes out where no more than `limit` calls can be nested. Only tokens need any. -/
def CodeSet.export? (limit : Nat) (s : CodeSet) : Export → Option Exported
  | .rangeString => (s.rangeString? limit).map .text
  | .tokens => (s.tokens? limit).map .text
  | .regexp => (s.regexp? limit).map .text
  | what => some (s.export what)

end Repertoire
