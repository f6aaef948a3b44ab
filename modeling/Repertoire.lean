import Repertoire.Text
import Repertoire.Surrogate
import Repertoire.Text.Units
import Repertoire.Hex
import Repertoire.Token
import Repertoire.RangeList
import Repertoire.RangeList.Capacity
import Repertoire.Extent
import Repertoire.CodeSet
import Repertoire.Text.Blank
import Repertoire.Text.Decimal
import Repertoire.Text.Quoted
import Repertoire.Text.Octets
import Repertoire.Double
import Repertoire.Double.Shortest
import Repertoire.Double.Written
import Repertoire.Value.Key
import Repertoire.Value.Item
import Repertoire.Value.Written
import Repertoire.Source
import Repertoire.Pattern
import Repertoire.UnicodeRange
import Repertoire.Export
import Repertoire.Session
import Repertoire.CommandLine.Run
import Repertoire.Main
import Repertoire.Pattern.Matching
import Repertoire.RangeList.Normal
import Repertoire.Proofs.Surrogate
import Repertoire.Proofs.Hex
import Repertoire.Proofs.RangeList.Runs
import Repertoire.Proofs.Gather
import Repertoire.Proofs.Text.Units
import Repertoire.Proofs.Pattern.Lexemes
import Repertoire.Proofs.Pattern.Fragment
import Repertoire.Proofs.Pattern.CharClass
import Repertoire.Proofs.Pattern.Partition
import Repertoire.Proofs.Pattern.Language
import Repertoire.Proofs.Pattern.Scan
import Repertoire.Proofs.Pattern.Spelling
import Repertoire.Proofs.Pattern.SpelledRows
import Repertoire.Proofs.Element
import Repertoire.Proofs.Refusal
import Repertoire.Proofs.Strict
import Repertoire.Proofs.Agreement
import Repertoire.Proofs.CodeSet
import Repertoire.Proofs.Text.Characters
import Repertoire.Proofs.Ledger
import Repertoire.Proofs.Session.Making
import Repertoire.Proofs.Session.Holding
import Repertoire.Proofs.Session.Simulation
import Repertoire.Proofs.Session.Comparison
import Repertoire.Proofs.Session.History
import Repertoire.Proofs.SetAlgebra
import Repertoire.Proofs.Rebuilding
import Repertoire.Proofs.RangeList.Expanding
import Repertoire.Proofs.RangeList.Normal
import Repertoire.Proofs.RangeList.Shortest
import Repertoire.Proofs.Text.Blank
import Repertoire.Proofs.UnicodeRange.Pieces
import Repertoire.Proofs.UnicodeRange.Grammar
import Repertoire.Proofs.UnicodeRange.Token
import Repertoire.Proofs.UnicodeRange.RoundTrip
import Repertoire.Proofs.CommandLine.Options
import Repertoire.Proofs.CommandLine.Rereading
import Repertoire.Proofs.Pattern.Exact
import Repertoire.Proofs.Pattern.Groups
import Repertoire.Proofs.Pattern.Arrangement
import Repertoire.Proofs.Pattern.Size
import Repertoire.Proofs.Tokens
import Repertoire.Proofs.Pattern.Signs
import Repertoire.Proofs.UnicodeRange.Wildcards
import Repertoire.Proofs.Pattern.Rearranged
import Repertoire.Proofs.Pattern.RangeString
import Repertoire.Proofs.Token.Splitting
import Repertoire.Proofs.Token.Layout
import Repertoire.Proofs.Text.Quoted
import Repertoire.Proofs.CommandLine.Files
import Repertoire.Proofs.CommandLine.Outcomes
import Repertoire.Proofs.Surrogate.Integers
import Repertoire.Proofs.Pattern.Buckets
import Repertoire.Proofs.Pattern.Grouping
