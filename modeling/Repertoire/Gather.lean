/-!
# Gathering values by key

Gathering puts the values of equal keys together. The groups stand in the order in which their keys
are first seen; inside a group the latest value stands first.
-/

namespace Repertoire

/-- Files a value in the group of its key, if there is one. -/
def file? {κ ν : Type} [DecidableEq κ] (key : κ) (value : ν) :
    List (κ × List ν) → Option (List (κ × List ν))
  | [] => none
  | (k, values) :: groups =>
    if k = key then some ((k, value :: values) :: groups)
    else (file? key value groups).map ((k, values) :: ·)

/-- Files a value in the group of its key, or opens a group in front. The group that was opened last
is looked at first, which is where a value belongs as long as equal keys come in a row. -/
def file {κ ν : Type} [DecidableEq κ] (groups : List (κ × List ν)) (entry : κ × ν) :
    List (κ × List ν) :=
  (file? entry.1 entry.2 groups).getD ((entry.1, [entry.2]) :: groups)

/-- The values of each key, the keys in the order in which they are first seen. -/
def gather {κ ν : Type} [DecidableEq κ] (entries : List (κ × ν)) : List (κ × List ν) :=
  (entries.foldl file []).reverse

end Repertoire
