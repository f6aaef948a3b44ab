import Repertoire.Value

/-!
# Keys of a dictionary

A dictionary holds each key once. Two keys are the same if they are equal as numbers, where a truth
value counts as zero or one and a floating-point number that is whole counts as an integer, or if
they are texts, byte strings or tuples with the same content. When a key comes again, its first
spelling and place stay and the later value takes effect. What can change is no key: neither a list
nor a dictionary, nor a tuple that holds one somewhere.

A value may be given with dictionaries whose entries stand as they were written. `Value.settle?`
makes these dictionaries proper, from the inside out, and there is no value if a key is none.
-/

namespace Repertoire.Value

/-- The integer that a number is equal to. -/
def whole? : Value → Option Int
  | float x => x.whole?
  | v => v.count?

mutual

/-- Are two values the same key? Not-a-number is never the same as anything. -/
def sameKey : Value → Value → Bool
  | null, null => true
  | text s, text t => s == t
  | bytes s, bytes t => s == t
  | tuple vs, tuple ws => sameKeys vs ws
  | v, w =>
    match v.whole?, w.whole? with
    | some m, some n => m == n
    | none, none =>
      match v, w with
      | float x, float y => x.same y
      | _, _ => false
    | _, _ => false

def sameKeys : List Value → List Value → Bool
  | [], [] => true
  | v :: vs, w :: ws => sameKey v w && sameKeys vs ws
  | _, _ => false

end

def enter (key value : Value) : List (Value × Value) → List (Value × Value)
  | [] => [(key, value)]
  | (k, v) :: rest => if sameKey k key then (k, value) :: rest else (k, v) :: enter key value rest

mutual

/-- Can this value be a key? -/
def isKey : Value → Bool
  | list _ => false
  | dict _ => false
  | tuple items => areKeys items
  | _ => true

def areKeys : List Value → Bool
  | [] => true
  | v :: vs => isKey v && areKeys vs

end

/-- The dictionary of entries that are given one after another, if all their keys can be keys. -/
def ofEntries? (entries : List (Value × Value)) : Option Value :=
  if entries.all fun entry => entry.1.isKey then
    some (dict (entries.foldl (fun known entry => enter entry.1 entry.2 known) []))
  else none

mutual

/-- The value with all its dictionaries made proper. -/
def settle? : Value → Option Value
  | list items => (settleAll? items).map list
  | tuple items => (settleAll? items).map tuple
  | dict entries => (settleEntries? entries).bind ofEntries?
  | v => some v

def settleAll? : List Value → Option (List Value)
  | [] => some []
  | v :: vs => do return (← settle? v) :: (← settleAll? vs)

def settleEntries? : List (Value × Value) → Option (List (Value × Value))
  | [] => some []
  | (k, v) :: rest => do return (← settle? k, ← settle? v) :: (← settleEntries? rest)

end

end Repertoire.Value
