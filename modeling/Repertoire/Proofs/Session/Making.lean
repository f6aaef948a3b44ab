import Repertoire.Proofs.Permissive
import Repertoire.Session

/-!
# Making sets from values

For each maker, which values it takes (`Accepted`) and which integers these mention (`mentioned`).
`make_attempt` says that the set that is made is the set of the mentioned integers, and that no set
is made from any other value.
-/

namespace Repertoire.Session

/-! ## Attempts -/

/-- An attempt has a result with a property if a condition holds, and fails if it does not. -/
inductive Attempt {ε α : Type} (condition : Prop) (result : α → Prop) : Except ε α → Prop
  | success {a : α} : condition → result a → Attempt condition result (.ok a)
  | failure {error : ε} : ¬ condition → Attempt condition result (.error error)

theorem Attempt.imp {ε α : Type} {condition : Prop} {result result' : α → Prop}
    {tried : Except ε α} (h : Attempt condition result tried)
    (himp : ∀ a, result a → result' a) : Attempt condition result' tried := by
  cases h with
  | success hcondition hresult => exact .success hcondition (himp _ hresult)
  | failure hcondition => exact .failure hcondition

theorem Attempt.mapError {ε ε' α : Type} {condition : Prop} {result : α → Prop}
    {tried : Except ε α} (h : Attempt condition result tried) (f : ε → ε') :
    Attempt condition result (tried.mapError f) := by
  cases h with
  | success hcondition hresult => exact .success hcondition hresult
  | failure hcondition => exact .failure hcondition

/-! ## What is mentioned and what is taken -/

/-- The integers that a value mentions, in the order of mention. -/
def mentioned : Maker → Value → List Int
  | .unicodeRange, .text t =>
    ((UnicodeRange.pieces t.trim).filterMap UnicodeRange.tokenBounds?).flatMap fun bounds =>
      interval bounds.1 bounds.2
  | .unicodeRange, _ => []
  | _, .text t => t.decode
  | _, .int n => [n]
  | _, v => ((v.elements?.getD []).filterMap Value.span?).flatMap fun ends =>
      interval ends.1 ends.2

/-- The values that a maker takes. The permissive one passes over what is ill-formed and minds only
a range that is too long to be counted. -/
def Accepted : Maker → Value → Prop
  | .permissive, v => ∀ e ∈ v.elements?.getD [], ¬ e.IsTooLong
  | .strict, v => ∀ error, ¬ Refusal v error
  | .unicodeRange, v => ∃ t, v = .text t

/-! ## Range lists -/

theorem ofItems_elements (elements : List Value) :
    CodeSet.ofItems (elements.filterMap Value.item?)
      = CodeSet.ofList ((elements.filterMap Value.span?).flatMap fun ends =>
          interval ends.1 ends.2) := by
  rw [CodeSet.ofItems_eq_ofList]
  refine CodeSet.ofList_congr fun x => ?_
  rw [Value.mem_expand_items, List.mem_flatMap]
  constructor
  · rintro ⟨e, he, first, last, hspan, hx⟩
    exact ⟨(first, last), List.mem_filterMap.2 ⟨e, he, hspan⟩, mem_interval.2 hx⟩
  · rintro ⟨⟨first, last⟩, hends, hx⟩
    obtain ⟨e, he, hspan⟩ := List.mem_filterMap.1 hends
    exact ⟨e, he, first, last, hspan, mem_interval.1 hx⟩

theorem ofRanges_attempt (elements : List Value) :
    Attempt (∀ e ∈ elements, ¬ e.IsTooLong)
      (· = CodeSet.ofList ((elements.filterMap Value.span?).flatMap fun ends =>
        interval ends.1 ends.2))
      (CodeSet.ofRanges (elements.filterMap Value.item?)) := by
  rw [← CodeSet.length_le_iff, ← ofItems_elements, CodeSet.ofRanges]
  split
  · rename_i hlengths
    exact .success hlengths rfl
  · rename_i hlengths
    exact .failure hlengths

/-! ## The three makers -/

theorem make_permissive (v : Value) :
    Attempt (Accepted .permissive v) (· = CodeSet.ofList (mentioned .permissive v))
      (make .permissive v) := by
  have hranges := ofRanges_attempt (v.elements?.getD [])
  cases v with
  | text t => exact .success nofun rfl
  | int n => exact .success nofun rfl
  | _ => exact hranges.mapError Fault.capacity

theorem strict_eq_ok {v : Value} {s : CodeSet} (h : CodeSet.strict v = .ok s) :
    s = CodeSet.ofList (mentioned .strict v) := by
  have helements : ∀ elements, v.elements? = some elements →
      s = CodeSet.ofList ((elements.filterMap Value.span?).flatMap fun ends =>
        interval ends.1 ends.2) := by
    intro elements helements
    rw [(CodeSet.strict_elements_eq_ok helements h).2, ofItems_elements]
  cases v with
  | text t => exact (Except.ok.inj h).symm
  | int n => exact (CodeSet.strict_int_eq_ok.1 h).2
  | list items => exact helements items rfl
  | tuple items => exact helements items rfl
  | _ => cases h

theorem make_strict (v : Value) :
    Attempt (Accepted .strict v) (· = CodeSet.ofList (mentioned .strict v)) (make .strict v) := by
  have hrefused : ∀ error, CodeSet.strict v = .error error ↔ Refusal v error :=
    fun _ => CodeSet.strict_eq_error_iff
  rw [make]
  cases hstrict : CodeSet.strict v with
  | ok s =>
      refine .success (fun error hrefusal => ?_) (strict_eq_ok hstrict)
      rw [← hrefused, hstrict] at hrefusal
      cases hrefusal
  | error error => exact .failure fun haccepted => haccepted error ((hrefused error).1 hstrict)

theorem parse_eq_ofList (t : Text) :
    UnicodeRange.parse t = CodeSet.ofList (mentioned .unicodeRange (.text t)) := by
  rw [UnicodeRange.parse, CodeSet.ofItems_eq_ofList, RangeList.expand, ← List.map_filterMap,
    List.flatMap_map]
  rfl

theorem make_unicodeRange (v : Value) :
    Attempt (Accepted .unicodeRange v) (· = CodeSet.ofList (mentioned .unicodeRange v))
      (make .unicodeRange v) := by
  cases v with
  | text t => exact .success ⟨t, rfl⟩ (parse_eq_ofList t)
  | bytes octets => exact .failure nofun
  | _ => exact .failure nofun

/-- An accepted value makes the set of what it mentions, and any other value makes none. -/
theorem make_attempt (maker : Maker) (v : Value) :
    Attempt (Accepted maker v) (· = CodeSet.ofList (mentioned maker v)) (make maker v) := by
  cases maker with
  | permissive => exact make_permissive v
  | strict => exact make_strict v
  | unicodeRange => exact make_unicodeRange v

end Repertoire.Session
