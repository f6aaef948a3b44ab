import Mathlib.Data.Int.Order.Basic
import Mathlib.Data.List.AList
import Mathlib.Data.List.Sort
import Repertoire.Proofs.CodeSet
import Repertoire.Proofs.Lists
import Repertoire.Session

/-!
# Sets as ledgers

A `Ledger` is the set as it is kept integer by integer: a mapping from integers to flags, and the
number of true flags tracked next to it. Removing a member turns its flag instead of deleting the
key. That the tracked number is right is part of the structure, so every operation has to keep it
right; and what a ledger shows is what the `CodeSet` shows that has gone the same way (`Keeps`).
-/

namespace Repertoire

def countTrue (entries : List (Σ _ : Int, Bool)) : Int :=
  entries.countP Sigma.snd

theorem countTrue_cons (x : Int) (b : Bool) (entries : List (Σ _ : Int, Bool)) :
    countTrue (⟨x, b⟩ :: entries) = countTrue entries + if b then 1 else 0 := by
  cases b <;> simp [countTrue]

/-- Erasing a key takes one from the count if its flag was true. -/
theorem countTrue_kerase (x : Int) : (entries : List (Σ _ : Int, Bool)) →
    countTrue (entries.kerase x)
      = countTrue entries - if entries.dlookup x = some true then 1 else 0
  | [] => by simp [countTrue]
  | ⟨y, b⟩ :: entries => by
      by_cases hxy : x = y
      · subst hxy
        have herase : List.kerase x ((⟨x, b⟩ : Σ _ : Int, Bool) :: entries) = entries :=
          List.kerase_cons_eq rfl
        rw [herase, List.dlookup_cons_eq, countTrue_cons]
        cases b <;> simp
      · rw [List.kerase_cons_ne hxy, List.dlookup_cons_ne _ _ hxy, countTrue_cons, countTrue_cons,
          countTrue_kerase x entries]
        omega

/-- Giving a key a flag counts the new flag in place of the old one. -/
theorem countTrue_insert (flags : AList fun _ : Int => Bool) (x : Int) (b : Bool) :
    countTrue (flags.insert x b).entries
      = countTrue flags.entries - (if flags.lookup x = some true then 1 else 0)
        + if b then 1 else 0 := by
  rw [AList.entries_insert, countTrue_cons, countTrue_kerase]
  rfl

structure Ledger where
  flags : AList fun _ : Int => Bool
  count : Int
  counted : count = countTrue flags.entries

namespace Ledger

def empty : Ledger := ⟨∅, 0, rfl⟩

/-- Takes in an integer. One that is a member already does not count again. -/
def enter (l : Ledger) (x : Int) : Ledger :=
  -- `insert` replaces an entry of the key, so a false flag becomes true and no key comes twice
  if h : l.flags.lookup x = some true then l
  else ⟨l.flags.insert x true, l.count + 1, by
    rw [countTrue_insert, if_neg h, if_pos rfl, l.counted, Int.sub_zero]⟩

/-- Withdraws an integer, whose entry stays. One that is no member is left alone. -/
def strike (l : Ledger) (x : Int) : Ledger :=
  if h : l.flags.lookup x = some true then
    ⟨l.flags.insert x false, l.count - 1, by
      rw [countTrue_insert, if_pos h, if_neg Bool.false_ne_true, l.counted, Int.add_zero]⟩
  else l

def add (l : Ledger) (points : List Int) : Ledger := points.foldl enter l

def remove (l : Ledger) (points : List Int) : Ledger := points.foldl strike l

def ofPoints (points : List Int) : Ledger := empty.add points

def contains (l : Ledger) (x : Int) : Bool := l.flags.lookup x == some true

def toList (l : Ledger) : List Int :=
  ((l.flags.entries.filter Sigma.snd).map Sigma.fst).mergeSort fun x y => decide (x ≤ y)

def copy (l : Ledger) : Ledger := ofPoints l.toList

/-- An operation goes over the lists of members and asks the right side for each. -/
def combine : Session.Algebra → Ledger → Ledger → Ledger
  | .union, l, m => ofPoints (l.toList ++ m.toList)
  | .inter, l, m => ofPoints (l.toList.filter fun x => m.contains x == true)
  | .diff, l, m => ofPoints (l.toList.filter fun x => m.contains x == false)

/-! ## The flags after an operation -/

variable {l : Ledger}

theorem lookup_enter (l : Ledger) (x y : Int) :
    (l.enter x).flags.lookup y = if y = x then some true else l.flags.lookup y := by
  unfold enter
  split
  · rename_i h
    split
    · rename_i hyx
      rw [hyx, h]
    · rfl
  · split
    · rename_i hyx
      rw [hyx, AList.lookup_insert]
    · rename_i hyx
      exact AList.lookup_insert_ne hyx

theorem lookup_strike (l : Ledger) (x y : Int) :
    (l.strike x).flags.lookup y
      = if y = x ∧ l.flags.lookup y = some true then some false else l.flags.lookup y := by
  unfold strike
  split
  · rename_i h
    by_cases hyx : y = x
    · subst hyx
      rw [AList.lookup_insert, if_pos ⟨rfl, h⟩]
    · rw [AList.lookup_insert_ne hyx, if_neg fun hboth => hyx hboth.1]
  · rename_i h
    rw [if_neg]
    rintro ⟨rfl, hy⟩
    exact h hy

theorem lookup_add (points : List Int) (l : Ledger) (y : Int) :
    (l.add points).flags.lookup y = if y ∈ points then some true else l.flags.lookup y := by
  induction points generalizing l with
  | nil => rfl
  | cons x points ih =>
      show ((l.enter x).add points).flags.lookup y = _
      rw [ih, lookup_enter]
      by_cases hyx : y = x <;> by_cases hy : y ∈ points <;> simp [hyx, hy]

/-- Repetitions in the list do nothing: the second time, the flag is false already. -/
theorem lookup_remove (points : List Int) (l : Ledger) (y : Int) :
    (l.remove points).flags.lookup y
      = if y ∈ points ∧ l.flags.lookup y = some true then some false else l.flags.lookup y := by
  induction points generalizing l with
  | nil => simp [remove]
  | cons x points ih =>
      show ((l.strike x).remove points).flags.lookup y = _
      rw [ih, lookup_strike]
      -- only where `y` is `x` and a member does the first strike change what the others find
      by_cases hyx : y = x <;> by_cases hflag : l.flags.lookup y = some true <;>
        simp [hyx, hflag]

theorem lookup_ofPoints (points : List Int) (y : Int) :
    (ofPoints points).flags.lookup y = if y ∈ points then some true else none := by
  rw [ofPoints, lookup_add]
  rfl

theorem contains_eq_true {x : Int} : l.contains x = true ↔ l.flags.lookup x = some true := by
  rw [contains, beq_iff_eq]

/-! ## The list of the members -/

theorem mem_toList {x : Int} : x ∈ l.toList ↔ l.flags.lookup x = some true := by
  rw [toList, List.mem_mergeSort, ← Option.mem_def, AList.mem_lookup_iff]
  constructor
  · intro h
    obtain ⟨⟨y, b⟩, hentry, rfl⟩ := List.mem_map.1 h
    obtain ⟨hentry, rfl⟩ := List.mem_filter.1 hentry
    exact hentry
  · intro h
    exact List.mem_map.2 ⟨⟨x, true⟩, List.mem_filter.2 ⟨h, rfl⟩, rfl⟩

theorem toList_ascending (l : Ledger) : l.toList.Pairwise (· < ·) := by
  have honce : ((l.flags.entries.filter Sigma.snd).map Sigma.fst).Nodup :=
    List.Nodup.sublist (List.filter_sublist.map Sigma.fst) l.flags.nodupKeys
  exact mergeSort_ascending honce

theorem count_eq_length (l : Ledger) : l.count = l.toList.length := by
  rw [l.counted, toList, List.length_mergeSort, List.length_map, countTrue,
    List.countP_eq_length_filter]

end Ledger

/-! ## Ledgers and sets -/

def Keeps (s : CodeSet) (l : Ledger) : Prop :=
  ∀ x, l.flags.lookup x = s.flag? x

namespace Keeps

variable {s t : CodeSet} {l m : Ledger}

theorem mem_toList (h : Keeps s l) {x : Int} : x ∈ l.toList ↔ s.contains x = true := by
  rw [Ledger.mem_toList, h x, CodeSet.flag?_eq_true]

theorem contains (h : Keeps s l) (x : Int) : l.contains x = s.contains x := by
  rw [Bool.eq_iff_iff, Ledger.contains_eq_true, h x, CodeSet.flag?_eq_true]

theorem toList (h : Keeps s l) : l.toList = s.toList :=
  List.Pairwise.eq_of_mem_iff l.toList_ascending s.members.toList_ascending fun _ =>
    h.mem_toList.trans (CodeSet.mem_toList s _).symm

theorem count (h : Keeps s l) : l.count = s.size := by
  rw [l.count_eq_length, h.toList]
  exact congrArg Nat.cast (Extent.length_toList s.members)

theorem isEmpty (h : Keeps s l) : s.isEmpty = true ↔ l.toList = [] := by
  rw [CodeSet.isEmpty_iff, h.toList]

theorem ofPoints (points : List Int) : Keeps (CodeSet.ofList points) (Ledger.ofPoints points) := by
  intro x
  rw [Ledger.lookup_ofPoints, CodeSet.flag?_ofList]

theorem add (h : Keeps s l) (points : List Int) : Keeps (s.add points) (l.add points) := by
  intro x
  rw [Ledger.lookup_add, CodeSet.flag?_add, h x]

theorem remove (h : Keeps s l) (points : List Int) :
    Keeps (s.remove points) (l.remove points) := by
  intro x
  rw [Ledger.lookup_remove, CodeSet.flag?_remove, h x]

theorem copy (h : Keeps s l) : Keeps s.copy l.copy := by
  rw [CodeSet.copy_eq_ofList, ← h.toList]
  exact ofPoints _

theorem combine (operation : Session.Algebra) (hl : Keeps s l) (hm : Keeps t m) :
    Keeps (Session.combine operation s t) (Ledger.combine operation l m) := by
  cases operation with
  | union =>
      rw [Session.combine, CodeSet.union_eq_ofList, ← hl.toList, ← hm.toList]
      exact ofPoints _
  | inter =>
      rw [Session.combine, CodeSet.inter_eq_ofList, ← hl.toList, ← funext hm.contains]
      exact ofPoints _
  | diff =>
      rw [Session.combine, CodeSet.diff_eq_ofList, ← hl.toList, ← funext hm.contains]
      exact ofPoints _

end Keeps

/-- Every ledger keeps a set: the one that held all its keys and lost those with a false flag. -/
theorem Ledger.exists_keeps (l : Ledger) : ∃ s, Keeps s l := by
  refine ⟨(CodeSet.ofList l.flags.keys).remove
    (l.flags.keys.filter fun x => l.flags.lookup x == some false), fun x => ?_⟩
  simp only [CodeSet.flag?_remove, CodeSet.flag?_ofList, List.mem_filter, beq_iff_eq]
  cases hflag : l.flags.lookup x with
  | none =>
      have hkey : x ∉ l.flags.keys := AList.lookup_eq_none.1 hflag
      simp [hkey]
  | some b =>
      have hkey : x ∈ l.flags.keys := AList.lookup_isSome.1 (by rw [hflag]; rfl)
      cases b <;> simp [hkey]

/-- What the ledger has entered is what the set shows of it. -/
structure Records (s : CodeSet) (l : Ledger) : Prop where
  /-- The record of the set has the entries of the ledger, no key twice. -/
  entries : ∀ x b, (x, b) ∈ s.record ↔ l.flags.lookup x = some b
  ascending : (s.record.map Prod.fst).Pairwise (· < ·)
  /-- The tracked number is the size. -/
  count : l.count = s.size
  list : l.toList = s.toList

theorem Keeps.records {s : CodeSet} {l : Ledger} (h : Keeps s l) : Records s l where
  entries x b := by rw [CodeSet.mem_record, h x]
  ascending := s.record_ascending
  count := h.count
  list := h.toList

end Repertoire
