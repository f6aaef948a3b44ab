import Repertoire.Proofs.Session.Simulation

/-!
# What the record tells

A set keeps a flag for every integer that it has held. A `History` says without the set how the flags
have come about: it has what was held when the set was made, and what the set has been given since,
integer by integer. Histories are one more way to hold what a session works on, so every session has
them beside its registers, and the record of a register is what the history under its name says
(`record_tells_history`).
-/

namespace Repertoire.Session

/-- What has become of a set. -/
structure History where
  /-- What the set held when it was made. -/
  created : Finset Int
  /-- The integers that it has been given since, in order, with true where one was to be taken in
  and false where one was to be withdrawn. -/
  changes : List (Int × Bool)

namespace History

def fresh (created : Finset Int) : History := ⟨created, []⟩

def change (h : History) (b : Bool) (points : List Int) : History :=
  { h with changes := h.changes ++ points.map fun x => (x, b) }

/-- Which way the last change went that names the integer, if one does. -/
def last? (h : History) (x : Int) : Option Bool := h.changes.reverse.lookup x

/-- Was the integer ever held? To have withdrawn it is not enough. -/
def EverHeld (h : History) (x : Int) : Prop := x ∈ h.created ∨ (x, true) ∈ h.changes

instance (h : History) (x : Int) : Decidable (h.EverHeld x) :=
  inferInstanceAs (Decidable (x ∈ h.created ∨ (x, true) ∈ h.changes))

def flag? (h : History) (x : Int) : Option Bool :=
  if h.EverHeld x then some ((h.last? x).getD true) else none

def members (h : History) : Finset Int :=
  (h.created ∪ (h.changes.map Prod.fst).toFinset).filter fun x => h.flag? x = some true

/-- The entries are as the history has it. -/
structure Tells (h : History) (entry : Int → Bool → Prop) : Prop where
  /-- The keys are what the set was made with and what it has taken in since. -/
  keys : ∀ x, (∃ b, entry x b) ↔ x ∈ h.created ∨ (x, true) ∈ h.changes
  /-- The last change that names a key decides, or its creation if no change does. -/
  flags : ∀ x b, entry x b →
    (b = true ↔ h.last? x = some true ∨ (h.last? x = none ∧ x ∈ h.created))
  /-- All flags of a set to which nothing has been done are true. -/
  fresh : h.changes = [] → ∀ x b, entry x b → b = true

/-! ## Flags after a change -/

variable {h : History} {x : Int}

theorem last?_change (h : History) (b : Bool) (points : List Int) (x : Int) :
    (h.change b points).last? x = if x ∈ points then some b else h.last? x := by
  rw [last?, change, List.reverse_append, List.lookup_append, ← List.map_reverse,
    lookup_map_pair, last?]
  by_cases hx : x ∈ points <;> simp [hx]

theorem everHeld_change_true (points : List Int) :
    (h.change true points).EverHeld x ↔ h.EverHeld x ∨ x ∈ points := by
  simp [EverHeld, change, or_assoc]

theorem everHeld_change_false (points : List Int) :
    (h.change false points).EverHeld x ↔ h.EverHeld x := by
  simp [EverHeld, change]

theorem flag?_change_true (h : History) (points : List Int) (x : Int) :
    (h.change true points).flag? x = if x ∈ points then some true else h.flag? x := by
  simp only [flag?, everHeld_change_true, last?_change]
  by_cases hx : x ∈ points <;> simp [hx]

theorem flag?_change_false (h : History) (points : List Int) (x : Int) :
    (h.change false points).flag? x
      = if x ∈ points ∧ h.flag? x = some true then some false else h.flag? x := by
  simp only [flag?, everHeld_change_false, last?_change]
  by_cases hheld : h.EverHeld x
  · by_cases hx : x ∈ points
    · -- what was false before is false again
      simp only [hheld, hx, if_true, true_and, Option.getD_some]
      cases (h.last? x).getD true <;> rfl
    · simp [hx]
  · simp [hheld]

theorem flag?_fresh (created : Finset Int) (x : Int) :
    (fresh created).flag? x = if x ∈ created then some true else none := by
  simp [flag?, EverHeld, fresh, last?]

theorem mem_members : x ∈ h.members ↔ h.flag? x = some true := by
  rw [members, Finset.mem_filter, and_iff_right_iff_imp, Finset.mem_union, List.mem_toFinset]
  intro hflag
  have hheld : h.EverHeld x := by
    by_contra hnot
    rw [flag?, if_neg hnot] at hflag
    cases hflag
  exact hheld.imp_right fun hx => List.mem_map_of_mem (f := Prod.fst) hx

/-- Without a change that names it, an integer can only have been held from the start. -/
theorem mem_created_of_last?_eq_none (hheld : h.EverHeld x) (hlast : h.last? x = none) :
    x ∈ h.created := by
  refine hheld.resolve_right fun hx => ?_
  have hother := List.lookup_eq_none_iff.1 hlast _ (List.mem_reverse.2 hx)
  simp at hother

theorem tells_of_flag? {entry : Int → Bool → Prop}
    (hentry : ∀ x b, entry x b ↔ h.flag? x = some b) : h.Tells entry := by
  have hflag : ∀ x b, entry x b ↔ h.EverHeld x ∧ (h.last? x).getD true = b := by
    intro x b
    rw [hentry, flag?]
    by_cases hheld : h.EverHeld x <;> simp [hheld]
  refine ⟨fun x => ?_, fun x b hxb => ?_, fun hchanges x b hxb => ?_⟩
  · simp only [hflag, exists_and_left, exists_eq', and_true, EverHeld]
  · obtain ⟨hheld, rfl⟩ := (hflag x b).1 hxb
    cases hlast : h.last? x with
    | none => simp [mem_created_of_last?_eq_none hheld hlast]
    | some c => simp
  · obtain ⟨-, rfl⟩ := (hflag x b).1 hxb
    rw [last?, hchanges]
    rfl

end History

/-! ## Histories in a session -/

/-- Sets that are held as what has become of them. What is made anew has no changes yet. -/
def histories : Holding History where
  ofPoints points := .fresh (finiteSets.ofPoints points)
  copy h := .fresh h.members
  add h points := h.change true points
  remove h points := h.change false points
  combine operation g h := .fresh (finiteSets.combine operation g.members h.members)
  IsEmpty h := h.members = ∅

/-- The set has the flags that its history gives. -/
def Follows (s : CodeSet) (h : History) : Prop := ∀ x, s.flag? x = h.flag? x

theorem Follows.mem_members {s : CodeSet} {h : History} (hsh : Follows s h) (x : Int) :
    s.contains x = true ↔ x ∈ h.members := by
  rw [History.mem_members, ← hsh, CodeSet.flag?_eq_true]

theorem follows_fresh {s : CodeSet} {created : Finset Int} (hs : s.withdrawn = ∅)
    (hcreated : ∀ x, s.contains x = true ↔ x ∈ created) : Follows s (.fresh created) := by
  intro x
  rw [CodeSet.flag?_of_withdrawn_eq_empty hs, History.flag?_fresh]
  simp only [hcreated]

theorem refines_histories : Refines histories Follows where
  ofPoints points := follows_fresh rfl (refines_finiteSets.ofPoints points)
  copy hsh := follows_fresh rfl hsh.mem_members
  add {s h} hsh points x := by
    show (s.add points).flag? x = (h.change true points).flag? x
    rw [CodeSet.flag?_add, History.flag?_change_true, hsh x]
  remove {s h} hsh points x := by
    show (s.remove points).flag? x = (h.change false points).flag? x
    rw [CodeSet.flag?_remove, History.flag?_change_false, hsh x]
  combine operation hs ht := by
    refine follows_fresh ?_ (refines_finiteSets.combine operation hs.mem_members ht.mem_members)
    cases operation <;> rfl
  isEmpty hsh := refines_finiteSets.isEmpty hsh.mem_members

/-- **The record tells the history.** After any steps, the set in a register has in its record
exactly the integers that it was made with and those that it has taken in since. The flag of each is
the way of the last change that names it, or true if there is none; so withdrawing what was never
held leaves no trace, and a set that has just been made has true flags only. The ledger under the
same name has the same entries. -/
theorem record_tells_history (steps : List Step) (name : String) :
    Option.Rel (fun (s : CodeSet) (h : History) => h.Tells fun x b => (x, b) ∈ s.record)
        ((after [] steps).lookup name) (histories.after (fun _ => none) steps name)
      ∧ Option.Rel (fun (l : Ledger) (h : History) => h.Tells fun x b => l.flags.lookup x = some b)
          (ledgers.after (fun _ => none) steps name)
          (histories.after (fun _ => none) steps name) := by
  have hledgers := agree_after refines_ledgers (agree_nil _) steps name
  have hhistories := agree_after refines_histories (agree_nil _) steps name
  refine ⟨rel_mono (fun s h hsh => ?_) hhistories, rel_of_rel (fun s l h hsl hsh => ?_) hledgers
    hhistories⟩
  · exact History.tells_of_flag? fun x b => by rw [CodeSet.mem_record, hsh x]
  · exact History.tells_of_flag? fun x b => by rw [hsl x, hsh x]

/-- Withdrawing leaves a key behind, but not for `9`, which was never held. -/
example :
    ((after [] [.make .permissive "a" (.list [.int 1, .int 2]), .remove "a" [1, 9, 1],
      .add "a" [3, 3]]).lookup "a").map (fun s => [1, 2, 3, 9].map s.flag?)
      = some [some false, some true, some true, none] := by
  decide +kernel

end Repertoire.Session
